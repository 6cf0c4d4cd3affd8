import TinyScript.Heap
import TinyScript.Diagnostic

namespace TinyScript

-- A complaint of a built-in function, which does not know from where it was called.
inductive BuiltinFault where
  | lengthOf (got : ValueType)
  deriving DecidableEq, Repr

def BuiltinFault.message : BuiltinFault → Bytes
  | .lengthOf t => text "len() expects a string, got " ++ text t.name

inductive RuntimeFault where
  | undefinedVariable (name : Bytes)
  | negation (got : ValueType)
  | addition (left right : ValueType)
  | arithmetic (op : Kind) (left right : ValueType)
  | unknownUnary (op : Kind)
  | unknownBinary (op : Kind)
  | divisionByZero
  | notCallable (got : ValueType)
  | arity (wanted given : Nat)
  | stackOverflow (limit : Nat)
  | stepBudget (limit : Nat)
  | builtin (fault : BuiltinFault)
  deriving DecidableEq, Repr

namespace RuntimeFault

def code : RuntimeFault → Code
  | .undefinedVariable _ => Code.undefinedVariable
  | .negation _ | .addition _ _ | .arithmetic _ _ _ | .unknownUnary _ | .unknownBinary _ =>
    Code.operandType
  | .divisionByZero => Code.divisionByZero
  | .notCallable _ => Code.notCallable
  | .arity _ _ => Code.arity
  | .stackOverflow _ => Code.stackOverflow
  | .stepBudget _ => Code.stepBudget
  | .builtin _ => Code.builtin

def message : RuntimeFault → Bytes
  | .undefinedVariable x => text "undefined variable '" ++ x ++ text "'"
  | .negation t => text "operand of '-' must be a number, got " ++ text t.name
  | .addition l r =>
    text "operands of '+' must be two numbers or two strings, got " ++ text l.name ++ text " and "
      ++ text r.name
  | .arithmetic op l r =>
    text "operands of '" ++ op.label ++ text "' must be numbers, got " ++ text l.name
      ++ text " and " ++ text r.name
  | .unknownUnary op => text "unknown unary operator: " ++ op.label
  | .unknownBinary op => text "unknown binary operator: " ++ op.label
  | .divisionByZero => text "division by zero"
  | .notCallable t => text "can only call functions, got " ++ text t.name
  | .arity wanted given =>
    text "expected " ++ numeral wanted ++ text " arguments but got " ++ numeral given
  | .stackOverflow limit =>
    text "stack overflow (call depth exceeds " ++ numeral limit ++ text ")"
  | .stepBudget limit => text "step budget of " ++ numeral limit ++ text " exceeded"
  | .builtin fault => fault.message

end RuntimeFault

structure RuntimeError where
  fault : RuntimeFault
  span : Span
  deriving DecidableEq, Repr

namespace RuntimeError

def render (e : RuntimeError) : Bytes :=
  text "runtime error at " ++ e.span.start.render ++ text ": " ++ e.fault.message

def diagnostic (e : RuntimeError) : Diagnostic :=
  ⟨e.fault.code, .error, Stage.running, e.fault.message, e.span, []⟩

end RuntimeError

-- What stops a run. A complaint becomes an error when the call it came up in takes it up.
inductive Failure where
  | runtime (error : RuntimeError)
  | builtin (fault : BuiltinFault)
  deriving DecidableEq, Repr

namespace Failure

def locate (span : Span) : Failure → Failure
  | .runtime e => .runtime e
  | .builtin fault => .runtime ⟨.builtin fault, span⟩

-- The error to report. A complaint that nobody took up has no place.
def error : Failure → RuntimeError
  | .runtime e => e
  | .builtin fault => ⟨.builtin fault, .unknown⟩

end Failure

structure Limits where
  -- loop rounds and calls together; zero stands for no limit
  maxSteps : Nat
  maxDepth : Nat
  deriving DecidableEq, Repr

namespace Limits

def defaultDepth : Nat := 1024

def ofSettings (maxSteps maxDepth : Int) : Limits :=
  ⟨maxSteps.toNat, if maxDepth ≤ 0 then defaultDepth else maxDepth.toNat⟩

end Limits

structure Machine where
  heap : Heap
  scope : ScopeId
  depth : Nat
  steps : Nat
  -- how often the clock has been read
  readings : Nat
  -- the latest first
  printed : List Bytes

namespace Machine

def output (m : Machine) : Bytes := m.printed.reverse.flatMap fun s => s ++ Bytes.newline

def below (m : Machine) (parent : ScopeId) : Machine :=
  let (id, heap) := m.heap.extend (some parent)
  { m with heap := heap, scope := id }

def backTo (scope : ScopeId) (m : Machine) : Machine := { m with scope := scope }

def enterCall (m : Machine) : Machine := { m with depth := m.depth + 1 }

def leaveCall (m : Machine) : Machine := { m with depth := m.depth - 1 }

end Machine

inductive Outcome (α : Type) where
  | done (value : α) (machine : Machine)
  | failed (failure : Failure) (machine : Machine)
  -- a loop outlasted the patience given to it
  | unfinished

namespace Outcome

def adjust (change : Machine → Machine) : Outcome α → Outcome α
  | .done a m => .done a (change m)
  | .failed e m => .failed e (change m)
  | .unfinished => .unfinished

def locate (span : Span) : Outcome α → Outcome α
  | .done a m => .done a m
  | .failed e m => .failed (e.locate span) m
  | .unfinished => .unfinished

end Outcome

def Step (α : Type) : Type := Machine → Outcome α

namespace Step

@[inline] def pure (a : α) : Step α := fun m => .done a m

@[inline] def bind (s : Step α) (f : α → Step β) : Step β := fun m =>
  match s m with
  | .done a m => f a m
  | .failed e m => .failed e m
  | .unfinished => .unfinished

@[always_inline] instance : Monad Step where
  pure := Step.pure
  bind := Step.bind

end Step

namespace Machine

def fail (span : Span) (fault : RuntimeFault) : Step α := fun m => .failed (.runtime ⟨fault, span⟩) m

def complain (fault : BuiltinFault) : Step α := fun m => .failed (.builtin fault) m

def locating (span : Span) (s : Step α) : Step α := fun m => (s m).locate span

def print (s : Bytes) : Step Unit := fun m => .done () { m with printed := s :: m.printed }

def tick (limits : Limits) (span : Span) : Step Unit := fun m =>
  let m := { m with steps := m.steps + 1 }
  if 0 < limits.maxSteps ∧ limits.maxSteps < m.steps then fail span (.stepBudget limits.maxSteps) m
  else .done () m

def lookup (span : Span) (x : Bytes) : Step Value := fun m =>
  match m.heap.get? m.scope x with
  | some v => .done v m
  | none => fail span (.undefinedVariable x) m

def assign (span : Span) (x : Bytes) (v : Value) : Step Unit := fun m =>
  match m.heap.resolve? m.scope x with
  | some id => .done () { m with heap := m.heap.define id x v }
  | none => fail span (.undefinedVariable x) m

def define (x : Bytes) (v : Value) : Step Unit := fun m =>
  .done () { m with heap := m.heap.define m.scope x v }

def makeFunction (name : Bytes) (params : Params) (body : Block) : Step Value := fun m =>
  let (identity, heap) := m.heap.identity
  .done (.function identity ⟨name, params, body, m.scope⟩) { m with heap := heap }

def inNewScope (parent : ScopeId) (s : Step α) : Step α := fun m =>
  (s (m.below parent)).adjust (backTo m.scope)

def inBlock (s : Step α) : Step α := fun m => inNewScope m.scope s m

def inCall (limits : Limits) (span : Span) (s : Step α) : Step α := fun m =>
  if limits.maxDepth ≤ m.depth then fail span (.stackOverflow limits.maxDepth) m
  else (s m.enterCall).adjust leaveCall

def readClock (clock : Nat → Float) : Step Float := fun m =>
  .done (clock m.readings) { m with readings := m.readings + 1 }

end Machine

end TinyScript
