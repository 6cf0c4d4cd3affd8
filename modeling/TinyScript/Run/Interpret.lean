import TinyScript.Run.Evaluate

namespace TinyScript

structure Host where
  limits : Limits
  clock : Nat → Float
  -- the number of rounds after which a loop is given up
  patience : Nat
  invoke : Closure → List Value → Step Value

namespace Interpret

open Machine

def unaryOp (span : Span) (op : Kind) (v : Value) : Step Value :=
  match op with
  | .minus => match v with
    | .number x => pure (.number (-x))
    | _ => fail span (.negation v.type)
  | .bang => pure (.boolean !v.isTruthy)
  | _ => fail span (.unknownUnary op)

def arithmetic (span : Span) (op : Kind) (x y : Float) : Step Value :=
  match op with
  | .minus => pure (.number (x - y))
  | .star => pure (.number (x * y))
  | .slash => if y == 0 then fail span .divisionByZero else pure (.number (x / y))
  | .less => pure (.boolean (x < y))
  | .lessEqual => pure (.boolean (x ≤ y))
  | .greater => pure (.boolean (y < x))
  | .greaterEqual => pure (.boolean (y ≤ x))
  | _ => fail span (.unknownBinary op)

def binaryOp (span : Span) (op : Kind) (l r : Value) : Step Value :=
  match op with
  | .equalEqual => pure (.boolean (l.equals r))
  | .bangEqual => pure (.boolean !(l.equals r))
  | .plus => match l, r with
    | .string s, .string t => pure (.string (s ++ t))
    | .number x, .number y => pure (.number (x + y))
    | _, _ => fail span (.addition l.type r.type)
  | _ => match l, r with
    | .number x, .number y => arithmetic span op x y
    | _, _ => fail span (.arithmetic op l.type r.type)

def decides (op : Kind) (v : Value) : Bool :=
  if op = .kwOr then v.isTruthy else !v.isTruthy

def callBuiltin (clock : Nat → Float) (b : Builtin) (args : List Value) : Step Value :=
  match b, args with
  | .clock, _ => do
    let now ← readClock clock
    return .number now
  | .len, .string s :: _ => pure (.number (Float.ofNat (glyphCount s)))
  | .len, v :: _ => complain (.lengthOf v.type)
  | .str, v :: _ => pure (.string v.render)
  | .type, v :: _ => pure (.string (text v.type.name))
  | _, [] => pure .nil

def repeating : (patience : Nat) → Step (Option Signal) → Step Signal
  | 0, _ => fun _ => .unfinished
  | patience + 1, round => fun m =>
    match round m with
    | .done none m => repeating patience round m
    | .done (some signal) m => .done signal m
    | .failed e m => .failed e m
    | .unfinished => .unfinished

end Interpret

open Machine Interpret in
def Host.steps (host : Host) : Primitives Step where
  fail := fail
  unary := unaryOp
  binary := binaryOp
  decides op v := pure (decides op v)
  lookup := lookup
  assign := assign
  define := define
  makeFunction := makeFunction
  print := print
  tick := tick host.limits
  builtin := callBuiltin host.clock
  invoke := host.invoke
  locating := locating
  inCall := inCall host.limits
  inNewScope := inNewScope
  inBlock := inBlock
  noBlock := pure .next
  repeating := repeating host.patience

namespace Interpret

def apply (host : Host) : Span → Value → List Value → Step Value := Evaluate.apply host.steps

def eval (host : Host) : Expr → Step Value := Evaluate.eval host.steps

def exec (host : Host) : Stmt → Step Signal := Evaluate.exec host.steps

def execBlock (host : Host) : Block → Step Signal := Evaluate.execBlock host.steps

def functionBody (host : Host) : Closure → List Value → Step Value := Evaluate.functionBody host.steps

def execProgram (host : Host) : List Stmt → Step Unit := Evaluate.execProgram host.steps

-- Calls go at most `room` deep, so they are built up from the deepest one.
def invoke (limits : Limits) (clock : Nat → Float) (patience : Nat) :
    (room : Nat) → Closure → List Value → Step Value
  | 0, _, _ => fun _ => .unfinished
  | room + 1, f, args => functionBody ⟨limits, clock, patience, invoke limits clock patience room⟩ f args

-- Under a budget no loop gets further than one round beyond it.
def rounds (limits : Limits) (patience : Nat) : Nat :=
  if limits.maxSteps = 0 then patience else limits.maxSteps + 1

def host (limits : Limits) (clock : Nat → Float) (patience : Nat) : Host :=
  let patience := rounds limits patience
  ⟨limits, clock, patience, invoke limits clock patience limits.maxDepth⟩

end Interpret

structure Interpreter where
  globals : ScopeId
  limits : Limits
  -- with loops, when there is no step budget
  patience : Nat

def Interpreter.run (i : Interpreter) (clock : Nat → Float) (program : List Stmt) (heap : Heap)
    (readings : Nat) : Outcome Unit :=
  Interpret.execProgram (Interpret.host i.limits clock i.patience) program
    ⟨heap, i.globals, 0, 0, readings, []⟩

end TinyScript
