import TinyScript.Proofs.Run.Relation
import TinyScript.Proofs.Tree.Runnable

namespace TinyScript

def Heap.linked (h : Heap) (id : ScopeId) : Bool :=
  match h.scopes[id]? with
  | none => false
  | some s =>
    match s.parent with
    | none => true
    | some parent => if parent < id then h.linked parent else false
termination_by id

def Guarded (α : Type) : Type := Machine → Option (Outcome α)

namespace Guarded

def bind (g : Guarded α) (f : α → Guarded β) : Guarded β := fun m =>
  match g m with
  | some (.done a m) => f a m
  | some (.failed e m) => some (.failed e m)
  | some .unfinished => some .unfinished
  | none => none

instance : Monad Guarded where
  pure a := fun m => some (.done a m)
  bind := Guarded.bind

def stuck : Guarded α := fun _ => none

def only (allowed : Machine → Bool) (s : Step α) : Guarded α := fun m =>
  if allowed m then some (s m) else none

def free (s : Step α) : Guarded α := only (fun _ => true) s

def inScope (s : Step α) : Guarded α := only (fun m => m.heap.linked m.scope) s

def inNewScope (parent : ScopeId) (g : Guarded α) : Guarded α := fun m =>
  if m.heap.linked parent then (g (m.below parent)).map (·.adjust (Machine.backTo m.scope)) else none

def inCall (limits : Limits) (span : Span) (g : Guarded α) : Guarded α := fun m =>
  if limits.maxDepth ≤ m.depth then some (Machine.fail span (.stackOverflow limits.maxDepth) m)
  else (g m.enterCall).map (·.adjust Machine.leaveCall)

def locating (span : Span) (g : Guarded α) : Guarded α := fun m => (g m).map (·.locate span)

def repeating : (patience : Nat) → Guarded (Option Signal) → Guarded Signal
  | 0, _ => fun _ => some .unfinished
  | patience + 1, round => do
    match ← round with
    | none => repeating patience round
    | some signal => return signal

-- Stuck at an operator that is not of the language, at too few or too many arguments, at a scope that is not
-- there, and at a block that was left out.
def primitives (host : Host) (invoke : Closure → List Value → Guarded Value) : Primitives Guarded where
  fail span fault := free (Machine.fail span fault)
  unary span op v := only (fun _ => op ∈ unaryOperators) (Interpret.unaryOp span op v)
  binary span op l r := only (fun _ => op ∈ binaryOperators) (Interpret.binaryOp span op l r)
  decides op v := only (fun _ => op ∈ logicalOperators) (pure (Interpret.decides op v))
  lookup span x := inScope (Machine.lookup span x)
  assign span x v := inScope (Machine.assign span x v)
  define x v := inScope (Machine.define x v)
  makeFunction name params body := inScope (Machine.makeFunction name params body)
  print s := free (Machine.print s)
  tick span := free (Machine.tick host.limits span)
  builtin b args := only (fun _ => args.length = b.arity) (Interpret.callBuiltin host.clock b args)
  invoke f args := if args.length = f.params.names.length then invoke f args else stuck
  locating := locating
  inCall := inCall host.limits
  inNewScope := inNewScope
  inBlock g := fun m => inNewScope m.scope g m
  noBlock := stuck
  repeating := repeating host.patience

def invoke (limits : Limits) (clock : Nat → Float) (patience : Nat) :
    (room : Nat) → Closure → List Value → Guarded Value
  | 0, _, _ => fun _ => some .unfinished
  | room + 1, f, args =>
    Evaluate.functionBody
      (primitives (Interpret.hostAt limits clock patience room) (invoke limits clock patience room)) f args

def run (i : Interpreter) (clock : Nat → Float) (program : List Stmt) (heap : Heap) (readings : Nat) :
    Option (Outcome Unit) :=
  let patience := Interpret.rounds i.limits i.patience
  Evaluate.execProgram
    (primitives (Interpret.hostAt i.limits clock patience i.limits.maxDepth)
      (invoke i.limits clock patience i.limits.maxDepth)) program ⟨heap, i.globals, 0, 0, readings, []⟩

-- Trees made by hand can get stuck: here by an operator that takes two operands.
example : (run ⟨0, ⟨0, 8⟩, 1⟩ (fun _ => 0)
    [.expr .unknown (.unary .unknown .plus (.literal .unknown .nil))] Heap.empty.addGlobals.2 0).isNone = true := by
  decide +kernel

end Guarded

end TinyScript
