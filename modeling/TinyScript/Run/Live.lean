import TinyScript.Run.Interpret

namespace TinyScript

-- A step in a world that can be asked for the time.
def Live (W : Type → Type) (α : Type) : Type := Machine → W (Outcome α)

namespace Live

variable {W : Type → Type} [Monad W]

@[inline] def still (s : Step α) : Live W α := fun m => pure (s m)

@[inline] def bind (s : Live W α) (f : α → Live W β) : Live W β := fun m => do
  match ← s m with
  | .done a m => f a m
  | .failed e m => return .failed e m
  | .unfinished => return .unfinished

@[always_inline] instance : Monad (Live W) where
  pure a := still (pure a)
  bind := Live.bind

def locating (span : Span) (s : Live W α) : Live W α := fun m => do
  return (← s m).locate span

def inNewScope (parent : ScopeId) (s : Live W α) : Live W α := fun m => do
  -- the machine itself is not kept, so that its heap can be written to
  let scope := m.scope
  return (← s (m.below parent)).adjust (Machine.backTo scope)

def inCall (limits : Limits) (span : Span) (s : Live W α) : Live W α := fun m => do
  if limits.maxDepth ≤ m.depth then return Machine.fail span (.stackOverflow limits.maxDepth) m
  else return (← s m.enterCall).adjust Machine.leaveCall

def callBuiltin (now : W Float) (b : Builtin) (args : List Value) : Live W Value :=
  match b with
  | .clock => fun m => do
    let time ← now
    return Interpret.callBuiltin (fun _ => time) .clock args m
  | b => still (Interpret.callBuiltin (fun _ => 0) b args)

def repeating : (patience : Nat) → Live W (Option Signal) → Live W Signal
  | 0, _ => still fun _ => .unfinished
  | patience + 1, round => do
    match ← round with
    | none => repeating patience round
    | some signal => return signal

def primitives (limits : Limits) (now : W Float) (patience : Nat)
    (invoke : Closure → List Value → Live W Value) : Primitives (Live W) where
  fail span fault := still (Machine.fail span fault)
  unary span op v := still (Interpret.unaryOp span op v)
  binary span op l r := still (Interpret.binaryOp span op l r)
  decides op v := pure (Interpret.decides op v)
  lookup span x := still (Machine.lookup span x)
  assign span x v := still (Machine.assign span x v)
  define x v := still (Machine.define x v)
  makeFunction name params body := still (Machine.makeFunction name params body)
  print s := still (Machine.print s)
  tick span := still (Machine.tick limits span)
  builtin := callBuiltin now
  invoke := invoke
  locating := locating
  inCall := inCall limits
  inNewScope := inNewScope
  inBlock s := fun m => inNewScope m.scope s m
  noBlock := pure .next
  repeating := repeating patience

def invoke (limits : Limits) (now : W Float) (patience : Nat) :
    (room : Nat) → Closure → List Value → Live W Value
  | 0, _, _ => still fun _ => .unfinished
  | room + 1, f, args =>
    Evaluate.functionBody (primitives limits now patience (invoke limits now patience room)) f args

def run (now : W Float) (i : Interpreter) (program : List Stmt) (heap : Heap) (readings : Nat) : W (Outcome Unit) :=
  let patience := Interpret.rounds i.limits i.patience
  let calls := invoke i.limits now patience i.limits.maxDepth
  Evaluate.execProgram (primitives i.limits now patience calls) program ⟨heap, i.globals, 0, 0, readings, []⟩

end Live

end TinyScript
