import TinyScript.Proofs.Run.Effect

namespace TinyScript

def Traced (α : Type) : Type := Machine → List Machine × Outcome α

namespace Traced

def bind (g : Traced α) (f : α → Traced β) : Traced β := fun m =>
  match g m with
  | (seen, .done a middle) => (seen ++ (f a middle).1, (f a middle).2)
  | (seen, .failed e middle) => (seen, .failed e middle)
  | (seen, .unfinished) => (seen, .unfinished)

-- A step that nothing goes on inside of.
def one (s : Step α) : Traced α := fun m => (m :: (s m).machine?.toList, s m)

instance : Monad Traced where
  pure a := one (pure a)
  bind := Traced.bind

section

variable {g : Traced α} {f : α → Traced β} {m : Machine}

theorem bind_done (ran : g m = (seen, .done a middle)) :
    (g >>= f) m = (seen ++ (f a middle).1, (f a middle).2) := by
  show Traced.bind g f m = _
  rw [Traced.bind, ran]

theorem bind_failed (ran : g m = (seen, .failed e middle)) : (g >>= f) m = (seen, .failed e middle) := by
  show Traced.bind g f m = _
  rw [Traced.bind, ran]

theorem bind_unfinished (ran : g m = (seen, .unfinished)) : (g >>= f) m = (seen, .unfinished) := by
  show Traced.bind g f m = _
  rw [Traced.bind, ran]

end

def around (m : Machine) (leave : Machine → Machine) (inner : List Machine × Outcome α) :
    List Machine × Outcome α :=
  let outcome := inner.2.adjust leave
  (m :: inner.1 ++ outcome.machine?.toList, outcome)

def inNewScope (parent : ScopeId) (g : Traced α) : Traced α := fun m =>
  around m (Machine.backTo m.scope) (g (m.below parent))

def inCall (limits : Limits) (span : Span) (g : Traced α) : Traced α := fun m =>
  if limits.maxDepth ≤ m.depth then one (Machine.fail span (.stackOverflow limits.maxDepth)) m
  else around m Machine.leaveCall (g m.enterCall)

def locating (span : Span) (g : Traced α) : Traced α := fun m => ((g m).1, (g m).2.locate span)

def repeating : (patience : Nat) → Traced (Option Signal) → Traced Signal
  | 0, _ => one fun _ => .unfinished
  | patience + 1, round => do
    match ← round with
    | none => repeating patience round
    | some signal => return signal

def primitives (host : Host) (invoke : Closure → List Value → Traced Value) : Primitives Traced where
  fail span fault := one (host.steps.fail span fault)
  unary span op v := one (host.steps.unary span op v)
  binary span op l r := one (host.steps.binary span op l r)
  decides op v := one (host.steps.decides op v)
  lookup span x := one (host.steps.lookup span x)
  assign span x v := one (host.steps.assign span x v)
  define x v := one (host.steps.define x v)
  makeFunction name params body := one (host.steps.makeFunction name params body)
  print s := one (host.steps.print s)
  tick span := one (host.steps.tick span)
  builtin b args := one (host.steps.builtin b args)
  invoke := invoke
  locating := locating
  inCall := inCall host.limits
  inNewScope := inNewScope
  inBlock g := fun m => inNewScope m.scope g m
  noBlock := one host.steps.noBlock
  repeating := repeating host.patience

section

variable (host : Host) (invoke : Closure → List Value → Traced Value)

def eval : Expr → Traced Value := Evaluate.eval (primitives host invoke)

def exec : Stmt → Traced Signal := Evaluate.exec (primitives host invoke)

end

def invoke (limits : Limits) (clock : Nat → Float) (patience : Nat) :
    (room : Nat) → Closure → List Value → Traced Value
  | 0, _, _ => one fun _ => .unfinished
  | room + 1, f, args =>
    Evaluate.functionBody
      (primitives (Interpret.hostAt limits clock patience room) (invoke limits clock patience room)) f args

end Traced

end TinyScript
