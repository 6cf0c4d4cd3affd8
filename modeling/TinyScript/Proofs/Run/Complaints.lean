import TinyScript.Proofs.Run.Relation

namespace TinyScript

def Outcome.Located : Outcome α → Prop
  | .failed (.builtin _) _ => False
  | _ => True

namespace Outcome.Located

variable {o : Outcome α}

theorem adjust (located : o.Located) (change : Machine → Machine) : (o.adjust change).Located := by
  cases o with
  | failed e m => cases e <;> exact located
  | _ => trivial

theorem locate (o : Outcome α) (span : Span) : (o.locate span).Located := by
  cases o with
  | failed e m => cases e <;> trivial
  | _ => trivial

theorem runtime (located : (.failed e m : Outcome α).Located) : ∃ error, e = .runtime error := by
  cases e with
  | runtime error => exact ⟨error, rfl⟩
  | builtin fault => exact located.elim

end Outcome.Located

namespace Interpret

open Machine

def Locates (s : Step α) : Prop := ∀ m, (s m).Located

theorem locates_bind {s : Step α} {f : α → Step β} (first : Locates s) (next : ∀ a, Locates (f a)) :
    Locates (s >>= f) := by
  intro m
  have located := first m
  cases ran : s m with
  | done a middle =>
    rw [Step.bind_done ran]
    exact next a middle
  | failed e middle =>
    rw [ran] at located
    rw [Step.bind_failed ran]
    cases e <;> exact located
  | unfinished =>
    rw [Step.bind_unfinished ran]
    trivial

theorem locates_newScope {s : Step α} (parent : ScopeId) (inner : Locates s) : Locates (inNewScope parent s) :=
  fun _ => (inner _).adjust _

theorem locates_inCall {s : Step α} (limits : Limits) (span : Span) (inner : Locates s) :
    Locates (inCall limits span s) := by
  intro m
  unfold inCall
  split
  · trivial
  · exact (inner _).adjust _

theorem locates_repeating {round : Step (Option Signal)} (once : Locates round) (patience : Nat) :
    Locates (repeating patience round) := by
  induction patience with
  | zero => exact fun _ => trivial
  | succ patience ih =>
    rw [repeating_succ]
    refine locates_bind once fun signal => ?_
    cases signal with
    | none => exact ih
    | some signal => exact fun _ => trivial

theorem locates_tick (limits : Limits) (span : Span) : Locates (tick limits span) := by
  intro m
  unfold tick
  dsimp only
  split <;> trivial

-- Whatever a call runs, it takes up the complaints, so nothing has to be known of the functions of the host.
theorem locates_respects (host : Host) : Respects host host fun s _ => Locates s where
  pure _ _ := trivial
  bind := locates_bind
  fail _ _ _ _ := trivial
  print _ _ := trivial
  lookup span x m := by
    unfold lookup
    split <;> trivial
  assign span x v m := by
    unfold assign
    split <;> trivial
  define _ _ _ := trivial
  makeFunction _ _ _ _ := trivial
  readClock _ := trivial
  tick := locates_tick host.limits
  inside := locates_inCall host.limits
  call span _ _ := locates_inCall host.limits span fun _ => .locate _ span
  scope := locates_newScope
  block inner := fun m => locates_newScope m.scope inner m
  loop span condition body :=
    locates_repeating (Respects.round_alone (P := Locates) (fun _ _ => trivial) locates_bind span
      (locates_tick host.limits span) condition body) host.patience

end Interpret

theorem Interpreter.run_located (i : Interpreter) (clock : Nat → Float) (program : List Stmt) (heap : Heap)
    (readings : Nat) : (i.run clock program heap readings).Located :=
  (Interpret.locates_respects _).execProgram program _

theorem Interpreter.run_failed {i : Interpreter} (ran : i.run clock program heap readings = .failed e m) :
    ∃ error, e = .runtime error := by
  have located := i.run_located clock program heap readings
  rw [ran] at located
  exact located.runtime

end TinyScript
