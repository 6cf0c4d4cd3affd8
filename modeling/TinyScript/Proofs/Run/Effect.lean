import Mathlib.Order.Defs.Unbundled
import TinyScript.Proofs.Run.Relation

namespace TinyScript

-- The machine that a step leaves, if it ends.
def Outcome.machine? : Outcome α → Option Machine
  | .done _ m => some m
  | .failed _ m => some m
  | .unfinished => none

theorem Outcome.machine?_adjust (change : Machine → Machine) (o : Outcome α) :
    (o.adjust change).machine? = o.machine?.map change := by
  cases o <;> rfl

theorem Outcome.machine?_locate (span : Span) (o : Outcome α) : (o.locate span).machine? = o.machine? := by
  cases o <;> rfl

namespace Interpret

open Machine

def Leaves (R : Machine → Machine → Prop) (s : Step α) : Prop :=
  ∀ m after, (s m).machine? = some after → R m after

theorem Leaves.mono {R S : Machine → Machine → Prop} {s : Step α} (leaves : Leaves R s)
    (implies : ∀ {m after}, R m after → S m after) : Leaves S s :=
  fun m after ended => implies (leaves m after ended)

theorem leaves_locating_iff {s : Step α} (span : Span) : Leaves R (locating span s) ↔ Leaves R s := by
  simp only [Leaves, locating, Outcome.machine?_locate]

theorem leaves_locating {s : Step α} (span : Span) (inner : Leaves R s) : Leaves R (locating span s) :=
  (leaves_locating_iff span).2 inner

section

variable {R : Machine → Machine → Prop} [IsPreorder Machine R]

theorem leaves_pure (a : α) : Leaves R (pure a) := by
  intro m last ended
  cases ended
  exact refl_of R m

theorem leaves_fail (span : Span) (fault : RuntimeFault) : Leaves R (@fail α span fault) := by
  intro m last ended
  cases ended
  exact refl_of R m

theorem leaves_lookup (span : Span) (x : Bytes) : Leaves R (lookup span x) := by
  intro m last ended
  unfold lookup at ended
  split at ended
  all_goals
    cases ended
    exact refl_of R m

theorem leaves_bind {s : Step α} {f : α → Step β} (first : Leaves R s) (next : ∀ a, Leaves R (f a)) :
    Leaves R (s >>= f) := by
  intro m last ended
  cases ran : s m with
  | done a middle =>
    rw [Step.bind_done ran] at ended
    exact trans_of R (first m middle (by rw [ran]; rfl)) (next a middle last ended)
  | failed e middle =>
    rw [Step.bind_failed ran] at ended
    exact first m last (by rw [ran]; exact ended)
  | unfinished =>
    rw [Step.bind_unfinished ran] at ended
    cases ended

theorem leaves_round {host : Host} {c : Step Value} {b : Step Signal} (span : Span)
    (ticks : Leaves R (tick host.limits span)) (condition : Leaves R c) (body : Leaves R b) :
    Leaves R (Evaluate.round host.steps span c b) :=
  Respects.round_alone (P := Leaves R) leaves_pure leaves_bind span ticks condition body

theorem leaves_repeating {round : Step (Option Signal)} (once : Leaves R round) (patience : Nat) :
    Leaves R (repeating patience round) := by
  induction patience with
  | zero =>
    intro m last ended
    cases ended
  | succ patience ih =>
    intro m last ended
    have first := once m
    unfold repeating at ended
    split at ended
    · rename_i middle ran
      exact trans_of R (first middle (by rw [ran]; rfl)) (ih middle last ended)
    · rename_i signal middle ran
      exact first last (by rw [ran]; exact ended)
    · rename_i e middle ran
      exact first last (by rw [ran]; exact ended)
    · cases ended

theorem leaves_inCall {s : Step α} (limits : Limits) (span : Span)
    (inside : ∀ m after, (s m.enterCall).machine? = some after → R m after.leaveCall) :
    Leaves R (inCall limits span s) := by
  intro m last ended
  unfold inCall at ended
  split at ended
  · cases ended
    exact refl_of R m
  · rw [Outcome.machine?_adjust, Option.map_eq_some_iff] at ended
    obtain ⟨after, ended, rfl⟩ := ended
    exact inside m after ended

end

end Interpret

end TinyScript
