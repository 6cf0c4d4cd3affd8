import TinyScript.Proofs.Tree.Runnable
import TinyScript.Proofs.Tree.Stepwise

namespace TinyScript.Parse

structure Surroundings where
  before : Context → Cursor → Prop
  after : Cursor → Prop
  later : ∀ {ctx c next}, next.Ahead c → before ctx c → before ctx next
  earlier : ∀ {c next}, next.Ahead c → after next → after c
  braced : ∀ {ctx c}, before ctx c → before (Bracket.braces.enter ctx) c

def MakesIn (around : Surroundings) (P : α → Prop) (r : Reader α) : Prop :=
  ∀ ctx c a next, r ctx c = .ok a next → around.before ctx c → around.after next → P a

namespace MakesIn

variable {around : Surroundings} {P : α → Prop} {Q : β → Prop} {r : Reader α}

theorem of_makes (made : Makes P r) : MakesIn around P r :=
  fun ctx c a next ran _ _ => made ctx c a next ran

theorem pure (holds : P a) : MakesIn around P (Pure.pure a) := of_makes (.pure holds)

theorem failHere (fault : Fault) : MakesIn around P (failHere fault) := of_makes (.failHere fault)

theorem bind {f : α → Reader β} [read : Stepwise @Forward r] [rest : ∀ a, Stepwise @Forward (f a)]
    (first : MakesIn around P r) (second : ∀ a, P a → MakesIn around Q (f a)) :
    MakesIn around Q (r >>= f) := by
  intro ctx c b last ran here there
  obtain ⟨a, middle, ran₁, ran₂⟩ := Reader.of_bind_ok ran
  have arrived : around.after middle := around.earlier ((rest a).forward.ok ran₂) there
  have departs : around.before ctx middle := around.later (read.forward.ok ran₁) here
  exact second a (first ctx c a middle ran₁ here arrived) ctx middle b last ran₂ departs there

theorem step {f : α → Reader β} [Stepwise @Forward r] [∀ a, Stepwise @Forward (f a)]
    (second : ∀ a, MakesIn around Q (f a)) : MakesIn around Q (r >>= f) :=
  bind (of_makes (.anything r)) fun a _ => second a

theorem ite (p : Prop) [Decidable p] {s : Reader α} (yes : MakesIn around P r) (no : MakesIn around P s) :
    MakesIn around P (if p then r else s) := by
  split
  · exact yes
  · exact no

theorem map {f : α → β} [Stepwise @Forward r] (inner : MakesIn around P r) (holds : ∀ a, P a → Q (f a)) :
    MakesIn around Q (f <$> r) := by
  show MakesIn around Q (r >>= fun a => Pure.pure (f a))
  exact bind inner fun a made => pure (holds a made)

theorem braced (inner : MakesIn around P r) :
    MakesIn around P (within .braces r) :=
  fun _ c a next ran here there => inner _ c a next ran (around.braced here) there

theorem wrapped (inner : MakesIn around P r) [Stepwise @Forward r] :
    MakesIn around (IfAny P) (some <$> r) :=
  map inner fun _ made _ isIt => Option.some.inj isIt ▸ made

theorem nothing : MakesIn around (IfAny P) (Pure.pure (none : Option α)) :=
  pure fun _ isIt => nomatch isIt

theorem unlessNext (kind : Kind) [Stepwise @Forward r] (inner : MakesIn around P r) :
    MakesIn around (IfAny P) (unlessNext kind r) :=
  step fun _ => ite _ nothing (wrapped inner)

theorem behind (kind : Kind) [Stepwise @Forward r] (inner : MakesIn around P r) :
    MakesIn around (IfAny P) (behind kind r) := by
  rw [behind_eq]
  exact step fun _ => ite _ (step fun _ => wrapped inner) nothing

theorem recovering (inner : MakesIn around P r) : MakesIn around (IfAny P) (recovering r) := by
  intro ctx c a next ran here there
  cases read : r ctx c with
  | ok b _ =>
    rw [recovering_ok read] at ran
    cases ran
    exact fun _ isIt => Option.some.inj isIt ▸ inner ctx c b next read here there
  | fail t fault failed =>
    rw [recovering_resume read] at ran
    cases ran
    exact fun _ isIt => nomatch isIt

end MakesIn

end TinyScript.Parse
