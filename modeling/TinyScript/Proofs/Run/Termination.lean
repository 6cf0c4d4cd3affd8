import TinyScript.Proofs.Run.Complaints

namespace TinyScript

-- How a step may end under a budget of `n` steps. Only a completed step is followed by others, so
-- only there the depth and the order of the counters matter.
def Outcome.WithinBudget (n : Nat) (before : Machine) : Outcome α → Prop
  | .done _ after => before.steps ≤ after.steps ∧ after.steps ≤ n ∧ after.depth = before.depth
  | .failed e after =>
    after.steps ≤ n ∧ e.error.fault.code ≠ Code.stepBudget ∨
      after.steps = n + 1 ∧ e.error.fault = .stepBudget n
  | .unfinished => False

theorem Outcome.WithinBudget.after {o : Outcome α} (later : o.WithinBudget n middle)
    (grown : before.steps ≤ middle.steps) (level : middle.depth = before.depth) :
    o.WithinBudget n before := by
  cases o with
  | done a after => exact ⟨Nat.le_trans grown later.1, later.2.1, later.2.2.trans level⟩
  | failed e after => exact later
  | unfinished => exact later

theorem Outcome.WithinBudget.locate {o : Outcome α} (within : o.WithinBudget n before) (span : Span) :
    (o.locate span).WithinBudget n before := by
  cases o with
  | failed e after => cases e <;> exact within
  | _ => exact within

namespace Interpret

open Machine

variable {limits : Limits} {room : Nat}

def Bounded (limits : Limits) (room : Nat) (s : Step α) : Prop :=
  ∀ m, m.steps ≤ limits.maxSteps → limits.maxDepth ≤ m.depth + room →
    (s m).WithinBudget limits.maxSteps m

theorem code_of_not_limit (fault : RuntimeFault) (own : fault.ofLimit = false) :
    fault.code ≠ Code.stepBudget := by
  cases fault <;> simp_all [RuntimeFault.ofLimit, RuntimeFault.code] <;> decide

theorem bounded_pure (a : α) : Bounded limits room (pure a) :=
  fun _ budget _ => ⟨Nat.le_refl _, budget, rfl⟩

theorem bounded_bind {s : Step α} {f : α → Step β} (first : Bounded limits room s)
    (next : ∀ a, Bounded limits room (f a)) : Bounded limits room (s >>= f) := by
  intro m budget deep
  have ended := first m budget deep
  cases ran : s m with
  | unfinished =>
    rw [ran] at ended
    exact ended.elim
  | failed e after =>
    rw [ran] at ended
    rw [Step.bind_failed ran]
    exact ended
  | done a middle =>
    rw [ran] at ended
    rw [Step.bind_done ran]
    obtain ⟨grown, within, level⟩ := ended
    exact (next a middle within (by omega)).after grown level

theorem bounded_fail (span : Span) (fault : RuntimeFault) (own : fault.ofLimit = false) :
    Bounded limits room (@fail α span fault) :=
  fun _ budget _ => .inl ⟨budget, code_of_not_limit fault own⟩

theorem bounded_lookup (span : Span) (x : Bytes) : Bounded limits room (lookup span x) := by
  intro m budget _
  unfold lookup
  split
  · exact ⟨Nat.le_refl _, budget, rfl⟩
  · exact .inl ⟨budget, code_of_not_limit _ rfl⟩

theorem bounded_assign (span : Span) (x : Bytes) (v : Value) :
    Bounded limits room (assign span x v) := by
  intro m budget _
  unfold assign
  split
  · exact ⟨Nat.le_refl _, budget, rfl⟩
  · exact .inl ⟨budget, code_of_not_limit _ rfl⟩

theorem bounded_tick (positive : 0 < limits.maxSteps) (span : Span) :
    Bounded limits room (tick limits span) := by
  intro m budget _
  unfold tick
  dsimp only
  split
  · rename_i exceeded
    exact .inr ⟨by dsimp only at exceeded ⊢; omega, rfl⟩
  · rename_i fits
    exact ⟨Nat.le_succ _, by dsimp only at fits ⊢; omega, rfl⟩

theorem tick_done (ticked : tick limits span m = .done u after) :
    after = { m with steps := m.steps + 1 } := by
  unfold tick at ticked
  dsimp only at ticked
  split at ticked
  · cases ticked
  · cases ticked
    rfl

theorem bounded_scope {s : Step α} (parent : ScopeId) (inner : Bounded limits room s) :
    Bounded limits room (inNewScope parent s) := by
  intro m budget deep
  have ended := inner (m.below parent) budget deep
  unfold inNewScope
  revert ended
  cases s _ <;> exact fun ended => ended

theorem bounded_inCall {s : Step α} (span : Span)
    (inner : ∀ m : Machine, m.steps ≤ limits.maxSteps → limits.maxDepth ≤ m.depth + room →
      m.depth < limits.maxDepth →
      (s m.enterCall).WithinBudget limits.maxSteps m.enterCall) :
    Bounded limits room (inCall limits span s) := by
  intro m budget deep
  unfold inCall
  split
  · exact .inl ⟨budget, show Code.stackOverflow ≠ Code.stepBudget by decide⟩
  · rename_i shallow
    have ended := inner m budget deep (Nat.lt_of_not_le shallow)
    cases ran : s m.enterCall with
    | done a after =>
      rw [ran] at ended
      exact ⟨ended.1, ended.2.1, congrArg (· - 1) ended.2.2⟩
    | failed e after =>
      rw [ran] at ended
      exact ended
    | unfinished =>
      rw [ran] at ended
      exact ended

theorem bounded_round {host : Host} {c : Step Value} {b : Step Signal} (span : Span) (same : host.limits = limits)
    (positive : 0 < limits.maxSteps) (condition : Bounded limits room c) (body : Bounded limits room b)
    (m : Machine) (budget : m.steps ≤ limits.maxSteps) (deep : limits.maxDepth ≤ m.depth + room) :
    (Evaluate.round host.steps span c b m).WithinBudget limits.maxSteps m ∧
      ∀ after, Evaluate.round host.steps span c b m = .done none after → m.steps < after.steps := by
  subst same
  constructor
  · have once : Bounded host.limits room (Evaluate.round host.steps span c b) :=
      Respects.round_alone (P := Bounded host.limits room) bounded_pure bounded_bind span
        (bounded_tick positive span) condition body
    exact once m budget deep
  · intro after again
    obtain ⟨v, first, second, evaluated, ticked, executed⟩ := round_again again
    have checked := condition m budget deep
    rw [evaluated] at checked
    obtain ⟨grown, within, level⟩ := checked
    obtain rfl := tick_done ticked
    have counted : Bounded host.limits room (tick host.limits span) := bounded_tick positive span
    have counted := counted first within (by omega)
    rw [ticked] at counted
    have ran := body { first with steps := first.steps + 1 } counted.2.1 (by dsimp only; omega)
    rw [executed] at ran
    have more := ran.1
    dsimp only at more
    omega

theorem bounded_repeating {round : Step (Option Signal)}
    (once : ∀ m, m.steps ≤ limits.maxSteps → limits.maxDepth ≤ m.depth + room →
      (round m).WithinBudget limits.maxSteps m ∧
        ∀ after, round m = .done none after → m.steps < after.steps) (patience : Nat) (m : Machine)
    (budget : m.steps ≤ limits.maxSteps) (deep : limits.maxDepth ≤ m.depth + room)
    (patient : limits.maxSteps < m.steps + patience) :
    (repeating patience round m).WithinBudget limits.maxSteps m := by
  induction patience generalizing m with
  | zero => omega
  | succ patience ih =>
    obtain ⟨ended, counted⟩ := once m budget deep
    unfold repeating
    cases ran : round m with
    | unfinished =>
      rw [ran] at ended
      exact ended
    | failed e after =>
      rw [ran] at ended
      exact ended
    | done signal after =>
      rw [ran] at ended
      cases signal with
      | some signal => exact ended
      | none =>
        have spent := counted after ran
        obtain ⟨grown, within, level⟩ := ended
        exact (ih after within (by omega) (by omega)).after grown level

theorem bounded_respects {host : Host} (same : host.limits = limits)
    (positive : 0 < limits.maxSteps) (patient : limits.maxSteps < host.patience)
    (call : ∀ span f args, Bounded limits room (inCall limits span (locating span (host.invoke f args)))) :
    Respects host host fun s _ => Bounded limits room s where
  pure := bounded_pure
  bind := bounded_bind
  fail := bounded_fail
  print _ := fun _ budget _ => ⟨Nat.le_refl _, budget, rfl⟩
  lookup := bounded_lookup
  assign := bounded_assign
  define _ _ := fun _ budget _ => ⟨Nat.le_refl _, budget, rfl⟩
  makeFunction _ _ _ := fun _ budget _ => ⟨Nat.le_refl _, budget, rfl⟩
  readClock := fun _ budget _ => ⟨Nat.le_refl _, budget, rfl⟩
  tick span := by
    rw [same]
    exact bounded_tick positive span
  scope parent inner := bounded_scope parent inner
  block inner := fun m budget deep => bounded_scope m.scope inner m budget deep
  loop span condition body := by
    intro m budget deep
    exact bounded_repeating (bounded_round span same positive condition body) host.patience m budget deep
      (by omega)
  inside span inner := by
    rw [same]
    exact bounded_inCall span fun m budget deep _ => inner m.enterCall budget (show limits.maxDepth ≤ m.depth + 1 + room by omega)
  call span f args := by
    rw [same]
    exact call span f args

-- The induction is on the levels of calls left: with none left a call fails at once, and otherwise
-- the body it runs has one level less.
theorem bounded_call (clock : Nat → Float) {patience : Nat} (positive : 0 < limits.maxSteps)
    (patient : limits.maxSteps < patience) (room : Nat) (span : Span) (f : Closure) (args : List Value) :
    Bounded limits room (inCall limits span (locating span (invoke limits clock patience room f args))) := by
  induction room generalizing span f args with
  | zero => exact bounded_inCall span fun m _ deep shallow => by omega
  | succ room ih =>
    have laws : Respects (hostAt limits clock patience room) (hostAt limits clock patience room)
        fun s _ => Bounded limits room s := bounded_respects rfl positive patient ih
    refine bounded_inCall span fun m budget deep _ => ?_
    rw [invoke_succ]
    have body : Bounded limits room (functionBody (hostAt limits clock patience room) f args) :=
      laws.functionBody f args
    exact (body m.enterCall budget (show limits.maxDepth ≤ m.depth + 1 + room by omega)).locate span

theorem bounded_execProgram (clock : Nat → Float) {patience : Nat} (positive : 0 < limits.maxSteps)
    (patient : limits.maxSteps < patience) (room : Nat) (program : List Stmt) :
    Bounded limits room (execProgram (hostAt limits clock patience room) program) := by
  have laws : Respects (hostAt limits clock patience room) (hostAt limits clock patience room)
      fun s _ => Bounded limits room s :=
    bounded_respects rfl positive patient (bounded_call clock positive patient room)
  exact laws.execProgram program

end Interpret

open Interpret in
theorem run_withinBudget (i : Interpreter) (clock : Nat → Float) (program : List Stmt) (heap : Heap)
    (readings : Nat) (positive : 0 < i.limits.maxSteps) :
    (i.run clock program heap readings).WithinBudget i.limits.maxSteps
      ⟨heap, i.globals, 0, 0, readings, []⟩ := by
  have patient : i.limits.maxSteps < rounds i.limits i.patience := by
    unfold rounds
    rw [if_neg (by omega)]
    exact Nat.lt_succ_self _
  exact bounded_execProgram clock positive patient i.limits.maxDepth program _ (Nat.zero_le _)
    (Nat.le_add_left _ _)

theorem Outcome.WithinBudget.counted {o : Outcome Unit} (ended : o.WithinBudget n before) (located : o.Located) :
    ∃ m, o = .done () m ∧ m.steps ≤ n ∨
      ∃ e, o = .failed (.runtime e) m ∧ m.steps ≤ n + 1 ∧
        (m.steps = n + 1 ↔ e.fault.code = Code.stepBudget) := by
  cases o with
  | unfinished => exact ended.elim
  | done u m => exact ⟨m, .inl ⟨rfl, ended.2.1⟩⟩
  | failed e m =>
    obtain ⟨e, rfl⟩ := located.runtime
    refine ⟨m, .inr ⟨e, rfl, ?_⟩⟩
    obtain ⟨within, other⟩ | ⟨spent, exceeded⟩ := ended
    · exact ⟨by omega, fun spent => by omega, fun exceeded => (other exceeded).elim⟩
    · exact ⟨by omega, fun _ => congrArg RuntimeFault.code exceeded, fun _ => spent⟩

theorem budget_ends_every_run (i : Interpreter) (clock : Nat → Float) (program : List Stmt)
    (heap : Heap) (readings : Nat) (positive : 0 < i.limits.maxSteps) :
    ∃ m, i.run clock program heap readings = .done () m ∧ m.steps ≤ i.limits.maxSteps ∨
      ∃ e, i.run clock program heap readings = .failed (.runtime e) m ∧ m.steps ≤ i.limits.maxSteps + 1 ∧
        (m.steps = i.limits.maxSteps + 1 ↔ e.fault.code = Code.stepBudget) :=
  (run_withinBudget i clock program heap readings positive).counted (i.run_located clock program heap readings)

-- A heap in which an earlier evaluation left a function that calls itself.
def selfCalling : Heap :=
  ⟨#[⟨[(text "f", .function 0 ⟨text "f", none,
    .braces .unknown [.expr .unknown (.call .unknown (.name .unknown (text "f")) [])], 0⟩)], none⟩], 1⟩

theorem budget_ends_endless_calls :
    0 < 9 ∧ ∃ m,
      (⟨0, ⟨9, 1024⟩, 0⟩ : Interpreter).run (fun _ => 0)
        [.loop .unknown (.literal .unknown (.boolean true))
          (.expr .unknown (.call .unknown (.name .unknown (text "f")) []))] selfCalling 0 = .done () m ∧
        m.steps ≤ 9 ∨
      ∃ e, (⟨0, ⟨9, 1024⟩, 0⟩ : Interpreter).run (fun _ => 0)
        [.loop .unknown (.literal .unknown (.boolean true))
          (.expr .unknown (.call .unknown (.name .unknown (text "f")) []))] selfCalling 0
            = .failed (.runtime e) m ∧
        m.steps ≤ 10 ∧ (m.steps = 10 ↔ e.fault.code = Code.stepBudget) :=
  ⟨by decide, budget_ends_every_run ⟨0, ⟨9, 1024⟩, 0⟩ (fun _ => 0) _ selfCalling 0 (by decide)⟩

end TinyScript
