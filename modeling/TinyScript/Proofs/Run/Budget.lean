import TinyScript.Proofs.Run.Effect
import TinyScript.Proofs.Run.Termination

namespace TinyScript

-- What only grows while a run goes on. The latest text comes first in `printed`.
structure Machine.Precedes (before after : Machine) : Prop where
  steps : before.steps ≤ after.steps
  printed : before.printed <:+ after.printed

theorem Machine.Precedes.refl (m : Machine) : m.Precedes m := ⟨Nat.le_refl _, List.suffix_rfl⟩

theorem Machine.Precedes.trans {first second third : Machine} (left : first.Precedes second)
    (right : second.Precedes third) : first.Precedes third :=
  ⟨Nat.le_trans left.steps right.steps, left.printed.trans right.printed⟩

instance : IsPreorder Machine Machine.Precedes where
  refl := .refl
  trans _ _ _ := .trans

theorem Machine.Precedes.output {before after : Machine} (grown : before.Precedes after) :
    before.output <+: after.output := by
  obtain ⟨more, equal⟩ := grown.printed
  refine ⟨more.reverse.flatMap fun s => s ++ Bytes.newline, ?_⟩
  simp only [Machine.output, ← equal, List.reverse_append, List.flatMap_append]

structure Limits.AtMost (limits wider : Limits) : Prop where
  steps : wider.maxSteps = 0 ∨ 0 < limits.maxSteps ∧ limits.maxSteps ≤ wider.maxSteps
  depth : limits.maxDepth ≤ wider.maxDepth

theorem Limits.AtMost.refl (limits : Limits) : limits.AtMost limits :=
  ⟨by omega, Nat.le_refl _⟩

namespace Interpret

open Machine

abbrev Grows (s : Step α) : Prop := Leaves Machine.Precedes s

theorem grows_adjust {o : Outcome α} {change : Machine → Machine} {before last : Machine}
    (ended : (o.adjust change).machine? = some last)
    (kept : ∀ m, (change m).steps = m.steps ∧ (change m).printed = m.printed)
    (grown : ∀ after, o.machine? = some after → before.Precedes after) : before.Precedes last := by
  rw [Outcome.machine?_adjust, Option.map_eq_some_iff] at ended
  obtain ⟨after, ended, rfl⟩ := ended
  have middle := grown after ended
  exact ⟨(kept after).1 ▸ middle.steps, (kept after).2 ▸ middle.printed⟩

theorem grows_scope {s : Step α} (parent : ScopeId) (inner : Grows s) :
    Grows (inNewScope parent s) := by
  intro m last ended
  unfold inNewScope at ended
  refine grows_adjust ended (fun _ => ⟨rfl, rfl⟩) fun after middle => ?_
  exact ⟨(inner _ after middle).steps, (inner _ after middle).printed⟩

theorem grows_inCall {s : Step α} (limits : Limits) (span : Span) (inner : Grows s) :
    Grows (inCall limits span s) :=
  leaves_inCall limits span fun _ after ended =>
    ⟨(inner _ after ended).steps, (inner _ after ended).printed⟩

theorem grows_tick (limits : Limits) (span : Span) : Grows (tick limits span) := by
  intro m last ended
  unfold tick at ended
  dsimp only at ended
  split at ended
  all_goals
    cases ended
    exact ⟨Nat.le_succ _, List.suffix_rfl⟩

theorem grows_respects {host : Host}
    (call : ∀ span f args, Grows (inCall host.limits span (locating span (host.invoke f args)))) :
    Respects host host fun s _ => Grows s where
  pure := leaves_pure
  bind := leaves_bind
  fail span fault _ := leaves_fail span fault
  print s := by
    intro m last ended
    cases ended
    exact ⟨Nat.le_refl _, List.suffix_cons _ _⟩
  lookup := leaves_lookup
  assign span x v := by
    intro m last ended
    unfold assign at ended
    split at ended
    all_goals
      cases ended
      exact ⟨Nat.le_refl _, List.suffix_rfl⟩
  define x v := by
    intro m last ended
    cases ended
    exact ⟨Nat.le_refl _, List.suffix_rfl⟩
  makeFunction _ _ _ := by
    intro m last ended
    cases ended
    exact ⟨Nat.le_refl _, List.suffix_rfl⟩
  readClock := by
    intro m last ended
    cases ended
    exact ⟨Nat.le_refl _, List.suffix_rfl⟩
  tick := grows_tick host.limits
  scope parent inner := grows_scope parent inner
  block inner := fun m => grows_scope m.scope inner m
  loop span condition body := leaves_repeating (leaves_round span (grows_tick host.limits span) condition body) host.patience
  inside span inner := grows_inCall host.limits span inner
  call := call

theorem grows_invoke (limits : Limits) (clock : Nat → Float) (patience room : Nat) (f : Closure)
    (args : List Value) : Grows (invoke limits clock patience room f args) := by
  induction room generalizing f args with
  | zero =>
    intro m last ended
    cases ended
  | succ room ih =>
    rw [invoke_succ]
    have laws : Respects (hostAt limits clock patience room) (hostAt limits clock patience room)
        fun s _ => Grows s :=
      grows_respects fun span f args => grows_inCall limits span (leaves_locating span (ih f args))
    exact laws.functionBody f args

def Cuts (limits wider : Limits) : RuntimeFault → Prop
  | .stepBudget _ => limits.maxSteps ≠ wider.maxSteps
  | .stackOverflow _ => limits.maxDepth ≠ wider.maxDepth
  | _ => False

theorem not_cuts_self (limits : Limits) (fault : RuntimeFault) : ¬ Cuts limits limits fault := by
  cases fault with
  | stepBudget limit => exact fun differ => differ rfl
  | stackOverflow limit => exact fun differ => differ rfl
  | _ => exact id

theorem not_cuts_of_code {limits wider : Limits} {fault : RuntimeFault}
    (overflow : fault.code ≠ Code.stackOverflow) (budget : fault.code ≠ Code.stepBudget) :
    ¬ Cuts limits wider fault := by
  cases fault with
  | stepBudget limit => exact (budget rfl).elim
  | stackOverflow limit => exact (overflow rfl).elim
  | _ => exact id

-- The second outcome is the first, or goes on where a limit stopped the first.
def Extended (limits wider : Limits) : Outcome α → Outcome α → Prop
  | .done a m, longer => longer = .done a m
  | .failed e m, longer => longer = .failed e m ∨
    Cuts limits wider e.error.fault ∧ ∀ last, longer.machine? = some last → m.Precedes last
  | .unfinished, _ => True

theorem extended_adjust {limits wider : Limits} {o longer : Outcome α} {change : Machine → Machine}
    (extended : Extended limits wider o longer)
    (kept : ∀ m, (change m).steps = m.steps ∧ (change m).printed = m.printed) :
    Extended limits wider (o.adjust change) (longer.adjust change) := by
  cases o with
  | unfinished => trivial
  | done a m =>
    cases extended
    rfl
  | failed e m =>
    obtain same | ⟨cut, grown⟩ := extended
    · cases same
      exact .inl rfl
    · refine .inr ⟨cut, fun last ended => ?_⟩
      have carried := grows_adjust ended kept grown
      exact ⟨(kept m).1 ▸ carried.steps, (kept m).2 ▸ carried.printed⟩

theorem extended_locate {limits wider : Limits} {o longer : Outcome α} (extended : Extended limits wider o longer)
    (span : Span) : Extended limits wider (o.locate span) (longer.locate span) := by
  cases o with
  | unfinished => trivial
  | done a m =>
    cases extended
    rfl
  | failed e m =>
    obtain rfl | ⟨cut, grown⟩ := extended
    · exact .inl rfl
    · refine .inr ⟨by rwa [e.fault_locate], fun last ended => grown last ?_⟩
      rwa [Outcome.machine?_locate] at ended

structure Truncates (limits wider : Limits) (s t : Step α) : Prop where
  grows : Grows t
  extended : ∀ m, Extended limits wider (s m) (t m)

section

variable {limits wider : Limits}

theorem extended_refl (o : Outcome α) : Extended limits wider o o := by
  cases o with
  | done a m => rfl
  | failed e m => exact .inl rfl
  | unfinished => trivial

theorem truncates_same {s : Step α} (grows : Grows s) : Truncates limits wider s s :=
  ⟨grows, fun m => extended_refl (s m)⟩

theorem truncates_bind {s t : Step α} {f g : α → Step β} (first : Truncates limits wider s t)
    (next : ∀ a, Truncates limits wider (f a) (g a)) : Truncates limits wider (s >>= f) (t >>= g) where
  grows := leaves_bind first.grows fun a => (next a).grows
  extended m := by
    have extended := first.extended m
    cases ran : s m with
    | unfinished =>
      rw [Step.bind_unfinished ran]
      trivial
    | done a middle =>
      rw [ran] at extended
      rw [Step.bind_done ran, Step.bind_done extended]
      exact (next a).extended middle
    | failed e middle =>
      rw [ran] at extended
      rw [Step.bind_failed ran]
      obtain same | ⟨cut, grown⟩ := extended
      · exact .inl (Step.bind_failed same)
      · refine .inr ⟨cut, fun last ended => ?_⟩
        -- the longer run goes on past this point, and what it adds only comes after
        cases longer : t m with
        | done a after =>
          rw [Step.bind_done longer] at ended
          exact (grown after (by rw [longer]; rfl)).trans ((next a).grows after last ended)
        | failed e' after =>
          rw [Step.bind_failed longer] at ended
          exact grown last (by rw [longer]; exact ended)
        | unfinished =>
          rw [Step.bind_unfinished longer] at ended
          cases ended

theorem truncates_scope {s t : Step α} (parent : ScopeId) (inner : Truncates limits wider s t) :
    Truncates limits wider (inNewScope parent s) (inNewScope parent t) :=
  ⟨grows_scope parent inner.grows,
    fun _ => extended_adjust (inner.extended _) fun _ => ⟨rfl, rfl⟩⟩

theorem truncates_locating {s t : Step α} (span : Span) (inner : Truncates limits wider s t) :
    Truncates limits wider (locating span s) (locating span t) :=
  ⟨leaves_locating span inner.grows, fun m => extended_locate (inner.extended m) span⟩

theorem truncates_tick (atMost : limits.AtMost wider) (span : Span) :
    Truncates limits wider (tick limits span) (tick wider span) where
  grows := grows_tick wider span
  extended m := by
    by_cases exceeded : 0 < limits.maxSteps ∧ limits.maxSteps < m.steps + 1
    · have stopped : tick limits span m
          = .failed (.runtime ⟨.stepBudget limits.maxSteps, span⟩) { m with steps := m.steps + 1 } := if_pos exceeded
      rw [stopped]
      by_cases same : limits.maxSteps = wider.maxSteps
      · left
        rw [same] at exceeded ⊢
        exact if_pos exceeded
      · refine .inr ⟨same, fun last ended => ?_⟩
        unfold tick at ended
        dsimp only at ended
        split at ended
        all_goals
          cases ended
          exact .refl _
    · have longer := atMost.steps
      have fits : ¬ (0 < wider.maxSteps ∧ wider.maxSteps < m.steps + 1) := by omega
      have ticked : tick limits span m = .done () { m with steps := m.steps + 1 } := if_neg exceeded
      rw [ticked]
      exact if_neg fits

theorem truncates_inCall {s t : Step α} (atMost : limits.AtMost wider) (span : Span)
    (inner : Truncates limits wider s t) :
    Truncates limits wider (inCall limits span s) (inCall wider span t) where
  grows := grows_inCall wider span inner.grows
  extended m := by
    by_cases deep : limits.maxDepth ≤ m.depth
    · have stopped : inCall limits span s m = .failed (.runtime ⟨.stackOverflow limits.maxDepth, span⟩) m :=
        if_pos deep
      rw [stopped]
      by_cases same : limits.maxDepth = wider.maxDepth
      · left
        rw [same] at deep ⊢
        exact if_pos deep
      · exact .inr ⟨same, fun last ended => grows_inCall wider span inner.grows m last ended⟩
    · have deeper := atMost.depth
      have shallow : ¬ wider.maxDepth ≤ m.depth := by omega
      have near : inCall limits span s m = (s m.enterCall).adjust leaveCall := if_neg deep
      have far : inCall wider span t m = (t m.enterCall).adjust leaveCall := if_neg shallow
      rw [near, far]
      exact extended_adjust (inner.extended _) fun _ => ⟨rfl, rfl⟩

theorem truncates_repeating {r r' : Step (Option Signal)} (once : Truncates limits wider r r')
    {patience patience' : Nat} (patient : patience ≤ patience') :
    Truncates limits wider (repeating patience r) (repeating patience' r') where
  grows := leaves_repeating once.grows patience'
  extended m := by
    induction patience generalizing patience' m with
    | zero => trivial
    | succ patience ih =>
      obtain ⟨patience', rfl⟩ : ∃ more, patience' = more + 1 := ⟨patience' - 1, by omega⟩
      have extended := once.extended m
      unfold repeating
      cases ran : r m with
      | unfinished => trivial
      | done signal middle =>
        rw [ran] at extended
        rw [extended]
        cases signal with
        | none => exact ih (by omega) middle
        | some signal => rfl
      | failed e middle =>
        rw [ran] at extended
        obtain same | ⟨cut, grown⟩ := extended
        · rw [same]
          exact .inl rfl
        · refine .inr ⟨cut, fun last ended => ?_⟩
          split at ended
          · rename_i after longer
            exact (grown after (by rw [longer]; rfl)).trans
              (leaves_repeating once.grows patience' after last ended)
          · rename_i signal after longer
            exact grown last (by rw [longer]; exact ended)
          · rename_i e' after longer
            exact grown last (by rw [longer]; exact ended)
          · cases ended

theorem truncates_round {near far : Host} {c c' : Step Value} {b b' : Step Signal}
    (atMost : near.limits.AtMost far.limits) (span : Span) (condition : Truncates near.limits far.limits c c')
    (body : Truncates near.limits far.limits b b') :
    Truncates near.limits far.limits (Evaluate.round near.steps span c b)
      (Evaluate.round far.steps span c' b') :=
  Respects.round (fun a => truncates_same (leaves_pure a)) truncates_bind span (truncates_tick atMost span) condition
    body

-- The steps that ask for no limit are the same on both sides, so their laws are those of growing.
theorem truncates_respects {near far : Host} (sameClock : near.clock = far.clock)
    (atMost : near.limits.AtMost far.limits) (patient : near.patience ≤ far.patience)
    (growing : ∀ f args, Grows (far.invoke f args))
    (call : ∀ f args, Truncates near.limits far.limits (near.invoke f args) (far.invoke f args)) :
    Respects near far (Truncates near.limits far.limits) := by
  have grown : Respects far far fun s _ => Grows s :=
    grows_respects fun span f args => grows_inCall far.limits span (leaves_locating span (growing f args))
  exact {
    pure := fun a => truncates_same (grown.pure a)
    bind := truncates_bind
    fail := fun span fault own => truncates_same (grown.fail span fault own)
    print := fun s => truncates_same (grown.print s)
    lookup := fun span x => truncates_same (grown.lookup span x)
    assign := fun span x v => truncates_same (grown.assign span x v)
    define := fun x v => truncates_same (grown.define x v)
    makeFunction := fun name params body => truncates_same (grown.makeFunction name params body)
    readClock := by
      rw [sameClock]
      exact truncates_same grown.readClock
    tick := truncates_tick atMost
    scope := truncates_scope
    block := fun inner =>
      ⟨fun m => grows_scope m.scope inner.grows m, fun m => (truncates_scope m.scope inner).extended m⟩
    loop := fun span condition body =>
      truncates_repeating (truncates_round atMost span condition body) patient
    inside := fun span inner => truncates_inCall atMost span inner
    call := fun span f args => truncates_inCall atMost span (truncates_locating span (call f args)) }

theorem truncates_invoke (clock : Nat → Float) {patience patience' : Nat}
    (atMost : limits.AtMost wider) (patient : patience ≤ patience') {room room' : Nat}
    (roomy : room ≤ room') (f : Closure) (args : List Value) :
    Truncates limits wider (invoke limits clock patience room f args)
      (invoke wider clock patience' room' f args) := by
  induction room generalizing room' f args with
  | zero => exact ⟨grows_invoke wider clock patience' room' f args, fun _ => trivial⟩
  | succ room ih =>
    obtain ⟨room', rfl⟩ : ∃ more, room' = more + 1 := ⟨room' - 1, by omega⟩
    have laws : Respects (hostAt limits clock patience room) (hostAt wider clock patience' room')
        (Truncates limits wider) :=
      truncates_respects rfl atMost patient (grows_invoke wider clock patience' room')
        fun f args => ih (by omega) f args
    exact laws.functionBody f args

theorem truncates_execProgram (clock : Nat → Float) {patience patience' : Nat}
    (atMost : limits.AtMost wider) (patient : patience ≤ patience') (program : List Stmt) :
    Truncates limits wider (execProgram (hostAt limits clock patience limits.maxDepth) program)
      (execProgram (hostAt wider clock patience' wider.maxDepth) program) := by
  have laws : Respects (hostAt limits clock patience limits.maxDepth)
      (hostAt wider clock patience' wider.maxDepth) (Truncates limits wider) :=
    truncates_respects rfl atMost patient (grows_invoke wider clock patience' wider.maxDepth)
      (truncates_invoke clock atMost patient atMost.depth)
  exact laws.execProgram program

end

end Interpret

structure Task where
  globals : ScopeId
  clock : Nat → Float
  program : List Stmt
  heap : Heap
  readings : Nat

namespace Task

open Interpret

variable {task : Task} {limits wider : Limits}

def run (task : Task) (limits : Limits) (patience : Nat) : Outcome Unit :=
  (⟨task.globals, limits, patience⟩ : Interpreter).run task.clock task.program task.heap task.readings

def Ends (task : Task) (limits : Limits) (o : Outcome Unit) : Prop :=
  o ≠ .unfinished ∧ ∃ patience, task.run limits patience = o

theorem run_extended (task : Task) (atMost : limits.AtMost wider) {patience patience' : Nat}
    (patient : rounds limits patience ≤ rounds wider patience') :
    Extended limits wider (task.run limits patience) (task.run wider patience') :=
  (truncates_execProgram task.clock atMost patient task.program).extended _

theorem run_patient {patience patience' : Nat} (patient : patience ≤ patience')
    (ended : task.run limits patience = o) (finished : o ≠ .unfinished) :
    task.run limits patience' = o := by
  have patient : rounds limits patience ≤ rounds limits patience' := by
    unfold rounds
    split
    · exact patient
    · exact Nat.le_refl _
  have extended := task.run_extended (.refl limits) patient
  rw [ended] at extended
  cases o with
  | unfinished => exact (finished rfl).elim
  | done u m => exact extended
  | failed e m =>
    obtain same | ⟨cut, -⟩ := extended
    · exact same
    · exact (not_cuts_self limits _ cut).elim

theorem ends_unique (left : task.Ends limits o) (right : task.Ends limits o') : o = o' := by
  obtain ⟨finished, patience, ran⟩ := left
  obtain ⟨finished', patience', ran'⟩ := right
  have more := run_patient (Nat.le_max_left patience patience') ran finished
  have more' := run_patient (Nat.le_max_right patience patience') ran' finished'
  exact more.symm.trans more'

theorem ends_extended (atMost : limits.AtMost wider) (short : task.Ends limits o) :
    ∃ patience, ∀ patience' ≥ patience, Extended limits wider o (task.run wider patience') := by
  obtain ⟨_, patience, rfl⟩ := short
  refine ⟨rounds limits patience, fun patience' patient => task.run_extended atMost ?_⟩
  have longer := atMost.steps
  unfold rounds at patient ⊢
  by_cases unlimited : wider.maxSteps = 0
  · rw [if_pos unlimited]
    exact patient
  · have limited : ¬ limits.maxSteps = 0 := by omega
    rw [if_neg unlimited, if_neg limited]
    omega

theorem ends_compared (atMost : limits.AtMost wider) (short : task.Ends limits o)
    (long : task.Ends wider o') : Extended limits wider o o' := by
  obtain ⟨patience, extended⟩ := ends_extended atMost short
  obtain ⟨finished, patience', ran⟩ := long
  have more := run_patient (Nat.le_max_right patience patience') ran finished
  rw [← more]
  exact extended _ (Nat.le_max_left patience patience')

theorem done_under_wider (atMost : limits.AtMost wider) (short : task.Ends limits (.done () m)) :
    task.Ends wider (.done () m) := by
  obtain ⟨patience, extended⟩ := ends_extended atMost short
  exact ⟨by simp, patience, extended patience (Nat.le_refl _)⟩

theorem failed_under_wider (atMost : limits.AtMost wider) (short : task.Ends limits (.failed e m))
    (uncut : ¬ Cuts limits wider e.error.fault) : task.Ends wider (.failed e m) := by
  obtain ⟨patience, extended⟩ := ends_extended atMost short
  obtain same | ⟨cut, -⟩ := extended patience (Nat.le_refl _)
  · exact ⟨by simp, patience, same⟩
  · exact (uncut cut).elim

theorem output_under_wider (atMost : limits.AtMost wider) (short : task.Ends limits (.failed e m))
    (long : task.Ends wider o) : ∃ m', o.machine? = some m' ∧ m.output <+: m'.output := by
  obtain rfl | ⟨cut, grown⟩ := ends_compared atMost short long
  · exact ⟨m, rfl, List.prefix_rfl⟩
  · cases o with
    | unfinished => exact (long.1 rfl).elim
    | done u m' => exact ⟨m', rfl, (grown m' rfl).output⟩
    | failed e' m' => exact ⟨m', rfl, (grown m' rfl).output⟩

theorem budget_decides {n d : Nat} (positive : 0 < n) (free : task.Ends ⟨0, d⟩ (.done () m)) :
    task.Ends ⟨n, d⟩ (.done () m) ∧ m.steps ≤ n ∨
      (∃ e m', task.Ends ⟨n, d⟩ (.failed e m') ∧ e.error.fault.code = Code.stepBudget) ∧ n < m.steps := by
  have atMost : Limits.AtMost ⟨n, d⟩ ⟨0, d⟩ := ⟨.inl rfl, Nat.le_refl _⟩
  obtain ⟨m', ⟨ran, within⟩ | ⟨e, ran, -, spent⟩⟩ :=
    (run_withinBudget ⟨task.globals, ⟨n, d⟩, 0⟩ task.clock task.program task.heap task.readings
      positive).counted (Interpreter.run_located _ _ _ _ _)
  · have ended : task.Ends ⟨n, d⟩ (.done () m') := ⟨by simp, 0, ran⟩
    cases ends_unique free (done_under_wider atMost ended)
    exact .inl ⟨ended, within⟩
  · have ended : task.Ends ⟨n, d⟩ (.failed (.runtime e) m') := ⟨by simp, 0, ran⟩
    obtain same | ⟨cut, grown⟩ := ends_compared atMost ended free
    · cases same
    · have exceeded : e.fault.code = Code.stepBudget := by
        obtain ⟨fault, span⟩ := e
        cases fault with
        | stepBudget limit => rfl
        | stackOverflow limit => exact (cut rfl).elim
        | _ => exact cut.elim
      refine .inr ⟨⟨.runtime e, m', ended, exceeded⟩, ?_⟩
      have counted := spent.mpr exceeded
      have longer := (grown m rfl).steps
      dsimp only at counted
      omega

end Task

theorem limits_only_truncate (task : Task) (n d n' d' : Nat) (depths : 1 ≤ d ∧ d ≤ d')
    (steps : n' = 0 ∨ 0 < n ∧ n ≤ n') :
    (∀ m, task.Ends ⟨n, d⟩ (.done () m) → task.Ends ⟨n', d'⟩ (.done () m)) ∧
    (∀ e m, task.Ends ⟨n, d⟩ (.failed e m) → e.error.fault.code ≠ Code.stackOverflow →
      e.error.fault.code ≠ Code.stepBudget → task.Ends ⟨n', d'⟩ (.failed e m)) ∧
    (∀ e m, task.Ends ⟨n, d⟩ (.failed e m) →
      e.error.fault.code = Code.stackOverflow ∨ e.error.fault.code = Code.stepBudget →
      ∀ o, task.Ends ⟨n', d'⟩ o → ∃ m', o.machine? = some m' ∧ m.output <+: m'.output) ∧
    (∀ m, task.Ends ⟨0, d⟩ (.done () m) → 0 < n →
      ((∃ m', task.Ends ⟨n, d⟩ (.done () m')) ↔ m.steps ≤ n) ∧
      (¬ m.steps ≤ n →
        ∃ e m', task.Ends ⟨n, d⟩ (.failed e m') ∧ e.error.fault.code = Code.stepBudget)) := by
  have atMost : Limits.AtMost ⟨n, d⟩ ⟨n', d'⟩ := ⟨steps, depths.2⟩
  refine ⟨fun m short => Task.done_under_wider atMost short, ?_, ?_, ?_⟩
  · intro e m short overflow budget
    exact Task.failed_under_wider atMost short (Interpret.not_cuts_of_code overflow budget)
  · intro e m short _ o long
    exact Task.output_under_wider atMost short long
  · intro m free positive
    obtain ⟨ended, within⟩ | ⟨⟨e, m', stopped, exceeded⟩, beyond⟩ := Task.budget_decides positive free
    · exact ⟨⟨fun _ => within, fun _ => ⟨m, ended⟩⟩, fun beyond => (beyond within).elim⟩
    · refine ⟨⟨?_, fun within => by omega⟩, fun _ => ⟨e, m', stopped, exceeded⟩⟩
      rintro ⟨m'', ended⟩
      cases Task.ends_unique ended stopped

-- A task that prints a line, and then another one in every round of a loop without an end.
def printing : Task :=
  ⟨0, fun _ => 0,
    [.print .unknown (.literal .unknown (.string [97])),
      .loop .unknown (.literal .unknown (.boolean true))
        (.print .unknown (.literal .unknown (.string [98])))], .empty, 0⟩

theorem limits_truncate_printing :
    (1 ≤ 1 ∧ 1 ≤ 1) ∧ (2 = 0 ∨ 0 < 1 ∧ 1 ≤ 2) ∧
      ∃ e m e' m', printing.Ends ⟨1, 1⟩ (.failed e m) ∧ e.error.fault.code = Code.stepBudget ∧
        printing.Ends ⟨2, 1⟩ (.failed e' m') ∧ m.printed.length = 2 ∧ m'.printed.length = 3 ∧
        m.output <+: m'.output := by
  have short : printing.Ends ⟨1, 1⟩
      (.failed (.runtime ⟨.stepBudget 1, .unknown⟩) ⟨.empty, 0, 0, 2, 0, [[98], [97]]⟩) := ⟨by simp, 0, rfl⟩
  have long : printing.Ends ⟨2, 1⟩
      (.failed (.runtime ⟨.stepBudget 2, .unknown⟩) ⟨.empty, 0, 0, 3, 0, [[98], [98], [97]]⟩) := ⟨by simp, 0, rfl⟩
  obtain ⟨m', ended, before⟩ :=
    (limits_only_truncate printing 1 1 2 1 (by decide) (by decide)).2.2.1 _ _ short (.inr rfl) _ long
  cases ended
  exact ⟨by decide, by decide, _, _, _, _, short, rfl, long, rfl, rfl, before⟩

end TinyScript
