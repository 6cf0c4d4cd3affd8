import TinyScript.Proofs.Run.Effect
import TinyScript.Session

namespace TinyScript.Live

open Machine Interpret

section

variable {t : Live (StateM σ) α} {g : α → Live (StateM σ) β} {m : Machine} {world : σ}

theorem bind_done (ran : (t m).run world = (.done a middle, later)) :
    ((t >>= g) m).run world = (g a middle).run later := by
  show (Live.bind t g m).run world = _
  rw [Live.bind, StateT.run_bind, ran]
  rfl

theorem bind_failed (ran : (t m).run world = (.failed e middle, later)) :
    ((t >>= g) m).run world = (.failed e middle, later) := by
  show (Live.bind t g m).run world = _
  rw [Live.bind, StateT.run_bind, ran]
  rfl

theorem bind_unfinished (ran : (t m).run world = (.unfinished, later)) :
    ((t >>= g) m).run world = (.unfinished, later) := by
  show (Live.bind t g m).run world = _
  rw [Live.bind, StateT.run_bind, ran]
  rfl

end

def Untimed (m after : Machine) : Prop := after.readings = m.readings

instance : IsPreorder Machine Untimed where
  refl _ := rfl
  trans _ _ _ first second := second.trans first

theorem untimed_unaryOp (span : Span) (op : Kind) (v : Value) : Leaves Untimed (unaryOp span op v) := by
  unfold unaryOp
  split
  · split
    · exact leaves_pure _
    · exact leaves_fail _ _
  · exact leaves_pure _
  · exact leaves_fail _ _

theorem untimed_arithmetic (span : Span) (op : Kind) (x y : Float) : Leaves Untimed (arithmetic span op x y) := by
  unfold arithmetic
  split
  case h_3 =>
    split
    · exact leaves_fail _ _
    · exact leaves_pure _
  case h_8 => exact leaves_fail _ _
  all_goals exact leaves_pure _

theorem untimed_binaryOp (span : Span) (op : Kind) (l r : Value) : Leaves Untimed (binaryOp span op l r) := by
  unfold binaryOp
  split
  · exact leaves_pure _
  · exact leaves_pure _
  · split
    · exact leaves_pure _
    · exact leaves_pure _
    · exact leaves_fail _ _
  · split
    · exact untimed_arithmetic span op _ _
    · exact leaves_fail _ _

theorem untimed_assign (span : Span) (x : Bytes) (v : Value) : Leaves Untimed (assign span x v) := by
  intro m after ended
  unfold assign at ended
  split at ended
  · cases ended
    rfl
  · exact leaves_fail span (.undefinedVariable x) m after ended

theorem untimed_tick (limits : Limits) (span : Span) : Leaves Untimed (tick limits span) := by
  intro m after ended
  unfold tick at ended
  dsimp only at ended
  split at ended
  all_goals
    cases ended
    rfl

def Hears (now : StateM σ Float) (clock : Nat → Float) (worlds : Nat → σ) (start : Nat) : Prop :=
  ∀ n, start ≤ n → now.run (worlds n) = (clock n, worlds (n + 1))

-- The second step does what the first does, and asks for the time as often as the first reads its clock.
def Follows (worlds : Nat → σ) (start : Nat) (s : Step α) (t : Live (StateM σ) α) : Prop :=
  ∀ m, start ≤ m.readings → ∃ world, (t m).run (worlds m.readings) = (s m, world) ∧
    ∀ after, (s m).machine? = some after → start ≤ after.readings ∧ world = worlds after.readings

namespace Follows

variable {worlds : Nat → σ} {start : Nat} {s : Step α} {t : Live (StateM σ) α}

theorem still (untimed : Leaves Untimed s) : Follows worlds start s (still s) := by
  refine fun m begun => ⟨worlds m.readings, rfl, fun after ended => ?_⟩
  have same : after.readings = m.readings := untimed m after ended
  rw [same]
  exact ⟨begun, rfl⟩

theorem pure (a : α) : Follows worlds start (Pure.pure a) (Pure.pure a) := still (leaves_pure a)

theorem bind {f : α → Step β} {g : α → Live (StateM σ) β} (first : Follows worlds start s t)
    (next : ∀ a, Follows worlds start (f a) (g a)) : Follows worlds start (s >>= f) (t >>= g) := by
  intro m begun
  obtain ⟨world, ran, there⟩ := first m begun
  cases out : s m with
  | done a middle =>
    obtain ⟨later, rfl⟩ := there middle (by rw [out]; rfl)
    rw [out] at ran
    rw [Step.bind_done out, bind_done ran]
    exact next a middle later
  | failed e middle =>
    rw [out] at ran there
    rw [Step.bind_failed out, bind_failed ran]
    exact ⟨world, rfl, there⟩
  | unfinished =>
    rw [out] at ran
    rw [Step.bind_unfinished out, bind_unfinished ran]
    exact ⟨world, rfl, fun _ ended => nomatch ended⟩

-- A step inside another machine, with a change of what it leaves. Neither touches the readings.
theorem adjusted (follows : Follows worlds start s t) (enter : Machine → Machine)
    (entered : ∀ m, Untimed m (enter m)) (leave : Machine → Machine → Machine)
    (left : ∀ m after, Untimed after (leave m after)) :
    Follows worlds start (fun m => (s (enter m)).adjust (leave m)) fun m => do
      return (← t (enter m)).adjust (leave m) := by
  intro m begun
  have same : (enter m).readings = m.readings := entered m
  obtain ⟨world, ran, there⟩ := follows (enter m) (same ▸ begun)
  rw [same] at ran
  refine ⟨world, ?_, fun after ended => ?_⟩
  · rw [StateT.run_bind, ran]
    rfl
  · rw [Outcome.machine?_adjust, Option.map_eq_some_iff] at ended
    obtain ⟨before, ended, rfl⟩ := ended
    have kept : (leave m before).readings = before.readings := left m before
    rw [kept]
    exact there before ended

theorem inNewScope (parent : ScopeId) (follows : Follows worlds start s t) :
    Follows worlds start (Machine.inNewScope parent s) (Live.inNewScope parent t) :=
  follows.adjusted (·.below parent) (fun _ => rfl) (fun m => backTo m.scope) fun _ _ => rfl

theorem locating (span : Span) (follows : Follows worlds start s t) :
    Follows worlds start (Machine.locating span s) (Live.locating span t) := by
  intro m begun
  obtain ⟨world, ran, there⟩ := follows m begun
  refine ⟨world, ?_, fun after ended => there after ?_⟩
  · show StateT.run (t m >>= _) _ = _
    rw [StateT.run_bind, ran]
    rfl
  · rwa [Machine.locating, Outcome.machine?_locate] at ended

theorem inCall (limits : Limits) (span : Span) (follows : Follows worlds start s t) :
    Follows worlds start (Machine.inCall limits span s) (Live.inCall limits span t) := by
  intro m begun
  unfold Machine.inCall Live.inCall
  split
  · exact still (leaves_fail span (.stackOverflow limits.maxDepth)) m begun
  · exact follows.adjusted enterCall (fun _ => rfl) (fun _ => leaveCall) (fun _ _ => rfl) m begun

theorem repeating {round : Step (Option Signal)} {round' : Live (StateM σ) (Option Signal)}
    (once : Follows worlds start round round') (patience : Nat) :
    Follows worlds start (Interpret.repeating patience round) (Live.repeating patience round') := by
  induction patience with
  | zero => exact fun m _ => ⟨worlds m.readings, rfl, fun _ ended => nomatch ended⟩
  | succ patience ih =>
    rw [repeating_succ]
    refine bind once fun signal => ?_
    cases signal with
    | none => exact ih
    | some signal => exact pure signal

section

variable {now : StateM σ Float} {clock : Nat → Float} (hears : Hears now clock worlds start)
include hears

theorem readClock (args : List Value) :
    Follows worlds start (Interpret.callBuiltin clock .clock args) (Live.callBuiltin now .clock args) := by
  intro m begun
  refine ⟨worlds (m.readings + 1), ?_, fun after ended => ?_⟩
  · show StateT.run (now >>= _) _ = _
    rw [StateT.run_bind, hears m.readings begun]
    rfl
  · cases ended
    exact ⟨Nat.le_succ_of_le begun, rfl⟩

theorem callBuiltin (b : Builtin) (args : List Value) :
    Follows worlds start (Interpret.callBuiltin clock b args) (Live.callBuiltin now b args) := by
  cases b with
  | clock => exact readClock hears args
  | len => cases args with
    | nil => exact pure Value.nil
    | cons v rest => cases v with
      | string s => exact pure _
      | _ => exact still fun m after ended => by cases ended; rfl
  | str => cases args <;> exact pure _
  | type => cases args <;> exact pure _

end

end Follows

section

variable {worlds : Nat → σ} {start : Nat} {now : StateM σ Float} {clock : Nat → Float}

theorem pairs (hears : Hears now clock worlds start) (limits : Limits) (patience : Nat)
    {invoke : Closure → List Value → Step Value} {invoke' : Closure → List Value → Live (StateM σ) Value}
    (calls : ∀ f args, Follows worlds start (invoke f args) (invoke' f args)) :
    (Host.steps ⟨limits, clock, patience, invoke⟩).Pairs (primitives limits now patience invoke')
      (Follows worlds start) where
  pure := .pure
  bind := .bind
  fail span fault := .still (leaves_fail span fault)
  unary span op v := .still (untimed_unaryOp span op v)
  binary span op l r := .still (untimed_binaryOp span op l r)
  decides _ _ := .pure _
  lookup span x := .still (leaves_lookup span x)
  assign span x v := .still (untimed_assign span x v)
  define _ _ := .still fun _ _ ended => by cases ended; rfl
  makeFunction _ _ _ := .still fun _ _ ended => by cases ended; rfl
  print _ := .still fun _ _ ended => by cases ended; rfl
  tick span := .still (untimed_tick limits span)
  builtin := .callBuiltin hears
  invoke := calls
  locating := .locating
  inCall := .inCall limits
  inNewScope := .inNewScope
  inBlock inner := fun m => inner.inNewScope m.scope m
  noBlock := .pure _
  repeating once := once.repeating patience

theorem follows_invoke (hears : Hears now clock worlds start) (limits : Limits) (patience room : Nat) (f : Closure)
    (args : List Value) :
    Follows worlds start (Interpret.invoke limits clock patience room f args)
      (Live.invoke limits now patience room f args) := by
  induction room generalizing f args with
  | zero => exact fun m _ => ⟨worlds m.readings, rfl, fun _ ended => nomatch ended⟩
  | succ room ih => exact (pairs hears limits patience ih).functionBody f args

end

def later (now : StateM σ Float) (world : σ) : Nat → σ
  | 0 => world
  | n + 1 => (now.run (later now world n)).2

def answer (now : StateM σ Float) (world : σ) (n : Nat) : Float := (now.run (later now world n)).1

-- Whatever the time does, a run that asks for it is the run under the readings that it was given.
theorem run_heard (now : StateM σ Float) (world : σ) (i : Interpreter) (program : List Stmt) (heap : Heap)
    (readings : Nat) :
    ((Live.run now i program heap readings).run world).1
      = i.run (fun n => answer now world (n - readings)) program heap readings := by
  have hears : Hears now (fun n => answer now world (n - readings)) (fun n => later now world (n - readings))
      readings := by
    intro n begun
    dsimp only
    rw [Nat.succ_sub begun]
    rfl
  let patience := rounds i.limits i.patience
  have calls := follows_invoke hears i.limits patience i.limits.maxDepth
  have follows := (pairs hears i.limits patience calls).execProgram program
  obtain ⟨last, ran, _⟩ := follows ⟨heap, i.globals, 0, 0, readings, []⟩ (Nat.le_refl _)
  dsimp only at ran
  rw [Nat.sub_self] at ran
  exact congrArg Prod.fst ran

theorem execute_heard (now : StateM σ Float) (world : σ) (i : Interpreter) (program : List Stmt) (heap : Heap)
    (readings : Nat) :
    ((Live.execute now i program heap readings).run.run world).1
      = i.execute? (fun n => answer now world (n - readings)) program heap readings := by
  unfold Interpreter.execute?
  rw [← run_heard]
  rfl

theorem eval_heard (now : StateM σ Float) (world : σ) (s : Session) (source : Bytes) :
    ((s.eval (Live.execute now) source).run.run world).1
      = s.eval? (fun n => answer now world (n - s.readings)) source := by
  unfold Session.eval? Session.eval
  dsimp only
  split
  · rfl
  · rw [← execute_heard, OptionT.run_bind, Option.elimM, StateT.run_bind]
    generalize ((execute now s.interpreter (analyse source).program s.heap s.readings).run.run world) = ran
    obtain ⟨execution, later⟩ := ran
    cases execution <;> rfl

end TinyScript.Live
