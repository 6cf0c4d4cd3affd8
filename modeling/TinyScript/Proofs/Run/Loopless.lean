import TinyScript.Proofs.Heap
import TinyScript.Proofs.Run.Budget

namespace TinyScript

def Node.Loopless (node : Node) : Prop :=
  ∀ inner : Node, inner.Inside node → ∀ span c body, inner ≠ .stmt (.loop span c body)

namespace Node.Loopless

variable {node : Node}

theorem child (loopless : node.Loopless) (mem : part ∈ node.children) : part.Loopless :=
  fun inner deep => loopless inner (.deeper mem deep)

theorem of_children (own : ∀ span c body, node ≠ .stmt (.loop span c body))
    (parts : ∀ part ∈ node.children, part.Loopless) : node.Loopless := by
  intro inner deep
  cases deep with
  | self => exact own
  | deeper mem deep => exact parts _ mem inner deep

end Node.Loopless

def Value.Loopless : Value → Prop
  | .function _ f => (Node.block f.body).Loopless
  | _ => True

def Heap.Loopless (h : Heap) : Prop := h.Holds Value.Loopless

-- The step has ended, on a heap without loops. Only a completed step is followed by others, so only there
-- the depth and the value matter.
def Outcome.Ended (P : α → Prop) (before : Machine) : Outcome α → Prop
  | .done a after => P a ∧ after.depth = before.depth ∧ after.heap.Loopless
  | .failed _ after => after.heap.Loopless
  | .unfinished => False

theorem Outcome.Ended.machine? {o : Outcome α} (ended : o.Ended P before) :
    ∃ m, o.machine? = some m ∧ m.heap.Loopless := by
  cases o with
  | done a m => exact ⟨m, rfl, ended.2.2⟩
  | failed e m => exact ⟨m, rfl, ended⟩
  | unfinished => exact ended.elim

namespace Interpret

open Machine

def Terminates (limits : Limits) (room : Nat) (P : α → Prop) (s : Step α) : Prop :=
  ∀ m, m.heap.Loopless → limits.maxDepth ≤ m.depth + room → (s m).Ended P m

namespace Terminates

variable {limits : Limits} {room : Nat} {P : α → Prop} {Q : β → Prop} {s : Step α}

theorem pure (holds : P a) : Terminates limits room P (Pure.pure a) :=
  fun _ loopless _ => ⟨holds, rfl, loopless⟩

theorem fail (span : Span) (fault : RuntimeFault) : Terminates limits room P (fail span fault) :=
  fun _ loopless _ => loopless

theorem mono {Q : α → Prop} (ends : Terminates limits room P s) (implies : ∀ {a}, P a → Q a) :
    Terminates limits room Q s := by
  intro m loopless deep
  have ended := ends m loopless deep
  revert ended
  cases s m with
  | done a after => exact fun ended => ⟨implies ended.1, ended.2⟩
  | _ => exact id

theorem bind {f : α → Step β} (first : Terminates limits room P s)
    (next : ∀ a, P a → Terminates limits room Q (f a)) : Terminates limits room Q (s >>= f) := by
  intro m loopless deep
  have ended := first m loopless deep
  cases ran : s m with
  | unfinished =>
    rw [ran] at ended
    exact ended.elim
  | failed e after =>
    rw [ran] at ended
    rw [Step.bind_failed ran]
    exact ended
  | done a middle =>
    rw [ran] at ended
    obtain ⟨holds, level, loopless⟩ := ended
    have later := next a holds middle loopless (by omega)
    rw [Step.bind_done ran]
    cases rest : f a middle with
    | done b after =>
      rw [rest] at later
      exact ⟨later.1, later.2.1.trans level, later.2.2⟩
    | failed e after =>
      rw [rest] at later
      exact later
    | unfinished =>
      rw [rest] at later
      exact later

theorem print (text : Bytes) : Terminates limits room (fun _ => True) (print text) :=
  fun _ loopless _ => ⟨trivial, rfl, loopless⟩

theorem readClock (clock : Nat → Float) : Terminates limits room (fun _ => True) (readClock clock) :=
  fun _ loopless _ => ⟨trivial, rfl, loopless⟩

theorem tick (span : Span) : Terminates limits room (fun _ => True) (tick limits span) := by
  intro m loopless _
  unfold Machine.tick
  dsimp only
  split
  · exact loopless
  · exact ⟨trivial, rfl, loopless⟩

theorem lookup (span : Span) (x : Bytes) : Terminates limits room Value.Loopless (lookup span x) := by
  intro m loopless _
  unfold Machine.lookup
  split
  · next found => exact ⟨loopless.get? found, rfl, loopless⟩
  · exact loopless

theorem define (x : Bytes) (new : v.Loopless) : Terminates limits room (fun _ => True) (define x v) :=
  fun _ loopless _ => ⟨trivial, rfl, loopless.define new _ x⟩

theorem assign (span : Span) (x : Bytes) (new : v.Loopless) :
    Terminates limits room (fun _ => True) (assign span x v) := by
  intro m loopless _
  unfold Machine.assign
  split
  · exact ⟨trivial, rfl, loopless.define new _ x⟩
  · exact loopless

theorem makeFunction (name : Bytes) (params : Params) {body : Block} (own : (Node.block body).Loopless) :
    Terminates limits room Value.Loopless (makeFunction name params body) :=
  fun _ loopless _ => ⟨own, rfl, loopless⟩

theorem inNewScope (parent : ScopeId) (inner : Terminates limits room P s) :
    Terminates limits room P (inNewScope parent s) := by
  intro m loopless deep
  have ended := inner (m.below parent) (loopless.extend _) deep
  unfold Machine.inNewScope
  revert ended
  cases s _ <;> exact id

theorem inBlock (inner : Terminates limits room P s) : Terminates limits room P (inBlock s) :=
  fun m => inNewScope m.scope inner m

theorem inCall (span : Span)
    (inner : ∀ m : Machine, m.heap.Loopless → limits.maxDepth ≤ m.depth + room → m.depth < limits.maxDepth →
      (s m.enterCall).Ended P m.enterCall) :
    Terminates limits room P (inCall limits span s) := by
  intro m loopless deep
  unfold Machine.inCall
  split
  · exact loopless
  · next shallow =>
    have ended := inner m loopless deep (Nat.lt_of_not_le shallow)
    revert ended
    cases s _ with
    | done a after => exact fun ended => ⟨ended.1, congrArg (· - 1) ended.2.1, ended.2.2⟩
    | failed e after => exact id
    | unfinished => exact id

theorem locating (span : Span) (inner : Terminates limits room P s) : Terminates limits room P (locating span s) := by
  intro m loopless deep
  have ended := inner m loopless deep
  unfold Machine.locating
  revert ended
  cases s m <;> exact id

end Terminates

def ending (limits : Limits) (room : Nat) : Comparison Step Step where
  World := Unit
  later _ _ := True
  inside := id
  moved := id
  value _ v w := v = w ∧ v.Loopless
  signal _ := Signal.Rel fun v w => v = w ∧ v.Loopless
  fits _ node := node.Loopless
  binds _ := True
  holds _ s _ := Terminates limits room (fun a => Yield.Rel (fun v w => v = w ∧ v.Loopless)
    (Signal.Rel fun v w => v = w ∧ v.Loopless) a a) s

def CallsEnd (host : Host) (room : Nat) : Prop :=
  ∀ span f args, (Node.block f.body).Loopless → (∀ v ∈ args, Value.Loopless v) →
    Terminates host.limits room Value.Loopless (inCall host.limits span (locating span (host.invoke f args)))

namespace CallsEnd

variable {host : Host} {room : Nat}

theorem steps (calls : CallsEnd host room) : (ending host.limits room).Steps host host where
  later_refl := trivial
  later_trans _ _ := trivial
  value_later _ same := same
  fits_later _ fit := fit
  binds_later _ _ := trivial
  like same := .of_eq same.1
  plain {_ v} isPlain := ⟨rfl, by cases v <;> trivial⟩
  next := .next
  returned _ := .returned
  ended := id
  part fit mem := fit.child (Node.mem_children mem)
  block fit := fit.child (.head _)
  declares _ := trivial
  names _ := trivial
  pure same := by
    obtain rfl := Yield.eq_of And.left (Signal.Rel.eq_of And.left) same
    exact .pure same
  bind first next := .bind first fun a holds => next () a a trivial holds
  equals := by
    rintro _ _ _ _ _ ⟨rfl, -⟩ ⟨rfl, -⟩
    rfl
  fail _ _ _ := .fail _ _
  lookup _ := (Terminates.lookup _ _).mono fun own => ⟨rfl, own⟩
  assign _ same := (Terminates.assign _ _ same.2).mono fun _ => trivial
  define _ same := (Terminates.define _ same.2).mono fun _ => trivial
  makeFunction name params fit mem := (Terminates.makeFunction name params (fit.child mem)).mono fun own => ⟨rfl, own⟩
  print text := (Terminates.print text).mono fun _ => trivial
  readClock := (Terminates.readClock host.clock).mono fun _ => rfl
  tick _ _ := (Terminates.tick _).mono fun _ => trivial
  inside _ inner := .inCall _ fun m loopless deep _ =>
    inner m.enterCall loopless (show host.limits.maxDepth ≤ m.depth + 1 + room by omega)
  call _ same each _ := by
    refine (calls _ _ _ same.2 fun v mem => ?_).mono fun own => ⟨rfl, own⟩
    obtain ⟨i, here, rfl⟩ := List.mem_iff_getElem.1 mem
    exact (each.get here (each.length_eq ▸ here)).2
  inBlock := .inBlock
  loop fit _ _ := (fit _ .self _ _ _ rfl).elim

theorem execProgram (calls : CallsEnd host room) {program : List Stmt}
    (loopless : ∀ s ∈ program, (Node.stmt s).Loopless) :
    Terminates host.limits room (fun _ => True) (execProgram host program) :=
  calls.steps.laws.execProgram_same rfl (w := ()) loopless

theorem functionBody (calls : CallsEnd host room) {f : Closure} (own : (Node.block f.body).Loopless)
    {args : List Value} (given : ∀ v ∈ args, v.Loopless) :
    Terminates host.limits room Value.Loopless (functionBody host f args) := by
  have body : Terminates host.limits room (fun v => v = v ∧ v.Loopless) (Evaluate.boundBody host.steps f args) :=
    calls.steps.laws.boundBody_same rfl (w := ()) trivial rfl rfl own
      (List.forall₂_same.2 fun v mem => ⟨rfl, given v mem⟩)
  exact .inNewScope f.scope (body.mono And.right)

end CallsEnd

-- The induction is on the levels of calls left: with none left a call fails at once, and otherwise the body
-- it runs has one level less.
theorem calls_end (limits : Limits) (clock : Nat → Float) (patience room : Nat) :
    CallsEnd (hostAt limits clock patience room) room := by
  induction room with
  | zero => exact fun span f args _ _ => .inCall span fun m _ deep shallow => by omega
  | succ room ih =>
    refine fun span f args own given => .inCall span fun m loopless deep _ => ?_
    have deeper : limits.maxDepth ≤ m.depth + (room + 1) := deep
    exact ((ih.functionBody own given).locating span) m.enterCall loopless
      (show limits.maxDepth ≤ m.depth + 1 + room by omega)

end Interpret

open Interpret in
theorem Interpreter.run_ended (i : Interpreter) (clock : Nat → Float) {program : List Stmt} {heap : Heap}
    (loopless : ∀ s ∈ program, (Node.stmt s).Loopless) (functions : heap.Loopless) (readings : Nat) :
    (i.run clock program heap readings).Ended (fun _ => True) ⟨heap, i.globals, 0, 0, readings, []⟩ :=
  (calls_end i.limits clock (rounds i.limits i.patience) i.limits.maxDepth).execProgram loopless _ functions
    (Nat.le_add_left _ _)

theorem loopless_runs_end (globals : ScopeId) (maxDepth : Int) (clock : Nat → Float) (program : List Stmt)
    (heap : Heap) (readings : Nat) (loopless : ∀ s ∈ program, (Node.stmt s).Loopless)
    (functions : heap.Loopless) :
    ∃ o m, o.machine? = some m ∧ m.heap.Loopless ∧ ∀ patience,
      (⟨globals, .ofSettings 0 maxDepth, patience⟩ : Interpreter).run clock program heap readings = o := by
  have ended := Interpreter.run_ended ⟨globals, .ofSettings 0 maxDepth, 0⟩ clock loopless functions readings
  obtain ⟨m, left, loopless⟩ := ended.machine?
  refine ⟨_, m, left, loopless, fun patience => ?_⟩
  let task : Task := ⟨globals, clock, program, heap, readings⟩
  have finished : task.run (.ofSettings 0 maxDepth) 0 ≠ .unfinished := by
    intro unfinished
    exact Option.some_ne_none m (left.symm.trans (congrArg Outcome.machine? unfinished))
  -- nobody had to wait for a loop, so no more patience is of any use
  exact Task.run_patient (Nat.zero_le patience) rfl finished

def selfPassing (x : UInt8) : Stmt :=
  .expr .unknown (.call .unknown (.name .unknown [x]) [.name .unknown [x]])

theorem selfPassing_loopless (x : UInt8) : (Node.stmt (selfPassing x)).Loopless := by
  have leaf : (Node.expr (.name .unknown [x])).Loopless := .of_children nofun fun _ mem => nomatch mem
  have call : (Node.expr (.call .unknown (.name .unknown [x]) [.name .unknown [x]])).Loopless :=
    .of_children nofun (by simp [Node.children, leaf])
  exact .of_children nofun (by simp [selfPassing, Node.children, call])

def passing : Heap :=
  ⟨#[⟨[([103], .function 0 ⟨[103], some [[104]], .braces .unknown [selfPassing 104], 0⟩)], none⟩], 1⟩

theorem loopless_runs_end_passing :
    (∀ s ∈ [selfPassing 103], (Node.stmt s).Loopless) ∧ passing.Loopless ∧
    ∃ o m, o.machine? = some m ∧ m.steps = 4 ∧ ∀ patience,
      (⟨0, .ofSettings 0 3, patience⟩ : Interpreter).run (fun _ => 0) [selfPassing 103] passing 0 = o := by
  have loopless : ∀ s ∈ [selfPassing 103], (Node.stmt s).Loopless := by simp [selfPassing_loopless]
  have functions : passing.Loopless := by
    intro id s here entry mem
    have first : id = 0 := by simpa [passing] using (Array.getElem?_eq_some_iff.1 here).1
    subst first
    cases here
    cases List.mem_singleton.1 mem
    exact .of_children nofun (by simp [Node.children, selfPassing_loopless])
  obtain ⟨o, m, left, _, same⟩ :=
    loopless_runs_end 0 3 (fun _ => 0) [selfPassing 103] passing 0 loopless functions
  have counted : ((⟨0, .ofSettings 0 3, 0⟩ : Interpreter).run (fun _ => 0) [selfPassing 103] passing 0).machine?.map
      (·.steps) = some 4 := by decide +kernel
  rw [same 0, left] at counted
  exact ⟨loopless, functions, o, m, left, Option.some.inj counted, same⟩

end TinyScript
