import TinyScript.Proofs.Heap
import TinyScript.Proofs.Run.Relation

namespace TinyScript

section

variable (g : Position → Position)

def Closure.relocate (f : Closure) : Closure := { f with body := f.body.relocate g }

def Value.relocate : Value → Value
  | .function identity f => .function identity (f.relocate g)
  | v => v

def Scope.relocate (s : Scope) : Scope :=
  { s with bindings := s.bindings.map fun entry => (entry.1, entry.2.relocate g) }

def Heap.relocate (h : Heap) : Heap := { h with scopes := h.scopes.map (Scope.relocate g) }

def RuntimeError.relocate (e : RuntimeError) : RuntimeError := { e with span := e.span.relocate g }

def Failure.relocate : Failure → Failure
  | .runtime e => .runtime (e.relocate g)
  | .builtin fault => .builtin fault

end

-- What is different about a machine: the places in the trees it holds, and its past.
structure Transfer where
  place : Position → Position
  steps : Nat
  printed : List Bytes

def Machine.transfer (k : Transfer) (m : Machine) : Machine :=
  { m with heap := m.heap.relocate k.place, steps := m.steps + k.steps, printed := m.printed ++ k.printed }

def Outcome.transfer (k : Transfer) : Outcome α → Outcome α
  | .done a m => .done a (m.transfer k)
  | .failed e m => .failed (e.relocate k.place) (m.transfer k)
  | .unfinished => .unfinished

section

variable {g : Position → Position}

theorem Value.like_relocate (v : Value) : v.Like (v.relocate g) := by
  cases v with
  | function identity f => exact .function rfl rfl
  | _ => exact .refl _

theorem Value.equals_relocate (v w : Value) : (v.relocate g).equals (w.relocate g) = v.equals w := by
  cases v <;> cases w <;> rfl

theorem Failure.locate_relocate (e : Failure) (span : Span) :
    (e.locate span).relocate g = (e.relocate g).locate (span.relocate g) := by
  cases e <;> rfl

namespace Scope

theorem binds_relocate (s : Scope) (x : Bytes) : (s.relocate g).binds x = s.binds x := by
  unfold binds relocate
  rw [List.any_map]
  rfl

theorem get?_relocate (s : Scope) (x : Bytes) :
    (s.relocate g).get? x = (s.get? x).map (Value.relocate g) := by
  obtain ⟨bindings, parent⟩ := s
  show (bindings.map _).lookup x = (bindings.lookup x).map _
  induction bindings with
  | nil => rfl
  | cons entry rest ih =>
    rw [List.map_cons, List.lookup_cons, List.lookup_cons]
    split
    · rfl
    · exact ih

theorem put_relocate (s : Scope) (x : Bytes) (v : Value) :
    (s.put x v).relocate g = (s.relocate g).put x (v.relocate g) := by
  obtain ⟨bindings, parent⟩ := s
  unfold put relocate
  congr 1
  induction bindings with
  | nil => rfl
  | cons entry rest ih =>
    dsimp only at ih ⊢
    rw [putIn, List.map_cons, putIn]
    split
    · rfl
    · rw [List.map_cons, ih]

end Scope

namespace Heap

theorem scopes_relocate (h : Heap) (id : ScopeId) :
    (h.relocate g).scopes[id]? = h.scopes[id]?.map (Scope.relocate g) := Array.getElem?_map

theorem resolve?_relocate (h : Heap) (id : ScopeId) (x : Bytes) :
    (h.relocate g).resolve? id x = h.resolve? id x := by
  induction id using Nat.strongRecOn with
  | ind id ih =>
    cases here : h.scopes[id]? with
    | none => rw [resolve?, resolve?, scopes_relocate, here]; rfl
    | some s =>
      have here' : (h.relocate g).scopes[id]? = some (s.relocate g) := by rw [scopes_relocate, here]; rfl
      rw [resolve?_eq here, resolve?_eq here', Scope.binds_relocate]
      show (if _ then _ else s.parent.bind _) = _
      cases s.parent with
      | none => rfl
      | some parent =>
        simp only [Option.bind_some]
        split
        · rfl
        · split
          · next older => exact ih parent older
          · rfl

theorem get?_relocate (h : Heap) (id : ScopeId) (x : Bytes) :
    (h.relocate g).get? id x = (h.get? id x).map (Value.relocate g) := by
  unfold get?
  rw [resolve?_relocate]
  cases h.resolve? id x with
  | none => rfl
  | some found =>
    show ((h.relocate g).scopes[found]?.bind fun s => s.get? x) =
      (h.scopes[found]?.bind fun s => s.get? x).map _
    rw [scopes_relocate]
    cases h.scopes[found]? with
    | none => rfl
    | some s => exact s.get?_relocate x

theorem define_relocate (h : Heap) (id : ScopeId) (x : Bytes) (v : Value) :
    (h.define id x v).relocate g = (h.relocate g).define id x (v.relocate g) := by
  have same : ((h.define id x v).relocate g).scopes = ((h.relocate g).define id x (v.relocate g)).scopes := by
    refine Array.ext_getElem? fun i => ?_
    rw [scopes_relocate, scopes_define, scopes_define, scopes_relocate]
    split
    · cases h.scopes[i]? with
      | none => rfl
      | some s => exact congrArg some (s.put_relocate x v)
    · rfl
  exact congrArg (Heap.mk · h.identities) same

theorem extend_relocate (h : Heap) (parent : Option ScopeId) :
    (h.extend parent).2.relocate g = ((h.relocate g).extend parent).2 := by
  unfold extend relocate
  congr 1
  exact Array.map_push

theorem names_relocate (h : Heap) (id : ScopeId) : (h.relocate g).names id = h.names id := by
  unfold names
  rw [scopes_relocate]
  cases h.scopes[id]? with
  | none => rfl
  | some s =>
    show ((s.bindings.map _).map _).mergeSort _ = _
    rw [List.map_map]
    rfl

theorem listing_relocate (h : Heap) (id : ScopeId) :
    (h.relocate g).listing id = (h.listing id).map fun entry => (entry.1, entry.2.relocate g) := by
  unfold listing
  rw [names_relocate, List.map_filterMap]
  refine congrArg (List.filterMap · _) (funext fun x => ?_)
  rw [get?_relocate]
  cases h.get? id x <;> rfl

end Heap

end

namespace Machine

variable (k : Transfer) (m : Machine)

theorem below_transfer (parent : ScopeId) : (m.transfer k).below parent = (m.below parent).transfer k := by
  unfold below transfer
  dsimp only
  rw [Heap.extend_relocate]
  show Machine.mk _ (m.heap.scopes.map _).size _ _ _ _ = _
  rw [Array.size_map]
  rfl

end Machine

inductive Outcome.Transferred (k : Transfer) (R : α → α → Prop) : Outcome α → Outcome α → Prop where
  | done : R a b → Transferred k R (.done a m) (.done b (m.transfer k))
  | failed : Transferred k R (.failed e m) (.failed (e.relocate k.place) (m.transfer k))
  | unfinished : Transferred k R .unfinished .unfinished

namespace Outcome.Transferred

variable {k : Transfer} {R : α → α → Prop} {o o' : Outcome α}

theorem adjust (same : o.Transferred k R o') {change : Machine → Machine}
    (agree : ∀ m, change (m.transfer k) = (change m).transfer k) :
    (o.adjust change).Transferred k R (o'.adjust change) := by
  cases same with
  | done same =>
    unfold Outcome.adjust
    dsimp only
    rw [agree]
    exact .done same
  | failed =>
    unfold Outcome.adjust
    dsimp only
    rw [agree]
    exact .failed
  | unfinished => exact .unfinished

theorem locate (same : o.Transferred k R o') (span : Span) :
    (o.locate span).Transferred k R (o'.locate (span.relocate k.place)) := by
  cases same with
  | done same => exact .done same
  | failed =>
    unfold Outcome.locate
    dsimp only
    rw [← Failure.locate_relocate]
    exact .failed
  | unfinished => exact .unfinished

theorem eq {o o' : Outcome Unit} (same : o.Transferred k S o') : o' = o.transfer k := by
  cases same <;> rfl

end Outcome.Transferred

namespace Interpret

open Machine

def Transfers (k : Transfer) (R : α → α → Prop) (s t : Step α) : Prop :=
  ∀ m, (s m).Transferred k R (t (m.transfer k))

namespace Transfers

variable {k : Transfer} {R : α → α → Prop} {S : β → β → Prop} {s t : Step α}

theorem pure (same : R a b) : Transfers k R (Pure.pure a) (Pure.pure b) := fun _ => .done same

theorem bind {f g : α → Step β} (first : Transfers k R s t) (second : ∀ a b, R a b → Transfers k S (f a) (g b)) :
    Transfers k S (s >>= f) (t >>= g) := by
  intro m
  have there := first m
  generalize near : s m = o, far : t (m.transfer k) = o' at there
  cases there with
  | done same =>
    rw [Step.bind_done near, Step.bind_done far]
    exact second _ _ same _
  | failed =>
    rw [Step.bind_failed near, Step.bind_failed far]
    exact .failed
  | unfinished =>
    rw [Step.bind_unfinished near, Step.bind_unfinished far]
    exact .unfinished

theorem lookup (span : Span) (x : Bytes) :
    Transfers k (fun v w => w = v.relocate k.place) (lookup span x) (lookup (span.relocate k.place) x) := by
  intro m
  have found : (m.transfer k).heap.get? (m.transfer k).scope x =
      (m.heap.get? m.scope x).map (Value.relocate k.place) := m.heap.get?_relocate m.scope x
  unfold Machine.lookup
  rw [found]
  cases m.heap.get? m.scope x with
  | some v => exact .done rfl
  | none => exact .failed

theorem define (x : Bytes) (v : Value) : Transfers k (fun _ _ => True) (define x v) (define x (v.relocate k.place)) := by
  intro m
  unfold Machine.define Machine.transfer
  dsimp only
  rw [← Heap.define_relocate]
  exact .done (m := { m with heap := m.heap.define m.scope x v }) trivial

theorem assign (span : Span) (x : Bytes) (v : Value) : Transfers k (fun _ _ => True) (assign span x v)
    (assign (span.relocate k.place) x (v.relocate k.place)) := by
  intro m
  have found : (m.transfer k).heap.resolve? (m.transfer k).scope x = m.heap.resolve? m.scope x :=
    m.heap.resolve?_relocate m.scope x
  unfold Machine.assign
  rw [found]
  cases m.heap.resolve? m.scope x with
  | none => exact .failed
  | some id =>
    dsimp only [Machine.transfer]
    rw [← Heap.define_relocate]
    exact .done (m := { m with heap := m.heap.define id x v }) trivial

theorem tick {limits : Limits} (free : limits.maxSteps = 0 ∨ k.steps = 0) (span : Span) :
    Transfers k (fun _ _ => True) (tick limits span) (tick limits (span.relocate k.place)) := by
  intro m
  have counted : { m.transfer k with steps := m.steps + k.steps + 1 } =
      { m with steps := m.steps + 1 }.transfer k := by
    rw [Nat.add_right_comm]
    rfl
  have budget : (0 < limits.maxSteps ∧ limits.maxSteps < m.steps + k.steps + 1) ↔
      (0 < limits.maxSteps ∧ limits.maxSteps < m.steps + 1) := by
    omega
  unfold Machine.tick
  show Outcome.Transferred k _ _ (if 0 < limits.maxSteps ∧ limits.maxSteps < m.steps + k.steps + 1 then
    Outcome.failed _ { m.transfer k with steps := m.steps + k.steps + 1 } else
    Outcome.done _ { m.transfer k with steps := m.steps + k.steps + 1 })
  rw [counted]
  simp only [budget]
  split
  · exact .failed
  · exact .done trivial

theorem inNewScope (parent : ScopeId) (inner : Transfers k R s t) :
    Transfers k R (inNewScope parent s) (inNewScope parent t) := by
  intro m
  unfold Machine.inNewScope
  rw [below_transfer]
  exact (inner _).adjust fun _ => rfl

theorem inBlock (inner : Transfers k R s t) : Transfers k R (inBlock s) (inBlock t) :=
  fun m => inNewScope m.scope inner m

theorem inCall (limits : Limits) (span : Span) (inner : Transfers k R s t) :
    Transfers k R (inCall limits span s) (inCall limits (span.relocate k.place) t) := by
  intro m
  show Outcome.Transferred k R (if limits.maxDepth ≤ m.depth then _ else _)
    (if limits.maxDepth ≤ m.depth then _ else (t (m.enterCall.transfer k)).adjust leaveCall)
  split
  · exact .failed
  · exact (inner _).adjust fun _ => rfl

theorem locating (span : Span) (inner : Transfers k R s t) :
    Transfers k R (locating span s) (locating (span.relocate k.place) t) :=
  fun m => (inner m).locate span

theorem repeating {round round' : Step (Option Signal)} {R : Signal → Signal → Prop}
    (inner : Transfers k (Option.Rel R) round round') (patience : Nat) :
    Transfers k R (repeating patience round) (repeating patience round') := by
  induction patience with
  | zero => exact fun _ => .unfinished
  | succ patience ih =>
    rw [repeating_succ, repeating_succ]
    refine bind inner fun signal signal' same => ?_
    cases same with
    | none => exact ih
    | some same => exact pure same

end Transfers

variable {k : Transfer}

-- The second tree stands elsewhere, and its functions do.
def transferring (k : Transfer) : Comparison Step Step where
  World := Unit
  later _ _ := True
  inside := id
  moved := k.place
  value _ v w := w = v.relocate k.place
  signal _ := Signal.Rel fun v w => w = v.relocate k.place
  fits _ _ := True
  binds _ := True
  holds _ := Transfers k (Yield.Rel (fun v w => w = v.relocate k.place) (Signal.Rel fun v w => w = v.relocate k.place))

theorem transferring_lawful (k : Transfer) : (transferring k).Lawful where
  later_refl := trivial
  later_trans _ _ := trivial
  value_later _ same := same
  fits_later _ _ := trivial
  binds_later _ _ := trivial
  like := by
    rintro _ v _ rfl
    exact v.like_relocate
  plain {_ v} isPlain := by cases v <;> first | rfl | cases isPlain
  next := .next
  returned _ := .returned
  ended := id
  part _ _ := trivial
  block _ := trivial
  declares _ := trivial
  names _ := trivial
  pure := .pure
  bind first next := .bind first fun a b same => next () a b trivial same

theorem map_relocate (each : List.Forall₂ ((transferring k).value w) args args') :
    args' = args.map (Value.relocate k.place) := by
  induction each with
  | nil => rfl
  | cons same _ ih => rw [ih, same, List.map_cons]

structure Host.Transfers (k : Transfer) (host : Host) : Prop where
  free : host.limits.maxSteps = 0 ∨ k.steps = 0
  invoke : ∀ f args, Interpret.Transfers k (fun v w => w = v.relocate k.place) (host.invoke f args)
    (host.invoke (f.relocate k.place) (args.map (Value.relocate k.place)))

namespace Host.Transfers

variable {host : Host}

theorem steps (laws : Host.Transfers k host) : (transferring k).Steps host host where
  toLawful := transferring_lawful k
  equals := by
    rintro _ v _ u _ rfl rfl
    exact (v.equals_relocate u).symm
  fail _ _ _ := fun _ => .failed
  lookup _ := .lookup _ _
  assign := by
    rintro _ span x _ v _ _ rfl
    exact .assign span x v
  define := by
    rintro _ v _ x _ rfl
    exact .define x v
  makeFunction name params _ _ := fun _ => .done rfl
  print _ := fun _ => .done trivial
  readClock := fun _ => .done rfl
  tick _ _ := .tick laws.free _
  inside _ := .inCall host.limits _
  call := by
    rintro _ span _ _ _ c _ _ args args' _ ⟨⟩ each _
    obtain rfl := map_relocate each
    exact .inCall host.limits span (.locating span (laws.invoke c args))
  inBlock := .inBlock
  loop _ test run := by
    refine .repeating ((transferring_lawful k).round (fun _ _ => ?_) test run) host.patience
    exact .tick laws.free _

theorem functionBody (laws : Host.Transfers k host) (f : Closure) (args : List Value) :
    Interpret.Transfers k (fun v w => w = v.relocate k.place) (functionBody host f args)
      (functionBody host (f.relocate k.place) (args.map (Value.relocate k.place))) :=
  .inNewScope f.scope (laws.steps.laws.boundBody (w := ()) trivial rfl rfl trivial
    (List.forall₂_map_right_iff.2 (List.forall₂_same.2 fun _ _ => rfl)))

theorem execProgram (laws : Host.Transfers k host) (program : List Stmt) (m : Machine) :
    execProgram host (program.map (Stmt.relocate k.place)) (m.transfer k)
      = (execProgram host program m).transfer k :=
  (laws.steps.laws.execProgram (w := ()) (fun _ _ => trivial) m).eq

end Host.Transfers

theorem hostAt_transfers (limits : Limits) (clock : Nat → Float) (patience : Nat)
    (free : limits.maxSteps = 0 ∨ k.steps = 0) (room : Nat) :
    Host.Transfers k (hostAt limits clock patience room) := by
  refine ⟨free, fun f args => ?_⟩
  show Transfers k _ (invoke limits clock patience room f args) _
  induction room generalizing f args with
  | zero => exact fun _ => .unfinished
  | succ room ih =>
    rw [invoke_succ]
    exact Host.Transfers.functionBody ⟨free, ih⟩ f args

end Interpret

end TinyScript
