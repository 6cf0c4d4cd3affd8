import Mathlib.Data.List.Find
import TinyScript.Proofs.Heap
import TinyScript.Run.Machine

namespace TinyScript

namespace Scope

theorem get?_eq_none {s : Scope} : s.get? x = none ↔ x ∉ s.names := by
  unfold get? names
  rw [List.lookup_eq_none_iff, List.mem_map, not_exists]
  refine forall_congr' fun entry => ?_
  rw [not_and, bne_iff_ne, ne_comm]

theorem get?_put (s : Scope) (x y : Bytes) (v : Value) :
    (s.put x v).get? y = if y = x then some v else s.get? y := by
  unfold put get?
  dsimp only
  induction s.bindings with
  | nil =>
    rw [putIn, List.lookup_cons]
    by_cases same : y = x <;> simp [same, beq_eq_false_iff_ne.2]
  | cons entry rest ih =>
    unfold putIn
    by_cases isX : entry.1 = x
    · rw [if_pos isX, List.lookup_cons, List.lookup_cons, isX]
      by_cases same : y = x <;> simp [same, beq_eq_false_iff_ne.2]
    · rw [if_neg isX, List.lookup_cons, List.lookup_cons, ih]
      by_cases same : y = x
      · have other : (x == entry.1) = false := by simpa using Ne.symm isX
        simp [same, other]
      · rw [if_neg same, if_neg same]

end Scope

namespace Heap

def own? (h : Heap) (id : ScopeId) (x : Bytes) : Option Value := h.scopes[id]?.bind (·.get? x)

theorem get?_eq_own? (h : Heap) (id : ScopeId) (x : Bytes) :
    h.get? id x = (h.resolve? id x).bind fun found => h.own? found x := rfl

inductive Chain (h : Heap) : ScopeId → List ScopeId → Prop where
  | root {s : Scope} : h.scopes[i]? = some s → s.parent = none → h.Chain i [i]
  | child {s : Scope} : h.scopes[i]? = some s → s.parent = some parent → h.Chain parent ids → h.Chain i (i :: ids)

-- A heap that came about by its operations. A new scope has no parent, or one that is there.
inductive Built : Heap → Prop where
  | empty : Built .empty
  | extend {parent : Option ScopeId} : Built h → (∀ p ∈ parent, p < h.scopes.size) → Built (h.extend parent).2
  | define (id : ScopeId) (x : Bytes) (v : Value) : Built h → Built (h.define id x v)
  | assign : Built h → h.assign? i x v = some h' → Built h'
  | identity : Built h → Built h.identity.2

def Rooted (h : Heap) : Prop :=
  ∀ (id : ScopeId) (s : Scope) (parent : ScopeId), h.scopes[id]? = some s → s.parent = some parent → parent < id

variable {h : Heap} {id : ScopeId}

theorem mem_names : x ∈ h.names id ↔ ∃ s, h.scopes[id]? = some s ∧ x ∈ s.names := by
  unfold names
  rw [List.mem_mergeSort]
  cases h.scopes[id]? <;> simp [Scope.names]

theorem mem_names_iff : x ∈ h.names id ↔ h.own? id x ≠ none := by
  rw [mem_names, own?]
  cases h.scopes[id]? <;> simp [Scope.get?_eq_none]

theorem own?_define (h : Heap) (id i : ScopeId) (x y : Bytes) (v : Value) :
    (h.define id x v).own? i y = if i = id ∧ i < h.scopes.size ∧ y = x then some v else h.own? i y := by
  unfold own?
  rw [scopes_define]
  by_cases target : id = i
  · subst target
    by_cases there : id < h.scopes.size
    · simp [there, Scope.get?_put]
    · simp [there]
  · simp [target, Ne.symm target]

theorem mem_names_define (h : Heap) (id i : ScopeId) (x y : Bytes) (v : Value) :
    y ∈ (h.define id x v).names i ↔ i = id ∧ i < h.scopes.size ∧ y = x ∨ y ∈ h.names i := by
  rw [mem_names_iff, mem_names_iff, own?_define]
  split
  · next changed => exact iff_of_true nofun (.inl changed)
  · next other => rw [or_iff_right other]

namespace Rooted

theorem define (rooted : h.Rooted) (id : ScopeId) (x : Bytes) (v : Value) : (h.define id x v).Rooted := by
  intro i s parent here up
  rw [scopes_define] at here
  split at here
  · obtain ⟨old, there, rfl⟩ := Option.map_eq_some_iff.1 here
    exact rooted i old parent there up
  · exact rooted i s parent here up

theorem extend (rooted : h.Rooted) {parent : Option ScopeId} (there : ∀ p ∈ parent, p < h.scopes.size) :
    (h.extend parent).2.Rooted := by
  intro i s p here up
  rw [scopes_extend] at here
  split at here
  · next isNew =>
    cases here
    exact isNew ▸ there p up
  · exact rooted i s p here up

theorem chain (rooted : h.Rooted) (there : id < h.scopes.size) : ∃ ids, h.Chain id ids := by
  induction id using Nat.strongRecOn with
  | ind id ih =>
    have here : h.scopes[id]? = some h.scopes[id] := Array.getElem?_eq_getElem there
    cases up : h.scopes[id].parent with
    | none => exact ⟨[id], .root here up⟩
    | some parent =>
      have older := rooted id _ parent here up
      obtain ⟨ids, chain⟩ := ih parent older (Nat.lt_trans older there)
      exact ⟨id :: ids, .child here up chain⟩

-- A name refers to the first scope on the chain that binds it. No parent is passed over, since all are older.
theorem resolve?_chain (rooted : h.Rooted) (chain : h.Chain id ids) (x : Bytes) :
    h.resolve? id x = ids.find? fun i => x ∈ h.names i := by
  have binds_iff {i : ScopeId} {s : Scope} (here : h.scopes[i]? = some s) : s.binds x = true ↔ x ∈ h.names i := by
    rw [Scope.binds_iff_mem_names, mem_names, here]
    simp
  induction chain with
  | @root id s here up =>
    rw [resolve?_eq here, List.find?_cons]
    by_cases binds : x ∈ h.names id
    · simp [binds, (binds_iff here).2 binds]
    · simp [binds, mt (binds_iff here).1 binds, up]
  | @child id parent ids s here up _ ih =>
    have older := rooted id s parent here up
    rw [resolve?_eq here, List.find?_cons]
    by_cases binds : x ∈ h.names id
    · simp [binds, (binds_iff here).2 binds]
    · simp [binds, mt (binds_iff here).1 binds, up, older, ih]

end Rooted

theorem Built.rooted (built : h.Built) : h.Rooted := by
  induction built with
  | empty => exact fun id s parent here => nomatch here
  | extend _ there ih => exact ih.extend there
  | define id x v _ ih => exact ih.define id x v
  | assign _ assigned ih =>
    obtain ⟨target, _, rfl⟩ := Option.map_eq_some_iff.1 assigned
    exact ih.define target _ _
  | identity _ ih => exact ih

theorem Chain.define (chain : h.Chain id ids) (target : ScopeId) (x : Bytes) (v : Value) :
    (h.define target x v).Chain id ids := by
  have kept {i : ScopeId} {s : Scope} (here : h.scopes[i]? = some s) :
      ∃ s', (h.define target x v).scopes[i]? = some s' ∧ s'.parent = s.parent := by
    obtain ⟨s', here', parent, _⟩ := Kept.define h target x v i s here
    exact ⟨s', here', parent⟩
  induction chain with
  | root here up =>
    obtain ⟨s', here', parent⟩ := kept here
    exact .root here' (parent.trans up)
  | child here up _ ih =>
    obtain ⟨s', here', parent⟩ := kept here
    exact .child here' (parent.trans up) ih

theorem Chain.mem_lt (chain : h.Chain id ids) (mem : i ∈ ids) : i < h.scopes.size := by
  induction chain with
  | root here _ =>
    obtain rfl := List.mem_singleton.1 mem
    exact (Array.getElem?_eq_some_iff.1 here).1
  | child here _ _ ih =>
    rcases List.mem_cons.1 mem with rfl | mem
    · exact (Array.getElem?_eq_some_iff.1 here).1
    · exact ih mem

theorem resolve?_absent (absent : h.scopes.size ≤ id) (x : Bytes) : h.resolve? id x = none := by
  rw [resolve?, Array.getElem?_eq_none absent]

theorem get?_eq_none : h.get? id x = none ↔ h.resolve? id x = none := by
  rw [get?_eq_own?]
  cases found : h.resolve? id x with
  | none => exact iff_of_true rfl rfl
  | some target =>
    obtain ⟨s, here, binds⟩ := binds_of_resolve? found
    have bound : h.own? target x ≠ none :=
      mem_names_iff.1 (mem_names.2 ⟨s, here, Scope.binds_iff_mem_names.1 binds⟩)
    exact iff_of_false bound nofun

theorem assign?_eq_none : h.assign? id x v = none ↔ h.get? id x = none := by
  rw [get?_eq_none]
  exact Option.map_eq_none_iff

section

variable (found : h.resolve? id x = some target) (v : Value)
include found

theorem resolve?_assigned (e : ScopeId) (y : Bytes) : (h.define target x v).resolve? e y = h.resolve? e y := by
  by_cases there : e < h.scopes.size
  · exact (Kept.assign found v).resolve? there y
  · have absent : h.scopes.size ≤ e := Nat.le_of_not_lt there
    rw [resolve?_absent absent, resolve?_absent (by rwa [define, Array.size_modify])]

theorem names_assigned (e : ScopeId) : (h.define target x v).names e = h.names e := by
  unfold names
  cases here : h.scopes[e]? with
  | none => rw [scopes_define, here, Option.map_none, ite_self]
  | some s =>
    have kept : h.Kept (fun _ => False) (h.define target x v) := Kept.assign found v
    obtain ⟨s', here', _, same⟩ := kept e s here
    rw [here']
    exact congrArg (List.mergeSort · Bytes.le) (same not_false)

theorem get?_assigned (e : ScopeId) (y : Bytes) : (h.define target x v).get? e y =
    if y = x ∧ h.resolve? e x = some target then some v else h.get? e y := by
  obtain ⟨s, here, _⟩ := binds_of_resolve? found
  have there : target < h.scopes.size := (Array.getElem?_eq_some_iff.1 here).1
  rw [get?_eq_own?, get?_eq_own?, resolve?_assigned found]
  by_cases seen : y = x ∧ h.resolve? e x = some target
  · obtain ⟨rfl, same⟩ := seen
    rw [if_pos ⟨rfl, same⟩, same, Option.bind_some, own?_define, if_pos ⟨rfl, there, rfl⟩]
  · rw [if_neg seen]
    cases other : h.resolve? e y with
    | none => rfl
    | some i =>
      rw [Option.bind_some, Option.bind_some, own?_define, if_neg]
      rintro ⟨rfl, _, rfl⟩
      exact seen ⟨rfl, other⟩

end

theorem find?_beside {q : ScopeId → Prop} [DecidablePred q] {ids : List ScopeId}
    (other : ids.find? (fun i => i = id ∨ q i) ≠ some id) :
    ids.find? (fun i => i = id ∨ q i) = ids.find? fun i => q i := by
  induction ids with
  | nil => rfl
  | cons i ids ih =>
    rw [List.find?_cons] at other
    rw [List.find?_cons, List.find?_cons]
    by_cases isId : i = id
    · simp [isId] at other
    · by_cases holds : q i
      · simp [holds]
      · simp only [isId, holds, or_self, decide_false] at other ⊢
        exact ih other

-- A definition shows where the scope comes first among those that bind the name by then.
theorem Rooted.get?_define (rooted : h.Rooted) (chain : h.Chain e ids) (id : ScopeId) (x y : Bytes) (v : Value) :
    (h.define id x v).get? e y =
      if y = x ∧ ids.find? (fun i => i = id ∨ x ∈ h.names i) = some id then some v else h.get? e y := by
  have before := rooted.resolve?_chain chain y
  have after : (h.define id x v).resolve? e y = ids.find? fun i => i = id ∧ y = x ∨ y ∈ h.names i := by
    rw [(rooted.define id x v).resolve?_chain (chain.define id x v)]
    refine List.find?_congr fun i mem => ?_
    simp [mem_names_define, chain.mem_lt mem]
  rw [get?_eq_own?, get?_eq_own?]
  by_cases seen : y = x ∧ ids.find? (fun i => i = id ∨ x ∈ h.names i) = some id
  · obtain ⟨rfl, first⟩ := seen
    have there := chain.mem_lt (List.mem_of_find?_eq_some first)
    simp only [and_true] at after
    rw [if_pos ⟨rfl, first⟩, after, first, Option.bind_some, own?_define, if_pos ⟨rfl, there, rfl⟩]
  · have same : (h.define id x v).resolve? e y = h.resolve? e y := by
      rw [before, after]
      by_cases isX : y = x
      · subst isX
        simp only [and_true]
        exact find?_beside fun first => seen ⟨rfl, first⟩
      · simp only [isX, and_false, false_or]
    rw [if_neg seen, same]
    cases found : h.resolve? e y with
    | none => rfl
    | some target =>
      rw [Option.bind_some, Option.bind_some, own?_define, if_neg]
      rintro ⟨rfl, _, rfl⟩
      simp only [and_true] at after
      exact seen ⟨rfl, by rw [← after, same, found]⟩

end Heap

theorem Machine.assign_eq (m : Machine) (span : Span) (x : Bytes) (v : Value) :
    Machine.assign span x v m = (m.heap.assign? m.scope x v).elim
      (.failed (.runtime ⟨.undefinedVariable x, span⟩) m) fun heap => .done () { m with heap := heap } := by
  unfold assign Heap.assign?
  cases m.heap.resolve? m.scope x <;> rfl

theorem changes_seen_exactly (built : h.Built) :
    (∀ id < h.scopes.size, ∃ ids, h.Chain id ids ∧ ∀ x,
      h.resolve? id x = (ids.find? fun i => x ∈ h.names i) ∧
      h.get? id x = (h.resolve? id x).bind fun i => h.own? i x) ∧
    (∀ id x v, (h.assign? id x v = none ↔ h.get? id x = none) ∧
      ∀ (m : Machine) span, m.heap = h → m.scope = id → h.assign? id x v = none →
        Machine.assign span x v m = .failed (.runtime ⟨.undefinedVariable x, span⟩) m) ∧
    (∀ id x v h', h.assign? id x v = some h' →
      (∀ e y, h'.get? e y = if y = x ∧ h.resolve? e x = h.resolve? id x then some v else h.get? e y) ∧
      ∀ e, h'.names e = h.names e) ∧
    ∀ id x v e ids, h.Chain e ids → ∀ y, (h.define id x v).get? e y =
      if y = x ∧ ids.find? (fun i => i = id ∨ x ∈ h.names i) = some id then some v else h.get? e y := by
  have rooted := built.rooted
  refine ⟨fun id there => ?_, fun id x v => ⟨Heap.assign?_eq_none, ?_⟩, fun id x v h' assigned => ?_, ?_⟩
  · obtain ⟨ids, chain⟩ := rooted.chain there
    exact ⟨ids, chain, fun x => ⟨rooted.resolve?_chain chain x, h.get?_eq_own? id x⟩⟩
  · rintro m span rfl rfl failed
    rw [m.assign_eq, failed]
    rfl
  · obtain ⟨target, found, rfl⟩ := Option.map_eq_some_iff.1 assigned
    rw [found]
    exact ⟨Heap.get?_assigned found v, Heap.names_assigned found v⟩
  · exact fun id x v e ids chain y => rooted.get?_define chain id x y v

-- Two scopes below one, of which the first shadows the name.
def siblings : Heap :=
  let top := (Heap.empty.extend none).2.define 0 (text "a") (.boolean true)
  let shadowing := (top.extend (some 0)).2.define 1 (text "a") .nil
  (shadowing.extend (some 0)).2

theorem changes_seen_siblings : siblings.Built ∧
    (∃ h, siblings.assign? 2 (text "a") (.boolean false) = some h ∧
      h.get? 0 (text "a") = some (.boolean false) ∧ h.get? 1 (text "a") = siblings.get? 1 (text "a")) ∧
    (siblings.define 2 (text "a") (.boolean false)).get? 2 (text "a") = some (.boolean false) ∧
    (siblings.define 2 (text "a") (.boolean false)).get? 0 (text "a") = siblings.get? 0 (text "a") := by
  have built : siblings.Built :=
    .extend (.define 1 _ _ (.extend (.define 0 _ _ (.extend .empty nofun)) (by simp [Heap.extend, Heap.define])))
      (by simp [Heap.extend, Heap.define])
  obtain ⟨_, _, assigned, defined⟩ := changes_seen_exactly built
  have found : siblings.resolve? 2 (text "a") = some 0 ∧ siblings.resolve? 0 (text "a") = some 0 ∧
      siblings.resolve? 1 (text "a") = some 1 := by decide +kernel
  have change : siblings.assign? 2 (text "a") (.boolean false) =
      some (siblings.define 0 (text "a") (.boolean false)) := by
    rw [Heap.assign?, found.1]
    rfl
  obtain ⟨seen, _⟩ := assigned 2 (text "a") (.boolean false) _ change
  have top : siblings.Chain 0 [0] := .root rfl rfl
  have below : siblings.Chain 2 [2, 0] := .child rfl rfl top
  refine ⟨built, ⟨_, change, ?_, ?_⟩, ?_, ?_⟩
  · rw [seen, found.1, found.2.1]
    rfl
  · rw [seen, found.1, found.2.2]
    rfl
  · rw [defined 2 (text "a") (.boolean false) 2 _ below, if_pos (by decide +kernel)]
  · rw [defined 2 (text "a") (.boolean false) 0 _ top, if_neg (by decide +kernel)]

end TinyScript
