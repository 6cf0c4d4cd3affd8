import TinyScript.Heap

namespace TinyScript

namespace Scope

def names (s : Scope) : List Bytes := s.bindings.map (·.1)

theorem binds_iff_mem_names {s : Scope} : s.binds x = true ↔ x ∈ s.names := by
  simp [binds, names]

theorem binds_eq_of_names {s t : Scope} (same : s.names = t.names) (x : Bytes) : s.binds x = t.binds x := by
  rw [Bool.eq_iff_iff, binds_iff_mem_names, binds_iff_mem_names, same]

theorem map_fst_putIn (v : Value) {entries : List (Bytes × Value)} (bound : x ∈ entries.map (·.1)) :
    (putIn x v entries).map (·.1) = entries.map (·.1) := by
  induction entries with
  | nil => cases bound
  | cons entry rest ih =>
    unfold putIn
    split
    · rename_i isX
      simp [isX]
    · rename_i other
      rcases List.mem_cons.1 bound with isX | behind
      · exact absurd isX.symm other
      · simp [ih behind]

theorem names_put {s : Scope} (bound : s.binds x = true) (v : Value) : (s.put x v).names = s.names :=
  map_fst_putIn v (binds_iff_mem_names.1 bound)

theorem mem_putIn {entries : List (Bytes × Value)} (mem : entry ∈ putIn x v entries) :
    entry = (x, v) ∨ entry ∈ entries := by
  induction entries with
  | nil => exact .inl (List.mem_singleton.1 mem)
  | cons first rest ih =>
    unfold putIn at mem
    split at mem
    · exact (List.mem_cons.1 mem).imp_right (List.mem_cons_of_mem _)
    · rcases List.mem_cons.1 mem with isFirst | behind
      · exact .inr (isFirst ▸ List.mem_cons_self)
      · exact (ih behind).imp_right (List.mem_cons_of_mem _)

end Scope

namespace Heap

variable {h : Heap} {id target : ScopeId}

theorem scopes_define (id i : ScopeId) (x : Bytes) (v : Value) :
    (h.define id x v).scopes[i]? = if id = i then h.scopes[i]?.map (·.put x v) else h.scopes[i]? :=
  Array.getElem?_modify

theorem scopes_extend (i : ScopeId) (parent : Option ScopeId) :
    (h.extend parent).2.scopes[i]? = if i = h.scopes.size then some ⟨[], parent⟩ else h.scopes[i]? :=
  Array.getElem?_push

theorem resolve?_eq {s : Scope} (here : h.scopes[id]? = some s) (x : Bytes) : h.resolve? id x =
    if s.binds x then some id
    else s.parent.bind fun parent => if parent < id then h.resolve? parent x else none := by
  rw [resolve?, here]
  dsimp only
  split
  · rfl
  · cases s.parent <;> rfl

theorem binds_of_resolve? (found : h.resolve? id x = some target) :
    ∃ s, h.scopes[target]? = some s ∧ s.binds x = true := by
  fun_induction resolve? h id x generalizing target with
  | case1 => cases found
  | case2 id s here binds =>
    cases found
    exact ⟨s, here, binds⟩
  | case3 => cases found
  | case4 id s here other parent isParent older ih => exact ih found
  | case5 => cases found

def Holds (P : Value → Prop) (h : Heap) : Prop :=
  ∀ (id : ScopeId) (s : Scope), h.scopes[id]? = some s → ∀ entry ∈ s.bindings, P entry.2

namespace Holds

variable {P : Value → Prop}

theorem get? (holds : h.Holds P) (found : h.get? id x = some v) : P v := by
  unfold Heap.get? at found
  obtain ⟨target, _, found⟩ := Option.bind_eq_some_iff.1 found
  obtain ⟨s, here, bound⟩ := Option.bind_eq_some_iff.1 found
  obtain ⟨before, after, split, _⟩ := List.lookup_eq_some_iff.1 bound
  exact holds target s here (x, v) (split ▸ by simp)

theorem define (holds : h.Holds P) (new : P v) (id : ScopeId) (x : Bytes) : (h.define id x v).Holds P := by
  intro i s here entry mem
  rw [scopes_define] at here
  split at here
  · obtain ⟨old, there, rfl⟩ := Option.map_eq_some_iff.1 here
    rcases Scope.mem_putIn mem with rfl | before
    · exact new
    · exact holds i old there entry before
  · exact holds i s here entry mem

theorem extend (holds : h.Holds P) (parent : Option ScopeId) : (h.extend parent).2.Holds P := by
  intro i s here entry mem
  rw [scopes_extend] at here
  split at here
  · cases here
    cases mem
  · exact holds i s here entry mem

end Holds

-- The scopes of a heap are scopes of another one, under the same parents and with the same names,
-- those aside that may have got some.
def Kept (mayGrow : ScopeId → Prop) (before after : Heap) : Prop :=
  ∀ id s, before.scopes[id]? = some s →
    ∃ s', after.scopes[id]? = some s' ∧ s'.parent = s.parent ∧ (¬ mayGrow id → s'.names = s.names)

namespace Kept

variable {mayGrow : ScopeId → Prop} {before middle after : Heap}

theorem refl (h : Heap) : h.Kept mayGrow h := fun _ s here => ⟨s, here, rfl, fun _ => rfl⟩

theorem trans (first : before.Kept mayGrow middle) (second : middle.Kept mayGrow after) :
    before.Kept mayGrow after := by
  intro id s here
  obtain ⟨s', here', parent, names⟩ := first id s here
  obtain ⟨s'', here'', parent', names'⟩ := second id s' here'
  refine ⟨s'', here'', parent'.trans parent, fun fixed => ?_⟩
  rw [names' fixed, names fixed]

theorem mono {mayGrow' : ScopeId → Prop} (kept : before.Kept mayGrow after)
    (more : ∀ id, mayGrow id → mayGrow' id) : before.Kept mayGrow' after := by
  intro id s here
  obtain ⟨s', here', parent, names⟩ := kept id s here
  exact ⟨s', here', parent, fun fixed => names fun grows => fixed (more id grows)⟩

theorem define (h : Heap) (id : ScopeId) (x : Bytes) (v : Value) : h.Kept (· = id) (h.define id x v) := by
  intro i s here
  rw [scopes_define]
  by_cases target : id = i
  · rw [if_pos target, here]
    exact ⟨s.put x v, rfl, rfl, fun other => absurd target.symm other⟩
  · rw [if_neg target]
    exact ⟨s, here, rfl, fun _ => rfl⟩

theorem assign (found : h.resolve? id x = some target) (v : Value) :
    h.Kept mayGrow (h.define target x v) := by
  intro i s here
  rw [scopes_define]
  by_cases isTarget : target = i
  · obtain ⟨s', here', bound⟩ := binds_of_resolve? found
    rw [isTarget, here] at here'
    cases here'
    rw [if_pos isTarget, here]
    exact ⟨s.put x v, rfl, rfl, fun _ => Scope.names_put bound v⟩
  · rw [if_neg isTarget]
    exact ⟨s, here, rfl, fun _ => rfl⟩

-- A new scope is none of the old ones, so what it gets does not count against them.
theorem of_extend {parent : Option ScopeId}
    (kept : (h.extend parent).2.Kept (· = (h.extend parent).1) after) : h.Kept mayGrow after := by
  intro id s here
  have old : id ≠ h.scopes.size := Nat.ne_of_lt (Array.getElem?_eq_some_iff.1 here).1
  obtain ⟨s', here', parent', names⟩ := kept id s (by rw [scopes_extend, if_neg old, here])
  exact ⟨s', here', parent', fun _ => names old⟩

-- The induction goes up the chain of parents, each of them older than the scope below it.
theorem resolve? (kept : before.Kept (fun _ => False) after) (there : id < before.scopes.size)
    (x : Bytes) : after.resolve? id x = before.resolve? id x := by
  induction id using Nat.strongRecOn with
  | ind id ih =>
    have here : before.scopes[id]? = some before.scopes[id] := Array.getElem?_eq_getElem there
    obtain ⟨s', here', parent, names⟩ := kept id _ here
    rw [resolve?_eq here', resolve?_eq here, Scope.binds_eq_of_names (names not_false) x, parent]
    split
    · rfl
    · cases before.scopes[id].parent with
      | none => rfl
      | some up =>
        dsimp only [Option.bind_some]
        split
        · rename_i older
          exact ih up older (Nat.lt_trans older there)
        · rfl

end Kept

end Heap

end TinyScript
