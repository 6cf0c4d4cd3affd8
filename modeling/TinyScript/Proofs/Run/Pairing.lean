import TinyScript.Proofs.Heap
import TinyScript.Proofs.Run.Comparison
import TinyScript.Proofs.Tree.Places

namespace TinyScript

structure Pairing where
  twins : ScopeId → ScopeId → Prop
  -- a scope of the first heap that binds nothing, and what its parent stands for
  hollow : ScopeId → ScopeId → Prop
  identity : Nat → Nat → Prop
  twins_unique : ∀ {i j i' j'}, twins i j → twins i' j' → (i = i' ↔ j = j')
  identity_unique : ∀ {i j i' j'}, identity i j → identity i' j' → (i = i' ↔ j = j')
  hollow_alone : ∀ {i j j'}, hollow i j → ¬ twins i j'

namespace Pairing

def stands (k : Pairing) (i j : ScopeId) : Prop := k.twins i j ∨ k.hollow i j

def nothing : Pairing where
  twins _ _ := False
  hollow _ _ := False
  identity _ _ := False
  twins_unique := fun none => none.elim
  identity_unique := fun none => none.elim
  hollow_alone := fun none => none.elim

def withTwins (k : Pairing) (i j : ScopeId) (new : ∀ {i' j'}, k.twins i' j' → i' ≠ i ∧ j' ≠ j)
    (full : ∀ j', ¬ k.hollow i j') : Pairing where
  twins i' j' := k.twins i' j' ∨ i' = i ∧ j' = j
  hollow := k.hollow
  identity := k.identity
  twins_unique := by
    rintro a b a' b' (old | ⟨rfl, rfl⟩) (old' | ⟨rfl, rfl⟩)
    · exact k.twins_unique old old'
    · exact iff_of_false (new old).1 (new old).2
    · exact iff_of_false (new old').1.symm (new old').2.symm
    · exact iff_of_true rfl rfl
  identity_unique := k.identity_unique
  hollow_alone := by
    rintro a b b' isHollow (old | ⟨rfl, rfl⟩)
    · exact k.hollow_alone isHollow old
    · exact full b isHollow

def withHollow (k : Pairing) (i j : ScopeId) (new : ∀ {j'}, ¬ k.twins i j') : Pairing where
  twins := k.twins
  hollow i' j' := k.hollow i' j' ∨ i' = i ∧ j' = j
  identity := k.identity
  twins_unique := k.twins_unique
  identity_unique := k.identity_unique
  hollow_alone := by
    rintro a b b' (old | ⟨rfl, rfl⟩) isTwin
    · exact k.hollow_alone old isTwin
    · exact new isTwin

def withIdentity (k : Pairing) (i j : Nat) (new : ∀ {i' j'}, k.identity i' j' → (i' = i ↔ j' = j)) :
    Pairing where
  twins := k.twins
  hollow := k.hollow
  identity i' j' := k.identity i' j' ∨ i' = i ∧ j' = j
  twins_unique := k.twins_unique
  identity_unique := by
    rintro a b a' b' (old | ⟨rfl, rfl⟩) (old' | ⟨rfl, rfl⟩)
    · exact k.identity_unique old old'
    · exact new old
    · rw [eq_comm, new old', eq_comm]
    · exact iff_of_true rfl rfl
  hollow_alone := k.hollow_alone

structure Sub (k l : Pairing) : Prop where
  twins : ∀ {i j}, k.twins i j → l.twins i j
  hollow : ∀ {i j}, k.hollow i j → l.hollow i j
  identity : ∀ {i j}, k.identity i j → l.identity i j

variable {k l : Pairing}

theorem Sub.refl (k : Pairing) : k.Sub k := ⟨id, id, id⟩

theorem Sub.trans (first : k.Sub l) (second : l.Sub n) : k.Sub n :=
  ⟨second.twins ∘ first.twins, second.hollow ∘ first.hollow, second.identity ∘ first.identity⟩

theorem Sub.stands (more : k.Sub l) (stands : k.stands i j) : l.stands i j :=
  stands.imp more.twins more.hollow

theorem sub_withTwins {new : ∀ {i' j'}, k.twins i' j' → i' ≠ i ∧ j' ≠ j} {full : ∀ j', ¬ k.hollow i j'} :
    k.Sub (k.withTwins i j new full) := ⟨.inl, id, id⟩

theorem sub_withHollow {new : ∀ {j'}, ¬ k.twins i j'} : k.Sub (k.withHollow i j new) := ⟨id, .inl, id⟩

theorem sub_withIdentity {new : ∀ {i' j'}, k.identity i' j' → (i' = i ↔ j' = j)} :
    k.Sub (k.withIdentity i j new) := ⟨id, id, .inl⟩

end Pairing

-- The functions in play have bodies whose nodes begin at allowed places.
inductive Value.Paired (allowed : Position → Prop) (k : Pairing) : Value → Value → Prop where
  | nil : Paired allowed k .nil .nil
  | boolean (b : Bool) : Paired allowed k (.boolean b) (.boolean b)
  | number (x : Float) : Paired allowed k (.number x) (.number x)
  | string (s : Bytes) : Paired allowed k (.string s) (.string s)
  | function : k.identity i j → k.stands scope scope' → body.Placed allowed →
    Paired allowed k (.function i ⟨name, params, body, scope⟩) (.function j ⟨name, params, body, scope'⟩)
  | builtin : k.identity i j → Paired allowed k (.builtin i b) (.builtin j b)

section

variable {allowed : Position → Prop} {k l : Pairing}

namespace Value.Paired

theorem mono {v w : Value} (paired : v.Paired allowed k w) (more : k.Sub l) : v.Paired allowed l w := by
  cases paired with
  | function same stands placed => exact .function (more.identity same) (more.stands stands) placed
  | builtin same => exact .builtin (more.identity same)
  | nil => exact .nil
  | boolean b => exact .boolean b
  | number x => exact .number x
  | string s => exact .string s

theorem plain {v : Value} (isPlain : v.Plain) : v.Paired allowed k v := by
  cases v with
  | nil => exact .nil
  | boolean b => exact .boolean b
  | number x => exact .number x
  | string s => exact .string s
  | function identity f => exact isPlain.elim
  | builtin identity b => exact isPlain.elim

variable {v w v' w' : Value}

theorem like (paired : v.Paired allowed k w) : v.Like w := by
  cases paired with
  | function => exact .function rfl rfl
  | builtin => exact .builtin _
  | _ => exact .refl _

-- Functions are compared by identity, and identities are paired one to one.
theorem equals (paired : v.Paired allowed k w) (paired' : v'.Paired allowed k w') :
    v.equals v' = w.equals w' := by
  cases paired with
  | function same => cases paired' with
    | function same' => exact decide_eq_decide.2 (k.identity_unique same same')
    | _ => rfl
  | builtin same => cases paired' with
    | builtin same' => exact decide_eq_decide.2 (k.identity_unique same same')
    | _ => rfl
  | _ => cases paired' <;> rfl

end Value.Paired

def Pairing.Entry (allowed : Position → Prop) (k : Pairing) (a b : Bytes × Value) : Prop :=
  a.1 = b.1 ∧ a.2.Paired allowed k b.2

structure Scope.Paired (allowed : Position → Prop) (k : Pairing) (i j : ScopeId) (s t : Scope) : Prop where
  bindings : List.Forall₂ (k.Entry allowed) s.bindings t.bindings
  parent : Option.Rel (fun p q => p < i ∧ q < j ∧ k.stands p q) s.parent t.parent

namespace Scope.Paired

variable {i j : ScopeId} {s t : Scope}

theorem mono (paired : s.Paired allowed k i j t) (more : k.Sub l) : s.Paired allowed l i j t := by
  obtain ⟨bindings, parent⟩ := s
  obtain ⟨bindings', parent'⟩ := t
  obtain ⟨entries, up⟩ := paired
  refine ⟨entries.imp fun _ _ entry => ⟨entry.1, entry.2.mono more⟩, ?_⟩
  cases up with
  | none => exact .none
  | some up => exact .some ⟨up.1, up.2.1, more.stands up.2.2⟩

theorem names (paired : s.Paired allowed k i j t) : s.names = t.names := by
  obtain ⟨entries, _⟩ := paired
  unfold Scope.names
  generalize s.bindings = near, t.bindings = far at entries
  induction entries with
  | nil => rfl
  | cons entry _ ih => rw [List.map_cons, List.map_cons, entry.1, ih]

theorem binds (paired : s.Paired allowed k i j t) (x : Bytes) : s.binds x = t.binds x :=
  Scope.binds_eq_of_names paired.names x

theorem get? (paired : s.Paired allowed k i j t) (x : Bytes) :
    Option.Rel (Value.Paired allowed k) (s.get? x) (t.get? x) := by
  obtain ⟨entries, _⟩ := paired
  unfold Scope.get?
  generalize s.bindings = near, t.bindings = far at entries
  induction entries with
  | nil => exact .none
  | @cons a b _ _ entry _ ih =>
    obtain ⟨name, value⟩ := a
    obtain ⟨name', value'⟩ := b
    obtain ⟨rfl, same⟩ : name = name' ∧ _ := entry
    rw [List.lookup_cons, List.lookup_cons]
    split
    · exact .some same
    · exact ih

theorem putIn {entries entries' : List (Bytes × Value)}
    (same : List.Forall₂ (k.Entry allowed) entries entries') (paired : v.Paired allowed k w) (x : Bytes) :
    List.Forall₂ (k.Entry allowed) (putIn x v entries) (putIn x w entries') := by
  induction same with
  | nil => exact .cons ⟨rfl, paired⟩ .nil
  | @cons a b _ _ entry rest ih =>
    unfold Scope.putIn
    rw [entry.1]
    split
    · exact .cons ⟨rfl, paired⟩ rest
    · exact .cons entry ih

theorem put (same : s.Paired allowed k i j t) (paired : v.Paired allowed k w) (x : Bytes) :
    (s.put x v).Paired allowed k i j (t.put x w) :=
  ⟨putIn same.bindings paired x, same.parent⟩

end Scope.Paired

structure Heap.Paired (allowed : Position → Prop) (k : Pairing) (h h' : Heap) : Prop where
  twins : ∀ {i j}, k.twins i j →
    ∃ s t, h.scopes[i]? = some s ∧ h'.scopes[j]? = some t ∧ s.Paired allowed k i j t
  hollow : ∀ {i j}, k.hollow i j → ∃ p, h.scopes[i]? = some ⟨[], some p⟩ ∧ p < i ∧ k.stands p j
  -- the identities to come are not given to one of the heaps only
  identities : ∀ {i j}, k.identity i j → ∀ n, (i = h.identities + n ↔ j = h'.identities + n)

namespace Heap.Paired

variable {h h' : Heap} {i j : ScopeId} {v w : Value}

theorem twins_lt (paired : h.Paired allowed k h') (isTwin : k.twins i j) :
    i < h.scopes.size ∧ j < h'.scopes.size := by
  obtain ⟨s, t, here, there, _⟩ := paired.twins isTwin
  exact ⟨(Array.getElem?_eq_some_iff.1 here).1, (Array.getElem?_eq_some_iff.1 there).1⟩

theorem hollow_lt (paired : h.Paired allowed k h') (isHollow : k.hollow i j) : i < h.scopes.size := by
  obtain ⟨p, here, _⟩ := paired.hollow isHollow
  exact (Array.getElem?_eq_some_iff.1 here).1

theorem stands_lt (paired : h.Paired allowed k h') (stands : k.stands i j) :
    i < h.scopes.size ∧ j < h'.scopes.size := by
  induction i using Nat.strongRecOn with
  | ind i ih =>
    rcases stands with isTwin | isHollow
    · exact paired.twins_lt isTwin
    · obtain ⟨p, here, older, stands⟩ := paired.hollow isHollow
      exact ⟨paired.hollow_lt isHollow, (ih p older stands).2⟩

-- A name refers to scopes that are twins. The induction goes up the chain of the first heap; past a
-- hollow scope the other chain stays where it is.
theorem resolve? (paired : h.Paired allowed k h') (stands : k.stands i j) (x : Bytes) :
    Option.Rel k.twins (h.resolve? i x) (h'.resolve? j x) := by
  induction i using Nat.strongRecOn generalizing j with
  | ind i ih =>
    rcases stands with isTwin | isHollow
    · obtain ⟨s, t, here, there, same⟩ := paired.twins isTwin
      rw [resolve?_eq here, resolve?_eq there, same.binds x]
      split
      · exact .some isTwin
      · have upwards := same.parent
        generalize s.parent = parent, t.parent = parent' at upwards
        cases upwards with
        | none => exact .none
        | @some p q up =>
          dsimp only [Option.bind_some]
          rw [if_pos up.1, if_pos up.2.1]
          exact ih p up.1 up.2.2
    · obtain ⟨p, here, older, stands⟩ := paired.hollow isHollow
      rw [resolve?_eq here]
      simp only [Scope.binds, List.any_nil, Bool.false_eq_true, if_false, Option.bind_some]
      rw [if_pos older]
      exact ih p older stands

theorem get? (paired : h.Paired allowed k h') (stands : k.stands i j) (x : Bytes) :
    Option.Rel (Value.Paired allowed k) (h.get? i x) (h'.get? j x) := by
  unfold Heap.get?
  have found := paired.resolve? stands x
  generalize h.resolve? i x = near, h'.resolve? j x = far at found
  cases found with
  | none => exact .none
  | @some a b isTwin =>
    obtain ⟨s, t, here, there, same⟩ := paired.twins isTwin
    show Option.Rel _ (h.scopes[a]?.bind fun s => s.get? x) (h'.scopes[b]?.bind fun s => s.get? x)
    rw [here, there]
    exact same.get? x

theorem of_same {g g' : Heap} (paired : h.Paired allowed k h')
    (near : ∀ i j, k.stands i j → g.scopes[i]? = h.scopes[i]?)
    (far : ∀ i j, k.twins i j → g'.scopes[j]? = h'.scopes[j]?)
    (identities : ∀ {i j}, k.identity i j → ∀ n, (i = g.identities + n ↔ j = g'.identities + n)) :
    g.Paired allowed k g' where
  twins {i j} isTwin := by
    rw [near i j (.inl isTwin), far i j isTwin]
    exact paired.twins isTwin
  hollow {i j} isHollow := by
    rw [near i j (.inr isHollow)]
    exact paired.hollow isHollow
  identities := identities

end Heap.Paired

-- From one pair of heaps to a later one. Only twins change, and the scopes that are paired now and were
-- not before are new ones.
structure Pairing.Grows (k : Pairing) (h h' : Heap) (l : Pairing) (g g' : Heap) : Prop where
  sub : k.Sub l
  stands : ∀ {i j}, l.stands i j → k.stands i j ∨ h.scopes.size ≤ i
  twins : ∀ {i j}, l.twins i j → k.twins i j ∨ h'.scopes.size ≤ j
  identity : ∀ {i j}, l.identity i j → k.identity i j ∨ i < g.identities ∧ j < g'.identities
  larger : h.scopes.size ≤ g.scopes.size ∧ h'.scopes.size ≤ g'.scopes.size
  given : h.identities ≤ g.identities ∧ h'.identities ≤ g'.identities
  others : ∀ {j}, j < h'.scopes.size → (∀ i, ¬ k.twins i j) → g'.scopes[j]? = h'.scopes[j]?

namespace Pairing.Grows

variable {h h' : Heap}

theorem refl (k : Pairing) (h h' : Heap) : k.Grows h h' k h h' :=
  ⟨.refl k, .inl, .inl, .inl, ⟨Nat.le_refl _, Nat.le_refl _⟩, ⟨Nat.le_refl _, Nat.le_refl _⟩, fun _ _ => rfl⟩

theorem trans {g g' : Heap} (first : k.Grows h h' l g g') (second : l.Grows g g' n f f') :
    k.Grows h h' n f f' where
  sub := first.sub.trans second.sub
  stands isNow :=
    (second.stands isNow).elim first.stands fun fresh => .inr (Nat.le_trans first.larger.1 fresh)
  twins isNow :=
    (second.twins isNow).elim first.twins fun fresh => .inr (Nat.le_trans first.larger.2 fresh)
  identity same := by
    rcases second.identity same with old | new
    · exact (first.identity old).imp_right fun new =>
        ⟨Nat.lt_of_lt_of_le new.1 second.given.1, Nat.lt_of_lt_of_le new.2 second.given.2⟩
    · exact .inr new
  larger := ⟨Nat.le_trans first.larger.1 second.larger.1, Nat.le_trans first.larger.2 second.larger.2⟩
  given := ⟨Nat.le_trans first.given.1 second.given.1, Nat.le_trans first.given.2 second.given.2⟩
  others {j} there alone := by
    have stillAlone : ∀ i, ¬ l.twins i j := by
      intro i isTwin
      rcases first.twins isTwin with old | new
      · exact alone i old
      · exact Nat.not_lt.2 new there
    rw [second.others (Nat.lt_of_lt_of_le there first.larger.2) stillAlone, first.others there alone]

end Pairing.Grows

theorem Heap.le_size_extend (h : Heap) (parent : Option ScopeId) :
    h.scopes.size ≤ (h.extend parent).2.scopes.size :=
  Nat.le_of_lt (Nat.lt_of_lt_of_eq (Nat.lt_succ_self _) (Array.size_push _).symm)

namespace Heap.Paired

variable {h h' : Heap} {i j : ScopeId} {v w : Value}

theorem define (paired : h.Paired allowed k h') (isTwin : k.twins i j) (same : v.Paired allowed k w)
    (x : Bytes) : (h.define i x v).Paired allowed k (h'.define j x w) where
  twins {a b} areTwins := by
    obtain ⟨s, t, here, there, alike⟩ := paired.twins areTwins
    rw [scopes_define, scopes_define, here, there]
    by_cases target : i = a
    · rw [if_pos target, if_pos ((k.twins_unique isTwin areTwins).1 target)]
      exact ⟨_, _, rfl, rfl, alike.put same x⟩
    · rw [if_neg target, if_neg fun target' => target ((k.twins_unique isTwin areTwins).2 target')]
      exact ⟨s, t, rfl, rfl, alike⟩
  hollow {a b} isHollow := by
    have other : i ≠ a := fun target => k.hollow_alone isHollow (target ▸ isTwin)
    rw [scopes_define, if_neg other]
    exact paired.hollow isHollow
  identities := paired.identities

theorem define_grows (isTwin : k.twins i j) (x : Bytes) (v w : Value) :
    k.Grows h h' k (h.define i x v) (h'.define j x w) where
  sub := .refl k
  stands := .inl
  twins := .inl
  identity := .inl
  larger := ⟨Nat.le_of_eq Array.size_modify.symm, Nat.le_of_eq Array.size_modify.symm⟩
  given := ⟨Nat.le_refl _, Nat.le_refl _⟩
  others {b} there alone := by
    rw [scopes_define, if_neg]
    rintro rfl
    exact alone i isTwin

theorem extend (paired : h.Paired allowed k h') (up : Option.Rel k.stands parent parent') :
    ∃ l, k.Grows h h' l (h.extend parent).2 (h'.extend parent').2 ∧
      (h.extend parent).2.Paired allowed l (h'.extend parent').2 ∧
      l.twins (h.extend parent).1 (h'.extend parent').1 := by
  have new : ∀ {a b}, k.twins a b → a ≠ h.scopes.size ∧ b ≠ h'.scopes.size := fun areTwins =>
    ⟨Nat.ne_of_lt (paired.twins_lt areTwins).1, Nat.ne_of_lt (paired.twins_lt areTwins).2⟩
  have full (b : ScopeId) : ¬ k.hollow h.scopes.size b := fun isHollow =>
    Nat.lt_irrefl _ (paired.hollow_lt isHollow)
  have more : k.Sub (k.withTwins _ _ new full) := Pairing.sub_withTwins
  refine ⟨k.withTwins h.scopes.size h'.scopes.size new full, ⟨more, ?_, ?_, .inl, ?_, ?_, ?_⟩,
    ⟨?_, ?_, ?_⟩, ?_⟩
  · rintro a b ((old | ⟨rfl, rfl⟩) | isHollow)
    · exact .inl (.inl old)
    · exact .inr (Nat.le_refl _)
    · exact .inl (.inr isHollow)
  · rintro a b (old | ⟨rfl, rfl⟩)
    · exact .inl old
    · exact .inr (Nat.le_refl _)
  · exact ⟨h.le_size_extend parent, h'.le_size_extend parent'⟩
  · exact ⟨Nat.le_refl _, Nat.le_refl _⟩
  · intro b there _
    rw [scopes_extend, if_neg (Nat.ne_of_lt there)]
  · rintro a b (old | ⟨rfl, rfl⟩)
    · obtain ⟨s, t, here, there, same⟩ := paired.twins old
      rw [scopes_extend, scopes_extend, if_neg (new old).1, if_neg (new old).2]
      exact ⟨s, t, here, there, same.mono more⟩
    · rw [scopes_extend, scopes_extend, if_pos rfl, if_pos rfl]
      refine ⟨_, _, rfl, rfl, .nil, ?_⟩
      cases up with
      | none => exact .none
      | some stands =>
        have older := paired.stands_lt stands
        exact .some ⟨older.1, older.2, more.stands stands⟩
  · intro a b isHollow
    obtain ⟨p, here, older, stands⟩ := paired.hollow isHollow
    rw [scopes_extend, if_neg (Nat.ne_of_lt (paired.hollow_lt isHollow))]
    exact ⟨p, here, older, more.stands stands⟩
  · exact paired.identities
  · exact .inr ⟨rfl, rfl⟩

-- A new scope in the first heap only, which stands for what its parent stands for.
theorem extendHollow (paired : h.Paired allowed k h') (stands : k.stands i j) :
    ∃ l, k.Grows h h' l (h.extend (some i)).2 h' ∧ (h.extend (some i)).2.Paired allowed l h' ∧
      l.stands (h.extend (some i)).1 j := by
  have new : ∀ {b}, ¬ k.twins h.scopes.size b := fun isTwin =>
    Nat.lt_irrefl _ (paired.twins_lt isTwin).1
  have more : k.Sub (k.withHollow _ j new) := Pairing.sub_withHollow
  refine ⟨k.withHollow h.scopes.size j new, ⟨more, ?_, .inl, .inl, ?_, ?_, ?_⟩, ⟨?_, ?_, ?_⟩, ?_⟩
  · rintro a b (isTwin | old | ⟨rfl, rfl⟩)
    · exact .inl (.inl isTwin)
    · exact .inl (.inr old)
    · exact .inr (Nat.le_refl _)
  · exact ⟨h.le_size_extend (some i), Nat.le_refl _⟩
  · exact ⟨Nat.le_refl _, Nat.le_refl _⟩
  · exact fun _ _ => rfl
  · intro a b isTwin
    obtain ⟨s, t, here, there, same⟩ := paired.twins isTwin
    rw [scopes_extend, if_neg (Nat.ne_of_lt (paired.twins_lt isTwin).1)]
    exact ⟨s, t, here, there, same.mono more⟩
  · rintro a b (old | ⟨rfl, rfl⟩)
    · obtain ⟨p, here, older, stands⟩ := paired.hollow old
      rw [scopes_extend, if_neg (Nat.ne_of_lt (paired.hollow_lt old))]
      exact ⟨p, here, older, more.stands stands⟩
    · rw [scopes_extend, if_pos rfl]
      exact ⟨i, rfl, (paired.stands_lt stands).1, more.stands stands⟩
  · exact paired.identities
  · exact .inr (.inr ⟨rfl, rfl⟩)

theorem identity (paired : h.Paired allowed k h') :
    ∃ l, k.Grows h h' l h.identity.2 h'.identity.2 ∧ h.identity.2.Paired allowed l h'.identity.2 ∧
      l.identity h.identity.1 h'.identity.1 := by
  have new : ∀ {a b}, k.identity a b → (a = h.identities ↔ b = h'.identities) := fun same =>
    paired.identities same 0
  have more : k.Sub (k.withIdentity _ _ new) := Pairing.sub_withIdentity
  refine ⟨k.withIdentity h.identities h'.identities new, ⟨more, .inl, .inl, ?_, ?_, ?_, ?_⟩,
    ⟨?_, ?_, ?_⟩, ?_⟩
  · rintro a b (old | ⟨rfl, rfl⟩)
    · exact .inl old
    · exact .inr ⟨Nat.lt_succ_self _, Nat.lt_succ_self _⟩
  · exact ⟨Nat.le_refl _, Nat.le_refl _⟩
  · exact ⟨Nat.le_succ _, Nat.le_succ _⟩
  · exact fun _ _ => rfl
  · intro a b isTwin
    obtain ⟨s, t, here, there, same⟩ := paired.twins isTwin
    exact ⟨s, t, here, there, same.mono more⟩
  · intro a b isHollow
    obtain ⟨p, here, older, stands⟩ := paired.hollow isHollow
    exact ⟨p, here, older, more.stands stands⟩
  · rintro a b (old | ⟨rfl, rfl⟩) n
    · have next := paired.identities old (1 + n)
      rw [← Nat.add_assoc, ← Nat.add_assoc] at next
      exact next
    · exact iff_of_false (by simp only [Heap.identity]; omega) (by simp only [Heap.identity]; omega)
  · exact .inr ⟨rfl, rfl⟩

theorem addBuiltins (paired : h.Paired allowed k h') (isTwin : k.twins i j) :
    ∃ l, k.Grows h h' l (h.addBuiltins i) (h'.addBuiltins j) ∧
      (h.addBuiltins i).Paired allowed l (h'.addBuiltins j) := by
  unfold Heap.addBuiltins
  induction Builtin.all generalizing k h h' with
  | nil => exact ⟨k, .refl k h h', paired⟩
  | cons b more ih =>
    obtain ⟨given, grows, paired, same⟩ := paired.identity
    have bound := paired.define (grows.sub.twins isTwin) (.builtin same (b := b)) b.name
    obtain ⟨l, grows', paired⟩ := ih bound (grows.sub.twins isTwin)
    exact ⟨l, (grows.trans (define_grows (grows.sub.twins isTwin) b.name _ _)).trans grows', paired⟩

theorem addGlobals (paired : h.Paired allowed k h') :
    ∃ l, k.Grows h h' l h.addGlobals.2 h'.addGlobals.2 ∧ h.addGlobals.2.Paired allowed l h'.addGlobals.2 ∧
      l.twins h.addGlobals.1 h'.addGlobals.1 := by
  obtain ⟨opened, grows, paired, isTwin⟩ := paired.extend .none
  obtain ⟨l, grows', paired⟩ := paired.addBuiltins isTwin
  exact ⟨l, grows.trans grows', paired, grows'.sub.twins isTwin⟩

theorem nothing (h h' : Heap) : h.Paired allowed .nothing h' := ⟨False.elim, False.elim, False.elim⟩

theorem listing (paired : h.Paired allowed k h') (isTwin : k.twins i j) :
    List.Forall₂ (k.Entry allowed) (h.listing i) (h'.listing j) := by
  have names : h.names i = h'.names j := by
    obtain ⟨s, t, here, there, same⟩ := paired.twins isTwin
    unfold Heap.names
    rw [here, there]
    exact congrArg (·.mergeSort Bytes.le) same.names
  unfold Heap.listing
  rw [names]
  induction h'.names j with
  | nil => exact .nil
  | cons x xs ih =>
    have found := paired.get? (.inl isTwin) x
    rw [List.filterMap_cons, List.filterMap_cons]
    generalize h.get? i x = near, h'.get? j x = far at found
    cases found with
    | none => exact ih
    | some same => exact .cons ⟨rfl, same⟩ ih

end Heap.Paired

end

structure Heap.Closed (h : Heap) : Prop where
  parents : ∀ {i : ScopeId} {s p}, h.scopes[i]? = some s → s.parent = some p → p < i
  functions : ∀ {i : ScopeId} {s}, h.scopes[i]? = some s → ∀ entry ∈ s.bindings,
    ∀ {identity f}, entry.2 = .function identity f → f.scope < h.scopes.size

def Pairing.same (size : Nat) : Pairing where
  twins i j := i = j ∧ i < size
  hollow _ _ := False
  identity := Eq
  twins_unique := by
    rintro i _ i' _ ⟨rfl, _⟩ ⟨rfl, _⟩
    rfl
  identity_unique := by
    rintro i _ i' _ rfl rfl
    rfl
  hollow_alone := False.elim

theorem Value.paired_same (v : Value) (there : ∀ {identity f}, v = .function identity f → f.scope < size) :
    v.Paired anywhere (.same size) v := by
  cases v with
  | function identity f => exact .function rfl (.inl ⟨rfl, there rfl⟩) f.body.placed_anywhere
  | builtin identity b => exact .builtin rfl
  | nil => exact .nil
  | boolean b => exact .boolean b
  | number x => exact .number x
  | string s => exact .string s

theorem Heap.Closed.paired {h : Heap} (closed : h.Closed) : h.Paired anywhere (.same h.scopes.size) h where
  twins := by
    rintro i _ ⟨rfl, there⟩
    have here : h.scopes[i]? = some h.scopes[i] := Array.getElem?_eq_getElem there
    refine ⟨_, _, here, here, ?_, ?_⟩
    · exact List.forall₂_same.2 fun entry mem => ⟨rfl, entry.2.paired_same (closed.functions here entry mem)⟩
    · cases up : h.scopes[i].parent with
      | none => exact .none
      | some p =>
        have older := closed.parents here up
        exact .some ⟨older, older, .inl ⟨rfl, Nat.lt_trans older there⟩⟩
  hollow := False.elim
  identities := by
    rintro i _ rfl n
    rfl

end TinyScript
