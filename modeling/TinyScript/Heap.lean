import TinyScript.Value

namespace TinyScript

structure Scope where
  bindings : List (Bytes × Value)
  parent : Option ScopeId

namespace Scope

def get? (s : Scope) (x : Bytes) : Option Value := s.bindings.lookup x

def binds (s : Scope) (x : Bytes) : Bool := s.bindings.any fun entry => entry.1 == x

def putIn (x : Bytes) (v : Value) : List (Bytes × Value) → List (Bytes × Value)
  | [] => [(x, v)]
  | entry :: rest => if entry.1 = x then (x, v) :: rest else entry :: putIn x v rest

def put (s : Scope) (x : Bytes) (v : Value) : Scope := { s with bindings := putIn x v s.bindings }

end Scope

-- All scopes by their numbers, and how many function identities have been given out.
structure Heap where
  scopes : Array Scope
  identities : Nat

namespace Heap

def empty : Heap := ⟨#[], 0⟩

def extend (h : Heap) (parent : Option ScopeId) : ScopeId × Heap :=
  (h.scopes.size, { h with scopes := h.scopes.push ⟨[], parent⟩ })

def identity (h : Heap) : Nat × Heap := (h.identities, { h with identities := h.identities + 1 })

def define (h : Heap) (id : ScopeId) (x : Bytes) (v : Value) : Heap :=
  { h with scopes := h.scopes.modify id fun s => s.put x v }

def resolve? (h : Heap) (id : ScopeId) (x : Bytes) : Option ScopeId :=
  match h.scopes[id]? with
  | none => none
  | some s =>
    if s.binds x then some id
    else match s.parent with
      | none => none
      | some parent => if parent < id then resolve? h parent x else none
termination_by id

def get? (h : Heap) (id : ScopeId) (x : Bytes) : Option Value := do
  let found ← h.resolve? id x
  (← h.scopes[found]?).get? x

def assign? (h : Heap) (id : ScopeId) (x : Bytes) (v : Value) : Option Heap :=
  (h.resolve? id x).map fun found => h.define found x v

def names (h : Heap) (id : ScopeId) : List Bytes :=
  ((h.scopes[id]?).elim [] fun s => s.bindings.map (·.1)).mergeSort Bytes.le

def addBuiltins (h : Heap) (id : ScopeId) : Heap :=
  Builtin.all.foldl (fun h b =>
    let (identity, h) := h.identity
    h.define id b.name (.builtin identity b)) h

def addGlobals (h : Heap) : ScopeId × Heap :=
  let (id, h) := h.extend none
  (id, h.addBuiltins id)

def listing (h : Heap) (id : ScopeId) : List (Bytes × Value) :=
  (h.names id).filterMap fun x => (h.get? id x).map fun v => (x, v)

end Heap

end TinyScript
