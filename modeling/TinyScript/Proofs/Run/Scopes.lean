import TinyScript.Proofs.Heap
import TinyScript.Proofs.Run.Effect

namespace TinyScript

inductive Site where
  | own | any

def Stmt.Unbinding : Stmt → Prop
  | .declare _ _ _ | .function _ _ _ _ => False
  | .expr _ _ | .print _ _ | .block _ | .giveBack _ _ => True
  | .branch _ _ yes none => yes.Unbinding
  | .branch _ _ yes (some no) => yes.Unbinding ∧ no.Unbinding
  | .loop _ _ body => body.Unbinding

def Node.Suits (site : Site) : Node → Prop
  | .expr _ => True
  | .stmt s => site = .own ∨ s.Unbinding
  | .block _ => site = .own

theorem Node.Suits.part {node inner : Node} (suits : node.Suits site) (mem : inner ∈ node.parts) : inner.Suits site := by
  cases inner with
  | expr e => trivial
  | block b =>
    obtain ⟨e⟩ | ⟨s⟩ | ⟨b⟩ := node
    · cases e <;> simp [parts, children] at mem
    · cases s <;> simp [parts, children] at mem
    · cases b <;> simp [parts, children] at mem
  | stmt inner =>
    obtain ⟨e⟩ | ⟨s⟩ | ⟨b⟩ := node
    · cases e <;> simp [parts, children] at mem
    · refine suits.imp_right fun unbinding => ?_
      cases s with
      | branch span c yes no =>
        cases no with
        | none =>
          obtain rfl : inner = yes := by simpa [parts, children] using mem
          exact unbinding
        | some no =>
          rcases (by simpa [parts, children] using mem : inner = yes ∨ inner = no) with rfl | rfl
          · exact unbinding.1
          · exact unbinding.2
      | loop span c body =>
        obtain rfl : inner = body := by simpa [parts, children] using mem
        exact unbinding
      | _ => simp [parts, children] at mem
    · exact .inl suits

namespace Machine

structure Keeps (site : Site) (before after : Machine) : Prop where
  scope : after.scope = before.scope
  depth : after.depth = before.depth
  heap : before.heap.Kept (fun id => site = .own ∧ id = before.scope) after.heap

namespace Keeps

theorem anywhere (kept : Keeps .any before after) (site : Site) : Keeps site before after :=
  ⟨kept.scope, kept.depth, kept.heap.mono fun _ grows => nomatch grows.1⟩

theorem own (kept : Keeps site before after) : Keeps .own before after :=
  ⟨kept.scope, kept.depth, kept.heap.mono fun _ grows => ⟨rfl, grows.2⟩⟩

theorem nowhere (kept : Keeps .any before after) : before.heap.Kept (fun _ => False) after.heap :=
  kept.heap.mono fun _ grows => nomatch grows.1

theorem of_eq (scope : after.scope = before.scope) (depth : after.depth = before.depth)
    (scopes : after.heap.scopes = before.heap.scopes) : Keeps site before after := by
  refine ⟨scope, depth, fun id s here => ⟨s, ?_, rfl, fun _ => rfl⟩⟩
  rw [scopes]
  exact here

end Keeps

instance : IsPreorder Machine (Keeps site) where
  refl _ := .of_eq rfl rfl rfl
  trans _ _ _ first second := by
    refine ⟨second.scope.trans first.scope, second.depth.trans first.depth, first.heap.trans ?_⟩
    rw [← first.scope]
    exact second.heap

end Machine

namespace Interpret

open Machine

theorem keeps_newScope {s : Step α} (parent : ScopeId) (inner : Leaves (Keeps .own) s) :
    Leaves (Keeps site) (inNewScope parent s) := by
  intro m last ended
  unfold inNewScope at ended
  rw [Outcome.machine?_adjust, Option.map_eq_some_iff] at ended
  obtain ⟨after, ended, rfl⟩ := ended
  have kept := inner _ after ended
  exact ⟨rfl, kept.depth, .of_extend (kept.heap.mono fun _ grows => grows.2)⟩

theorem keeps_assign (span : Span) (x : Bytes) (v : Value) : Leaves (Keeps site) (assign span x v) := by
  intro m last ended
  unfold assign at ended
  split at ended
  · next found =>
    cases ended
    exact ⟨rfl, rfl, .assign found v⟩
  · cases ended
    exact refl_of (Keeps site) m

theorem keeps_makeFunction (name : Bytes) (params : Params) (body : Block) :
    Leaves (Keeps site) (makeFunction name params body) := by
  intro m last ended
  cases ended
  exact .of_eq rfl rfl rfl

theorem keeps_tick (limits : Limits) (span : Span) : Leaves (Keeps site) (tick limits span) := by
  intro m last ended
  unfold tick at ended
  dsimp only at ended
  split at ended
  all_goals
    cases ended
    exact .of_eq rfl rfl rfl

-- The call takes back the one level that it added, because the step inside leaves the depth as it is.
theorem keeps_inCall {s : Step α} (limits : Limits) (span : Span) (inner : Leaves (Keeps site) s) :
    Leaves (Keeps site) (inCall limits span s) :=
  leaves_inCall limits span fun _ after ended =>
    have kept := inner _ after ended
    ⟨kept.scope, congrArg (· - 1) kept.depth, kept.heap⟩

abbrev keeping : Comparison Step Step where
  World := Site
  later := Eq
  inside _ := .own
  moved := id
  value _ := Eq
  signal _ := Eq
  fits site node := node.Suits site
  binds site := site = .own
  holds site s _ := Leaves (Keeps site) s

section

variable {host : Host} (invoke : ∀ f args, Leaves (Keeps .any) (host.invoke f args))
include invoke

theorem keeps_steps : keeping.Steps host host where
  later_refl := rfl
  later_trans := Eq.trans
  value_later _ same := same
  fits_later more suits := more ▸ suits
  binds_later more isOwn := more ▸ isOwn
  like := .of_eq
  plain _ := rfl
  next := rfl
  returned _ same := congrArg Signal.returned same
  ended := .of_eq
  part := Node.Suits.part
  block _ := rfl
  declares suits := suits.resolve_right id
  names suits := suits.resolve_right id
  pure _ := leaves_pure _
  bind first next := leaves_bind first fun a => next _ a a rfl (Yield.equal.2 rfl)
  equals := by
    rintro _ _ _ _ _ rfl rfl
    rfl
  fail _ _ _ := leaves_fail _ _
  lookup _ := leaves_lookup _ _
  assign _ _ := keeps_assign _ _ _
  define {site v v' x} isOwn _ := by
    intro m last ended
    cases ended
    exact ⟨rfl, rfl, (Heap.Kept.define m.heap m.scope _ _).mono fun _ here => ⟨isOwn, here⟩⟩
  makeFunction _ _ _ _ := keeps_makeFunction _ _ _
  print _ := by
    intro m last ended
    cases ended
    exact .of_eq rfl rfl rfl
  readClock := by
    intro site m last ended
    cases ended
    exact .of_eq rfl rfl rfl
  tick _ _ := keeps_tick host.limits _
  inside _ := keeps_inCall host.limits _
  call _ _ _ _ := keeps_inCall host.limits _
    (leaves_locating _ fun m after ended => (invoke _ _ m after ended).anywhere _)
  inBlock inner := fun m => keeps_newScope m.scope inner m
  loop _ test run := leaves_repeating
    (leaves_round _ (keeps_tick host.limits _) (test _ rfl) (run _ rfl)) host.patience

theorem keeps_eval (e : Expr) : Leaves (Keeps site) (eval host e) :=
  (keeps_steps invoke).laws.eval_same rfl (w := site) trivial

theorem keeps_unbinding {s : Stmt} (unbinding : s.Unbinding) : Leaves (Keeps site) (exec host s) :=
  (keeps_steps invoke).laws.exec_same rfl (w := site) (.inr unbinding)

theorem keeps_execProgram (program : List Stmt) : Leaves (Keeps .own) (execProgram host program) :=
  (keeps_steps invoke).laws.execProgram_same rfl (w := Site.own) fun _ _ => .inl rfl

theorem keeps_functionBody (f : Closure) (args : List Value) : Leaves (Keeps site) (functionBody host f args) :=
  keeps_newScope f.scope ((keeps_steps invoke).laws.boundBody_same rfl (w := Site.own) rfl rfl rfl rfl
    (List.forall₂_same.2 fun _ _ => rfl))

end

theorem keeps_invoke (limits : Limits) (clock : Nat → Float) (patience room : Nat) (f : Closure)
    (args : List Value) : Leaves (Keeps site) (invoke limits clock patience room f args) := by
  induction room generalizing site f args with
  | zero =>
    intro m last ended
    cases ended
  | succ room ih =>
    rw [invoke_succ]
    exact keeps_functionBody ih f args

end Interpret

-- No scope has leaked: names are looked up where they were, every scope has its parent and its names,
-- and so every name refers to the scope it referred to.
structure Machine.Unleaked (before after : Machine) : Prop where
  current : after.scope = before.scope
  scopes : ∀ (id : ScopeId) (s : Scope), before.heap.scopes[id]? = some s →
    ∃ s' : Scope, after.heap.scopes[id]? = some s' ∧ s'.parent = s.parent ∧ s'.names = s.names
  resolve : ∀ id x, id < before.heap.scopes.size → after.heap.resolve? id x = before.heap.resolve? id x

theorem Machine.Keeps.unleaked {before after : Machine} (kept : Keeps .any before after) :
    Unleaked before after where
  current := kept.scope
  scopes id s here := by
    obtain ⟨s', here', parent, names⟩ := kept.nowhere id s here
    exact ⟨s', here', parent, names not_false⟩
  resolve _ x there := kept.nowhere.resolve? there x

open Interpret in
theorem scopes_never_leak (limits : Limits) (clock : Nat → Float) (patience room : Nat)
    (m after : Machine) :
    (∀ e, (eval (hostAt limits clock patience room) e m).machine? = some after → m.Unleaked after) ∧
    (∀ body, (exec (hostAt limits clock patience room) (.block body) m).machine? = some after →
      m.Unleaked after) := by
  have calls (f : Closure) (args : List Value) :
      Leaves (Machine.Keeps .any) ((hostAt limits clock patience room).invoke f args) :=
    keeps_invoke limits clock patience room f args
  exact ⟨fun e ended => (keeps_eval calls e m after ended).unleaked,
    fun body ended => (keeps_unbinding calls (s := .block body) trivial m after ended).unleaked⟩

-- A function made in the global scope, which declares a name that is bound there too, assigns another
-- one, and stops at a name that is bound nowhere.
def shadowing : Machine :=
  let name (x : UInt8) : Expr := .name .unknown [x]
  let body : List Stmt :=
    [.declare .unknown [120] (some (name 112)),
     .expr .unknown (.assign .unknown [121] (name 120)),
     .giveBack .unknown (some (name 122))]
  ⟨⟨#[⟨[([120], .nil), ([121], .nil),
    ([102], .function 0 ⟨[102], some [[112]], .braces .unknown body, 0⟩)], none⟩], 1⟩, 0, 0, 0, 0, []⟩

open Interpret in
theorem scopes_never_leak_shadowing :
    ∃ after, (eval (hostAt ⟨0, 8⟩ (fun _ => 0) 0 8)
        (.call .unknown (.name .unknown [102]) [.literal .unknown (.boolean true)]) shadowing).machine?
          = some after ∧
      after.heap.scopes.size = 2 ∧ shadowing.Unleaked after := by
  have ran : (eval (hostAt ⟨0, 8⟩ (fun _ => 0) 0 8)
      (.call .unknown (.name .unknown [102]) [.literal .unknown (.boolean true)]) shadowing).machine?.map
        (·.heap.scopes.size) = some 2 := by decide +kernel
  obtain ⟨after, ended, size⟩ := Option.map_eq_some_iff.1 ran
  exact ⟨after, ended, size, (scopes_never_leak _ _ _ _ _ _).1 _ ended⟩

end TinyScript
