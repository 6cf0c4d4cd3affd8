import TinyScript.Proofs.Run.Budget
import TinyScript.Proofs.Run.Scopes
import TinyScript.Proofs.Run.Traced

namespace TinyScript

structure Machine.Restored (before after : Machine) : Prop where
  scope : after.scope = before.scope
  depth : after.depth = before.depth
  steps : before.steps ≤ after.steps
  output : before.output <+: after.output
  scopes : ∀ (id : ScopeId) (s : Scope), before.heap.scopes[id]? = some s →
    ∃ s' : Scope, after.heap.scopes[id]? = some s' ∧ s'.parent = s.parent

theorem Machine.Keeps.restored {before after : Machine} (kept : Keeps .own before after)
    (grown : before.Precedes after) : before.Restored after where
  scope := kept.scope
  depth := kept.depth
  steps := grown.steps
  output := grown.output
  scopes id s here := by
    obtain ⟨s', here', parent, _⟩ := kept.heap id s here
    exact ⟨s', here', parent⟩

namespace Traced

open Machine

structure Tells (limits : Limits) (g : Traced α) (s : Step α) : Prop where
  same : ∀ m, (g m).2 = s m
  kept : Interpret.Leaves (Keeps .own) s
  shallow : ∀ m, m.depth ≤ limits.maxDepth → ∀ seen ∈ (g m).1, seen.depth ≤ limits.maxDepth

namespace Tells

variable {limits : Limits} {g g' : Traced α} {s s' : Step α}

theorem one (kept : Interpret.Leaves (Keeps .own) s) : Tells limits (one s) s where
  same _ := rfl
  kept := kept
  shallow m within seen mem := by
    rcases List.mem_cons.1 mem with rfl | last
    · exact within
    · have ended : (s m).machine? = some seen := Option.mem_toList.1 last
      rw [(kept m seen ended).depth]
      exact within

theorem pure (a : α) : Tells limits (Pure.pure a) (Pure.pure a) := one (Interpret.leaves_pure a)

theorem bind {f : α → Traced β} {f' : α → Step β} (first : Tells limits g s)
    (next : ∀ a, Tells limits (f a) (f' a)) : Tells limits (g >>= f) (s >>= f') where
  same m := by
    have same := first.same m
    rcases ran : g m with ⟨seen, ⟨a, middle⟩ | ⟨e, middle⟩ | _⟩
    · rw [ran] at same
      rw [bind_done ran, Step.bind_done same.symm]
      exact (next a).same middle
    · rw [ran] at same
      rw [bind_failed ran, Step.bind_failed same.symm]
    · rw [ran] at same
      rw [bind_unfinished ran, Step.bind_unfinished same.symm]
  kept := Interpret.leaves_bind first.kept fun a => (next a).kept
  shallow m within := by
    have same := first.same m
    have before := first.shallow m within
    rcases ran : g m with ⟨seen, ⟨a, middle⟩ | ⟨e, middle⟩ | _⟩
    · rw [ran] at same before
      have level : middle.depth = m.depth := (first.kept m middle (by rw [← same]; rfl)).depth
      have behind := (next a).shallow middle (by omega)
      rw [bind_done ran]
      exact fun p mem => (List.mem_append.1 mem).elim (before p) (behind p)
    · rw [ran] at before
      rw [bind_failed ran]
      exact before
    · rw [ran] at before
      rw [bind_unfinished ran]
      exact before

theorem around {m : Machine} {inner : List Machine × Outcome α} {leave : Machine → Machine}
    (within : m.depth ≤ limits.maxDepth) (before : ∀ seen ∈ inner.1, seen.depth ≤ limits.maxDepth)
    (level : ∀ after, inner.2.machine? = some after → (leave after).depth = m.depth) :
    ∀ seen ∈ (around m leave inner).1, seen.depth ≤ limits.maxDepth := by
  intro seen mem
  simp only [Traced.around, Outcome.machine?_adjust, List.cons_append, List.mem_cons, List.mem_append,
    Option.mem_toList, Option.map_eq_some_iff] at mem
  rcases mem with rfl | inside | ⟨after, ended, rfl⟩
  · exact within
  · exact before seen inside
  · rw [level after ended]
    exact within

theorem inNewScope (parent : ScopeId) (inner : Tells limits g s) :
    Tells limits (inNewScope parent g) (Machine.inNewScope parent s) where
  same m := congrArg (Outcome.adjust _) (inner.same _)
  kept := Interpret.keeps_newScope parent inner.kept
  shallow m within := by
    refine around within (inner.shallow _ within) fun after ended => ?_
    rw [inner.same] at ended
    exact (inner.kept _ after ended).depth

theorem inBlock (inner : Tells limits g s) :
    Tells limits (fun m => Traced.inNewScope m.scope g m) (Machine.inBlock s) where
  same m := (inNewScope m.scope inner).same m
  kept m := (inNewScope m.scope inner).kept m
  shallow m := (inNewScope m.scope inner).shallow m

-- The only step that changes the depth: one call deeper, if the limit allows it.
theorem inCall (span : Span) (inner : Tells limits g s) :
    Tells limits (inCall limits span g) (Machine.inCall limits span s) where
  same m := by
    unfold Traced.inCall Machine.inCall
    split
    · rfl
    · exact congrArg (Outcome.adjust _) (inner.same _)
  kept := Interpret.keeps_inCall limits span inner.kept
  shallow m within := by
    unfold Traced.inCall
    split
    · exact (one (Interpret.leaves_fail span _)).shallow m within
    · next shallow =>
      have deeper : m.enterCall.depth ≤ limits.maxDepth := Nat.lt_of_not_le shallow
      refine around within (inner.shallow m.enterCall deeper) fun after ended => ?_
      rw [inner.same] at ended
      exact congrArg (· - 1) (inner.kept _ after ended).depth

theorem locating (span : Span) (inner : Tells limits g s) :
    Tells limits (locating span g) (Machine.locating span s) where
  same m := congrArg (Outcome.locate span) (inner.same m)
  kept := Interpret.leaves_locating span inner.kept
  shallow := inner.shallow

theorem repeating {once : Traced (Option Signal)} {once' : Step (Option Signal)}
    (round : Tells limits once once') (patience : Nat) :
    Tells limits (repeating patience once) (Interpret.repeating patience once') := by
  induction patience with
  | zero => exact one fun _ _ ended => nomatch ended
  | succ patience ih =>
    rw [Interpret.repeating_succ]
    refine bind round fun signal => ?_
    cases signal with
    | none => exact ih
    | some signal => exact pure signal

end Tells

structure Accompanies (host : Host) (invoke : Closure → List Value → Traced Value) : Prop where
  kept : ∀ f args, Interpret.Leaves (Keeps .any) (host.invoke f args)
  tells : ∀ f args, Tells host.limits (invoke f args) (host.invoke f args)

namespace Accompanies

variable {host : Host} {invoke : Closure → List Value → Traced Value}

theorem pairs (calls : Accompanies host invoke) : (primitives host invoke).Pairs host.steps (Tells host.limits) := by
  have keeps := Interpret.keeps_steps calls.kept
  have fit (span : Span) : Interpret.keeping.fits .own (.expr (.literal span .nil)) := trivial
  exact {
    pure := .pure
    bind := .bind
    fail := fun span fault => .one (Interpret.leaves_fail span fault)
    unary := fun span op _ => .one (keeps.unaryOp (fit span) rfl op rfl)
    binary := fun span op _ _ => .one (keeps.binaryOp (fit span) rfl op rfl rfl)
    decides := fun _ _ => .pure _
    lookup := fun span x => .one (Interpret.leaves_lookup span x)
    assign := fun span x v => .one (Interpret.keeps_assign span x v)
    define := fun x v => .one (keeps.define (w := Site.own) rfl rfl)
    makeFunction := fun name params body => .one (Interpret.keeps_makeFunction name params body)
    print := fun text => .one (keeps.print (w := Site.own) text)
    tick := fun span => .one (Interpret.keeps_tick host.limits span)
    builtin := fun b args => .one ((Interpret.leaves_locating_iff .unknown).1
      (keeps.callBuiltin (fit .unknown) rfl b (List.forall₂_same.2 fun _ _ => rfl)))
    invoke := calls.tells
    locating := .locating
    inCall := .inCall
    inNewScope := .inNewScope
    inBlock := .inBlock
    noBlock := .pure _
    repeating := fun once => .repeating once host.patience }

end Accompanies

-- The induction is on the calls that may still go inside each other.
theorem accompanies (limits : Limits) (clock : Nat → Float) (patience room : Nat) :
    Accompanies (Interpret.hostAt limits clock patience room) (invoke limits clock patience room) := by
  refine ⟨Interpret.keeps_invoke limits clock patience room, ?_⟩
  induction room with
  | zero => exact fun _ _ => .one fun _ _ ended => nomatch ended
  | succ room ih =>
    have calls : Accompanies (Interpret.hostAt limits clock patience room) (invoke limits clock patience room) :=
      ⟨Interpret.keeps_invoke limits clock patience room, ih⟩
    exact calls.pairs.functionBody

structure Orderly (limits : Limits) (m : Machine) (s : Step α) (traced : Traced α) : Prop where
  restored : ∀ after, (s m).machine? = some after → m.Restored after
  same : (traced m).2 = s m
  shallow : ∀ seen ∈ (traced m).1, seen.depth ≤ limits.maxDepth

theorem Tells.orderly {limits : Limits} {m : Machine} {s : Step α} {traced : Traced α}
    (tells : Tells limits traced s) (grows : Interpret.Grows s) (within : m.depth ≤ limits.maxDepth) :
    Orderly limits m s traced where
  restored after ended := (tells.kept m after ended).restored (grows m after ended)
  same := tells.same m
  shallow := tells.shallow m within

end Traced

open Interpret in
theorem control_always_restored (limits : Limits) (clock : Nat → Float) (patience room : Nat) (m : Machine)
    (within : m.depth ≤ limits.maxDepth) :
    (∀ e, Traced.Orderly limits m (eval (hostAt limits clock patience room) e)
      (Traced.eval (hostAt limits clock patience room) (Traced.invoke limits clock patience room) e)) ∧
    (∀ s, Traced.Orderly limits m (exec (hostAt limits clock patience room) s)
      (Traced.exec (hostAt limits clock patience room) (Traced.invoke limits clock patience room) s)) := by
  have calls := Traced.accompanies limits clock patience room
  have grown : Respects (hostAt limits clock patience room) (hostAt limits clock patience room)
      fun s _ => Grows s :=
    grows_respects fun span f args =>
      grows_inCall limits span (leaves_locating span (grows_invoke limits clock patience room f args))
  have evaluated := Comparison.valueless_eval calls.pairs.laws
  have executed := Comparison.valueless_exec calls.pairs.laws
  exact ⟨fun e => (evaluated e).orderly (grown.eval e) within,
    fun s => (executed s).orderly (grown.exec s) within⟩

def calling : Machine := ⟨selfCalling, 0, 0, 0, 0, []⟩

-- Two calls inside each other are all that the limit allows. The third one is counted and fails, and then
-- both are left.
open Interpret in
theorem control_restored_overflowing :
    let call : Expr := .call .unknown (.name .unknown (text "f")) []
    let host := hostAt ⟨0, 2⟩ (fun _ => 0) 0 2
    let traced := Traced.eval host (Traced.invoke ⟨0, 2⟩ (fun _ => 0) 0 2) call calling
    calling.depth ≤ 2 ∧
    (∃ after, (eval host call calling).machine? = some after ∧ after.steps = 3 ∧ calling.Restored after) ∧
    (∃ seen ∈ traced.1, seen.depth = 2) ∧ ∀ seen ∈ traced.1, seen.depth ≤ 2 := by
  intro call host traced
  have orderly := (control_always_restored ⟨0, 2⟩ (fun _ => 0) 0 2 calling (by decide)).1 call
  have counted : (eval host call calling).machine?.map (·.steps) = some 3 := by decide +kernel
  have deep : traced.1.any (fun seen => seen.depth == 2) = true := by decide +kernel
  obtain ⟨after, ended, steps⟩ := Option.map_eq_some_iff.1 counted
  exact ⟨by decide, ⟨after, ended, steps, orderly.restored after ended⟩, by simpa using deep, orderly.shallow⟩

end TinyScript
