import TinyScript.Proofs.Run.Comparison
import TinyScript.Run.Interpret

namespace TinyScript

def RuntimeFault.ofLimit : RuntimeFault → Bool
  | .stackOverflow _ | .stepBudget _ => true
  | _ => false

theorem RuntimeFault.ofLimit_of_ofCall {fault : RuntimeFault} (isCall : fault.ofCall = true) :
    fault.ofLimit = false := by
  cases fault with
  | notCallable got => rfl
  | arity wanted given => rfl
  | _ => cases isCall

theorem Failure.fault_locate (e : Failure) (span : Span) : (e.locate span).error.fault = e.error.fault := by
  cases e <;> rfl

namespace Step

variable {s : Step α} {f : α → Step β} {m : Machine}

theorem bind_done (ran : s m = .done a after) : (s >>= f) m = f a after := by
  show Step.bind s f m = _
  rw [Step.bind, ran]

theorem bind_failed (ran : s m = .failed e after) : (s >>= f) m = .failed e after := by
  show Step.bind s f m = _
  rw [Step.bind, ran]

theorem bind_unfinished (ran : s m = .unfinished) : (s >>= f) m = .unfinished := by
  show Step.bind s f m = _
  rw [Step.bind, ran]

theorem of_bind_done (ran : (s >>= f) m = .done b after) :
    ∃ a middle, s m = .done a middle ∧ f a middle = .done b after := by
  cases first : s m with
  | done a middle => exact ⟨a, middle, rfl, (bind_done first).symm.trans ran⟩
  | failed e middle => rw [bind_failed first] at ran; cases ran
  | unfinished => rw [bind_unfinished first] at ran; cases ran

end Step

namespace Interpret

open Machine

theorem round_again {host : Host} {condition : Step Value} {body : Step Signal}
    (ran : Evaluate.round host.steps span condition body m = .done none after) :
    ∃ v first second, condition m = .done v first ∧ tick host.limits span first = .done () second ∧
      body second = .done .next after := by
  obtain ⟨v, first, evaluated, rest⟩ := Step.of_bind_done ran
  split at rest
  · obtain ⟨_, second, ticked, rest⟩ := Step.of_bind_done rest
    obtain ⟨signal, third, executed, rest⟩ := Step.of_bind_done rest
    split at rest
    · cases rest
      exact ⟨v, first, second, evaluated, ticked, executed⟩
    · cases rest
  · cases rest

theorem repeating_succ (patience : Nat) (round : Step (Option Signal)) :
    repeating (patience + 1) round = round >>= fun
      | none => repeating patience round
      | some signal => pure signal := by
  funext m
  rw [repeating]
  show _ = Step.bind round _ m
  unfold Step.bind
  dsimp only
  cases round m with
  | done signal after => cases signal <;> rfl
  | _ => rfl

def hostAt (limits : Limits) (clock : Nat → Float) (patience room : Nat) : Host :=
  ⟨limits, clock, patience, invoke limits clock patience room⟩

theorem invoke_succ (limits : Limits) (clock : Nat → Float) (patience room : Nat) (f : Closure)
    (args : List Value) :
    invoke limits clock patience (room + 1) f args
      = functionBody (hostAt limits clock patience room) f args := rfl

end Interpret

namespace Comparison

open Machine Interpret

-- What is left to say of two runs. The operators and the built-in functions are told by their values and faults.
structure Steps (k : Comparison Step Step) (near far : Host) : Prop extends k.Lawful where
  equals : k.value w v v' → k.value w u u' → v.equals u = v'.equals u'
  fail : k.fits w node → node.span? = some span → fault.ofLimit = false →
    k.holds w (@fail Value span fault) (@fail Value (span.relocate k.moved) fault)
  lookup : k.fits w (.expr (.name span x)) → k.holds w (lookup span x) (lookup (span.relocate k.moved) x)
  assign : k.fits w (.expr (.assign span x e)) → k.value w v v' →
    k.holds w (assign span x v) (assign (span.relocate k.moved) x v')
  define : k.binds w → k.value w v v' → k.holds w (define x v) (define x v')
  makeFunction (name : Bytes) (params : Params) : k.fits w node → .block body ∈ node.children →
    k.holds w (makeFunction name params body) (makeFunction name params (body.relocate k.moved))
  print (text : Bytes) : k.holds w (print text) (print text)
  readClock : k.holds w (readClock near.clock) (readClock far.clock)
  tick : k.fits w node → node.span? = some span →
    k.holds w (tick near.limits span) (tick far.limits (span.relocate k.moved))
  inside {s t : Step Value} : k.fits w (.expr (.call span f es)) → k.holds w s t →
    k.holds w (inCall near.limits span s) (inCall far.limits (span.relocate k.moved) t)
  call : k.fits w (.expr (.call span f es)) → k.value w (.function i c) (.function j c') →
    List.Forall₂ (k.value w) args args' → args.length = c.params.names.length →
    k.holds w (inCall near.limits span (locating span (near.invoke c args)))
      (inCall far.limits (span.relocate k.moved) (locating (span.relocate k.moved) (far.invoke c' args')))
  inBlock {s t : Step Signal} : k.holds (k.inside w) s t → k.holds w (inBlock s) (inBlock t)
  loop : k.fits w (.stmt (.loop span c body)) → (∀ w', k.later w w' → k.holds w' test test') →
    (∀ w', k.later w w' → k.holds w' run run') →
    k.holds w (repeating near.patience (Evaluate.round near.steps span test run))
      (repeating far.patience (Evaluate.round far.steps (span.relocate k.moved) test' run'))

namespace Steps

variable {k : Comparison Step Step} {near far : Host}

theorem unaryOp (laws : k.Steps near far) (fit : k.fits w node) (spans : node.span? = some span) (op : Kind)
    (same : k.value w v v') : k.holds w (unaryOp span op v) (unaryOp (span.relocate k.moved) op v') := by
  have like := laws.like same
  unfold Interpret.unaryOp
  rw [← like.isTruthy, ← like.type]
  split
  · cases like with
    | number x => exact laws.pure (laws.plain trivial)
    | _ => exact laws.fail fit spans rfl
  · exact laws.pure (laws.plain trivial)
  · exact laws.fail fit spans rfl

theorem arithmetic (laws : k.Steps near far) (fit : k.fits w node) (spans : node.span? = some span) (op : Kind)
    (x y : Float) : k.holds w (arithmetic span op x y) (arithmetic (span.relocate k.moved) op x y) := by
  unfold Interpret.arithmetic
  split
  case h_3 => exact Comparison.ite _ _ rfl (laws.fail fit spans rfl) (laws.pure (laws.plain trivial))
  case h_8 => exact laws.fail fit spans rfl
  all_goals exact laws.pure (laws.plain trivial)

theorem binaryOp (laws : k.Steps near far) (fit : k.fits w node) (spans : node.span? = some span) (op : Kind)
    (left : k.value w v v') (right : k.value w u u') :
    k.holds w (binaryOp span op v u) (binaryOp (span.relocate k.moved) op v' u') := by
  have equal := laws.equals left right
  have left := laws.like left
  have right := laws.like right
  unfold Interpret.binaryOp
  rw [← equal, ← left.type, ← right.type]
  split
  · exact laws.pure (laws.plain trivial)
  · exact laws.pure (laws.plain trivial)
  · cases left <;> cases right <;>
      first | exact laws.fail fit spans rfl | exact laws.pure (laws.plain trivial)
  · cases left <;> cases right <;>
      first | exact laws.fail fit spans rfl | exact laws.arithmetic fit spans op _ _

-- The only complaint is taken up as a fault of the call.
theorem callBuiltin (laws : k.Steps near far) (fit : k.fits w node) (spans : node.span? = some span) (b : Builtin)
    (each : List.Forall₂ (k.value w) args args') :
    k.holds w (locating span (callBuiltin near.clock b args))
      (locating (span.relocate k.moved) (callBuiltin far.clock b args')) := by
  have read : k.holds w (Machine.readClock near.clock >>= fun now => Pure.pure (Value.number now))
      (Machine.readClock far.clock >>= fun now => Pure.pure (Value.number now)) := by
    refine laws.bind laws.readClock fun _ x y _ same => ?_
    obtain rfl : x = y := same
    exact laws.pure (laws.plain trivial)
  cases each with
  | nil => cases b with
    | clock => exact read
    | _ => exact laws.pure (laws.plain trivial)
  | cons same rest =>
    have like := laws.like same
    cases b with
    | clock => exact read
    | len => cases like with
      | string s => exact laws.pure (laws.plain trivial)
      | _ => exact laws.fail fit spans rfl
    | str =>
      simp only [Interpret.callBuiltin, like.render]
      exact laws.pure (laws.plain trivial)
    | type =>
      simp only [Interpret.callBuiltin, like.type]
      exact laws.pure (laws.plain trivial)

theorem laws (laws : k.Steps near far) : k.Laws near.steps far.steps where
  toLawful := laws.toLawful
  refuse fit isCall := laws.fail fit rfl (RuntimeFault.ofLimit_of_ofCall isCall)
  unary fit := laws.unaryOp fit rfl _
  binary fit := laws.binaryOp fit rfl _
  decides fit same := by
    show k.holds _ (Pure.pure (decides _ _)) (Pure.pure (decides _ _))
    unfold decides
    rw [(laws.like same).isTruthy]
    exact laws.pure rfl
  lookup := laws.lookup
  assign := laws.assign
  define := laws.define
  makeFunction := laws.makeFunction
  print := laws.print
  tick := laws.tick
  builtin fit each _ := laws.inside fit (laws.callBuiltin fit rfl _ each)
  call := laws.call
  inBlock := laws.inBlock
  noBlock _ := laws.pure laws.next
  loop := laws.loop

end Steps

end Comparison

namespace Interpret

open Machine

structure Respects (near far : Host) (R : {α : Type} → Step α → Step α → Prop) : Prop where
  pure : ∀ {α : Type} (a : α), R (Pure.pure a) (Pure.pure a)
  bind : ∀ {α β : Type} {s t : Step α} {f g : α → Step β},
    R s t → (∀ a, R (f a) (g a)) → R (s >>= f) (t >>= g)
  fail : ∀ {α : Type} span fault, fault.ofLimit = false → R (@fail α span fault) (@fail α span fault)
  print : ∀ s, R (print s) (print s)
  lookup : ∀ span x, R (lookup span x) (lookup span x)
  assign : ∀ span x v, R (assign span x v) (assign span x v)
  define : ∀ x v, R (define x v) (define x v)
  makeFunction : ∀ name params body,
    R (makeFunction name params body) (makeFunction name params body)
  readClock : R (readClock near.clock) (readClock far.clock)
  tick : ∀ span, R (tick near.limits span) (tick far.limits span)
  -- a call of a built-in function, which calls nothing itself
  inside : ∀ {s t : Step Value} span, R s t →
    R (inCall near.limits span s) (inCall far.limits span t)
  call : ∀ span f args, R (inCall near.limits span (locating span (near.invoke f args)))
    (inCall far.limits span (locating span (far.invoke f args)))
  scope : ∀ {s t : Step Value} parent, R s t → R (inNewScope parent s) (inNewScope parent t)
  block : ∀ {s t : Step Signal}, R s t → R (inBlock s) (inBlock t)
  loop : ∀ {c c' : Step Value} {b b' : Step Signal} span, R c c' → R b b' →
    R (repeating near.patience (Evaluate.round near.steps span c b))
      (repeating far.patience (Evaluate.round far.steps span c' b'))

namespace Respects

variable {near far : Host} {R : {α : Type} → Step α → Step α → Prop}

theorem round (unit : ∀ {α : Type} (a : α), R (Pure.pure a) (Pure.pure a))
    (chain : ∀ {α β : Type} {s t : Step α} {f g : α → Step β}, R s t → (∀ a, R (f a) (g a)) → R (s >>= f) (t >>= g))
    {c c' : Step Value} {b b' : Step Signal} (span : Span)
    (tick : R (Machine.tick near.limits span) (Machine.tick far.limits span)) (condition : R c c') (body : R b b') :
    R (Evaluate.round near.steps span c b) (Evaluate.round far.steps span c' b') := by
  have laws : (Comparison.valueless @R).Lawful := Comparison.valueless_lawful unit chain
  refine laws.round (w := ()) (fun _ _ => ?_) (fun _ _ => condition) fun _ _ => body
  exact tick

theorem round_alone {P : {α : Type} → Step α → Prop} {host : Host} (unit : ∀ {α : Type} (a : α), P (Pure.pure a))
    (chain : ∀ {α β : Type} {s : Step α} {f : α → Step β}, P s → (∀ a, P (f a)) → P (s >>= f)) {c : Step Value}
    {b : Step Signal} (span : Span) (tick : P (Machine.tick host.limits span)) (condition : P c) (body : P b) :
    P (Evaluate.round host.steps span c b) :=
  @round host host (fun s _ => P s) unit chain c c b b span tick condition body

theorem steps (laws : Respects near far @R) : (Comparison.valueless @R).Steps near far where
  toLawful := Comparison.valueless_lawful laws.pure laws.bind
  equals := by
    rintro _ _ _ _ _ rfl rfl
    rfl
  fail _ _ own := laws.fail _ _ own
  lookup _ := laws.lookup _ _
  assign := by
    rintro _ span x _ v _ _ rfl
    exact laws.assign span x v
  define := by
    rintro _ v _ x _ rfl
    exact laws.define x v
  makeFunction name params _ _ := by
    show R _ (Machine.makeFunction name params (Block.relocate id _))
    rw [Block.relocate_id]
    exact laws.makeFunction name params _
  print := laws.print
  readClock := laws.readClock
  tick _ _ := laws.tick _
  inside _ inner := laws.inside _ inner
  call := by
    rintro _ span _ _ _ c _ _ args args' _ ⟨⟩ each _
    obtain rfl : args = args' := Yield.equal.1 each
    exact laws.call span c args
  inBlock := laws.block
  loop _ test run := laws.loop _ (test () trivial) (run () trivial)

theorem eval (laws : Respects near far @R) (e : Expr) : R (eval near e) (eval far e) :=
  Comparison.valueless_eval laws.steps.laws e

theorem exec (laws : Respects near far @R) (s : Stmt) : R (exec near s) (exec far s) :=
  Comparison.valueless_exec laws.steps.laws s

theorem boundBody (laws : Respects near far @R) (f : Closure) (args : List Value) :
    R (Evaluate.boundBody near.steps f args) (Evaluate.boundBody far.steps f args) :=
  Comparison.valueless_boundBody laws.steps.laws f args

theorem functionBody (laws : Respects near far @R) (f : Closure) (args : List Value) :
    R (functionBody near f args) (functionBody far f args) :=
  laws.scope f.scope (laws.boundBody f args)

theorem execProgram (laws : Respects near far @R) (program : List Stmt) :
    R (execProgram near program) (execProgram far program) :=
  Comparison.valueless_execProgram laws.steps.laws program

end Respects

end Interpret

end TinyScript
