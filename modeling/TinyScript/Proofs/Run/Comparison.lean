import Mathlib.Data.List.Forall2
import Mathlib.Data.Option.Basic
import TinyScript.Proofs.Tree.Shape
import TinyScript.Run.Evaluate

namespace TinyScript

-- The same but for what tells two functions apart.
inductive Value.Like : Value → Value → Prop where
  | nil : Like .nil .nil
  | boolean (b : Bool) : Like (.boolean b) (.boolean b)
  | number (x : Float) : Like (.number x) (.number x)
  | string (s : Bytes) : Like (.string s) (.string s)
  | function : f.name = f'.name → f.params = f'.params → Like (.function i f) (.function j f')
  | builtin (b : Builtin) : Like (.builtin i b) (.builtin j b)

namespace Value.Like

variable {v w : Value}

theorem refl (v : Value) : v.Like v := by
  cases v with
  | nil => exact .nil
  | boolean b => exact .boolean b
  | number x => exact .number x
  | string s => exact .string s
  | function i f => exact .function rfl rfl
  | builtin i b => exact .builtin b

theorem of_eq (same : v = w) : v.Like w := same ▸ refl v

theorem type (like : v.Like w) : v.type = w.type := by cases like <;> rfl

theorem isTruthy (like : v.Like w) : v.isTruthy = w.isTruthy := by cases like <;> rfl

theorem render (like : v.Like w) : v.render = w.render := by
  cases like with
  | function name _ =>
    simp only [Value.render]
    rw [name]
  | _ => rfl

end Value.Like

def Value.Plain : Value → Prop
  | .function _ _ | .builtin _ _ => False
  | _ => True

theorem Value.plain_ofLiteral (l : Literal) : (Value.ofLiteral l).Plain := by cases l <;> trivial

inductive Signal.Rel (V : Value → Value → Prop) : Signal → Signal → Prop where
  | next : Rel V .next .next
  | returned : V v w → Rel V (.returned v) (.returned w)

theorem Signal.Rel.mono {s t : Signal} (same : Signal.Rel V s t) (more : ∀ {v w}, V v w → V' v w) :
    Signal.Rel V' s t := by
  cases same with
  | next => exact .next
  | returned same => exact .returned (more same)

theorem Signal.Rel.eq_of {s t : Signal} (values : ∀ {v w}, V v w → v = w) (same : Signal.Rel V s t) : s = t := by
  cases same with
  | next => rfl
  | returned same => rw [values same]

theorem Signal.Rel.of_eq {s t : Signal} (same : s = t) : Signal.Rel Eq s t := by
  subst same
  cases s with
  | next => exact .next
  | returned v => exact .returned rfl

class Yield (α : Type) where
  Rel : (Value → Value → Prop) → (Signal → Signal → Prop) → α → α → Prop
  mono : (∀ {v w}, V v w → V' v w) → (∀ {s t}, S s t → S' s t) → Rel V S a b → Rel V' S' a b
  equal : Rel Eq Eq a b ↔ a = b

theorem Yield.eq_of [Yield α] {a b : α} (values : ∀ {v w}, V v w → v = w) (signals : ∀ {s t}, S s t → s = t)
    (same : Yield.Rel V S a b) : a = b :=
  Yield.equal.1 (Yield.mono values signals same)

instance : Yield Unit := ⟨fun _ _ _ _ => True, fun _ _ _ => trivial, by simp⟩

instance : Yield Bool := ⟨fun _ _ => Eq, fun _ _ same => same, Iff.rfl⟩

instance : Yield Float := ⟨fun _ _ => Eq, fun _ _ same => same, Iff.rfl⟩

instance : Yield Value := ⟨fun V _ => V, fun values _ => values, Iff.rfl⟩

instance : Yield Signal := ⟨fun _ S => S, fun _ signals => signals, Iff.rfl⟩

instance : Yield (List Value) where
  Rel V _ := List.Forall₂ V
  mono values _ := List.Forall₂.imp fun _ _ => values
  equal := by rw [List.forall₂_eq_eq_eq]

instance : Yield (Option Signal) where
  Rel _ S := Option.Rel S
  mono _ signals := by
    intro same
    cases same with
    | none => exact .none
    | some same => exact .some (signals same)
  equal {a b} := by
    constructor
    · intro same
      cases same with
      | none => rfl
      | some same => exact congrArg some same
    · rintro rfl
      cases a with
      | none => exact .none
      | some s => exact .some rfl

-- A relation between the steps of two evaluations. What is known of the values they have come across is told by
-- a world; worlds only get later.
structure Comparison (M N : Type → Type) where
  World : Type
  later : World → World → Prop
  inside : World → World
  -- the second tree is the first one with its places moved
  moved : Position → Position
  value : World → Value → Value → Prop
  signal : World → Signal → Signal → Prop
  fits : World → Node → Prop
  binds : World → Prop
  holds : {α : Type} → [Yield α] → World → M α → N α → Prop

namespace Comparison

abbrev rel (k : Comparison M N) (w : k.World) [Yield α] (a b : α) : Prop :=
  Yield.Rel (k.value w) (k.signal w) a b

structure Lawful [Monad M] [Monad N] (k : Comparison M N) : Prop where
  later_refl : k.later w w
  later_trans : k.later w w' → k.later w' w'' → k.later w w''
  value_later : k.later w w' → k.value w v v' → k.value w' v v'
  fits_later : k.later w w' → k.fits w node → k.fits w' node
  binds_later : k.later w w' → k.binds w → k.binds w'
  like : k.value w v v' → v.Like v'
  plain : v.Plain → k.value w v v
  next : k.signal w .next .next
  returned : k.fits w (.stmt (.giveBack span e)) → k.value w v v' → k.signal w (.returned v) (.returned v')
  ended : k.signal w s s' → Signal.Rel (k.value w) s s'
  part {inner : Node} : k.fits w node → inner ∈ node.parts → k.fits w inner
  block : k.fits w (.stmt (.block b)) → k.fits (k.inside w) (.block b)
  declares : k.fits w (.stmt (.declare span x e)) → k.binds w
  names : k.fits w (.stmt (.function span x params body)) → k.binds w
  pure : ∀ {α : Type} [Yield α] {w : k.World} {a b : α}, k.rel w a b → k.holds w (pure a) (pure b)
  bind : ∀ {α β : Type} [Yield α] [Yield β] {w : k.World} {s : M α} {t : N α} {f : α → M β} {g : α → N β},
    k.holds w s t → (∀ w' a b, k.later w w' → k.rel w' a b → k.holds w' (f a) (g b)) →
    k.holds w (s >>= f) (t >>= g)

theorem ite {k : Comparison M N} (p q : Bool) (same : p = q) [Yield α] {w : k.World} {s s' : M α} {t t' : N α}
    (yes : k.holds w s t) (no : k.holds w s' t') :
    k.holds w (if p then s else s') (if q then t else t') := by
  subst same
  split
  · exact yes
  · exact no

theorem Lawful.round [Monad M] [Monad N] {k : Comparison M N} (laws : k.Lawful) {near : Primitives M}
    {far : Primitives N} {w : k.World} (tick : ∀ w', k.later w w' → k.holds w' (near.tick span) (far.tick span'))
    {test : M Value} {test' : N Value} {run : M Signal} {run' : N Signal}
    (condition : ∀ w', k.later w w' → k.holds w' test test') (body : ∀ w', k.later w w' → k.holds w' run run') :
    k.holds w (Evaluate.round near span test run) (Evaluate.round far span' test' run') := by
  refine laws.bind (condition w laws.later_refl) fun w' v v' more same => ?_
  refine ite _ _ (laws.like same).isTruthy ?_ (laws.pure (.some laws.next))
  refine laws.bind (tick w' more) fun w'' _ _ more' _ => ?_
  refine laws.bind (body w'' (laws.later_trans more more')) fun _ signal signal' _ same => ?_
  have ended := laws.ended same
  cases ended with
  | next => exact laws.pure .none
  | returned _ => exact laws.pure (.some same)

def valueless (R : {α : Type} → M α → N α → Prop) : Comparison M N where
  World := Unit
  later _ _ := True
  inside := id
  moved := id
  value _ := Eq
  signal _ := Eq
  fits _ _ := True
  binds _ := True
  holds _ := R

theorem valueless_lawful [Monad M] [Monad N] {R : {α : Type} → M α → N α → Prop}
    (unit : ∀ {α : Type} (a : α), R (Pure.pure a) (Pure.pure a))
    (chain : ∀ {α β : Type} {s : M α} {t : N α} {f : α → M β} {g : α → N β},
      R s t → (∀ a, R (f a) (g a)) → R (s >>= f) (t >>= g)) : (valueless @R).Lawful where
  later_refl := trivial
  later_trans _ _ := trivial
  value_later _ same := same
  fits_later _ _ := trivial
  binds_later _ _ := trivial
  like := .of_eq
  plain _ := rfl
  next := rfl
  returned _ same := congrArg Signal.returned same
  ended := .of_eq
  part _ _ := trivial
  block _ := trivial
  declares _ := trivial
  names _ := trivial
  pure {α} _ w a b same := by
    obtain rfl := Yield.equal.1 same
    exact unit a
  bind first next := chain first fun a => next () a a trivial (Yield.equal.2 rfl)

end Comparison

def RuntimeFault.ofCall : RuntimeFault → Bool
  | .notCallable _ | .arity _ _ => true
  | _ => false

namespace Comparison

-- What the relation says of each primitive step. A step belongs to a node of the tree, which fits.
structure Laws [Monad M] [Monad N] (k : Comparison M N) (near : Primitives M) (far : Primitives N) : Prop
    extends k.Lawful where
  refuse : k.fits w (.expr (.call span f es)) → fault.ofCall = true →
    k.holds w (near.fail span fault) (far.fail (span.relocate k.moved) fault)
  unary : k.fits w (.expr (.unary span op e)) → k.value w v v' →
    k.holds w (near.unary span op v) (far.unary (span.relocate k.moved) op v')
  binary : k.fits w (.expr (.binary span op l r)) → k.value w v v' → k.value w u u' →
    k.holds w (near.binary span op v u) (far.binary (span.relocate k.moved) op v' u')
  decides : k.fits w (.expr (.logical span op l r)) → k.value w v v' →
    k.holds w (near.decides op v) (far.decides op v')
  lookup : k.fits w (.expr (.name span x)) →
    k.holds w (near.lookup span x) (far.lookup (span.relocate k.moved) x)
  assign : k.fits w (.expr (.assign span x e)) → k.value w v v' →
    k.holds w (near.assign span x v) (far.assign (span.relocate k.moved) x v')
  define : k.binds w → k.value w v v' → k.holds w (near.define x v) (far.define x v')
  makeFunction (name : Bytes) (params : Params) : k.fits w node → .block body ∈ node.children →
    k.holds w (near.makeFunction name params body) (far.makeFunction name params (body.relocate k.moved))
  print (text : Bytes) : k.holds w (near.print text) (far.print text)
  tick : k.fits w node → node.span? = some span →
    k.holds w (near.tick span) (far.tick (span.relocate k.moved))
  builtin : k.fits w (.expr (.call span f es)) → List.Forall₂ (k.value w) args args' → args.length = b.arity →
    k.holds w (near.inCall span (near.locating span (near.builtin b args)))
      (far.inCall (span.relocate k.moved) (far.locating (span.relocate k.moved) (far.builtin b args')))
  call : k.fits w (.expr (.call span f es)) → k.value w (.function i c) (.function j c') →
    List.Forall₂ (k.value w) args args' → args.length = c.params.names.length →
    k.holds w (near.inCall span (near.locating span (near.invoke c args)))
      (far.inCall (span.relocate k.moved) (far.locating (span.relocate k.moved) (far.invoke c' args')))
  inBlock : k.holds (k.inside w) s t → k.holds w (near.inBlock s) (far.inBlock t)
  noBlock : k.fits w (.block .absent) → k.holds w near.noBlock far.noBlock
  loop : k.fits w (.stmt (.loop span c body)) → (∀ w', k.later w w' → k.holds w' test test') →
    (∀ w', k.later w w' → k.holds w' run run') →
    k.holds w (near.repeating (Evaluate.round near span test run))
      (far.repeating (Evaluate.round far (span.relocate k.moved) test' run'))

namespace Laws

variable {M N : Type → Type} [Monad M] [Monad N] {k : Comparison M N} {near : Primitives M} {far : Primitives N}

theorem apply (laws : k.Laws near far) (fit : k.fits w (.expr (.call span f es))) (callee : k.value w v v')
    (each : List.Forall₂ (k.value w) args args') :
    k.holds w (Evaluate.apply near span v args) (Evaluate.apply far (span.relocate k.moved) v' args') := by
  -- the arguments are counted and the call is, whatever is called
  have enter (wanted : Nat) {body : M Value} {body' : N Value}
      (inner : args.length = wanted → ∀ w', k.later w w' →
        k.holds w' (near.inCall span (near.locating span body))
          (far.inCall (span.relocate k.moved) (far.locating (span.relocate k.moved) body'))) :
      k.holds w
        (if args.length ≠ wanted then near.fail span (.arity wanted args.length)
          else do
            near.tick span
            near.inCall span (near.locating span body))
        (if args'.length ≠ wanted then far.fail (span.relocate k.moved) (.arity wanted args'.length)
          else do
            far.tick (span.relocate k.moved)
            far.inCall (span.relocate k.moved) (far.locating (span.relocate k.moved) body')) := by
    rw [← each.length_eq]
    split
    · exact laws.refuse fit rfl
    · next counted => exact laws.bind (laws.tick fit rfl) fun w' _ _ more _ => inner (not_not.1 counted) w' more
  have later {w' : k.World} (more : k.later w w') : List.Forall₂ (k.value w') args args' :=
    each.imp fun _ _ same => laws.value_later more same
  have like := laws.like callee
  cases like with
  | function name params =>
    unfold Evaluate.apply
    dsimp only
    rw [← params]
    exact enter _ fun counted w' more =>
      laws.call (laws.fits_later more fit) (laws.value_later more callee) (later more) counted
  | builtin b => exact enter _ fun counted w' more => laws.builtin (laws.fits_later more fit) (later more) counted
  | _ => exact laws.refuse fit rfl

mutual

theorem eval (laws : k.Laws near far) : (e : Expr) → {w : k.World} → k.fits w (.expr e) →
    k.holds w (Evaluate.eval near e) (Evaluate.eval far (e.relocate k.moved))
  | .literal _ v, _, _ => by
    simp only [Expr.relocate, Evaluate.eval]
    exact laws.pure (laws.plain (Value.plain_ofLiteral v))
  | .grouping _ e, _, fit => by
    simp only [Expr.relocate, Evaluate.eval]
    exact laws.eval e (laws.part fit (.head _))
  | .unary span op e, _, fit => by
    simp only [Expr.relocate, Evaluate.eval]
    exact laws.bind (laws.eval e (laws.part fit (.head _))) fun _ _ _ more same =>
      laws.unary (laws.fits_later more fit) same
  | .binary span op l r, _, fit => by
    simp only [Expr.relocate, Evaluate.eval]
    refine laws.bind (laws.eval l (laws.part fit (.head _))) fun _ left left' more same => ?_
    have fit := laws.fits_later more fit
    exact laws.bind (laws.eval r (laws.part fit (.tail _ (.head _)))) fun _ right right' more same' =>
      laws.binary (laws.fits_later more fit) (laws.value_later more same) same'
  | .logical _ op l r, _, fit => by
    simp only [Expr.relocate, Evaluate.eval]
    refine laws.bind (laws.eval l (laws.part fit (.head _))) fun _ left left' more same => ?_
    have fit := laws.fits_later more fit
    refine laws.bind (laws.decides fit same) fun _ decided decided' more agree => ?_
    exact ite decided decided' agree (laws.pure (laws.value_later more same))
      (laws.eval r (laws.part (laws.fits_later more fit) (.tail _ (.head _))))
  | .name span x, _, fit => by
    simp only [Expr.relocate, Evaluate.eval]
    exact laws.lookup fit
  | .assign span x e, _, fit => by
    simp only [Expr.relocate, Evaluate.eval]
    refine laws.bind (laws.eval e (laws.part fit (.head _))) fun _ v v' more same => ?_
    exact laws.bind (laws.assign (laws.fits_later more fit) same) fun _ _ _ more _ =>
      laws.pure (laws.value_later more same)
  | .call span f es, _, fit => by
    simp only [Expr.relocate, Evaluate.eval]
    refine laws.bind (laws.eval f (laws.part fit (.head _))) fun _ callee callee' more same => ?_
    have fit := laws.fits_later more fit
    refine laws.bind (laws.evalEach es fun e mem => laws.part fit (.tail _ (List.mem_map_of_mem mem)))
      fun _ args args' more each => ?_
    exact laws.apply (laws.fits_later more fit) (laws.value_later more same) each
  | .lambda span params body, _, fit => by
    simp only [Expr.relocate, Evaluate.eval]
    exact laws.makeFunction [] params fit (.head _)

theorem evalEach (laws : k.Laws near far) : (es : List Expr) → {w : k.World} →
    (∀ e ∈ es, k.fits w (.expr e)) →
    k.holds w (Evaluate.evalEach near es) (Evaluate.evalEach far (Expr.relocateAll k.moved es))
  | [], _, _ => by
    simp only [Expr.relocateAll, Evaluate.evalEach]
    exact laws.pure .nil
  | e :: es, _, fit => by
    simp only [Expr.relocateAll, Evaluate.evalEach]
    obtain ⟨first, others⟩ := List.forall_mem_cons.1 fit
    refine laws.bind (laws.eval e first) fun _ v v' more same => ?_
    refine laws.bind (laws.evalEach es fun e mem => laws.fits_later more (others e mem)) fun _ vs vs' more each => ?_
    exact laws.pure (.cons (laws.value_later more same) each)

theorem exec (laws : k.Laws near far) : (s : Stmt) → {w : k.World} → k.fits w (.stmt s) →
    k.holds w (Evaluate.exec near s) (Evaluate.exec far (s.relocate k.moved))
  | .expr _ e, _, fit => by
    simp only [Stmt.relocate, Evaluate.exec]
    exact laws.bind (laws.eval e (laws.part fit (.head _))) fun _ _ _ _ _ => laws.pure laws.next
  | .print _ e, _, fit => by
    simp only [Stmt.relocate, Evaluate.exec]
    refine laws.bind (laws.eval e (laws.part fit (.head _))) fun _ v v' _ same => ?_
    rw [(laws.like same).render]
    exact laws.bind (laws.print v'.render) fun _ _ _ _ _ => laws.pure laws.next
  | .declare _ x none, _, fit => by
    simp only [Stmt.relocate, Evaluate.exec]
    exact laws.bind (laws.define (laws.declares fit) (laws.plain trivial)) fun _ _ _ _ _ => laws.pure laws.next
  | .declare _ x (some e), _, fit => by
    simp only [Stmt.relocate, Evaluate.exec]
    refine laws.bind (laws.eval e (laws.part fit (.head _))) fun _ v v' more same => ?_
    exact laws.bind (laws.define (laws.declares (laws.fits_later more fit)) same) fun _ _ _ _ _ =>
      laws.pure laws.next
  | .block body, _, fit => by
    simp only [Stmt.relocate, Evaluate.exec]
    exact laws.inBlock (laws.execBlock body (laws.block fit))
  | .branch _ c yes none, _, fit => by
    simp only [Stmt.relocate, Evaluate.exec]
    refine laws.bind (laws.eval c (laws.part fit (.head _))) fun _ v v' more same => ?_
    exact ite _ _ (laws.like same).isTruthy
      (laws.exec yes (laws.part (laws.fits_later more fit) (.tail _ (.head _)))) (laws.pure laws.next)
  | .branch _ c yes (some no), _, fit => by
    simp only [Stmt.relocate, Evaluate.exec]
    refine laws.bind (laws.eval c (laws.part fit (.head _))) fun _ v v' more same => ?_
    have fit := laws.fits_later more fit
    exact ite _ _ (laws.like same).isTruthy (laws.exec yes (laws.part fit (.tail _ (.head _))))
      (laws.exec no (laws.part fit (.tail _ (.tail _ (.head _)))))
  | .loop span c body, _, fit => by
    simp only [Stmt.relocate, Evaluate.exec]
    exact laws.loop fit (fun _ more => laws.eval c (laws.part (laws.fits_later more fit) (.head _)))
      fun _ more => laws.exec body (laws.part (laws.fits_later more fit) (.tail _ (.head _)))
  | .function _ name params body, _, fit => by
    simp only [Stmt.relocate, Evaluate.exec]
    refine laws.bind (laws.makeFunction name params fit (.head _)) fun _ f f' more same => ?_
    exact laws.bind (laws.define (laws.names (laws.fits_later more fit)) same) fun _ _ _ _ _ => laws.pure laws.next
  | .giveBack _ none, _, fit => by
    simp only [Stmt.relocate, Evaluate.exec]
    exact laws.pure (laws.returned fit (laws.plain trivial))
  | .giveBack _ (some e), _, fit => by
    simp only [Stmt.relocate, Evaluate.exec]
    exact laws.bind (laws.eval e (laws.part fit (.head _))) fun _ v v' more same =>
      laws.pure (laws.returned (laws.fits_later more fit) same)

theorem execBlock (laws : k.Laws near far) : (b : Block) → {w : k.World} → k.fits w (.block b) →
    k.holds w (Evaluate.execBlock near b) (Evaluate.execBlock far (b.relocate k.moved))
  | .absent, _, fit => by
    simp only [Block.relocate, Evaluate.execBlock]
    exact laws.noBlock fit
  | .braces _ stmts, _, fit => by
    simp only [Block.relocate, Evaluate.execBlock]
    exact laws.execEach stmts fun s mem => laws.part fit (List.mem_map_of_mem mem)

theorem execEach (laws : k.Laws near far) : (ss : List Stmt) → {w : k.World} →
    (∀ s ∈ ss, k.fits w (.stmt s)) →
    k.holds w (Evaluate.execEach near ss) (Evaluate.execEach far (Stmt.relocateAll k.moved ss))
  | [], _, _ => by
    simp only [Stmt.relocateAll, Evaluate.execEach]
    exact laws.pure laws.next
  | s :: ss, _, fit => by
    simp only [Stmt.relocateAll, Evaluate.execEach]
    obtain ⟨first, others⟩ := List.forall_mem_cons.1 fit
    refine laws.bind (laws.exec s first) fun w' signal signal' more same => ?_
    have ended := laws.ended same
    cases ended with
    | next => exact laws.execEach ss fun s mem => laws.fits_later more (others s mem)
    | returned _ => exact laws.pure same

end

theorem bindAll (laws : k.Laws near far) {w : k.World} (binds : k.binds w) (names : List Bytes)
    (each : List.Forall₂ (k.value w) args args') :
    k.holds w (Evaluate.bindAll near (names.zip args)) (Evaluate.bindAll far (names.zip args')) := by
  induction names generalizing args args' w with
  | nil => exact laws.pure trivial
  | cons x names ih =>
    cases each with
    | nil => exact laws.pure trivial
    | cons same rest =>
      exact laws.bind (laws.define binds same) fun _ _ _ more _ =>
        ih (laws.binds_later more binds) (rest.imp fun _ _ same => laws.value_later more same)

theorem boundBody (laws : k.Laws near far) {w : k.World} (binds : k.binds w) {f f' : Closure}
    (params : f.params = f'.params) (body : f'.body = f.body.relocate k.moved) (fit : k.fits w (.block f.body))
    (each : List.Forall₂ (k.value w) args args') :
    k.holds w (Evaluate.boundBody near f args) (Evaluate.boundBody far f' args') := by
  unfold Evaluate.boundBody
  rw [← params, body]
  refine laws.bind (laws.bindAll binds _ each) fun _ _ _ more _ => ?_
  refine laws.bind (laws.execBlock f.body (laws.fits_later more fit)) fun _ signal signal' _ same => ?_
  have ended := laws.ended same
  cases ended with
  | next => exact laws.pure (laws.plain trivial)
  | returned values => exact laws.pure values

theorem execProgram (laws : k.Laws near far) {w : k.World} {program : List Stmt}
    (fit : ∀ s ∈ program, k.fits w (.stmt s)) :
    k.holds w (Evaluate.execProgram near program)
      (Evaluate.execProgram far (program.map (Stmt.relocate k.moved))) := by
  induction program generalizing w with
  | nil => exact laws.pure trivial
  | cons s ss ih =>
    obtain ⟨first, others⟩ := List.forall_mem_cons.1 fit
    exact laws.bind (laws.exec s first) fun _ _ _ more _ => ih fun s mem => laws.fits_later more (others s mem)

theorem eval_same (laws : k.Laws near far) (still : k.moved = id) {w : k.World} {e : Expr}
    (fit : k.fits w (.expr e)) : k.holds w (Evaluate.eval near e) (Evaluate.eval far e) := by
  have holds := laws.eval e fit
  rw [still, Expr.relocate_id] at holds
  exact holds

theorem exec_same (laws : k.Laws near far) (still : k.moved = id) {w : k.World} {s : Stmt}
    (fit : k.fits w (.stmt s)) : k.holds w (Evaluate.exec near s) (Evaluate.exec far s) := by
  have holds := laws.exec s fit
  rw [still, Stmt.relocate_id] at holds
  exact holds

theorem boundBody_same (laws : k.Laws near far) (still : k.moved = id) {w : k.World} (binds : k.binds w)
    {f f' : Closure} (params : f.params = f'.params) (body : f'.body = f.body) (fit : k.fits w (.block f.body))
    (each : List.Forall₂ (k.value w) args args') :
    k.holds w (Evaluate.boundBody near f args) (Evaluate.boundBody far f' args') :=
  laws.boundBody binds params (by rw [body, still, Block.relocate_id]) fit each

theorem execProgram_same (laws : k.Laws near far) (still : k.moved = id) {w : k.World} {program : List Stmt}
    (fit : ∀ s ∈ program, k.fits w (.stmt s)) :
    k.holds w (Evaluate.execProgram near program) (Evaluate.execProgram far program) := by
  have holds := laws.execProgram fit
  rw [still, ← Stmt.relocateAll_eq_map, Stmt.relocateAll_id] at holds
  exact holds

end Laws

section

variable {M N : Type → Type} [Monad M] [Monad N] {R : {α : Type} → M α → N α → Prop} {near : Primitives M}
  {far : Primitives N} (laws : (valueless @R).Laws near far)
include laws

theorem valueless_eval (e : Expr) : R (Evaluate.eval near e) (Evaluate.eval far e) :=
  laws.eval_same rfl (w := ()) trivial

theorem valueless_exec (s : Stmt) : R (Evaluate.exec near s) (Evaluate.exec far s) :=
  laws.exec_same rfl (w := ()) trivial

theorem valueless_boundBody (f : Closure) (args : List Value) :
    R (Evaluate.boundBody near f args) (Evaluate.boundBody far f args) :=
  laws.boundBody_same rfl (w := ()) trivial rfl rfl trivial (List.forall₂_same.2 fun _ _ => rfl)

theorem valueless_execProgram (program : List Stmt) :
    R (Evaluate.execProgram near program) (Evaluate.execProgram far program) :=
  laws.execProgram_same rfl (w := ()) fun _ _ => trivial

end

end Comparison

-- Two ways to evaluate whose steps go together one by one, from the same values.
structure Primitives.Pairs [Monad M] [Monad N] (near : Primitives M) (far : Primitives N)
    (R : {α : Type} → M α → N α → Prop) : Prop where
  pure : ∀ {α : Type} (a : α), R (pure a) (pure a)
  bind : ∀ {α β : Type} {s : M α} {t : N α} {f : α → M β} {g : α → N β},
    R s t → (∀ a, R (f a) (g a)) → R (s >>= f) (t >>= g)
  fail : ∀ span fault, R (near.fail span fault) (far.fail span fault)
  unary : ∀ span op v, R (near.unary span op v) (far.unary span op v)
  binary : ∀ span op l r, R (near.binary span op l r) (far.binary span op l r)
  decides : ∀ op v, R (near.decides op v) (far.decides op v)
  lookup : ∀ span x, R (near.lookup span x) (far.lookup span x)
  assign : ∀ span x v, R (near.assign span x v) (far.assign span x v)
  define : ∀ x v, R (near.define x v) (far.define x v)
  makeFunction : ∀ name params body, R (near.makeFunction name params body) (far.makeFunction name params body)
  print : ∀ text, R (near.print text) (far.print text)
  tick : ∀ span, R (near.tick span) (far.tick span)
  builtin : ∀ b args, R (near.builtin b args) (far.builtin b args)
  invoke : ∀ f args, R (near.invoke f args) (far.invoke f args)
  locating : ∀ {s t} span, R s t → R (near.locating span s) (far.locating span t)
  inCall : ∀ {s t} span, R s t → R (near.inCall span s) (far.inCall span t)
  inNewScope : ∀ {s t} parent, R s t → R (near.inNewScope parent s) (far.inNewScope parent t)
  inBlock : ∀ {s t}, R s t → R (near.inBlock s) (far.inBlock t)
  noBlock : R near.noBlock far.noBlock
  repeating : ∀ {s t}, R s t → R (near.repeating s) (far.repeating t)

namespace Primitives.Pairs

variable {M N : Type → Type} [Monad M] [Monad N] {R : {α : Type} → M α → N α → Prop} {near : Primitives M}
  {far : Primitives N}

theorem laws (pairs : near.Pairs far @R) : (Comparison.valueless @R).Laws near far := by
  have lawful : (Comparison.valueless @R).Lawful := Comparison.valueless_lawful pairs.pure pairs.bind
  exact {
    toLawful := lawful
    refuse := fun _ _ => pairs.fail _ _
    unary := by
      rintro _ span op _ v _ _ rfl
      exact pairs.unary span op v
    binary := by
      rintro _ span op _ _ v _ u _ _ rfl rfl
      exact pairs.binary span op v u
    decides := by
      rintro _ _ op _ _ v _ _ rfl
      exact pairs.decides op v
    lookup := fun _ => pairs.lookup _ _
    assign := by
      rintro _ span x _ v _ _ rfl
      exact pairs.assign span x v
    define := by
      rintro _ v _ x _ rfl
      exact pairs.define x v
    makeFunction := by
      intro _ _ body name params _ _
      show R _ (far.makeFunction name params (body.relocate id))
      rw [Block.relocate_id]
      exact pairs.makeFunction name params body
    print := pairs.print
    tick := fun _ _ => pairs.tick _
    builtin := by
      rintro _ span _ _ args args' b _ each _
      obtain rfl : args = args' := Yield.equal.1 each
      exact pairs.inCall span (pairs.locating span (pairs.builtin b args))
    call := by
      rintro _ span _ _ _ c _ _ args args' _ ⟨⟩ each _
      obtain rfl : args = args' := Yield.equal.1 each
      exact pairs.inCall span (pairs.locating span (pairs.invoke c args))
    inBlock := pairs.inBlock
    noBlock := fun _ => pairs.noBlock
    loop := by
      intro _ span _ _ _ _ _ _ _ test run
      refine pairs.repeating (lawful.round (fun _ _ => ?_) test run)
      exact pairs.tick span }

theorem functionBody (pairs : near.Pairs far @R) (f : Closure) (args : List Value) :
    R (Evaluate.functionBody near f args) (Evaluate.functionBody far f args) :=
  pairs.inNewScope f.scope (Comparison.valueless_boundBody pairs.laws f args)

theorem execProgram (pairs : near.Pairs far @R) (program : List Stmt) :
    R (Evaluate.execProgram near program) (Evaluate.execProgram far program) :=
  Comparison.valueless_execProgram pairs.laws program

end Primitives.Pairs

end TinyScript
