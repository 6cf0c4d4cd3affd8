import TinyScript.Proofs.Heap
import TinyScript.Proofs.Run.Complaints
import TinyScript.Proofs.Run.Effect
import TinyScript.Proofs.Run.Guarded
import TinyScript.Session

namespace TinyScript

def Value.Fits (n : Nat) : Value → Prop
  | .function _ f => f.scope < n ∧ f.body.Runnable
  | _ => True

theorem Value.Fits.mono {v : Value} (fits : v.Fits n) (more : n ≤ n') : v.Fits n' := by
  cases v with
  | function identity f => exact ⟨Nat.lt_of_lt_of_le fits.1 more, fits.2⟩
  | _ => trivial

def Node.Runnable : Node → Prop
  | .expr e => e.Runnable
  | .stmt s => s.Runnable
  | .block b => b.Runnable

theorem Expr.runnableAll_iff {es : List Expr} : Expr.RunnableAll es ↔ ∀ e ∈ es, e.Runnable := by
  induction es with
  | nil => simp [Expr.RunnableAll]
  | cons e es ih => simp [Expr.RunnableAll, ih]

theorem Stmt.runnableAll_iff {ss : List Stmt} : Stmt.RunnableAll ss ↔ ∀ s ∈ ss, s.Runnable := by
  induction ss with
  | nil => simp [Stmt.RunnableAll]
  | cons s ss ih => simp [Stmt.RunnableAll, ih]

theorem Node.Runnable.children {node : Node} (runnable : node.Runnable) : ∀ part ∈ node.children, part.Runnable := by
  obtain ⟨e⟩ | ⟨s⟩ | ⟨b⟩ := node
  · cases e <;> simp_all [Node.children, Node.Runnable, Expr.Runnable, Expr.runnableAll_iff]
  · cases s with
    | declare span x value => cases value <;> simp_all [Node.children, Node.Runnable, Stmt.Runnable]
    | giveBack span value => cases value <;> simp_all [Node.children, Node.Runnable, Stmt.Runnable]
    | branch span c yes no => cases no <;> simp_all [Node.children, Node.Runnable, Stmt.Runnable]
    | _ => simp_all [Node.children, Node.Runnable, Stmt.Runnable]
  · cases b <;> simp_all [Node.children, Node.Runnable, Block.Runnable, Stmt.runnableAll_iff]

structure Heap.Sound (h : Heap) : Prop where
  parents : ∀ {i : ScopeId} {s p}, h.scopes[i]? = some s → s.parent = some p → p < i
  values : ∀ {i : ScopeId} {s}, h.scopes[i]? = some s →
    ∀ entry ∈ s.bindings, entry.2.Fits h.scopes.size

namespace Heap

variable {h : Heap} {id : ScopeId}

theorem size_define (id : ScopeId) (x : Bytes) (v : Value) :
    (h.define id x v).scopes.size = h.scopes.size := Array.size_modify

theorem size_extend (parent : Option ScopeId) : (h.extend parent).2.scopes.size = h.scopes.size + 1 :=
  Array.size_push _

namespace Sound

theorem linked (sound : h.Sound) (there : id < h.scopes.size) : h.linked id = true := by
  induction id using Nat.strongRecOn with
  | ind id ih =>
    have here : h.scopes[id]? = some h.scopes[id] := Array.getElem?_eq_getElem there
    rw [Heap.linked, here]
    dsimp only
    split
    · rfl
    · rename_i parent isParent
      have older := sound.parents here isParent
      rw [if_pos older]
      exact ih parent older (Nat.lt_trans older there)

theorem get? (sound : h.Sound) (found : h.get? id x = some v) : v.Fits h.scopes.size :=
  Holds.get? (P := Value.Fits h.scopes.size) (fun _ _ => sound.values) found

theorem define (sound : h.Sound) (fits : v.Fits h.scopes.size) (id : ScopeId) (x : Bytes) :
    (h.define id x v).Sound := by
  constructor
  · intro i s p here isParent
    rw [scopes_define] at here
    split at here
    · obtain ⟨old, there, rfl⟩ := Option.map_eq_some_iff.1 here
      exact sound.parents there isParent
    · exact sound.parents here isParent
  · intro i s
    rw [size_define]
    exact Holds.define (fun _ _ => sound.values) fits id x i s

theorem extend (sound : h.Sound) {parent : Option ScopeId} (there : ∀ p ∈ parent, p < h.scopes.size) :
    (h.extend parent).2.Sound := by
  constructor
  · intro i s p here isParent
    rw [scopes_extend] at here
    split at here
    · rename_i isNew
      cases here
      exact isNew ▸ there p isParent
    · exact sound.parents here isParent
  · intro i s here entry mem
    rw [size_extend]
    have old : (h.extend parent).2.Holds (Value.Fits h.scopes.size) := Holds.extend (fun _ _ => sound.values) parent
    exact (old i s here entry mem).mono (Nat.le_succ _)

end Sound

end Heap

structure Machine.Sound (m : Machine) : Prop where
  heap : m.heap.Sound
  scope : m.scope < m.heap.scopes.size

def RuntimeFault.ofOperator : RuntimeFault → Bool
  | .unknownUnary _ | .unknownBinary _ => true
  | _ => false

def Outcome.Sound (n : Nat) (P : Nat → α → Prop) : Outcome α → Prop
  | .done a m => m.Sound ∧ n ≤ m.heap.scopes.size ∧ P m.heap.scopes.size a
  | .failed e m => m.Sound ∧ n ≤ m.heap.scopes.size ∧ e.error.fault.ofOperator = false
  | .unfinished => True

theorem Outcome.Sound.mono {o : Outcome α} (sound : o.Sound n P) (fewer : k ≤ n) : o.Sound k P := by
  cases o with
  | done a m => exact ⟨sound.1, Nat.le_trans fewer sound.2.1, sound.2.2⟩
  | failed e m => exact ⟨sound.1, Nat.le_trans fewer sound.2.1, sound.2.2⟩
  | unfinished => trivial

-- From a sound machine with at least so many scopes, the guarded step is the step itself and its
-- outcome is sound. The bound stands for the values that the step has been given.
def Passes (n : Nat) (P : Nat → α → Prop) (g : Guarded α) (s : Step α) : Prop :=
  ∀ m : Machine, m.Sound → n ≤ m.heap.scopes.size →
    g m = some (s m) ∧ (s m).Sound m.heap.scopes.size P

namespace Passes

open Machine

def Always (_ : Nat) (_ : α) : Prop := True

variable {P : Nat → α → Prop} {Q : Nat → β → Prop} {g : Guarded α} {s : Step α}

theorem mono (passes : Passes n P g s) (more : n ≤ k) : Passes k P g s :=
  fun m sound enough => passes m sound (Nat.le_trans more enough)

theorem weaken {P' : Nat → α → Prop} (passes : Passes n P g s) (implies : ∀ {k a}, P k a → P' k a) :
    Passes n P' g s := by
  intro m sound enough
  obtain ⟨same, good⟩ := passes m sound enough
  refine ⟨same, ?_⟩
  cases ran : s m with
  | done a after =>
    rw [ran] at good
    exact ⟨good.1, good.2.1, implies good.2.2⟩
  | failed e after =>
    rw [ran] at good
    exact good
  | unfinished => trivial

theorem pure (holds : ∀ k, n ≤ k → P k a) : Passes n P (Pure.pure a) (Pure.pure a) :=
  fun _ sound enough => ⟨rfl, sound, Nat.le_refl _, holds _ enough⟩

theorem bind {f : α → Guarded β} {f' : α → Step β} (first : Passes n P g s)
    (second : ∀ a k, n ≤ k → P k a → Passes k Q (f a) (f' a)) : Passes n Q (g >>= f) (s >>= f') := by
  intro m sound enough
  obtain ⟨same, good⟩ := first m sound enough
  show Guarded.bind g f m = _ ∧ _
  unfold Guarded.bind
  rw [same]
  cases ran : s m with
  | done a middle =>
    rw [ran] at good
    obtain ⟨sound', grown, holds⟩ := good
    obtain ⟨same', good'⟩ := second a _ (Nat.le_trans enough grown) holds middle sound' (Nat.le_refl _)
    rw [Step.bind_done ran]
    exact ⟨same', good'.mono grown⟩
  | failed e after =>
    rw [ran] at good
    rw [Step.bind_failed ran]
    exact ⟨rfl, good⟩
  | unfinished =>
    rw [Step.bind_unfinished ran]
    exact ⟨rfl, trivial⟩

theorem only {allowed : Machine → Bool} (may : ∀ m, m.Sound → allowed m = true)
    (good : ∀ m, m.Sound → n ≤ m.heap.scopes.size → (s m).Sound m.heap.scopes.size P) :
    Passes n P (Guarded.only allowed s) s := by
  intro m sound enough
  refine ⟨?_, good m sound enough⟩
  unfold Guarded.only
  rw [if_pos (may m sound)]

theorem free (good : ∀ m, m.Sound → n ≤ m.heap.scopes.size → (s m).Sound m.heap.scopes.size P) :
    Passes n P (Guarded.free s) s := only (fun _ _ => rfl) good

theorem inScope (good : ∀ m, m.Sound → n ≤ m.heap.scopes.size → (s m).Sound m.heap.scopes.size P) :
    Passes n P (Guarded.inScope s) s := only (fun _ sound => sound.heap.linked sound.scope) good

theorem fail (span : Span) (known : fault.ofOperator = false) :
    Passes n P (Guarded.free (fail span fault)) (fail span fault) :=
  free fun _ sound _ => ⟨sound, Nat.le_refl _, known⟩

theorem print (text : Bytes) : Passes n Always (Guarded.free (print text)) (print text) :=
  free fun _ sound _ => ⟨⟨sound.heap, sound.scope⟩, Nat.le_refl _, trivial⟩

theorem tick (limits : Limits) (span : Span) :
    Passes n Always (Guarded.free (tick limits span)) (tick limits span) := by
  refine free fun m sound _ => ?_
  unfold Machine.tick
  dsimp only
  split
  · exact ⟨⟨sound.heap, sound.scope⟩, Nat.le_refl _, rfl⟩
  · exact ⟨⟨sound.heap, sound.scope⟩, Nat.le_refl _, trivial⟩

theorem lookup (span : Span) (x : Bytes) :
    Passes n Value.Fits (Guarded.inScope (lookup span x)) (lookup span x) := by
  refine inScope fun m sound _ => ?_
  unfold Machine.lookup
  split
  · next found => exact ⟨sound, Nat.le_refl _, sound.heap.get? found⟩
  · exact ⟨sound, Nat.le_refl _, rfl⟩

theorem bound {m : Machine} (sound : m.Sound) (fits : v.Fits m.heap.scopes.size) (id : ScopeId)
    (x : Bytes) :
    (Outcome.done () { m with heap := m.heap.define id x v }).Sound m.heap.scopes.size Always := by
  have same : (m.heap.define id x v).scopes.size = m.heap.scopes.size := Heap.size_define id x v
  exact ⟨⟨sound.heap.define fits id x, same.symm ▸ sound.scope⟩, Nat.le_of_eq same.symm, trivial⟩

theorem assign (span : Span) (x : Bytes) (fits : v.Fits n) :
    Passes n Always (Guarded.inScope (assign span x v)) (assign span x v) := by
  refine inScope fun m sound enough => ?_
  unfold Machine.assign
  split
  · exact bound sound (fits.mono enough) _ x
  · exact ⟨sound, Nat.le_refl _, rfl⟩

theorem define (x : Bytes) (fits : v.Fits n) :
    Passes n Always (Guarded.inScope (define x v)) (define x v) :=
  inScope fun _ sound enough => bound sound (fits.mono enough) _ x

theorem makeFunction (name : Bytes) (params : Params) {body : Block} (runnable : body.Runnable) :
    Passes n Value.Fits (Guarded.inScope (makeFunction name params body)) (makeFunction name params body) :=
  inScope fun _ sound _ => ⟨⟨⟨sound.heap.parents, sound.heap.values⟩, sound.scope⟩, Nat.le_refl _,
    sound.scope, runnable⟩

theorem adjusted {m : Machine} {o : Outcome α} (sound : m.Sound) (good : o.Sound k P)
    (grown : m.heap.scopes.size ≤ k) : (o.adjust (backTo m.scope)).Sound m.heap.scopes.size P := by
  cases o with
  | done a after =>
    have more := Nat.le_trans grown good.2.1
    exact ⟨⟨good.1.heap, Nat.lt_of_lt_of_le sound.scope more⟩, more, good.2.2⟩
  | failed e after =>
    have more := Nat.le_trans grown good.2.1
    exact ⟨⟨good.1.heap, Nat.lt_of_lt_of_le sound.scope more⟩, more, good.2.2⟩
  | unfinished => trivial

theorem entered {m : Machine} (inner : Passes n P g s) (sound : m.Sound) (enough : n ≤ m.heap.scopes.size)
    (there : parent < m.heap.scopes.size) :
    Guarded.inNewScope parent g m = some (inNewScope parent s m) ∧
      (inNewScope parent s m).Sound m.heap.scopes.size P := by
  have larger : m.heap.scopes.size < (m.below parent).heap.scopes.size := by
    show _ < (m.heap.extend (some parent)).2.scopes.size
    rw [Heap.size_extend]
    exact Nat.lt_succ_self _
  have extended : (m.below parent).heap.Sound :=
    sound.heap.extend fun p isParent => Option.some.inj isParent ▸ there
  obtain ⟨same, good⟩ := inner (m.below parent) ⟨extended, larger⟩ (Nat.le_trans enough (Nat.le_of_lt larger))
  refine ⟨?_, adjusted sound good (Nat.le_of_lt larger)⟩
  unfold Guarded.inNewScope
  rw [if_pos (sound.heap.linked there), same]
  rfl

theorem inNewScope (inner : Passes n P g s) (there : parent < n) :
    Passes n P (Guarded.inNewScope parent g) (inNewScope parent s) :=
  fun _ sound enough => entered inner sound enough (Nat.lt_of_lt_of_le there enough)

theorem inBlock (inner : Passes n P g s) :
    Passes n P (fun m => Guarded.inNewScope m.scope g m) (inBlock s) :=
  fun _ sound enough => entered inner sound enough sound.scope

theorem inCall (limits : Limits) (span : Span) (inner : Passes n P g s) :
    Passes n P (Guarded.inCall limits span g) (inCall limits span s) := by
  intro m sound enough
  obtain ⟨same, good⟩ := inner m.enterCall ⟨sound.heap, sound.scope⟩ enough
  unfold Guarded.inCall Machine.inCall
  split
  · exact ⟨rfl, sound, Nat.le_refl _, rfl⟩
  · refine ⟨by rw [same]; rfl, ?_⟩
    cases ran : s m.enterCall with
    | done a after =>
      rw [ran] at good
      exact ⟨⟨good.1.heap, good.1.scope⟩, good.2⟩
    | failed e after =>
      rw [ran] at good
      exact ⟨⟨good.1.heap, good.1.scope⟩, good.2⟩
    | unfinished => trivial

theorem locating (span : Span) (inner : Passes n P g s) :
    Passes n P (Guarded.locating span g) (locating span s) := by
  intro m sound enough
  obtain ⟨same, good⟩ := inner m sound enough
  refine ⟨by unfold Guarded.locating; rw [same]; rfl, ?_⟩
  unfold Machine.locating
  cases ran : s m with
  | failed e after =>
    rw [ran] at good
    cases e <;> exact good
  | done a after =>
    rw [ran] at good
    exact good
  | unfinished => trivial

theorem unaryOp (span : Span) {op : Kind} (known : op ∈ unaryOperators) (v : Value) :
    Passes n Value.Fits (Guarded.only (fun _ => op ∈ unaryOperators) (Interpret.unaryOp span op v))
      (Interpret.unaryOp span op v) := by
  refine only (fun _ _ => decide_eq_true known) fun m sound _ => ?_
  unfold Interpret.unaryOp
  split
  · split
    · exact ⟨sound, Nat.le_refl _, trivial⟩
    · exact ⟨sound, Nat.le_refl _, rfl⟩
  · exact ⟨sound, Nat.le_refl _, trivial⟩
  · rename_i notMinus notBang
    have known : op = .bang ∨ op = .minus := by simpa [unaryOperators] using known
    rcases known with isBang | isMinus
    · exact (notBang isBang).elim
    · exact (notMinus isMinus).elim

theorem binaryOp (span : Span) {op : Kind} (known : op ∈ binaryOperators) (l r : Value) :
    Passes n Value.Fits (Guarded.only (fun _ => op ∈ binaryOperators) (Interpret.binaryOp span op l r))
      (Interpret.binaryOp span op l r) := by
  refine only (fun _ _ => decide_eq_true known) fun m sound _ => ?_
  unfold Interpret.binaryOp
  split
  · exact ⟨sound, Nat.le_refl _, trivial⟩
  · exact ⟨sound, Nat.le_refl _, trivial⟩
  · split
    · exact ⟨sound, Nat.le_refl _, trivial⟩
    · exact ⟨sound, Nat.le_refl _, trivial⟩
    · exact ⟨sound, Nat.le_refl _, rfl⟩
  · rename_i notEqual notBangEqual notPlus
    split
    · unfold Interpret.arithmetic
      split
      case h_3 =>
        split
        · exact ⟨sound, Nat.le_refl _, rfl⟩
        · exact ⟨sound, Nat.le_refl _, trivial⟩
      case h_8 => simp_all [binaryOperators]
      all_goals exact ⟨sound, Nat.le_refl _, trivial⟩
    · exact ⟨sound, Nat.le_refl _, rfl⟩

theorem callBuiltin (clock : Nat → Float) (b : Builtin) {args : List Value} (counted : args.length = b.arity) :
    Passes n Value.Fits
      (Guarded.only (fun _ => args.length = b.arity) (Interpret.callBuiltin clock b args))
      (Interpret.callBuiltin clock b args) := by
  refine only (fun _ _ => decide_eq_true counted) fun m sound _ => ?_
  cases b with
  | clock => exact ⟨⟨sound.heap, sound.scope⟩, Nat.le_refl _, trivial⟩
  | len =>
    obtain ⟨v, rfl⟩ := List.length_eq_one_iff.1 counted
    cases v with
    | string s => exact ⟨sound, Nat.le_refl _, trivial⟩
    | _ => exact ⟨sound, Nat.le_refl _, rfl⟩
  | str | type =>
    obtain ⟨v, rfl⟩ := List.length_eq_one_iff.1 counted
    exact ⟨sound, Nat.le_refl _, trivial⟩

end Passes

-- A guarded run beside the run itself. A world is the number of scopes there are.
abbrev guarding : Comparison Guarded Step where
  World := Nat
  later := (· ≤ ·)
  inside := id
  moved := id
  value n v w := v = w ∧ v.Fits n
  signal n := Signal.Rel fun v w => v = w ∧ v.Fits n
  fits _ node := node.Runnable
  binds _ := True
  holds n := Passes n fun k a =>
    Yield.Rel (fun v w => v = w ∧ v.Fits k) (Signal.Rel fun v w => v = w ∧ v.Fits k) a a

namespace Guarded

theorem later {α : Type} [Yield α] {a b : α} (more : n ≤ k) (same : guarding.rel n a b) : guarding.rel k a b :=
  Yield.mono (fun fit => ⟨fit.1, fit.2.mono more⟩) (·.mono fun fit => ⟨fit.1, fit.2.mono more⟩) same

theorem lawful : guarding.Lawful where
  later_refl := Nat.le_refl _
  later_trans := Nat.le_trans
  value_later more fit := ⟨fit.1, fit.2.mono more⟩
  fits_later _ fit := fit
  binds_later _ _ := trivial
  like fit := .of_eq fit.1
  plain {_ v} isPlain := ⟨rfl, by cases v <;> trivial⟩
  next := .next
  returned _ := .returned
  ended := id
  part fit mem := fit.children _ (Node.mem_children mem)
  block {_ b} fit := Node.Runnable.children (show (Node.stmt (.block b)).Runnable from fit) _ (.head _)
  declares _ := trivial
  names _ := trivial
  pure {α} _ n a b same := by
    obtain rfl := Yield.eq_of And.left (Signal.Rel.eq_of And.left) same
    exact .pure fun _ more => later more same
  bind first next := .bind first fun a k more same => next k a a more same

def Invokes (host : Host) (invoke : Closure → List Value → Guarded Value) : Prop :=
  ∀ n f args, f.scope < n → f.body.Runnable → (∀ v ∈ args, v.Fits n) →
    Passes n Value.Fits (invoke f args) (host.invoke f args)

theorem holds_repeating {w : Nat} {once : Guarded (Option Signal)} {once' : Step (Option Signal)}
    (inner : guarding.holds w once once') (patience : Nat) :
    guarding.holds w (Guarded.repeating patience once) (Interpret.repeating patience once') := by
  induction patience generalizing w with
  | zero => exact fun _ _ _ => ⟨rfl, trivial⟩
  | succ patience ih =>
    rw [Interpret.repeating_succ]
    refine lawful.bind inner fun w' signal signal' more same => ?_
    cases same with
    | none => exact ih (Passes.mono inner more)
    | some same => exact lawful.pure same

variable {host : Host} {invoke : Closure → List Value → Guarded Value}

theorem fits_of_same {args args' : List Value} (each : List.Forall₂ (guarding.value n) args args') :
    args = args' ∧ ∀ v ∈ args, v.Fits n := by
  induction each with
  | nil => exact ⟨rfl, by simp⟩
  | cons same _ ih => exact ⟨by rw [same.1, ih.1], List.forall_mem_cons.2 ⟨same.2, ih.2⟩⟩

theorem laws (calls : Invokes host invoke) : guarding.Laws (Guarded.primitives host invoke) host.steps where
  toLawful := lawful
  refuse {_ _ _ _ fault} _ isCall := .fail _ (by cases fault <;> first | rfl | cases isCall)
  unary {_ span op _ v _} runnable same := by
    obtain ⟨rfl, -⟩ := same
    show Passes _ _ _ (Interpret.unaryOp (span.relocate id) op v)
    exact (Passes.unaryOp span runnable.1 v).weaken fun fits => ⟨rfl, fits⟩
  binary runnable left right := by
    obtain ⟨rfl, -⟩ := left
    obtain ⟨rfl, -⟩ := right
    exact (Passes.binaryOp _ runnable.1 _ _).weaken fun fits => ⟨rfl, fits⟩
  decides runnable same := by
    obtain ⟨rfl, -⟩ := same
    exact Passes.only (fun _ _ => decide_eq_true runnable.1) fun _ sound _ => ⟨sound, Nat.le_refl _, rfl⟩
  lookup _ := (Passes.lookup _ _).weaken fun fits => ⟨rfl, fits⟩
  assign _ same := by
    obtain ⟨rfl, fits⟩ := same
    exact (Passes.assign _ _ fits).weaken fun _ => trivial
  define _ same := by
    obtain ⟨rfl, fits⟩ := same
    exact (Passes.define _ fits).weaken fun _ => trivial
  makeFunction name params runnable mem := by
    rw [Block.relocate_id]
    exact (Passes.makeFunction name params (Node.Runnable.children runnable _ mem)).weaken fun fits => ⟨rfl, fits⟩
  print text := (Passes.print text).weaken fun _ => trivial
  tick _ _ := (Passes.tick host.limits _).weaken fun _ => trivial
  builtin _ each counted := by
    obtain ⟨rfl, -⟩ := fits_of_same each
    exact .inCall host.limits _ (.locating _ ((Passes.callBuiltin host.clock _ counted).weaken fun fits => ⟨rfl, fits⟩))
  call _ same each counted := by
    obtain ⟨⟨⟩, there, runnable⟩ := same
    obtain ⟨rfl, fit⟩ := fits_of_same each
    show Passes _ _ (Guarded.inCall _ _ (Guarded.locating _ (if _ then _ else _))) _
    rw [if_pos counted]
    exact .inCall host.limits _ (.locating _ ((calls _ _ _ there runnable fit).weaken fun fits => ⟨rfl, fits⟩))
  inBlock := .inBlock
  noBlock runnable := runnable.elim
  loop {_ span _ _ _ _ _ _} _ test run := by
    refine holds_repeating (lawful.round (fun _ _ => ?_) test run) host.patience
    exact (Passes.tick host.limits span).weaken fun _ => trivial

-- The induction is on the calls that may still go inside each other.
theorem invokes (limits : Limits) (clock : Nat → Float) (patience room : Nat) :
    Invokes (Interpret.hostAt limits clock patience room) (Guarded.invoke limits clock patience room) := by
  induction room with
  | zero => exact fun _ _ _ _ _ _ _ _ _ => ⟨rfl, trivial⟩
  | succ room ih =>
    intro n f args there runnable fit
    have body : guarding.holds n (Evaluate.boundBody _ f args) (Evaluate.boundBody _ f args) :=
      (laws ih).boundBody_same rfl trivial rfl rfl runnable (List.forall₂_same.2 fun v mem => ⟨rfl, fit v mem⟩)
    exact .inNewScope (Passes.weaken body And.right) there

end Guarded

theorem Interpreter.run_sound (i : Interpreter) (clock : Nat → Float) {program : List Stmt}
    (runnable : Stmt.RunnableAll program) {heap : Heap} (sound : heap.Sound)
    (inside : i.globals < heap.scopes.size) (readings : Nat) :
    Guarded.run i clock program heap readings = some (i.run clock program heap readings) ∧
      (i.run clock program heap readings).Sound heap.scopes.size fun _ _ => True :=
  (Guarded.laws (Guarded.invokes i.limits clock (Interpret.rounds i.limits i.patience) i.limits.maxDepth)).execProgram_same
    rfl (w := 0) (Stmt.runnableAll_iff.1 runnable) ⟨heap, i.globals, 0, 0, readings, []⟩ ⟨sound, inside⟩ (Nat.zero_le _)

-- The heaps that come about: new global scopes, and what runs of programs that were read leave behind,
-- whether they succeed or not.
inductive Heap.Reached : Heap → Prop where
  | empty : Reached .empty
  | addGlobals : Reached h → Reached h.addGlobals.2
  | run {i : Interpreter} : Reached h → i.globals < h.scopes.size →
    (i.run clock (parse tokens).1 h readings).machine? = some after → Reached after.heap

theorem Heap.Sound.addGlobals {h : Heap} (sound : h.Sound) : h.addGlobals.2.Sound := by
  have step {h : Heap} (sound : h.Sound) (b : Builtin) (id : ScopeId) :
      (h.identity.2.define id b.name (.builtin h.identity.1 b)).Sound :=
    Heap.Sound.define (h := h.identity.2) (v := .builtin h.identity.1 b)
      ⟨sound.parents, sound.values⟩ trivial id b.name
  have fold (bs : List Builtin) (id : ScopeId) {h : Heap} (sound : h.Sound) :
      (bs.foldl (fun h b => h.identity.2.define id b.name (.builtin h.identity.1 b)) h).Sound := by
    induction bs generalizing h with
    | nil => exact sound
    | cons b bs ih => exact ih (step sound b id)
  exact fold Builtin.all _ (sound.extend (by simp))

theorem Heap.Reached.sound {h : Heap} (reached : h.Reached) : h.Sound := by
  induction reached with
  | empty => exact ⟨fun here => by simp [Heap.empty] at here, fun here => by simp [Heap.empty] at here⟩
  | addGlobals _ ih => exact ih.addGlobals
  | @run _ clock tokens readings after i _ inside ended ih =>
    have good := (i.run_sound clock (parse_runnable tokens) ih inside readings).2
    cases outcome : i.run clock (parse tokens).1 _ readings with
    | done _ m =>
      rw [outcome] at good ended
      cases ended
      exact good.1.heap
    | failed e m =>
      rw [outcome] at good ended
      cases ended
      exact good.1.heap
    | unfinished =>
      rw [outcome] at ended
      cases ended

theorem RuntimeFault.code_mem (fault : RuntimeFault) :
    fault.code ∈ ["E3001", "E3002", "E3003", "E3004", "E3005", "E3006", "E3007", "E3008"] := by
  cases fault <;> simp [code, Code.undefinedVariable, Code.operandType, Code.divisionByZero, Code.notCallable,
    Code.arity, Code.stackOverflow, Code.stepBudget, Code.builtin]

theorem parsed_never_stuck (heap : Heap) (reached : heap.Reached) (i : Interpreter)
    (inside : i.globals < heap.scopes.size) (tokens : List Token) (clock : Nat → Float) (readings : Nat) :
    Guarded.run i clock (parse tokens).1 heap readings = some (i.run clock (parse tokens).1 heap readings) ∧
    (∀ failure after, i.run clock (parse tokens).1 heap readings = .failed failure after →
      ∃ e, failure = .runtime e ∧
        e.fault.code ∈ ["E3001", "E3002", "E3003", "E3004", "E3005", "E3006", "E3007", "E3008"] ∧
        ∀ op, e.fault ≠ .unknownUnary op ∧ e.fault ≠ .unknownBinary op) ∧
    ∀ execution, i.execute? clock (parse tokens).1 heap readings = some execution →
      ∀ fault, execution.error ≠ some (.builtin fault) := by
  obtain ⟨same, good⟩ := i.run_sound clock (parse_runnable tokens) reached.sound inside readings
  refine ⟨same, fun failure after failed => ?_, fun execution executed fault unlocated => ?_⟩
  · obtain ⟨e, rfl⟩ := Interpreter.run_failed failed
    refine ⟨e, rfl, e.fault.code_mem, fun op => ?_⟩
    rw [failed] at good
    have known : e.fault.ofOperator = false := good.2.2
    constructor <;> intro isIt <;> rw [isIt] at known <;> cases known
  · unfold Interpreter.execute? Outcome.execution? at executed
    split at executed
    · cases executed
      cases unlocated
    · next failed =>
      obtain ⟨e, rfl⟩ := Interpreter.run_failed failed
      cases executed
      cases unlocated
    · cases executed

-- A function that an earlier run left behind asks for the length of nothing.
def earlierText : Bytes := text "fun f(x) \x7b return len(x); \x7d var g = fun () \x7b return f; \x7d;"

def laterText : Bytes := text "g()(nil);"

def Outcome.failure? : Outcome α → Option Failure
  | .failed e _ => some e
  | _ => none

theorem parsed_never_stuck_builtin : ∃ m outcome e,
    (Interpreter.run ⟨0, ⟨0, 8⟩, 1⟩ (fun _ => 0) (parse (scan earlierText)).1
      Heap.empty.addGlobals.2 0).machine? = some m ∧
    Guarded.run ⟨0, ⟨0, 8⟩, 1⟩ (fun _ => 0) (parse (scan laterText)).1 m.heap m.readings = some outcome ∧
    outcome.failure? = some (.runtime e) ∧ e.fault = .builtin (.lengthOf .nil) ∧ e.span.start.line = 1 := by
  let i : Interpreter := ⟨0, ⟨0, 8⟩, 1⟩
  have ran : ((i.run (fun _ => 0) (parse (scan earlierText)).1 Heap.empty.addGlobals.2 0).machine?.map
      fun m => (decide (0 < m.heap.scopes.size),
        (i.run (fun _ => 0) (parse (scan laterText)).1 m.heap m.readings).failure?.map fun e =>
          (e.error.fault, e.error.span.start.line))) =
      some (true, some (.builtin (.lengthOf .nil), 1)) := by
    decide +kernel
  obtain ⟨m, first, second⟩ := Option.map_eq_some_iff.1 ran
  obtain ⟨inside, failed⟩ := Prod.mk.inj second
  have reached : m.heap.Reached := .run (.addGlobals .empty) (by decide) first
  obtain ⟨same, located, -⟩ := parsed_never_stuck m.heap reached i (of_decide_eq_true inside) (scan laterText)
    (fun _ => 0) m.readings
  obtain ⟨failure, stopped, shown⟩ := Option.map_eq_some_iff.1 failed
  cases outcome : i.run (fun _ => 0) (parse (scan laterText)).1 m.heap m.readings with
  | failed failure' after =>
    rw [outcome] at stopped same
    obtain rfl := Option.some.inj stopped
    obtain ⟨e, rfl, -⟩ := located _ after outcome
    obtain ⟨fault, line⟩ := Prod.mk.inj shown
    exact ⟨m, _, e, first, same, rfl, fault, line⟩
  | done u after =>
    rw [outcome] at stopped
    cases stopped
  | unfinished =>
    rw [outcome] at stopped
    cases stopped

end TinyScript
