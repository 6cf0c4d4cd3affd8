import TinyScript.Proofs.Run.Pairing
import TinyScript.Proofs.Run.Scopes

namespace TinyScript

abbrev Signal.Paired (allowed : Position → Prop) (k : Pairing) : Signal → Signal → Prop :=
  Signal.Rel (Value.Paired allowed k)

def Pairing.meets (k : Pairing) : Site → ScopeId → ScopeId → Prop
  | .own => k.twins
  | .any => k.stands

structure Machine.Paired (allowed : Position → Prop) (k : Pairing) (m m' : Machine) : Prop where
  heap : m.heap.Paired allowed k m'.heap
  depth : m.depth = m'.depth
  steps : m.steps = m'.steps
  readings : m.readings = m'.readings
  printed : m.printed = m'.printed

structure Machine.Advance (allowed : Position → Prop) (k : Pairing) (m m' : Machine) (l : Pairing)
    (after after' : Machine) : Prop where
  grows : k.Grows m.heap m'.heap l after.heap after'.heap
  paired : after.Paired allowed l after'
  near : after.scope = m.scope
  far : after'.scope = m'.scope

inductive Outcome.Beside (allowed : Position → Prop) (P : Pairing → α → α → Prop) (k : Pairing)
    (m m' : Machine) : Outcome α → Outcome α → Prop where
  | done : m.Advance allowed k m' l after after' → P l a b →
    Beside allowed P k m m' (.done a after) (.done b after')
  | failed : m.Advance allowed k m' l after after' → allowed e.span.start →
    Beside allowed P k m m' (.failed (.runtime e) after) (.failed (.runtime e) after')
  | unfinished : Beside allowed P k m m' .unfinished .unfinished

def Follows (allowed : Position → Prop) (site : Site) (k : Pairing) (P : Pairing → α → α → Prop)
    (s t : Step α) : Prop :=
  ∀ l m m', k.Sub l → m.Paired allowed l m' → l.meets site m.scope m'.scope →
    (s m).Beside allowed P l m m' (t m')

def Host.Follows (allowed : Position → Prop) (host : Host) : Prop :=
  ∀ {k site i j f f' args args'}, (Value.function i f).Paired allowed k (.function j f') →
    List.Forall₂ (Value.Paired allowed k) args args' →
    TinyScript.Follows allowed site k (Value.Paired allowed) (host.invoke f args) (host.invoke f' args')

def Node.Placed (allowed : Position → Prop) : Node → Prop
  | .expr e => e.Placed allowed
  | .stmt s => s.Placed allowed
  | .block b => b.Placed allowed

section

variable {allowed : Position → Prop} {k l : Pairing} {site : Site}

theorem Expr.placedAll_iff {es : List Expr} : Expr.PlacedAll allowed es ↔ ∀ e ∈ es, e.Placed allowed := by
  induction es with
  | nil => simp [Expr.PlacedAll]
  | cons e es ih => simp [Expr.PlacedAll, ih]

theorem Stmt.placedAll_iff {ss : List Stmt} : Stmt.PlacedAll allowed ss ↔ ∀ s ∈ ss, s.Placed allowed := by
  induction ss with
  | nil => simp [Stmt.PlacedAll]
  | cons s ss ih => simp [Stmt.PlacedAll, ih]

theorem Node.Placed.children {node : Node} (placed : node.Placed allowed) :
    ∀ part ∈ node.children, part.Placed allowed := by
  obtain ⟨e⟩ | ⟨s⟩ | ⟨b⟩ := node
  · cases e <;> simp_all [Node.children, Node.Placed, Expr.Placed, Expr.placedAll_iff]
  · cases s with
    | declare span x value => cases value <;> simp_all [Node.children, Node.Placed, Stmt.Placed]
    | giveBack span value => cases value <;> simp_all [Node.children, Node.Placed, Stmt.Placed]
    | branch span c yes no => cases no <;> simp_all [Node.children, Node.Placed, Stmt.Placed]
    | _ => simp_all [Node.children, Node.Placed, Stmt.Placed]
  · cases b <;> simp_all [Node.children, Node.Placed, Block.Placed, Stmt.placedAll_iff]

theorem Node.Placed.begins {node : Node} (placed : node.Placed allowed) (spans : node.span? = some span) :
    allowed span.start := by
  obtain ⟨e⟩ | ⟨s⟩ | ⟨b⟩ := node
  · obtain rfl := Option.some.inj spans
    cases e with
    | literal | name => exact placed
    | _ => exact placed.1
  · cases s with
    | block body => cases body with
      | absent => cases spans
      | braces => cases spans; exact placed.1
    | declare span x value => cases spans; cases value <;> simp_all [Node.Placed, Stmt.Placed]
    | giveBack span value => cases spans; cases value <;> simp_all [Node.Placed, Stmt.Placed]
    | branch span c yes no => cases spans; cases no <;> simp_all [Node.Placed, Stmt.Placed]
    | _ => cases spans; exact placed.1
  · cases b with
    | absent => cases spans
    | braces => cases spans; exact placed.1

theorem Pairing.Sub.meets (more : k.Sub l) (met : k.meets site i j) : l.meets site i j := by
  cases site with
  | own => exact more.twins met
  | any => exact more.stands met

theorem Pairing.meets.stands (met : k.meets site i j) : k.stands i j := by
  cases site with
  | own => exact .inl met
  | any => exact met

theorem Machine.Paired.output {m m' : Machine} (paired : m.Paired allowed k m') : m.output = m'.output := by
  unfold Machine.output
  rw [paired.printed]

theorem Machine.Advance.trans {m m' mid mid' after after' : Machine}
    (first : m.Advance allowed k m' l mid mid') (second : mid.Advance allowed l mid' n after after') :
    m.Advance allowed k m' n after after' :=
  ⟨first.grows.trans second.grows, second.paired, second.near.trans first.near, second.far.trans first.far⟩

theorem Outcome.adjust_id (o : Outcome α) : o.adjust id = o := by cases o <;> rfl

namespace Outcome.Beside

variable {P : Pairing → α → α → Prop} {m m' mid mid' : Machine} {o o' : Outcome α}

theorem after (first : m.Advance allowed k m' l mid mid') (second : o.Beside allowed P l mid mid' o') :
    o.Beside allowed P k m m' o' := by
  cases second with
  | done later holds => exact .done (first.trans later) holds
  | failed later begins => exact .failed (first.trans later) begins
  | unfinished => exact .unfinished

-- A step that ends on machines of which only some of the fields are of its own making.
theorem adjust {change change' : Machine → Machine} (inner : o.Beside allowed P l mid mid' o')
    (outer : ∀ {n after after'}, mid.Advance allowed l mid' n after after' →
      m.Advance allowed k m' n (change after) (change' after')) :
    (o.adjust change).Beside allowed P k m m' (o'.adjust change') := by
  cases inner with
  | done later holds => exact .done (outer later) holds
  | failed later begins => exact .failed (outer later) begins
  | unfinished => exact .unfinished

theorem locate (beside : o.Beside allowed P k m m' o') (span : Span) :
    (o.locate span).Beside allowed P k m m' (o'.locate span) := by
  cases beside with
  | done later holds => exact .done later holds
  | failed later begins => exact .failed later begins
  | unfinished => exact .unfinished

theorem begins (beside : (Outcome.failed e last : Outcome α).Beside allowed P k m m' o') :
    allowed e.error.span.start := by
  cases beside with
  | failed _ begins => exact begins

end Outcome.Beside

namespace Follows

open Machine

variable {P : Pairing → α → α → Prop} {Q : Pairing → β → β → Prop} {s t : Step α}

theorem mono (follows : Follows allowed site k P s t) (more : k.Sub l) : Follows allowed site l P s t :=
  fun n m m' further => follows n m m' (more.trans further)

theorem stay {m m' : Machine} (paired : m.Paired allowed l m') : m.Advance allowed l m' l m m' :=
  ⟨.refl l _ _, paired, rfl, rfl⟩

theorem pure (holds : ∀ l, k.Sub l → P l a b) : Follows allowed site k P (Pure.pure a) (Pure.pure b) :=
  fun l _ _ more paired _ => .done (stay paired) (holds l more)

theorem fail (begins : allowed span.start) (fault : RuntimeFault) :
    Follows allowed site k P (fail span fault) (Machine.fail span fault) :=
  fun _ _ _ _ paired _ => .failed (stay paired) begins

theorem bind {f g : α → Step β} (first : Follows allowed site k P s t)
    (second : ∀ l a b, k.Sub l → P l a b → Follows allowed site l Q (f a) (g b)) :
    Follows allowed site k Q (s >>= f) (t >>= g) := by
  intro l m m' more paired met
  have ran := first l m m' more paired met
  generalize outcome : s m = o, outcome' : t m' = o' at ran
  cases ran with
  | @done n after after' a b advance holds =>
    rw [Step.bind_done outcome, Step.bind_done outcome']
    have further := advance.grows.sub
    refine .after advance (second n a b (more.trans further) holds n after after' (.refl n) advance.paired ?_)
    rw [advance.near, advance.far]
    exact further.meets met
  | failed advance begins =>
    rw [Step.bind_failed outcome, Step.bind_failed outcome']
    exact .failed advance begins
  | unfinished =>
    rw [Step.bind_unfinished outcome, Step.bind_unfinished outcome']
    exact .unfinished

theorem lookup (begins : allowed span.start) (x : Bytes) :
    Follows allowed site k (Value.Paired allowed) (lookup span x) (Machine.lookup span x) := by
  intro l m m' more paired met
  have found := paired.heap.get? met.stands x
  unfold Machine.lookup
  generalize m.heap.get? m.scope x = near, m'.heap.get? m'.scope x = far at found
  cases found with
  | none => exact .failed (stay paired) begins
  | some same => exact .done (stay paired) same

theorem defined {m m' : Machine} {i j : ScopeId} {v w : Value} (paired : m.Paired allowed l m')
    (areTwins : l.twins i j) (same : v.Paired allowed l w) (x : Bytes) :
    m.Advance allowed l m' l { m with heap := m.heap.define i x v }
      { m' with heap := m'.heap.define j x w } where
  grows := Heap.Paired.define_grows areTwins x v w
  paired := { paired with heap := paired.heap.define areTwins same x }
  near := rfl
  far := rfl

theorem assign (begins : allowed span.start) (x : Bytes) (same : v.Paired allowed k w) :
    Follows allowed site k (fun _ _ _ => True) (assign span x v) (Machine.assign span x w) := by
  intro l m m' more paired met
  have found := paired.heap.resolve? met.stands x
  unfold Machine.assign
  generalize m.heap.resolve? m.scope x = near, m'.heap.resolve? m'.scope x = far at found
  cases found with
  | none => exact .failed (stay paired) begins
  | some areTwins => exact .done (defined paired areTwins (same.mono more) x) trivial

theorem define (x : Bytes) (same : v.Paired allowed k w) :
    Follows allowed .own k (fun _ _ _ => True) (define x v) (Machine.define x w) :=
  fun _ _ _ more paired areTwins => .done (defined paired areTwins (same.mono more) x) trivial

theorem makeFunction (name : Bytes) (params : Params) (placed : body.Placed allowed) :
    Follows allowed site k (Value.Paired allowed) (makeFunction name params body)
      (Machine.makeFunction name params body) := by
  intro l m m' more paired met
  obtain ⟨n, grows, heaps, given⟩ := paired.heap.identity
  exact .done ⟨grows, { paired with heap := heaps }, rfl, rfl⟩
    (.function given (grows.sub.stands met.stands) placed)

theorem print (text : Bytes) :
    Follows allowed site k (fun _ _ _ => True) (print text) (Machine.print text) :=
  fun l _ _ _ paired _ => .done
    ⟨.refl l _ _, { paired with printed := congrArg (text :: ·) paired.printed }, rfl, rfl⟩ trivial

theorem readClock (clock : Nat → Float) :
    Follows allowed site k (fun _ => Eq) (readClock clock) (Machine.readClock clock) :=
  fun l _ _ _ paired _ => .done
    ⟨.refl l _ _, { paired with readings := congrArg (· + 1) paired.readings }, rfl, rfl⟩
    (congrArg clock paired.readings)

theorem tick (limits : Limits) (begins : allowed span.start) :
    Follows allowed site k (fun _ _ _ => True) (tick limits span) (Machine.tick limits span) := by
  intro l m m' more paired met
  have counted : m.Advance allowed l m' l { m with steps := m.steps + 1 } { m' with steps := m'.steps + 1 } :=
    ⟨.refl l _ _, { paired with steps := congrArg (· + 1) paired.steps }, rfl, rfl⟩
  unfold Machine.tick
  dsimp only
  rw [← paired.steps] at counted ⊢
  split
  · exact .failed counted begins
  · exact .done counted trivial

theorem inNewScope (stands : k.stands parent parent') (inner : Follows allowed .own k P s t) :
    Follows allowed site k P (inNewScope parent s) (Machine.inNewScope parent' t) := by
  intro l m m' more paired met
  obtain ⟨n, grows, heaps, areTwins⟩ := paired.heap.extend (.some (more.stands stands))
  have ran := inner n (m.below parent) (m'.below parent') (more.trans grows.sub) { paired with heap := heaps }
    areTwins
  exact ran.adjust fun later => ⟨grows.trans later.grows, { later.paired with }, rfl, rfl⟩

theorem inBlock (inner : Follows allowed .own k P s t) :
    Follows allowed site k P (inBlock s) (Machine.inBlock t) :=
  fun l m m' more paired met =>
    inNewScope met.stands (inner.mono more) l m m' (.refl l) paired met

-- Nothing is bound in a hollow scope, so it does not matter that the second step has none.
theorem hollowBlock (inner : Follows allowed .any k P s t) :
    Follows allowed site k P (Machine.inBlock s) t := by
  intro l m m' more paired met
  obtain ⟨n, grows, heaps, stands⟩ := paired.heap.extendHollow met.stands
  have ran := inner n (m.below m.scope) m' (more.trans grows.sub) { paired with heap := heaps } stands
  rw [← (t m').adjust_id]
  exact ran.adjust fun later => ⟨grows.trans later.grows, { later.paired with }, rfl, later.far⟩

theorem inCall (limits : Limits) (begins : allowed span.start) (inner : Follows allowed site k P s t) :
    Follows allowed site k P (inCall limits span s) (Machine.inCall limits span t) := by
  intro l m m' more paired met
  unfold Machine.inCall
  rw [← paired.depth]
  split
  · exact .failed (stay paired) begins
  · have ran := inner l m.enterCall m'.enterCall more { paired with depth := congrArg (· + 1) paired.depth } met
    exact ran.adjust fun later =>
      ⟨later.grows, { later.paired with depth := congrArg (· - 1) later.paired.depth }, later.near, later.far⟩

theorem locating (span : Span) (inner : Follows allowed site k P s t) :
    Follows allowed site k P (locating span s) (Machine.locating span t) :=
  fun l m m' more paired met => (inner l m m' more paired met).locate span

theorem repeating {round round' : Step (Option Signal)}
    (once : Follows allowed site k (fun l => Option.Rel (Signal.Paired allowed l)) round round')
    (patience : Nat) :
    Follows allowed site k (Signal.Paired allowed) (Interpret.repeating patience round)
      (Interpret.repeating patience round') := by
  induction patience with
  | zero => exact fun _ _ _ _ _ _ => .unfinished
  | succ patience ih =>
    rw [Interpret.repeating_succ, Interpret.repeating_succ]
    refine bind once fun l asked asked' more same => ?_
    cases same with
    | none => exact ih.mono more
    | some same => exact pure fun n further => same.mono (·.mono further)

end Follows

-- One tree on two machines. A world is where the current scopes stand, and what is paired.
abbrev following (allowed : Position → Prop) : Comparison Step Step where
  World := Site × Pairing
  later w w' := w.1 = w'.1 ∧ w.2.Sub w'.2
  inside w := (.own, w.2)
  moved := id
  value w := Value.Paired allowed w.2
  signal w := Signal.Paired allowed w.2
  fits w node := node.Placed allowed ∧ node.Suits w.1
  binds w := w.1 = .own
  holds w := Follows allowed w.1 w.2 fun l => Yield.Rel (Value.Paired allowed l) (Signal.Paired allowed l)

namespace following

theorem lawful : (following allowed).Lawful where
  later_refl := ⟨rfl, .refl _⟩
  later_trans first second := ⟨first.1.trans second.1, first.2.trans second.2⟩
  value_later more same := same.mono more.2
  fits_later more fit := ⟨fit.1, more.1 ▸ fit.2⟩
  binds_later more isOwn := more.1.symm.trans isOwn
  like := Value.Paired.like
  plain := .plain
  next := .next
  returned _ := .returned
  ended := id
  part fit mem := ⟨fit.1.children _ (Node.mem_children mem), fit.2.part mem⟩
  block fit := ⟨fit.1, rfl⟩
  declares fit := fit.2.resolve_right id
  names fit := fit.2.resolve_right id
  pure same := .pure fun _ more => Yield.mono (·.mono more) (·.mono (·.mono more)) same
  bind first next := .bind first fun l a b more same => next (_, l) a b ⟨rfl, more⟩ same

variable {host : Host}

theorem steps (calls : host.Follows allowed) : (following allowed).Steps host host where
  toLawful := lawful
  equals := Value.Paired.equals
  fail fit spans _ := .fail (fit.1.begins spans) _
  lookup fit := .lookup (fit.1.begins rfl) _
  assign fit same := .assign (fit.1.begins rfl) _ same
  define := by
    rintro ⟨_, k⟩ v w x rfl same
    exact .define x same
  makeFunction name params fit mem := by
    rw [Block.relocate_id]
    exact .makeFunction name params (fit.1.children _ mem)
  print := .print
  readClock := .readClock host.clock
  tick fit spans := .tick host.limits (fit.1.begins spans)
  inside fit := .inCall host.limits (fit.1.begins rfl)
  call fit same each _ := .inCall host.limits (fit.1.begins rfl) (.locating _ (calls same each))
  inBlock := .inBlock
  loop fit test run := by
    refine .repeating (lawful.round (fun w' more => ?_) test run) host.patience
    exact .tick host.limits (fit.1.begins rfl)

end following

namespace Follows

variable {host : Host}

theorem eval (calls : host.Follows allowed) (placed : e.Placed allowed) :
    Follows allowed site k (Value.Paired allowed) (Interpret.eval host e) (Interpret.eval host e) :=
  (following.steps calls).laws.eval_same rfl (w := (site, k)) ⟨placed, trivial⟩

theorem exec (calls : host.Follows allowed) (placed : s.Placed allowed) (suits : site = .own ∨ s.Unbinding) :
    Follows allowed site k (Signal.Paired allowed) (Interpret.exec host s) (Interpret.exec host s) :=
  (following.steps calls).laws.exec_same rfl (w := (site, k)) ⟨placed, suits⟩

theorem functionBody (calls : host.Follows allowed)
    (same : (Value.function i f).Paired allowed k (.function j f'))
    (each : List.Forall₂ (Value.Paired allowed k) args args') :
    Follows allowed site k (Value.Paired allowed) (Interpret.functionBody host f args)
      (Interpret.functionBody host f' args') := by
  cases same with
  | function given stands placed =>
    exact inNewScope stands
      ((following.steps calls).laws.boundBody_same rfl (w := (Site.own, k)) rfl rfl rfl ⟨placed, rfl⟩ each)

theorem execProgram (calls : host.Follows allowed) (placed : Stmt.PlacedAll allowed program) :
    Follows allowed .own k (fun _ _ _ => True) (Interpret.execProgram host program)
      (Interpret.execProgram host program) :=
  (following.steps calls).laws.execProgram_same rfl (w := (Site.own, k)) fun s mem =>
    ⟨Stmt.placedAll_iff.1 placed s mem, .inl rfl⟩

end Follows

-- The calls of every host, by induction on how deep they may go.
theorem Interpret.hostAt_follows (limits : Limits) (clock : Nat → Float) (patience room : Nat) :
    (hostAt limits clock patience room).Follows allowed := by
  induction room with
  | zero => exact fun _ _ _ _ _ _ _ _ => .unfinished
  | succ room ih => exact fun same each => Follows.functionBody ih same each

theorem Interpreter.run_beside {i i' : Interpreter} {h h' : Heap} (limits : i.limits = i'.limits)
    (patience : i.patience = i'.patience) (paired : h.Paired allowed k h')
    (areTwins : k.twins i.globals i'.globals) (placed : Stmt.PlacedAll allowed program) (clock : Nat → Float)
    (readings : Nat) : (i.run clock program h readings).Beside allowed (fun _ _ _ => True) k
      ⟨h, i.globals, 0, 0, readings, []⟩ ⟨h', i'.globals, 0, 0, readings, []⟩
      (i'.run clock program h' readings) := by
  unfold Interpreter.run
  rw [← limits, ← patience]
  exact Follows.execProgram (Interpret.hostAt_follows _ _ _ _) placed k _ _ (.refl k)
    ⟨paired, rfl, rfl, rfl, rfl⟩ areTwins

end

end TinyScript
