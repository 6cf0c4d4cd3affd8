import TinyScript.Proofs.Tree.Runnable
import TinyScript.Proofs.Tree.Shape
import TinyScript.Proofs.Tree.Walk

namespace TinyScript

namespace Parse.Walk

def startAt (tokens : List Token) (pos : Nat) : Position := (tokens[pos]?.getD (missingEnd tokens)).span.start

def stopAt (tokens : List Token) (pos : Nat) : Position :=
  ((lastRead tokens pos).getD (missingEnd tokens)).span.stop

def between (tokens : List Token) (i j : Nat) : Span := ⟨startAt tokens i, stopAt tokens j⟩

inductive Lies (tokens : List Token) : Nat → Nat → Node → Prop where
  | placed (lo hi : Node → Nat) : i < j → node.span? = some (between tokens i j) →
    (∀ child ∈ node.children, i ≤ lo child ∧ hi child ≤ j) →
    (∀ child ∈ node.children, Lies tokens (lo child) (hi child) child) → Lies tokens i j node

def Amid (tokens : List Token) (m k : Nat) (node : Node) : Prop := ∃ i j, m ≤ i ∧ j ≤ k ∧ Lies tokens i j node

-- The statements lie one behind the other.
def Row (tokens : List Token) : Nat → Nat → List Stmt → Prop
  | m, k, [] => m ≤ k
  | m, k, s :: ss => ∃ j, Amid tokens m j (.stmt s) ∧ Row tokens j k ss

section

variable {tokens : List Token}

theorem Lies.intro {node : Node} (some : i < j) (spans : node.span? = .some (between tokens i j))
    (children : ∀ child ∈ node.children, Amid tokens i j child) : Lies tokens i j node := by
  have places (child : Node) : ∃ place : Nat × Nat, child ∈ node.children →
      i ≤ place.1 ∧ place.2 ≤ j ∧ Lies tokens place.1 place.2 child := by
    by_cases mem : child ∈ node.children
    · obtain ⟨lo, hi, after, before, lies⟩ := children child mem
      exact ⟨(lo, hi), fun _ => ⟨after, before, lies⟩⟩
    · exact ⟨(0, 0), fun mem' => absurd mem' mem⟩
  obtain ⟨place, placed⟩ := Classical.axiomOfChoice places
  exact .placed (fun child => (place child).1) (fun child => (place child).2) some spans
    (fun child mem => ⟨(placed child mem).1, (placed child mem).2.1⟩) fun child mem => (placed child mem).2.2

theorem Lies.parts {node : Node} (lies : Lies tokens i j node) :
    i < j ∧ node.span? = some (between tokens i j) ∧ ∀ child ∈ node.children, Amid tokens i j child := by
  obtain ⟨lo, hi, some, spans, around, each⟩ := lies
  exact ⟨some, spans, fun child mem => ⟨_, _, (around child mem).1, (around child mem).2, each child mem⟩⟩

theorem Lies.span {e : Expr} (lies : Lies tokens i j (.expr e)) : e.span = between tokens i j :=
  Option.some.inj lies.parts.2.1

theorem Lies.amid (lies : Lies tokens i j node) (after : m ≤ i) (before : j ≤ k) : Amid tokens m k node :=
  ⟨i, j, after, before, lies⟩

theorem Amid.mono (amid : Amid tokens m k node) (after : m' ≤ m) (before : k ≤ k') : Amid tokens m' k' node := by
  obtain ⟨i, j, low, high, lies⟩ := amid
  exact lies.amid (Nat.le_trans after low) (Nat.le_trans high before)

theorem Amid.lt (amid : Amid tokens m k node) : m < k := by
  obtain ⟨i, j, low, high, lies⟩ := amid
  exact Nat.lt_of_le_of_lt low (Nat.lt_of_lt_of_le lies.parts.1 high)

theorem Row.le (row : Row tokens m k ss) : m ≤ k := by
  induction ss generalizing m with
  | nil => exact row
  | cons s ss ih =>
    obtain ⟨j, first, rest⟩ := row
    exact Nat.le_trans (Nat.le_of_lt first.lt) (ih rest)

theorem Row.earlier (row : Row tokens m k ss) (after : m' ≤ m) : Row tokens m' k ss := by
  cases ss with
  | nil => exact Nat.le_trans after row
  | cons s ss =>
    obtain ⟨j, first, rest⟩ := row
    exact ⟨j, first.mono after (Nat.le_refl _), rest⟩

theorem Row.each (row : Row tokens m k ss) : ∀ s ∈ ss, Amid tokens m k (.stmt s) := by
  induction ss generalizing m with
  | nil => exact List.forall_mem_nil _
  | cons s ss ih =>
    obtain ⟨j, first, rest⟩ := row
    refine List.forall_mem_cons.2 ⟨first.mono (Nat.le_refl _) rest.le, fun s mem => ?_⟩
    exact (ih rest s mem).mono (Nat.le_of_lt first.lt) (Nat.le_refl _)

theorem between_token (here : tokens[m]? = some t) : between tokens m (m + 1) = t.span := by
  show Span.mk (tokens[m]?.getD _).span.start (tokens[m]?.getD _).span.stop = t.span
  rw [here]
  rfl

theorem Amid.within {node : Node} (after : m ≤ i) (before : j ≤ k) (some : i < j)
    (spans : node.span? = .some (between tokens i j)) (children : ∀ child ∈ node.children, Amid tokens i j child) :
    Amid tokens m k node := ⟨i, j, after, before, .intro some spans children⟩

theorem Amid.whole {node : Node} (some : m < k) (spans : node.span? = .some (between tokens m k))
    (children : ∀ child ∈ node.children, Amid tokens m k child) : Amid tokens m k node :=
  .within (Nat.le_refl _) (Nat.le_refl _) some spans children

theorem amid_option {make : α → Node} {o : Option α} (each : IfAny (fun a => Amid tokens m k (make a)) o) :
    ∀ child ∈ o.toList.map make, Amid tokens m k child := by
  cases o with
  | none => exact List.forall_mem_nil _
  | some a => exact List.forall_mem_singleton.2 (each a rfl)

theorem span_opened {t : Token} (spans : t.span = between tokens m (m + 1)) (k : Nat) :
    some (Span.mk t.span.start (stopAt tokens k)) = some (between tokens m k) := by
  rw [spans]
  rfl

-- How the nodes are put together. A node begins with its first part or its first token, and ends with its last.

theorem amid_leaf {e : Expr} (spans : e.span = between tokens m (m + 1)) (alone : (Node.expr e).children = []) :
    Amid tokens m (m + 1) (.expr e) :=
  .whole (Nat.lt_succ_self m) (congrArg some spans) (alone ▸ List.forall_mem_nil _)

theorem amid_combine (tier : Tier) (op : Kind) {left right : Expr} (first : Amid tokens m k (.expr left))
    (onward : k ≤ k') (second : Amid tokens k' n (.expr right)) :
    Amid tokens m n (.expr (tier.combine op left right)) := by
  obtain ⟨i, j, after, before, lies⟩ := first
  obtain ⟨i', j', after', before', lies'⟩ := second
  have wide : i < j ∧ i' < j' := ⟨lies.parts.1, lies'.parts.1⟩
  have spans : left.span.upTo right.span = between tokens i j' := by
    rw [lies.span, lies'.span]
    rfl
  have children : ∀ child ∈ [Node.expr left, Node.expr right], Amid tokens i j' child := by
    refine List.forall_mem_cons.2 ⟨lies.amid (Nat.le_refl _) (by omega), ?_⟩
    exact List.forall_mem_singleton.2 (lies'.amid (by omega) (Nat.le_refl _))
  have lies : Lies tokens i j' (.expr (tier.combine op left right)) := by
    unfold Tier.combine
    dsimp only
    split
    · exact .intro (by omega) (congrArg some spans) children
    · exact .intro (by omega) (congrArg some spans) children
  exact lies.amid after before'

theorem amid_braces {stmts : List Stmt} (some : m < k) (each : ∀ s ∈ stmts, Amid tokens m k (.stmt s)) :
    Amid tokens m k (.stmt (.block (.braces (between tokens m k) stmts))) :=
  .whole some rfl (List.forall_mem_singleton.2 (.whole some rfl (List.forall_mem_map.2 each)))

-- The step of a `for` statement becomes a statement with the span of its expression; the blocks and the loop
-- have the span of the whole.
theorem amid_turn {body : Stmt} {e : Expr} (round : Amid tokens m k (.stmt body)) (step : Amid tokens m k (.expr e)) :
    Amid tokens m k (.stmt (.block (.braces (between tokens m k) [body, .expr e.span e]))) := by
  have some := step.lt
  obtain ⟨i, j, low, high, lies⟩ := step
  have stated : Amid tokens m k (.stmt (.expr e.span e)) :=
    .within low high lies.parts.1 lies.parts.2.1
      (List.forall_mem_singleton.2 (lies.amid (Nat.le_refl _) (Nat.le_refl _)))
  exact amid_braces some (List.forall_mem_cons.2 ⟨round, List.forall_mem_singleton.2 stated⟩)

theorem amid_loop {first : Option Stmt} {condition : Option Expr} {body : Stmt}
    (firsts : IfAny (fun s => Amid tokens m k (.stmt s)) first)
    (tests : IfAny (fun e => Amid tokens m k (.expr e)) condition) (round : Amid tokens m k (.stmt body)) :
    Amid tokens m k
      (.stmt (forLoop (between tokens m k) (between tokens m (m + 1)) first condition none body)) := by
  have some := round.lt
  have tested : Amid tokens m k
      (.expr (condition.getD (.literal (between tokens m (m + 1)) (.boolean true)))) := by
    cases condition with
    | none => exact (amid_leaf rfl rfl).mono (Nat.le_refl _) some
    | some e => exact tests e rfl
  have loop : Amid tokens m k (.stmt (.loop (between tokens m k) _ body)) :=
    .whole some rfl (List.forall_mem_cons.2 ⟨tested, List.forall_mem_singleton.2 round⟩)
  cases first with
  | none => exact loop
  | some s => exact amid_braces some (List.forall_mem_cons.2 ⟨firsts s rfl, List.forall_mem_singleton.2 loop⟩)

theorem amid_tree {clauses : ForClauses} {body : Stmt}
    (firsts : IfAny (fun s => Amid tokens m k (.stmt s)) clauses.first)
    (tests : IfAny (fun e => Amid tokens m k (.expr e)) clauses.condition)
    (steps : IfAny (fun e => Amid tokens m k (.expr e)) clauses.step) (round : Amid tokens m k (.stmt body)) :
    Amid tokens m k (.stmt (clauses.tree (between tokens m k) (between tokens m (m + 1)) body)) := by
  obtain ⟨first, condition, step⟩ := clauses
  cases step with
  | none => exact amid_loop firsts tests round
  | some e => exact amid_loop firsts tests (amid_turn round (steps e rfl))

end

-- What the reader yields from one position on, and where it stops, go together so.
def Lays (tokens : List Token) (m : Nat) (post : α → Nat → Prop) (r : Reader α) : Prop :=
  ∀ depth reported a c, m ≤ endAt tokens →
    r (Depth.context tokens depth) (Seat.cursor tokens ⟨m, reported⟩) = .ok a c →
    ∃ next : Seat, c = next.cursor tokens ∧ m ≤ next.pos ∧ next.pos ≤ endAt tokens ∧ post a next.pos

namespace Lays

variable {tokens : List Token} {m : Nat} {post : α → Nat → Prop} {r : Reader α}

theorem walk (readable : Walkable r) : Lays tokens m (fun _ _ => True) r := by
  intro depth reported a c inside ran
  obtain ⟨out, runs⟩ : ∃ out, Runs tokens r depth ⟨m, reported⟩ out := readable inside
  have told := runs.tells inside
  have same := ran.symm.trans told.replies
  cases out with
  | ok b next =>
    injection same with _ cursors
    exact ⟨next, cursors, told.onward, told.inside, trivial⟩
  | fail t fault failed => cases same

theorem pure (holds : post a m) : Lays tokens m post (Pure.pure a) := by
  intro depth reported b c inside ran
  cases ran
  exact ⟨⟨m, reported⟩, rfl, Nat.le_refl _, inside, holds⟩

theorem bind {f : α → Reader β} {last : β → Nat → Prop} (first : Lays tokens m post r)
    (second : ∀ a k, m ≤ k → post a k → Lays tokens k last (f a)) : Lays tokens m last (r >>= f) := by
  intro depth reported b c inside ran
  obtain ⟨a, _, ran₁, ran₂⟩ := Reader.of_bind_ok ran
  obtain ⟨⟨k, also⟩, rfl, onward, within, holds⟩ := first depth reported a _ inside ran₁
  obtain ⟨next, eq, further, ended, done⟩ := second a k onward holds depth also b c within ran₂
  exact ⟨next, eq, Nat.le_trans onward further, ended, done⟩

theorem step {f : α → Reader β} {last : β → Nat → Prop} [Stepwise @Walkable r]
    (second : ∀ a k, m ≤ k → Lays tokens k last (f a)) : Lays tokens m last (r >>= f) :=
  bind (walk walkable) fun a k onward _ => second a k onward

theorem map (g : α → β) {last : β → Nat → Prop} (lays : Lays tokens m post r)
    (imp : ∀ a k, m ≤ k → post a k → last (g a) k) : Lays tokens m last (g <$> r) :=
  bind lays fun a k onward holds => pure (imp a k onward holds)

theorem ite {s : Reader α} (p : Prop) [Decidable p] (yes : p → Lays tokens m post r)
    (no : ¬p → Lays tokens m post s) : Lays tokens m post (if p then r else s) := by
  split
  · next holds => exact yes holds
  · next fails => exact no fails

theorem failHere (fault : Fault) : Lays tokens m post (failHere fault) := by
  intro depth reported a c inside ran
  cases ran

theorem inBraces (lays : Lays tokens m post r) :
    Lays tokens m post (within .braces r) :=
  fun depth => lays { depth with blocks := depth.blocks + 1 }

theorem inBody (lays : Lays tokens m post r) :
    Lays tokens m post (within .body r) :=
  fun depth => lays { depth with functions := depth.functions + 1 }

theorem next_inside (inside : m ≤ endAt tokens)
    (inner : (((body tokens).drop m).headD (ending tokens)).kind ≠ .eof) : m < endAt tokens := by
  refine Nat.lt_of_le_of_ne inside fun atEnd => inner ?_
  rw [atEnd, rest_endAt]
  exact ending_kind tokens

theorem next_span (before : m < endAt tokens) :
    (((body tokens).drop m).headD (ending tokens)).span = between tokens m (m + 1) := by
  obtain ⟨t, here, _, rest⟩ := token_inside before
  rw [rest, between_token here]
  rfl

theorem cursor_past (before : m < endAt tokens) (reported : List Diagnostic) :
    (Seat.cursor tokens ⟨m, reported⟩).advance = Seat.cursor tokens ⟨m + 1, reported⟩ := by
  obtain ⟨t, here, inner, _⟩ := token_inside before
  exact (Moves.advance (s := ⟨m, reported⟩) (.on (.token here) inner) (Nat.le_of_lt before)).1

theorem further (lays : Lays tokens (m + 1) post r) (before : m < endAt tokens) (depth : Depth)
    (ran : r (depth.context tokens) (Seat.cursor tokens ⟨m + 1, reported⟩) = .ok a c) :
    ∃ next : Seat, c = next.cursor tokens ∧ m ≤ next.pos ∧ next.pos ≤ endAt tokens ∧ post a next.pos := by
  obtain ⟨next, eq, onward, within, holds⟩ := lays depth reported a c before ran
  exact ⟨next, eq, Nat.le_of_succ_le onward, within, holds⟩

theorem byKind {f : Kind → Reader α}
    (rest : ∀ kind, (kind ≠ .eof → m < endAt tokens) → Lays tokens m post (f kind)) :
    Lays tokens m post (peekKind >>= f) :=
  fun depth reported a c inside ran => rest _ (next_inside inside) depth reported a c inside ran

theorem byToken {f : Token → Reader α}
    (rest : ∀ t, (t.kind ≠ .eof → m < endAt tokens ∧ t.span = between tokens m (m + 1)) →
      Lays tokens m post (f t)) : Lays tokens m post (peek >>= f) := by
  intro depth reported a c inside ran
  refine rest _ (fun inner => ?_) depth reported a c inside ran
  have before := next_inside inside inner
  exact ⟨before, next_span before⟩

theorem bySecond {f : Kind → Reader α} (before : m < endAt tokens)
    (rest : ∀ kind, (kind ≠ .eof → m + 1 < endAt tokens) → Lays tokens m post (f kind)) :
    Lays tokens m post (peekSecond >>= f) := by
  intro depth reported a c inside ran
  refine rest (secondKind ((body tokens).drop m)) (fun inner => ?_) depth reported a c inside ran
  refine Nat.lt_of_le_of_ne before fun atEnd => inner ?_
  obtain ⟨t, _, _, rest⟩ := token_inside before
  rw [rest, atEnd, rest_endAt]
  rfl

theorem past {f : Token → Reader α} (before : m < endAt tokens)
    (rest : ∀ t, t.span = between tokens m (m + 1) → Lays tokens (m + 1) post (f t)) :
    Lays tokens m post (advance >>= f) := by
  intro depth reported a c _ ran
  have ran : f _ (depth.context tokens) (Seat.cursor tokens ⟨m, reported⟩).advance = .ok a c := ran
  rw [cursor_past before] at ran
  exact further (rest _ (next_span before)) before depth ran

theorem pastExpected {f : Token → Reader α} (known : kind ≠ .eof) {place : Place}
    (rest : ∀ t, t.span = between tokens m (m + 1) → Lays tokens (m + 1) post (f t)) :
    Lays tokens m post (expect kind place >>= f) := by
  rw [expect_eq, Reader.bind_assoc]
  refine byKind fun k before => ?_
  rw [Reader.ite_bind]
  split
  · next isKind => exact past (before (isKind ▸ known)) rest
  · intro depth reported a c _ ran
    cases ran

theorem pastReturn {f : Token → Reader α} (before : m < endAt tokens)
    (rest : ∀ t, t.span = between tokens m (m + 1) → Lays tokens (m + 1) post (f t)) :
    Lays tokens m post (openReturn >>= f) := by
  intro depth reported a c _ ran
  rw [Reader.bind_ok (openReturn_eq _ _), cursor_past before] at ran
  have behind := rest _ (next_span before)
  split at ran
  · exact further behind before depth ran
  · have ran : f _ _ (Seat.cursor tokens ⟨m + 1, reported ++ [_]⟩) = .ok a c := ran
    exact further behind before depth ran

theorem toStop {f : Position → Reader α} (some : 0 < m) (rest : Lays tokens m post (f (stopAt tokens m))) :
    Lays tokens m post (lastStop >>= f) := by
  obtain ⟨n, rfl⟩ : ∃ n, m = n + 1 := ⟨m - 1, by omega⟩
  intro depth reported a c inside ran
  refine rest depth reported a c inside ?_
  obtain ⟨t, here, _⟩ := token_inside inside
  have last : lastRead tokens (n + 1) = .some t := here
  have ran : f ((lastRead tokens (n + 1)).elim _ fun t => t.span.stop) (depth.context tokens)
      (Seat.cursor tokens ⟨n + 1, reported⟩) = .ok a c := ran
  unfold stopAt
  rw [last] at ran ⊢
  exact ran

theorem leaf {make : Token → α} (before : m < endAt tokens)
    (holds : ∀ t, t.span = between tokens m (m + 1) → post (make t) (m + 1)) :
    Lays tokens m post (leaf make) :=
  past before fun t spans => pure (holds t spans)

theorem unlessNext (kind : Kind) (lays : Lays tokens m post r) :
    Lays tokens m (fun o k => IfAny (post · k) o) (unlessNext kind r) := by
  refine byKind fun _ _ => ite _ (fun _ => pure ?_) fun _ => map some lays ?_
  · exact fun _ mem => nomatch mem
  · rintro a k _ holds _ ⟨⟩
    exact holds

theorem behind (known : kind ≠ .eof) (lays : Lays tokens (m + 1) post r) :
    Lays tokens m (fun o k => IfAny (post · k) o) (behind kind r) := by
  rw [behind_eq]
  refine byKind fun _ before => ite _ (fun isKind => ?_) fun _ => pure ?_
  · refine past (before (isKind ▸ known)) fun _ _ => map some lays ?_
    rintro a k _ holds _ ⟨⟩
    exact holds
  · exact fun _ mem => nomatch mem

theorem recovering (readable : Walkable r) (lays : Lays tokens m post r) :
    Lays tokens m (fun o k => IfAny (post · k) o) (recovering r) := by
  intro depth reported a c inside ran
  cases read : r (Depth.context tokens depth) (Seat.cursor tokens ⟨m, reported⟩) with
  | ok b next =>
    obtain ⟨last, eq, onward, within, holds⟩ := lays depth reported b next inside read
    rw [recovering_ok read] at ran
    cases ran
    refine ⟨last, eq, onward, within, ?_⟩
    rintro _ ⟨⟩
    exact holds
  | fail t fault failed =>
    obtain ⟨last, eq, onward, within, _⟩ := walk readable.recovering depth reported a c inside ran
    rw [recovering_resume read] at ran
    cases ran
    exact ⟨last, eq, onward, within, fun _ mem => nomatch mem⟩

end Lays

-- The node lies where the reader has read.
abbrev Under (tokens : List Token) (m : Nat) (make : α → Node) : α → Nat → Prop :=
  fun a k => Amid tokens m k (make a)

structure Laying (tokens : List Token) (nested : Nested) : Prop where
  expression : ∀ m, Lays tokens m (Under tokens m .expr) nested.expression
  statement : ∀ m, Lays tokens m (Under tokens m .stmt) nested.statement
  declaration : ∀ m, Lays tokens m (fun o k => IfAny (fun s => Amid tokens m k (.stmt s)) o) nested.declaration

namespace Lays

variable {tokens : List Token}

section

variable {operand : Reader Expr} (inner : ∀ m, Lays tokens m (Under tokens m .expr) operand)
include inner

-- The first operand of a chain was read before, from an earlier position on.
theorem chain (tier : Tier) (bound : Nat) {left : Expr} (first : Amid tokens m k (.expr left)) :
    Lays tokens k (Under tokens m .expr) (chain tier operand bound left) := by
  induction bound generalizing left k with
  | zero => exact pure first
  | succ bound ih =>
    refine step fun op k₁ after => ite _ (fun _ => step fun _ k₂ later => ?_) fun _ => pure ?_
    · refine bind (inner k₂) fun right n _ second => ih ?_
      exact amid_combine tier op first (Nat.le_trans after later) second
    · exact first.mono (Nat.le_refl _) after

theorem ladder (rungs : List Tier) (bound : Nat) (m : Nat) :
    Lays tokens m (Under tokens m .expr) (ladder bound operand rungs) := by
  induction rungs generalizing m with
  | nil => exact inner m
  | cons tier tighter ih => exact bind (ih m) fun left k _ first => chain ih tier bound first

theorem unary (bound : Nat) (m : Nat) : Lays tokens m (Under tokens m .expr) (unary operand bound) := by
  induction bound generalizing m with
  | zero => exact inner m
  | succ bound ih =>
    refine byToken fun t seen => ite _ (fun signed => ?_) fun _ => inner m
    have known : t.kind ≠ .eof := by
      rcases signed with is | is
      · rw [is]; decide
      · rw [is]; decide
    obtain ⟨before, spans⟩ := seen known
    refine past before fun _ _ => bind (ih (m + 1)) fun e k _ ⟨i, j, low, high, lies⟩ => pure ?_
    have wide := lies.parts.1
    have whole : some (t.span.upTo e.span) = some (between tokens m j) := by
      rw [spans, lies.span]
      rfl
    refine .within (Nat.le_refl _) high (by omega) whole ?_
    exact List.forall_mem_singleton.2 (lies.amid (by omega) (Nat.le_refl _))

theorem arguments (bound count : Nat) (m : Nat) :
    Lays tokens m (fun es k => ∀ e ∈ es, Amid tokens m k (.expr e)) (arguments operand bound count) := by
  induction bound generalizing count m with
  | zero =>
    rw [arguments_zero]
    refine step fun _ k after => bind (inner k) fun e k' _ lies => pure ?_
    exact List.forall_mem_singleton.2 (lies.mono after (Nat.le_refl _))
  | succ bound ih =>
    rw [arguments_succ]
    refine step fun _ k after => bind (inner k) fun e k₁ later lies => ?_
    refine bind (behind (by decide) (ih (count + 1) (k₁ + 1))) fun es k₂ last more => pure ?_
    refine List.forall_mem_cons.2 ⟨lies.mono after last, fun e' mem => ?_⟩
    cases es with
    | none => exact absurd mem List.not_mem_nil
    | some es => exact (more es rfl e' mem).mono (by omega) (Nat.le_refl _)

theorem calls (size bound : Nat) {callee : Expr} (first : Amid tokens m k (.expr callee)) :
    Lays tokens k (Under tokens m .expr) (calls operand size bound callee) := by
  induction bound generalizing callee k with
  | zero => exact pure first
  | succ bound ih =>
    rw [calls_succ]
    refine byKind fun kind before => ite _ (fun isOpen => ?_) fun _ => pure first
    refine past (before (isOpen ▸ by decide)) fun _ _ => ?_
    refine bind (unlessNext _ (arguments inner size 0 (k + 1))) fun args k₁ after each => ?_
    refine pastExpected (by decide) fun close closes => ih ?_
    obtain ⟨i, j, low, high, lies⟩ := first
    have wide := lies.parts.1
    have spans : some (callee.span.upTo close.span) = some (between tokens i (k₁ + 1)) := by
      rw [lies.span, closes]
      rfl
    refine .within low (Nat.le_refl _) (by omega) spans ?_
    refine List.forall_mem_cons.2 ⟨lies.amid (Nat.le_refl _) (by omega), List.forall_mem_map.2 fun e mem => ?_⟩
    cases args with
    | none => exact absurd mem List.not_mem_nil
    | some args => exact (each args rfl e mem).mono (by omega) (by omega)

-- A target that is not a name stands for the whole, and what was assigned to it is left out.
theorem assignTail {left : Expr} (first : Amid tokens m k (.expr left)) :
    Lays tokens k (Under tokens m .expr) (assignTail operand left) := by
  refine byToken fun t seen => ite _ (fun signed => ?_) fun _ => pure first
  refine past (seen (by rw [signed]; decide)).1 fun _ _ => bind (inner (k + 1)) fun value k₁ after second => ?_
  split
  · next span x =>
    obtain ⟨i, j, low, high, lies⟩ := first
    obtain ⟨i', j', low', high', lies'⟩ := second
    have wide := lies.parts.1
    have wide' := lies'.parts.1
    have spans : some (span.upTo value.span) = some (between tokens i j') := by
      rw [show span = _ from lies.span, lies'.span]
      rfl
    refine pure (.within low high' (by omega) spans ?_)
    exact List.forall_mem_singleton.2 (lies'.amid (by omega) (Nat.le_refl _))
  · exact bind (walk (.report t _)) fun _ _ later _ => pure (first.mono (Nat.le_refl _) (by omega))

theorem expressionStatement (m : Nat) :
    Lays tokens m (Under tokens m .stmt) (expressionStatement operand) := by
  refine bind (inner m) fun e k _ ⟨i, j, low, high, lies⟩ => pastExpected (by decide) fun _ _ => ?_
  refine toStop (Nat.succ_pos k) (pure ?_)
  have wide := lies.parts.1
  have spans : some (Span.mk e.span.start (stopAt tokens (k + 1))) = some (between tokens i (k + 1)) := by
    rw [lies.span]
    rfl
  refine .within low (Nat.le_refl _) (by omega) spans ?_
  exact List.forall_mem_singleton.2 (lies.amid (Nat.le_refl _) (by omega))

end

section

variable {nested : Nested} (inner : Laying tokens nested) (size : Nat)
include inner

theorem declarations (braced : Bool) (bound : Nat) (m : Nat) :
    Lays tokens m (fun ss k => Row tokens m k ss) (declarations nested.declaration braced bound) := by
  induction bound generalizing m with
  | zero => exact pure (Nat.le_refl m)
  | succ bound ih =>
    refine byKind fun _ _ => ite _ (fun _ => pure (Nat.le_refl m)) fun _ => ?_
    refine bind (inner.declaration m) fun stmt k after each => bind (ih k) fun stmts _ _ row => pure ?_
    cases stmt with
    | none => exact row.earlier after
    | some s => exact ⟨k, each s rfl, row⟩

theorem block (m : Nat) : Lays tokens m (Under tokens m .block) (block size nested) := by
  refine pastExpected (by decide) fun start opens => ?_
  refine bind (inBraces (declarations inner true size (m + 1))) fun stmts k after row => ?_
  refine pastExpected (by decide) fun _ _ => toStop (Nat.succ_pos k) (pure ?_)
  refine .whole (by omega) (span_opened opens (k + 1)) (List.forall_mem_map.2 fun s mem => ?_)
  exact (row.each s mem).mono (Nat.le_succ m) (Nat.le_succ k)

theorem functionRest (afterName beforeBody : Place) (m : Nat) :
    Lays tokens m (Under tokens m fun f => .block f.2) (functionRest size nested afterName beforeBody) := by
  rw [functionRest_eq]
  refine step fun _ k₁ after₁ => step fun _ k₂ after₂ => step fun _ k₃ after₃ => byKind fun _ _ => ?_
  refine ite _ (fun _ => ?_) fun _ => failHere _
  refine bind (inBody (block inner size k₃)) fun _ k _ lies => pure ?_
  exact lies.mono (by omega) (Nat.le_refl k)

theorem primary (m : Nat) : Lays tokens m (Under tokens m .expr) (primary size nested) := by
  rw [primary_eq]
  refine byKind fun first before => ?_
  unfold primaryBy
  split
  · exact leaf (before (by decide)) fun _ spans => amid_leaf spans rfl
  · exact leaf (before (by decide)) fun _ spans => amid_leaf spans rfl
  · exact leaf (before (by decide)) fun _ spans => amid_leaf spans rfl
  · exact leaf (before (by decide)) fun _ spans => amid_leaf spans rfl
  · exact leaf (before (by decide)) fun _ spans => amid_leaf spans rfl
  · exact leaf (before (by decide)) fun _ spans => amid_leaf spans rfl
  · refine past (before (by decide)) fun _ opens => bind (inner.expression (m + 1)) fun e k after lies => ?_
    refine pastExpected (by decide) fun _ _ => toStop (Nat.succ_pos k) (pure ?_)
    refine .whole (by omega) (span_opened opens (k + 1)) (List.forall_mem_singleton.2 ?_)
    exact lies.mono (Nat.le_succ m) (Nat.le_succ k)
  · refine past (before (by decide)) fun _ opens => ?_
    refine bind (functionRest inner size _ _ (m + 1)) fun _ k after lies => toStop (by omega) (pure ?_)
    refine .whole (by omega) (span_opened opens k) (List.forall_mem_singleton.2 ?_)
    exact lies.mono (Nat.le_succ m) (Nat.le_refl k)
  · exact failHere _
  · exact failHere _
  · exact failHere _

theorem expression (m : Nat) : Lays tokens m (Under tokens m .expr) (expression size nested) := by
  rw [expression_eq]
  have operands (m : Nat) : Lays tokens m (Under tokens m .expr) (call size nested) :=
    bind (primary inner size m) fun _ _ _ first => calls inner.expression size size first
  exact bind (ladder (unary operands size) tiers size m) fun _ _ _ first => assignTail inner.expression first

omit size

theorem variableDeclaration (before : m < endAt tokens) :
    Lays tokens m (Under tokens m .stmt) (variableDeclaration nested) := by
  rw [variableDeclaration_eq]
  refine past before fun _ opens => step fun _ k₁ after₁ => ?_
  refine bind (behind (by decide) (inner.expression (k₁ + 1))) fun value k₂ after₂ each => ?_
  refine pastExpected (by decide) fun _ _ => toStop (Nat.succ_pos k₂) (pure ?_)
  refine .whole (by omega) (span_opened opens (k₂ + 1)) (amid_option fun e mem => ?_)
  exact (each e mem).mono (by omega) (Nat.le_succ k₂)

theorem branchStatement (before : m < endAt tokens) :
    Lays tokens m (Under tokens m .stmt) (branchStatement nested) := by
  rw [branchStatement_eq]
  refine past before fun _ opens => step fun _ k₁ after₁ => ?_
  refine bind (inner.expression k₁) fun c k₂ after₂ condition => step fun _ k₃ after₃ => ?_
  refine bind (inner.statement k₃) fun yes k₄ after₄ taken => ?_
  refine bind (behind (by decide) (inner.statement (k₄ + 1))) fun no k₅ after₅ each => ?_
  refine toStop (by omega) (pure (.whole (by omega) (span_opened opens k₅) ?_))
  refine List.forall_mem_cons.2 ⟨condition.mono (by omega) (by omega), ?_⟩
  refine List.forall_mem_cons.2 ⟨taken.mono (by omega) after₅, amid_option fun s mem => ?_⟩
  exact (each s mem).mono (by omega) (Nat.le_refl k₅)

theorem whileStatement (before : m < endAt tokens) :
    Lays tokens m (Under tokens m .stmt) (whileStatement nested) := by
  refine past before fun _ opens => step fun _ k₁ after₁ => ?_
  refine bind (inner.expression k₁) fun c k₂ after₂ condition => step fun _ k₃ after₃ => ?_
  refine bind (inner.statement k₃) fun body k₄ after₄ round => toStop (by omega) (pure ?_)
  refine .whole (by omega) (span_opened opens k₄) (List.forall_mem_cons.2 ⟨?_, List.forall_mem_singleton.2 ?_⟩)
  · exact condition.mono (by omega) (by omega)
  · exact round.mono (by omega) (Nat.le_refl k₄)

theorem forFirst (m : Nat) :
    Lays tokens m (fun o k => IfAny (fun s => Amid tokens m k (.stmt s)) o) (forFirst nested) := by
  refine byKind fun kind before => ite _ (fun isEmpty => ?_) fun _ => ite _ (fun isVar => ?_) fun _ => ?_
  · exact leaf (before (isEmpty ▸ by decide)) fun _ _ _ mem => nomatch mem
  · refine map some (variableDeclaration inner (before (isVar ▸ by decide))) ?_
    rintro s k _ lies _ ⟨⟩
    exact lies
  · refine map some (expressionStatement inner.expression m) ?_
    rintro s k _ lies _ ⟨⟩
    exact lies

theorem forClauses (m : Nat) : Lays tokens m (fun clauses k =>
    IfAny (fun s => Amid tokens m k (.stmt s)) clauses.first ∧
    IfAny (fun e => Amid tokens m k (.expr e)) clauses.condition ∧
    IfAny (fun e => Amid tokens m k (.expr e)) clauses.step) (forClauses nested) := by
  refine step fun _ k₁ after₁ => bind (forFirst inner k₁) fun first k₂ after₂ firsts => ?_
  refine bind (unlessNext _ (inner.expression k₂)) fun condition k₃ after₃ tests => step fun _ k₄ after₄ => ?_
  refine bind (unlessNext _ (inner.expression k₄)) fun last k₅ after₅ steps => step fun _ k₆ after₆ => pure ?_
  refine ⟨fun s mem => ?_, fun e mem => ?_, fun e mem => ?_⟩
  · exact (firsts s mem).mono (by omega) (by omega)
  · exact (tests e mem).mono (by omega) (by omega)
  · exact (steps e mem).mono (by omega) (by omega)

theorem forStatement (before : m < endAt tokens) :
    Lays tokens m (Under tokens m .stmt) (forStatement nested) := by
  rw [forStatement_clauses]
  refine past before fun start opens => ?_
  refine bind (forClauses inner (m + 1)) fun clauses k₁ after₁ ⟨firsts, tests, steps⟩ => ?_
  refine bind (inner.statement k₁) fun body k after round => toStop (by omega) (pure ?_)
  have whole : Span.mk start.span.start (stopAt tokens k) = between tokens m k :=
    Option.some.inj (span_opened opens k)
  rw [whole, opens]
  refine amid_tree (fun s mem => ?_) (fun e mem => ?_) (fun e mem => ?_)
    (round.mono (by omega) (Nat.le_refl k))
  · exact (firsts s mem).mono (Nat.le_succ m) after
  · exact (tests e mem).mono (Nat.le_succ m) after
  · exact (steps e mem).mono (Nat.le_succ m) after

theorem printStatement (before : m < endAt tokens) :
    Lays tokens m (Under tokens m .stmt) (printStatement nested) := by
  refine past before fun _ opens => bind (inner.expression (m + 1)) fun e k after lies => ?_
  refine pastExpected (by decide) fun _ _ => toStop (Nat.succ_pos k) (pure ?_)
  refine .whole (by omega) (span_opened opens (k + 1)) (List.forall_mem_singleton.2 ?_)
  exact lies.mono (Nat.le_succ m) (Nat.le_succ k)

theorem returnStatement (before : m < endAt tokens) :
    Lays tokens m (Under tokens m .stmt) (returnStatement nested) := by
  rw [returnStatement_eq]
  refine pastReturn before fun _ opens => ?_
  refine bind (unlessNext _ (inner.expression (m + 1))) fun value k after each => ?_
  refine pastExpected (by decide) fun _ _ => toStop (Nat.succ_pos k) (pure ?_)
  refine .whole (by omega) (span_opened opens (k + 1)) (amid_option fun e mem => ?_)
  exact (each e mem).mono (Nat.le_succ m) (Nat.le_succ k)

theorem statement (size m : Nat) : Lays tokens m (Under tokens m .stmt) (statement size nested) := by
  rw [statement_eq]
  refine byKind fun first before => ?_
  unfold statementBy
  split
  · exact forStatement inner (before (by decide))
  · exact branchStatement inner (before (by decide))
  · exact printStatement inner (before (by decide))
  · exact returnStatement inner (before (by decide))
  · exact whileStatement inner (before (by decide))
  · refine map _ (block inner size m) fun _ k _ braced => ?_
    obtain ⟨i, j, low, high, lies⟩ := braced
    refine .within low high lies.parts.1 lies.parts.2.1 (List.forall_mem_singleton.2 ?_)
    exact lies.amid (Nat.le_refl i) (Nat.le_refl j)
  · exact expressionStatement (expression inner size) m

theorem functionDeclaration (size : Nat) (before : m + 1 < endAt tokens) :
    Lays tokens m (Under tokens m .stmt) (functionDeclaration size nested) := by
  refine past (Nat.lt_of_succ_lt before) fun _ opens => past before fun _ _ => ?_
  refine bind (functionRest inner size _ _ (m + 2)) fun _ k after lies => toStop (by omega) (pure ?_)
  refine .whole (by omega) (span_opened opens k) (List.forall_mem_singleton.2 ?_)
  exact lies.mono (by omega) (Nat.le_refl k)

theorem declaration (size m : Nat) : Lays tokens m (Under tokens m .stmt) (declaration size nested) := by
  refine byToken fun t seen => ?_
  split
  · next isFun =>
    refine bySecond (seen (by rw [isFun]; decide)).1 fun second before => ite _ (fun isName => ?_) fun _ => ?_
    · exact functionDeclaration inner size (before (isName ▸ by decide))
    · exact statement inner size m
  · next isVar => exact variableDeclaration inner (seen (by rw [isVar]; decide)).1
  · intro depth reported a c _ ran
    cases ran
  · exact statement inner size m

end

end Lays

theorem level_laying (tokens : List Token) (n : Nat) : Laying tokens (level n) := by
  induction n with
  | zero =>
    have missing (α : Type) : Walkable (@failHere α .noExpression) := walkable
    exact ⟨fun _ => .failHere _, fun _ => .failHere _, fun _ => .recovering (missing Stmt) (.failHere _)⟩
  | succ n ih =>
    exact ⟨fun m => .expression ih (n + 1) m, fun m => .statement ih (n + 1) m,
      fun m => .recovering (.declaration (n + 1)) (.declaration ih (n + 1) m)⟩

theorem parse_row (tokens : List Token) : ∃ k, k ≤ endAt tokens ∧ Row tokens 0 k (parse tokens).1 := by
  unfold parse
  dsimp only
  split
  · next stmts c ran =>
    have laid := Lays.declarations (level_laying tokens (body tokens).length) false (body tokens).length 0
    obtain ⟨next, _, _, within, row⟩ := laid .outer [] stmts c (Nat.zero_le _) ran
    exact ⟨next.pos, within, row⟩
  · exact ⟨0, Nat.zero_le _, Nat.le_refl 0⟩

end Parse.Walk

end TinyScript
