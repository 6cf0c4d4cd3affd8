import TinyScript.Proofs.Tree.Truncation

namespace TinyScript.Parse

open Grammar

def Cursor.Grounded (c : Cursor) : Prop := c.rest = [] → c.last ≠ none

structure Joins (missing : List Token) (r : Reader α) : Prop where
  forward : Forward r
  same : ∀ {ctx ctx' c c' a b next next'}, ctx.Alike ctx' → c.InStep missing c' → c'.Grounded →
    r ctx c = .ok a next → next.reported = [] → r ctx' c' = .ok b next' → next'.reported = [] →
    b = a ∧ next.InStep missing next' ∧ next'.Grounded

structure Firm (missing : List Token) (r : Reader α) : Prop extends Joins missing r where
  needs : ∀ {ctx c a next}, ctx.ending.kind = .eof → c.rest = [] → r ctx c = .ok a next →
    next.reported ≠ []

theorem Forward.clean {r : Reader α} (forward : Forward r) (ran : r ctx c = .ok a next)
    (clean : next.reported = []) : c.reported = [] :=
  List.prefix_nil.1 (clean ▸ (forward.ok ran).2)

variable {missing : List Token}

namespace Joins

theorem pure (a : α) : Joins missing (Pure.pure a) where
  forward := .pure a
  same _ inStep grounded whole _ short _ := by
    cases whole
    cases short
    exact ⟨rfl, inStep, grounded⟩

theorem bind {r : Reader α} {f : α → Reader β} (first : Joins missing r)
    (second : ∀ a, Joins missing (f a)) : Joins missing (r >>= f) where
  forward := first.forward.bind fun a => (second a).forward
  same alike inStep grounded whole clean short clean' := by
    obtain ⟨a, mid, whole, wholeRest⟩ := Reader.of_bind_ok whole
    obtain ⟨b, mid', short, shortRest⟩ := Reader.of_bind_ok short
    have cleanMid := (second a).forward.clean wholeRest clean
    have cleanMid' := (second b).forward.clean shortRest clean'
    obtain ⟨rfl, inStep, grounded⟩ := first.same alike inStep grounded whole cleanMid short cleanMid'
    exact (second b).same alike inStep grounded wholeRest clean shortRest clean'

theorem lastStop : Joins missing lastStop where
  forward := Stepwise.forward
  same {ctx ctx' c c' _ _ _ _} _ inStep grounded whole _ short _ := by
    cases whole
    cases short
    refine ⟨?_, inStep, grounded⟩
    rw [← inStep.last]
    cases found : c'.rest with
    | nil =>
      obtain ⟨t, last⟩ := Option.ne_none_iff_exists'.1 (grounded found)
      rw [last]
      rfl
    | cons t ts => rw [← found, inStep.next found ctx ctx']

end Joins

theorem Cursor.grounded_advance {c : Cursor} (found : c.rest = t :: ts) : c.advance.Grounded := by
  unfold Cursor.Grounded Cursor.advance
  rw [found]
  nofun

namespace Firm

theorem expect {kind : Kind} (inner : kind ≠ .eof) (place : Place) : Firm missing (expect kind place) where
  forward := Stepwise.forward
  needs {ctx c _ _} ended empty ran := by
    rw [expect_fail (by rw [nextKind, empty]; exact fun sees => inner (sees.symm.trans ended))] at ran
    cases ran
  same {ctx ctx' c c' _ _ _ _} alike inStep _ whole _ short _ := by
    have sees' : nextKind ctx' c'.rest = kind := Decidable.byContradiction fun other => by
      rw [expect_fail other] at short
      cases short
    cases found : c'.rest with
    | nil =>
      rw [nextKind, found] at sees'
      exact absurd (sees'.symm.trans alike.ended') inner
    | cons t ts =>
      have next := inStep.next found ctx ctx'
      have sees : nextKind ctx c.rest = kind := (congrArg Token.kind next).trans sees'
      rw [expect_ok sees] at whole
      rw [expect_ok sees'] at short
      cases whole
      cases short
      exact ⟨next.symm, inStep.advance found, c'.grounded_advance found⟩

-- A reader that may come to the end of the beginning, in front of one that needs a token there.
theorem bind {r : Reader α} {f : α → Reader β} (first : Cut r) (second : ∀ a, Firm missing (f a)) :
    Firm missing (r >>= f) where
  forward := first.forward.bind fun a => (second a).forward
  needs ended empty ran := by
    obtain ⟨a, mid, ran₁, ran₂⟩ := Reader.of_bind_ok ran
    have still : mid.rest = [] := List.suffix_nil.1 (empty ▸ (first.forward.ok ran₁).1)
    exact (second a).needs ended still ran₂
  same {ctx ctx' c c' _ _ _ _} alike inStep _ whole clean short clean' := by
    obtain ⟨a, mid, whole, wholeRest⟩ := Reader.of_bind_ok whole
    obtain ⟨b, mid', short, shortRest⟩ := Reader.of_bind_ok short
    have needed : mid'.rest ≠ [] := fun atEnd => (second b).needs alike.ended' atEnd shortRest clean'
    have cleanMid := (second a).forward.clean wholeRest clean
    rcases first.cut alike inStep whole cleanMid with ⟨mid'', read, inStep⟩ | atEnd
    · cases short.symm.trans read
      exact (second a).same alike inStep (fun atEnd => absurd atEnd needed) wholeRest clean shortRest clean'
    · rw [short] at atEnd
      exact absurd atEnd.empty needed

theorem andThen {r : Reader α} {f : α → Reader β} (first : Firm missing r)
    (second : ∀ a, Joins missing (f a)) : Firm missing (r >>= f) where
  toJoins := first.toJoins.bind second
  needs ended empty ran clean := by
    obtain ⟨a, mid, ran₁, ran₂⟩ := Reader.of_bind_ok ran
    exact first.needs ended empty ran₁ ((second a).forward.clean ran₂ clean)

theorem failHere (fault : Fault) : Firm missing (@failHere α fault) where
  forward := .failHere fault
  needs _ _ ran := by cases ran
  same _ _ _ ran := by cases ran

theorem map (g : α → β) {r : Reader α} (inner : Firm missing r) : Firm missing (g <$> r) :=
  inner.andThen fun a => .pure (g a)

theorem ite (p : Prop) [Decidable p] {r s : Reader α} (yes : Firm missing r) (no : Firm missing s) :
    Firm missing (if p then r else s) := by
  split
  · exact yes
  · exact no

theorem inBody {r : Reader α} (inner : Firm missing r) : Firm missing (within .body r) where
  forward := ⟨inner.forward.ok, inner.forward.fail⟩
  needs {ctx} _ _ _ ended := inner.needs (show (Bracket.body.enter ctx).ending.kind = _ from ended)
  same alike := inner.same alike.inBody

theorem recovering {r : Reader α} (inner : Firm missing r) : Firm missing (recovering r) where
  forward := inner.forward.recovering
  needs {ctx c _ _} ended empty ran clean := by
    have legal : ∀ t ∈ c.rest, t.kind ≠ .illegal := by rw [empty]; exact List.forall_mem_nil _
    obtain ⟨b, rfl, read⟩ := recovering_clean inner.forward ended legal ran clean
    exact inner.needs ended empty read clean
  same {ctx ctx' c c' _ _ _ _} alike inStep grounded whole clean short clean' := by
    have legal : ∀ t ∈ c'.rest, t.kind ≠ .illegal := fun t mem =>
      inStep.legal t (inStep.rest ▸ List.mem_append_left missing mem)
    obtain ⟨a, rfl, read⟩ := recovering_clean inner.forward alike.ended inStep.legal whole clean
    obtain ⟨b, rfl, read'⟩ := recovering_clean inner.forward alike.ended' legal short clean'
    obtain ⟨rfl, rest⟩ := inner.same alike inStep grounded read clean read' clean'
    exact ⟨rfl, rest⟩

theorem closing {kind : Kind} (inner : kind ≠ .eof) (place : Place) (make : Position → α) :
    Firm missing (Parse.expect kind place >>= fun _ => lastStop >>= fun stop => Pure.pure (make stop)) :=
  (expect inner place).andThen fun _ => Joins.lastStop.bind fun stop => .pure (make stop)

end Firm

theorem Joins.behindElse {r : Reader α} (other : ∀ t ∈ missing.head?, t.kind ≠ .kwElse)
    (inner : Firm missing r) : Joins missing (behind .kwElse r) where
  forward := by
    rw [behind_eq]
    refine .bind Stepwise.forward fun _ => ?_
    split
    · exact .bind .advance fun _ => .bind inner.forward fun _ => .pure _
    · exact .pure none
  same {ctx ctx' c c' _ _ _ _} alike inStep grounded whole clean short clean' := by
    cases found : c'.rest with
    | nil =>
      have unseen' : nextKind ctx' c'.rest ≠ .kwElse := by
        rw [nextKind, found]
        exact fun sees => absurd (sees.symm.trans alike.ended') (by decide)
      have unseen : nextKind ctx c.rest ≠ .kwElse := by
        rw [nextKind, inStep.rest, found, List.nil_append]
        cases missing with
        | nil => exact fun sees => absurd (sees.symm.trans alike.ended) (by decide)
        | cons t ts => exact other t rfl
      rw [behind_passed unseen] at whole
      rw [behind_passed unseen'] at short
      cases whole
      cases short
      exact ⟨rfl, inStep, grounded⟩
    | cons t ts =>
      have same : nextKind ctx c.rest = nextKind ctx' c'.rest :=
        congrArg Token.kind (inStep.next found ctx ctx')
      by_cases sees : nextKind ctx' c'.rest = .kwElse
      · rw [behind_taken (same.trans sees)] at whole
        rw [behind_taken sees] at short
        exact (inner.map some).same alike (inStep.advance found) (c'.grounded_advance found) whole clean
          short clean'
      · rw [behind_passed (same ▸ sees)] at whole
        rw [behind_passed sees] at short
        cases whole
        cases short
        exact ⟨rfl, inStep, grounded⟩

namespace Firm

section

variable {nested : Nested} [nested.Stepwise @Cut]

theorem expressionStatement {operand : Reader Expr} [Stepwise @Cut operand] :
    Firm missing (expressionStatement operand) :=
  .bind Stepwise.cuts fun e => closing (by decide) _ _

theorem variableDeclaration : Firm missing (variableDeclaration nested) := by
  rw [variableDeclaration_eq]
  refine .bind .advance fun start => .bind Stepwise.cuts fun name => .bind Stepwise.cuts fun value => ?_
  exact closing (by decide) _ _

theorem block (size : Nat) : Firm missing (block size nested) := by
  refine .bind Stepwise.cuts fun start => .bind Stepwise.cuts fun stmts => ?_
  exact closing (by decide) _ _

theorem functionRest (size : Nat) (afterName beforeBody : Place) :
    Firm missing (functionRest size nested afterName beforeBody) := by
  rw [functionRest_eq]
  refine .bind Stepwise.cuts fun _ => .bind Stepwise.cuts fun params => .bind Stepwise.cuts fun _ => ?_
  refine .bind .peekKind fun _ => .ite _ ?_ (.failHere _)
  exact (inBody (block size)).andThen fun body => .pure _

theorem functionDeclaration (size : Nat) : Firm missing (functionDeclaration size nested) := by
  refine .bind .advance fun start => .bind .advance fun name => ?_
  exact (functionRest size _ _).andThen fun f => Joins.lastStop.bind fun stop => .pure _

theorem printStatement : Firm missing (printStatement nested) :=
  .bind .advance fun start => .bind Stepwise.cuts fun value => closing (by decide) _ _

theorem returnStatement : Firm missing (returnStatement nested) := by
  rw [returnStatement_eq]
  exact .bind .openReturn fun start => .bind Stepwise.cuts fun value => closing (by decide) _ _

variable (statement : Firm missing nested.statement)
include statement

theorem whileStatement : Firm missing (whileStatement nested) := by
  refine .bind .advance fun start => .bind Stepwise.cuts fun _ => .bind Stepwise.cuts fun condition => ?_
  refine .bind Stepwise.cuts fun _ => statement.andThen fun body => ?_
  exact Joins.lastStop.bind fun stop => .pure _

theorem forStatement : Firm missing (forStatement nested) := by
  rw [forStatement_eq]
  refine .bind .advance fun start => .bind Stepwise.cuts fun _ => .bind Stepwise.cuts fun first => ?_
  refine .bind Stepwise.cuts fun condition => .bind Stepwise.cuts fun _ => ?_
  refine .bind Stepwise.cuts fun step => .bind Stepwise.cuts fun _ => statement.andThen fun body => ?_
  exact Joins.lastStop.bind fun stop => .pure _

variable (other : ∀ t ∈ missing.head?, t.kind ≠ .kwElse)
include other

theorem branchStatement : Firm missing (branchStatement nested) := by
  rw [branchStatement_eq]
  refine .bind .advance fun start => .bind Stepwise.cuts fun _ => .bind Stepwise.cuts fun condition => ?_
  refine .bind Stepwise.cuts fun _ => statement.andThen fun yes => ?_
  exact (Joins.behindElse other statement).bind fun no => Joins.lastStop.bind fun stop => .pure _

theorem statementBy (size : Nat) (first : Kind) : Firm missing (statementBy size nested first) := by
  cases first with
  | kwFor => exact forStatement statement
  | kwIf => exact branchStatement statement other
  | kwPrint => exact printStatement
  | kwReturn => exact returnStatement
  | kwWhile => exact whileStatement statement
  | leftBrace => exact (block size).map Stmt.block
  | _ => exact expressionStatement

theorem anyStatement (size : Nat) : Firm missing (Parse.statement size nested) := by
  rw [statement_eq]
  exact .bind .peekKind (statementBy statement other size)

theorem declarationBy (size : Nat) (first second : Kind) :
    Firm missing (declarationBy size nested first second) := by
  cases first with
  | kwFun => exact .ite _ (functionDeclaration size) (anyStatement statement other size)
  | kwVar => exact variableDeclaration
  | kwClass => exact .failHere _
  | _ => exact anyStatement statement other size

-- The beginning may end behind `fun`, but then it has no name for the function and no parameters.
theorem declaration [nested.Stepwise @Forward] (size : Nat) :
    Firm missing (declaration (size + 1) nested) where
  forward := .declaration _
  needs ended empty ran := by
    rw [declaration_end ended empty] at ran
    cases ran
  same {ctx ctx' c c' _ _ _ _} alike inStep grounded whole clean short clean' := by
    cases found : c'.rest with
    | nil =>
      rw [declaration_end alike.ended' found] at short
      cases short
    | cons t ts =>
      have first : nextKind ctx' c'.rest = nextKind ctx c.rest :=
        congrArg Token.kind (inStep.next found ctx ctx').symm
      have second (isFun : nextKind ctx c.rest = .kwFun) : secondKind c'.rest = secondKind c.rest := by
        cases ts with
        | nil =>
          rw [← first, found] at isFun
          rw [function_cut alike.ended' found isFun] at short
          cases short
        | cons u us => rw [inStep.rest, found]; rfl
      rw [declaration_eq] at whole short
      rw [first, declarationBy_second second] at short
      exact (declarationBy statement other _ _ _).same alike inStep grounded whole clean short clean'

end

end Firm

theorem level_firm (other : ∀ t ∈ missing.head?, t.kind ≠ .kwElse) (n : Nat) :
    Firm missing (level n).statement ∧ Firm missing (level n).declaration := by
  induction n with
  | zero => exact ⟨.failHere _, .recovering (.failHere _)⟩
  | succ n ih => exact ⟨.anyStatement ih.1 other _, .recovering (.declaration ih.1 other _)⟩

theorem declarations_going (item : Reader (Option Stmt)) (bound : Nat) (inner : nextKind ctx c.rest ≠ .eof) :
    declarations item false (bound + 1) ctx c =
      (item >>= fun s => declarations item false bound >>= fun ss => pure (s.toList ++ ss)) ctx c := by
  have going : ¬(nextKind ctx c.rest = .eof ∨ (false = true ∧ nextKind ctx c.rest = .rightBrace)) :=
    fun stops => stops.elim inner fun braced => nomatch braced.1
  show (if nextKind ctx c.rest = .eof ∨ (false = true ∧ nextKind ctx c.rest = .rightBrace) then _
    else _ : Reader (List Stmt)) ctx c = _
  rw [if_neg going]

theorem declarations_round (item : Reader (Option Stmt)) (bound : Nat) (inner : nextKind ctx c.rest ≠ .eof)
    (ran : declarations item false (bound + 1) ctx c = .ok ss final) :
    ∃ s next rest, item ctx c = .ok s next ∧ declarations item false bound ctx next = .ok rest final ∧
      ss = s.toList ++ rest := by
  rw [declarations_going item bound inner] at ran
  obtain ⟨s, next, read, ran⟩ := Reader.of_bind_ok ran
  obtain ⟨rest, last, more, ran⟩ := Reader.of_bind_ok ran
  cases ran
  exact ⟨s, next, rest, read, more, rfl⟩

theorem declarations_stop (item : Reader (Option Stmt)) (bound : Nat) (ended : nextKind ctx c.rest = .eof) :
    declarations item false bound ctx c = .ok [] c := by
  cases bound with
  | zero => rfl
  | succ bound =>
    show (if nextKind ctx c.rest = .eof ∨ (false = true ∧ nextKind ctx c.rest = .rightBrace) then _
      else _ : Reader (List Stmt)) ctx c = _
    rw [if_pos (.inl ended)]
    rfl

theorem declarations_join {item : Reader (Option Stmt)} [Stepwise @Forward item] [Shrinks item]
    (firm : Firm missing item) (alike : Context.Alike ctx ctx') (inStep : Cursor.InStep missing c c')
    (inner : ∀ t ∈ c'.rest, t.kind ≠ .eof) (enough : c.rest.length ≤ bound)
    (whole : declarations item false bound ctx c = .ok ss final) (clean : final.reported = [])
    (short : declarations item false bound ctx' c' = .ok ss' final') (clean' : final'.reported = []) :
    ∃ bound' last rest, missing.length ≤ bound' ∧
      declarations item false bound' ctx ⟨missing, last, []⟩ = .ok rest final ∧ ss = ss' ++ rest := by
  induction bound using Nat.strongRecOn generalizing c c' ss ss' with
  | ind bound ih =>
    cases found : c'.rest with
    | nil =>
      have stopped : nextKind ctx' c'.rest = .eof := by rw [nextKind, found]; exact alike.ended'
      rw [declarations_stop item _ stopped] at short
      cases short
      have cleanHere : c.reported = [] := Forward.clean Stepwise.forward whole clean
      have here : c.rest = missing := by rw [inStep.rest, found, List.nil_append]
      obtain ⟨rest, last, reported⟩ := c
      cases cleanHere
      cases here
      exact ⟨bound, last, ss, enough, whole, rfl⟩
    | cons t ts =>
      have next := inStep.next found ctx ctx'
      have going' : nextKind ctx' c'.rest ≠ .eof := by
        rw [nextKind, found]
        exact inner t (found ▸ List.mem_cons_self)
      have going : nextKind ctx c.rest ≠ .eof := by rw [nextKind, next]; exact going'
      have some : c.rest ≠ [] := by rw [inStep.rest, found]; exact List.cons_ne_nil t _
      obtain ⟨bound, rfl⟩ : ∃ k, bound = k + 1 :=
        Nat.exists_eq_add_one.2 (Nat.lt_of_lt_of_le (List.length_pos_iff.2 some) enough)
      obtain ⟨s, mid, rest, read, more, rfl⟩ := declarations_round item bound going whole
      obtain ⟨s', mid', rest', read', more', rfl⟩ := declarations_round item bound going' short
      have cleanMid : mid.reported = [] := Forward.clean Stepwise.forward more clean
      have cleanMid' : mid'.reported = [] := Forward.clean Stepwise.forward more' clean'
      have grounded : c'.Grounded := fun empty =>
        absurd (found.symm.trans empty) (List.cons_ne_nil t ts)
      obtain ⟨rfl, inStep', _⟩ := firm.same alike inStep grounded read cleanMid read' cleanMid'
      have fewer : mid.rest.length ≤ bound :=
        Nat.le_of_lt_succ (Nat.lt_of_lt_of_le (Shrinks.shorter read some) enough)
      have later : mid'.rest <:+ c'.rest := (firm.forward.ok read').1
      obtain ⟨bound', last, tail, few, ran, rfl⟩ := ih bound (Nat.lt_succ_self bound) inStep'
        (fun t mem => inner t (later.subset mem)) fewer more more'
      exact ⟨bound', last, tail, few, ran, (List.append_assoc ..).symm⟩

-- What is read from a token on does not depend on the token before it.
class Fresh (r : Reader α) : Prop where
  same : r ctx ⟨t :: ts, last, reported⟩ = .ok a next → r ctx ⟨t :: ts, last', reported⟩ = .ok a next

namespace Fresh

instance advance : Fresh advance := ⟨fun ran => ran⟩

instance failHere (fault : Fault) : Fresh (@failHere α fault) := ⟨fun ran => nomatch ran⟩

section

variable {r s : Reader α} {f : α → Reader β}

instance first [fresh : Fresh r] : Fresh (r >>= f) where
  same ran := by
    obtain ⟨a, mid, ran₁, ran₂⟩ := Reader.of_bind_ok ran
    exact (Reader.bind_ok (fresh.same ran₁)).trans ran₂

instance map (g : α → β) [Fresh r] : Fresh (g <$> r) :=
  inferInstanceAs (Fresh (r >>= fun a => Pure.pure (g a)))

instance ite (p : Prop) [Decidable p] [Fresh r] [Fresh s] : Fresh (if p then r else s) := by
  split <;> infer_instance

end

instance peek {f : Token → Reader β} [fresh : ∀ t, Fresh (f t)] : Fresh (peek >>= f) :=
  ⟨fun ran => (fresh _).same ran⟩

instance peekKind {f : Kind → Reader β} [fresh : ∀ k, Fresh (f k)] : Fresh (peekKind >>= f) :=
  ⟨fun ran => (fresh _).same ran⟩

instance expect (kind : Kind) (place : Place) : Fresh (expect kind place) := by
  rw [expect_eq]; infer_instance

instance leaf (make : Token → α) : Fresh (leaf make) := by
  unfold Parse.leaf; infer_instance

instance openReturn : Fresh openReturn := by
  unfold Parse.openReturn; infer_instance

section

variable {operand : Reader Expr} [Fresh operand]

instance unary (bound : Nat) : Fresh (unary operand bound) := by
  cases bound with
  | zero => assumption
  | succ bound => unfold Parse.unary; infer_instance

instance ladder (bound : Nat) (rungs : List Tier) : Fresh (ladder bound operand rungs) := by
  induction rungs with
  | nil => assumption
  | cons tier tighter ih => unfold Parse.ladder; infer_instance

instance expressionStatement : Fresh (expressionStatement operand) := by
  unfold Parse.expressionStatement; infer_instance

end

section

variable (size : Nat) (nested : Nested)

instance primaryBy (first : Kind) : Fresh (primaryBy size nested first) := by
  unfold Parse.primaryBy
  split <;> infer_instance

instance call : Fresh (call size nested) := by
  unfold Parse.call
  rw [primary_eq]
  infer_instance

instance expression : Fresh (expression size nested) := by
  rw [expression_eq]; infer_instance

instance variableDeclaration : Fresh (variableDeclaration nested) := by
  rw [variableDeclaration_eq]; infer_instance

instance statementBy (first : Kind) : Fresh (statementBy size nested first) := by
  unfold Parse.statementBy
  split
  · rw [forStatement_eq]; infer_instance
  · rw [branchStatement_eq]; infer_instance
  · unfold printStatement; infer_instance
  · rw [returnStatement_eq]; infer_instance
  · unfold whileStatement; infer_instance
  · unfold block; infer_instance
  · infer_instance

instance statement : Fresh (statement size nested) := by
  rw [statement_eq]; infer_instance

instance declarationBy (first second : Kind) : Fresh (declarationBy size nested first second) := by
  have : Fresh (functionDeclaration size nested) := by unfold functionDeclaration; infer_instance
  unfold Parse.declarationBy
  split <;> infer_instance

instance declaration : Fresh (declaration size nested) where
  same ran := by
    rw [declaration_eq] at ran ⊢
    exact (declarationBy size nested _ _).same ran

end

end Fresh

theorem level_fresh (n : Nat) :
    ∃ r, (level n).declaration = recovering r ∧ Forward r ∧ Fresh r := by
  cases n with
  | zero => exact ⟨failHere .noExpression, rfl, .failHere _, inferInstance⟩
  | succ n => exact ⟨declaration (n + 1) (level n), rfl, .declaration _, inferInstance⟩

theorem declarations_fresh (n bound : Nat) (ended : ctx.ending.kind = .eof)
    (inner : ∀ t ∈ tokens, t.kind ≠ .eof) (legal : ∀ t ∈ tokens, t.kind ≠ .illegal)
    (ran : declarations (level n).declaration false bound ctx ⟨tokens, last, []⟩ = .ok ss final)
    (clean : final.reported = []) (last' : Option Token) :
    ∃ final', declarations (level n).declaration false bound ctx ⟨tokens, last', []⟩ = .ok ss final' := by
  cases tokens with
  | nil =>
    have stopped : nextKind ctx [] = .eof := ended
    rw [declarations_stop _ _ stopped] at ran
    cases ran
    exact ⟨_, declarations_stop _ _ stopped⟩
  | cons t ts =>
    cases bound with
    | zero =>
      cases ran
      exact ⟨_, rfl⟩
    | succ bound =>
      have going : nextKind ctx (t :: ts) ≠ .eof := inner t List.mem_cons_self
      rw [declarations_going _ _ going] at ran
      obtain ⟨s, mid, read, more⟩ := Reader.of_bind_ok ran
      have cleanMid : mid.reported = [] := Forward.clean Stepwise.forward more clean
      obtain ⟨r, isLevel, forward, fresh⟩ := level_fresh n
      rw [isLevel] at read
      obtain ⟨stmt, rfl, first⟩ := recovering_clean forward ended legal read cleanMid
      have again : (level n).declaration ctx ⟨t :: ts, last', []⟩ = .ok (some stmt) mid := by
        rw [isLevel]
        exact recovering_ok (fresh.same first)
      refine ⟨final, ?_⟩
      rw [declarations_going _ _ going, Reader.bind_ok again]
      exact more

def GoesOn : {α : Type} → Symbol α → List Token → α → Prop
  | _, .declarations inside, w, p => ∀ v q, Derives (.declarations inside) v q →
    Derives (.declarations inside) (w ++ v) (p ++ q)
  | _, _, _, _ => True

theorem derives_goesOn {sym : Symbol α} (derived : Derives sym w a) : GoesOn sym w a := by
  induction derived with
  | noDeclarations => exact fun _ _ more => more
  | declarations first _ _ ih =>
    intro v q more
    rw [List.append_assoc]
    exact .declarations first (ih v q more)
  | _ => trivial

theorem head_ne_else (derived : Derives (.declarations inside) w p) : ∀ t ∈ w.head?, t.kind ≠ .kwElse := by
  rcases derived.begins with rfl | ⟨t, ts, rfl, starts⟩
  · intro t mem
    cases mem
  · intro u mem isElse
    cases mem
    rw [isElse] at starts
    cases starts

theorem declarations_agree (fewer : n ≤ m) (enough : n ≤ bound) :
    Agree n (declarations (level n).declaration false n) (declarations (level m).declaration false bound) :=
  .declarations (level_agree fewer).declaration false (Nat.le_refl n) enough

theorem parse_append (ended : ending.kind = .eof) (ended' : ending'.kind = .eof)
    (inner : ∀ t ∈ start ++ missing, t.kind ≠ .eof) (legal : ∀ t ∈ start ++ missing, t.kind ≠ .illegal)
    (clean : (parse (start ++ [ending])).2 = []) (clean' : (parse (missing ++ [ending'])).2 = []) :
    parse (start ++ missing ++ [ending']) =
      ((parse (start ++ [ending])).1 ++ (parse (missing ++ [ending'])).1, []) := by
  have innerStart : ∀ t ∈ start, t.kind ≠ .eof := fun t mem => inner t (List.mem_append_left _ mem)
  have innerRest : ∀ t ∈ missing, t.kind ≠ .eof := fun t mem => inner t (List.mem_append_right _ mem)
  have legalStart : ∀ t ∈ start, t.kind ≠ .illegal := fun t mem => legal t (List.mem_append_left _ mem)
  have legalRest : ∀ t ∈ missing, t.kind ≠ .illegal := fun t mem => legal t (List.mem_append_right _ mem)
  have derived := derives_of_parse ended innerStart legalStart clean
  have derived' := derives_of_parse ended' innerRest legalRest clean'
  -- the whole list is read without a report, since the grammar derives it
  have cleanWhole := (parse_of_derives ended' inner (derives_goesOn derived _ _ derived')).1
  obtain ⟨ss, c, ran, eq⟩ := parse_body ended innerStart
  obtain ⟨ss', c', ran', eq'⟩ := parse_body ended' innerRest
  obtain ⟨all, final, whole, eqWhole⟩ := parse_body ended' inner
  rw [eq] at clean ⊢
  rw [eq'] at clean' ⊢
  rw [eqWhole] at cleanWhole ⊢
  -- all three runs are runs of the readers for the whole list
  have fewer : start.length ≤ (start ++ missing).length := by simp
  have fewer' : missing.length ≤ (start ++ missing).length := by simp
  rw [(declarations_agree fewer fewer).same ended (Nat.le_refl _)] at ran
  have alike : Context.Alike ⟨ending', 0, 0⟩ ⟨ending, 0, 0⟩ := ⟨ended', ended, rfl, rfl⟩
  have inStep : Cursor.InStep missing ⟨start ++ missing, none, []⟩ ⟨start, none, []⟩ := ⟨rfl, rfl, rfl, legal⟩
  have firm := (level_firm (head_ne_else derived') (start ++ missing).length).2
  obtain ⟨bound, last, rest, enough, later, rfl⟩ :=
    declarations_join firm alike inStep innerStart (Nat.le_refl _) whole cleanWhole ran clean
  rw [(declarations_agree fewer' enough).same ended' (Nat.le_refl _)] at ran'
  obtain ⟨_, alone⟩ := declarations_fresh _ _ ended' innerRest legalRest later cleanWhole none
  cases ran'.symm.trans alone
  exact Prod.ext rfl cleanWhole

end TinyScript.Parse
