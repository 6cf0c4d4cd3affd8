import TinyScript.Proofs.Tree.Reader

namespace TinyScript.Parse

-- The readers made of steps and of given readers. A reader cannot fail or report at a token of its
-- choice: only at the next one, and at the keyword and the sign that two of the steps have just read.
class inductive Stepwise (given : {α : Type} → Reader α → Prop) : {α : Type} → Reader α → Prop where
  | given {r : Reader α} : given r → Stepwise given r
  | pure (a : α) : Stepwise given (Pure.pure a)
  | bind {r : Reader α} {f : α → Reader β} :
    Stepwise given r → (∀ a, Stepwise given (f a)) → Stepwise given (r >>= f)
  | peek : Stepwise given peek
  | peekKind : Stepwise given peekKind
  | advance : Stepwise given advance
  | lastStop : Stepwise given lastStop
  | failHere (fault : Fault) : Stepwise given (@failHere α fault)
  | reportHere (fault : Fault) : Stepwise given (reportHere fault)
  | openReturn : Stepwise given openReturn
  | assignTail {value : Reader Expr} (left : Expr) :
    Stepwise given value → Stepwise given (assignTail value left)
  | inBraces {r : Reader α} :
    Stepwise given r → Stepwise given (within .braces r)
  | inBody {r : Reader α} :
    Stepwise given r → Stepwise given (within .body r)
  | recovering {r : Reader α} : Stepwise given r → Stepwise given (recovering r)

class Nested.Stepwise (given : {α : Type} → Reader α → Prop) (nested : Nested) : Prop where
  expression : Parse.Stepwise given nested.expression
  statement : Parse.Stepwise given nested.statement
  declaration : Parse.Stepwise given nested.declaration

namespace Stepwise

attribute [instance] Stepwise.pure Stepwise.peek Stepwise.peekKind Stepwise.advance Stepwise.lastStop
  Stepwise.failHere Stepwise.reportHere Stepwise.openReturn Nested.Stepwise.expression
  Nested.Stepwise.statement Nested.Stepwise.declaration

section

variable {given : {α : Type} → Reader α → Prop} {r s : Reader α} [read : Stepwise @given r]

instance sequence {f : α → Reader β} [rest : ∀ a, Stepwise @given (f a)] : Stepwise @given (r >>= f) :=
  .bind read rest

instance braced : Stepwise @given (within .braces r) := .inBraces read

instance body : Stepwise @given (within .body r) := .inBody read

instance assigned {value : Reader Expr} (left : Expr) [inner : Stepwise @given value] :
    Stepwise @given (Parse.assignTail value left) := .assignTail left inner

variable [Stepwise @given s]

instance ite (p : Prop) [Decidable p] : Stepwise @given (if p then r else s) := by
  split <;> infer_instance

instance map (f : α → β) : Stepwise @given (f <$> r) :=
  inferInstanceAs (Stepwise @given (r >>= fun a => Pure.pure (f a)))

instance accept (kind : Kind) : Stepwise @given (accept kind) := by
  unfold Parse.accept; infer_instance

instance expect (kind : Kind) (place : Place) : Stepwise @given (expect kind place) := by
  rw [expect_eq]; infer_instance

instance unlessNext (kind : Kind) : Stepwise @given (unlessNext kind r) := by
  unfold Parse.unlessNext; infer_instance

instance behind (kind : Kind) : Stepwise @given (behind kind r) := by
  unfold Parse.behind; infer_instance

instance leaf (make : Token → α) : Stepwise @given (leaf make) := by
  unfold Parse.leaf; infer_instance

instance countAgainst (count : Nat) (fault : Fault) : Stepwise @given (countAgainst count fault) := by
  unfold Parse.countAgainst; infer_instance

end

section

variable {given : {α : Type} → Reader α → Prop} {operand : Reader Expr} [Stepwise @given operand]

instance chain (tier : Tier) (bound : Nat) (left : Expr) :
    Stepwise @given (chain tier operand bound left) := by
  induction bound generalizing left with
  | zero => exact .pure left
  | succ bound ih => unfold Parse.chain; infer_instance

instance ladder (bound : Nat) (tiers : List Tier) : Stepwise @given (ladder bound operand tiers) := by
  induction tiers with
  | nil => assumption
  | cons tier tighter ih => unfold Parse.ladder; infer_instance

instance unary (bound : Nat) : Stepwise @given (unary operand bound) := by
  induction bound with
  | zero => assumption
  | succ bound ih => unfold Parse.unary; infer_instance

instance arguments (bound count : Nat) : Stepwise @given (arguments operand bound count) := by
  induction bound generalizing count with
  | zero => rw [arguments_zero]; infer_instance
  | succ bound ih => rw [arguments_succ]; infer_instance

instance calls (size bound : Nat) (callee : Expr) : Stepwise @given (calls operand size bound callee) := by
  induction bound generalizing callee with
  | zero => exact .pure callee
  | succ bound ih => rw [calls_succ]; infer_instance

instance expressionStatement : Stepwise @given (expressionStatement operand) := by
  unfold Parse.expressionStatement; infer_instance

omit [Stepwise @given operand] in
instance parameters (bound count : Nat) : Stepwise @given (parameters bound count) := by
  induction bound generalizing count with
  | zero => rw [parameters_zero]; infer_instance
  | succ bound ih => rw [parameters_succ]; infer_instance

omit [Stepwise @given operand] in
instance declarations {declaration : Reader (Option Stmt)} [Stepwise @given declaration] (braced : Bool)
    (bound : Nat) : Stepwise @given (declarations declaration braced bound) := by
  induction bound with
  | zero => exact .pure []
  | succ bound ih => unfold Parse.declarations; infer_instance

end

section

variable {given : {α : Type} → Reader α → Prop} (size : Nat) {nested : Nested} [nested.Stepwise @given]

instance block : Stepwise @given (block size nested) := by
  unfold Parse.block; infer_instance

instance functionRest (afterName beforeBody : Place) :
    Stepwise @given (functionRest size nested afterName beforeBody) := by
  rw [functionRest_eq]; infer_instance

instance primaryBy (first : Kind) : Stepwise @given (primaryBy size nested first) := by
  unfold Parse.primaryBy
  split <;> infer_instance

instance primary : Stepwise @given (primary size nested) := by
  rw [primary_eq]; infer_instance

instance call : Stepwise @given (call size nested) := by
  unfold Parse.call; infer_instance

instance expression : Stepwise @given (expression size nested) := by
  rw [expression_eq]; infer_instance

instance variableDeclaration : Stepwise @given (variableDeclaration nested) := by
  rw [variableDeclaration_eq]; infer_instance

instance functionDeclaration : Stepwise @given (functionDeclaration size nested) := by
  unfold Parse.functionDeclaration; infer_instance

instance branchStatement : Stepwise @given (branchStatement nested) := by
  rw [branchStatement_eq]; infer_instance

instance whileStatement : Stepwise @given (whileStatement nested) := by
  unfold Parse.whileStatement; infer_instance

instance forFirst : Stepwise @given (forFirst nested) := by
  unfold Parse.forFirst; infer_instance

instance forClauses : Stepwise @given (forClauses nested) := by
  unfold Parse.forClauses
  exact .bind inferInstance fun _ => inferInstance

instance forStatement : Stepwise @given (forStatement nested) := by
  rw [forStatement_clauses]; infer_instance

instance printStatement : Stepwise @given (printStatement nested) := by
  unfold Parse.printStatement; infer_instance

instance returnStatement : Stepwise @given (returnStatement nested) := by
  rw [returnStatement_eq]; infer_instance

instance statementBy (first : Kind) : Stepwise @given (statementBy size nested first) := by
  unfold Parse.statementBy
  split <;> infer_instance

instance statement : Stepwise @given (statement size nested) := by
  rw [statement_eq]; infer_instance

instance declarationBy (first second : Kind) :
    Stepwise @given (declarationBy size nested first second) := by
  unfold Parse.declarationBy
  split <;> infer_instance

end

-- Every level is made of steps and of the declarations of the levels below it. These alone look two
-- tokens ahead.
theorem level {given : {α : Type} → Reader α → Prop}
    (step : ∀ n, (level n).Stepwise @given → given (declaration (n + 1) (level n))) (n : Nat) :
    (Parse.level n).Stepwise @given := by
  induction n with
  | zero =>
    have missing (α : Type) : Stepwise @given (@Parse.failHere α .noExpression) := .failHere _
    exact ⟨missing Expr, missing Stmt, .recovering (missing Stmt)⟩
  | succ n ih => exact ⟨.expression _, .statement _, .recovering (.given (step n ih))⟩

end Stepwise

-- The other cursor has some tokens still to be read, and may lack some reports.
def Cursor.Ahead (next c : Cursor) : Prop := next.rest <:+ c.rest ∧ c.reported <+: next.reported

namespace Cursor.Ahead

theorem refl (c : Cursor) : c.Ahead c := ⟨List.suffix_refl _, List.prefix_refl _⟩

theorem trans {c next last : Cursor} (second : last.Ahead next) (first : next.Ahead c) : last.Ahead c :=
  ⟨second.1.trans first.1, first.2.trans second.2⟩

theorem ite {c yes no : Cursor} (p : Prop) [Decidable p] (ifYes : yes.Ahead c) (ifNo : no.Ahead c) :
    (if p then yes else no).Ahead c := by
  split
  · exact ifYes
  · exact ifNo

theorem advance (c : Cursor) : c.advance.Ahead c := by
  unfold Cursor.advance
  split
  · exact refl c
  · next t ts found => exact ⟨found ▸ List.suffix_cons t ts, List.prefix_refl _⟩

theorem report (c : Cursor) (d : Diagnostic) : (c.report d).Ahead c :=
  ⟨List.suffix_refl _, List.prefix_append _ _⟩

theorem resume (inBlock : Bool) (c : Cursor) : (resume inBlock c.reported c.last c.rest).Ahead c := by
  obtain ⟨rest, last, reported⟩ := c
  induction rest generalizing last with
  | nil => exact refl _
  | cons t ts ih =>
    unfold Parse.resume
    split
    · exact refl _
    · exact (ih (some t)).trans ⟨List.suffix_cons t ts, List.prefix_refl _⟩

end Cursor.Ahead

theorem noted_ahead (failed : Cursor) (t : Token) (fault : Fault) : (noted failed t fault).Ahead failed :=
  .ite _ (.refl failed) (.report failed _)

theorem moved_ahead (c noted : Cursor) : (moved c noted).Ahead noted := .ite _ (.advance noted) (.refl noted)

theorem Cursor.advance_reported (c : Cursor) : c.advance.reported = c.reported := by
  unfold advance
  split <;> rfl

theorem moved_reported (c noted : Cursor) : (moved c noted).reported = noted.reported := by
  unfold moved
  split
  · exact noted.advance_reported
  · rfl

theorem resume_reported (inBlock : Bool) (reported : List Diagnostic) (last : Option Token)
    (rest : List Token) : (resume inBlock reported last rest).reported = reported := by
  induction rest generalizing last with
  | nil => rfl
  | cons t ts ih =>
    unfold resume
    split
    · rfl
    · exact ih (some t)

theorem recovering_fail {r : Reader α} (read : r ctx c = .fail t fault failed) :
    ∃ next, recovering r ctx c = .ok none next ∧ next.rest <:+ failed.rest ∧
      next.reported = (noted failed t fault).reported ∧
      (failed.rest.length ≤ c.rest.length → c.rest ≠ [] → next.rest.length < c.rest.length) := by
  have rest : (noted failed t fault).rest = failed.rest := by
    unfold noted
    split <;> rfl
  have later := Cursor.Ahead.resume ctx.inBlock (moved c (noted failed t fault))
  refine ⟨_, recovering_resume read, ?_, ?_, fun fewer some => Nat.lt_of_le_of_lt later.1.length_le ?_⟩
  · exact rest ▸ later.1.trans (moved_ahead c _).1
  · rw [resume_reported, moved_reported]
  · unfold moved
    rw [rest]
    split
    · next still =>
      rw [Cursor.advance, rest]
      cases found : failed.rest with
      | nil => rw [found] at still; exact absurd (List.length_eq_zero_iff.1 still.symm) some
      | cons t ts => rw [found] at fewer; exact fewer
    · next moved =>
      rw [rest]
      exact Nat.lt_of_le_of_ne fewer moved

-- Reading goes forward, forgets no report, and fails at a token that was there to be read.
structure Forward (r : Reader α) : Prop where
  ok : r ctx c = .ok a next → next.Ahead c
  fail : r ctx c = .fail t fault next → next.Ahead c ∧ (t ∈ c.rest ∨ t = ctx.ending)

theorem next_mem (ctx : Context) (c : Cursor) :
    c.rest.headD ctx.ending ∈ c.rest ∨ c.rest.headD ctx.ending = ctx.ending := by
  cases c.rest with
  | nil => exact .inr rfl
  | cons t ts => exact .inl List.mem_cons_self

namespace Forward

theorem of_ok {r : Reader α} (value : Context → Cursor → α) (move : Context → Cursor → Cursor)
    (eq : ∀ ctx c, r ctx c = .ok (value ctx c) (move ctx c))
    (ahead : ∀ ctx c, (move ctx c).Ahead c) : Forward r where
  ok {ctx c _ _} ran := by
    rw [eq] at ran
    cases ran
    exact ahead ctx c
  fail ran := by rw [eq] at ran; cases ran

theorem bind {r : Reader α} {f : α → Reader β} (first : Forward r) (second : ∀ a, Forward (f a)) :
    Forward (r >>= f) where
  ok ran := by
    obtain ⟨a, mid, ran₁, ran₂⟩ := Reader.of_bind_ok ran
    exact ((second a).ok ran₂).trans (first.ok ran₁)
  fail ran := by
    obtain ran₁ | ⟨a, mid, ran₁, ran₂⟩ := Reader.of_bind_fail ran
    · exact first.fail ran₁
    · obtain ⟨ahead, found⟩ := (second a).fail ran₂
      have moved := first.ok ran₁
      exact ⟨ahead.trans moved, found.imp_left fun mem => moved.1.subset mem⟩

theorem pure (a : α) : Forward (Pure.pure a) :=
  .of_ok (fun _ _ => a) (fun _ c => c) (fun _ _ => rfl) fun _ c => .refl c

theorem advance : Forward advance :=
  .of_ok _ (fun _ c => c.advance) (fun _ _ => rfl) fun _ c => .advance c

theorem report (t : Token) (fault : Fault) : Forward (report t fault) :=
  .of_ok _ _ (fun _ _ => rfl) fun _ c => .report c _

theorem checkReturn (start : Token) : Forward (checkReturn start) := by
  refine .bind (.of_ok _ (fun _ c => c) (fun _ _ => rfl) fun _ c => .refl c) fun inside => ?_
  cases inside with
  | false => exact .bind (.report start _) fun _ => .pure start
  | true => exact .pure start

theorem assignTail {value : Reader Expr} (left : Expr) (inner : Forward value) :
    Forward (assignTail value left) := by
  refine .bind (.of_ok _ (fun _ c => c) (fun _ _ => rfl) fun _ c => .refl c) fun t => ?_
  split
  · refine .bind .advance fun _ => .bind inner fun value => ?_
    split
    · exact .pure _
    · exact .bind (.report t _) fun _ => .pure left
  · exact .pure left

theorem failHere (fault : Fault) : Forward (@failHere α fault) where
  ok ran := by cases ran
  fail {ctx c _ _ _} ran := by
    cases ran
    exact ⟨.refl c, next_mem ctx c⟩

theorem recovering {r : Reader α} (inner : Forward r) : Forward (recovering r) where
  ok {ctx c _ _} ran := by
    cases read : r ctx c with
    | ok a next =>
      rw [recovering_ok read] at ran
      cases ran
      exact inner.ok read
    | fail t fault failed =>
      obtain ⟨next, eq, later, reports, _⟩ := recovering_fail read
      rw [eq] at ran
      cases ran
      have before := (inner.fail read).1
      exact ⟨later.trans before.1, reports ▸ before.2.trans (noted_ahead failed t fault).2⟩
  fail {ctx c _ _ _} ran := by
    cases read : r ctx c with
    | ok a next => rw [recovering_ok read] at ran; cases ran
    | fail t fault failed =>
      obtain ⟨next, eq, _⟩ := recovering_fail read
      rw [eq] at ran
      cases ran

end Forward

instance report_forward (t : Token) (fault : Fault) : Stepwise @Forward (report t fault) :=
  .given (.report t fault)

instance checkReturn_forward (start : Token) : Stepwise @Forward (checkReturn start) :=
  .given (.checkReturn start)

theorem Stepwise.forward {r : Reader α} [made : Stepwise @Forward r] : Forward r := by
  induction made with
  | given known => exact known
  | pure a => exact .pure a
  | bind _ _ first second => exact first.bind second
  | peek => exact .of_ok _ (fun _ c => c) (fun _ _ => rfl) fun _ c => .refl c
  | peekKind => exact .of_ok _ (fun _ c => c) (fun _ _ => rfl) fun _ c => .refl c
  | advance => exact .advance
  | lastStop => exact .of_ok _ (fun _ c => c) (fun _ _ => rfl) fun _ c => .refl c
  | failHere fault => exact .failHere fault
  | reportHere fault => exact .of_ok _ _ (fun _ _ => rfl) fun _ c => .report c _
  | openReturn => exact .bind .advance .checkReturn
  | assignTail left _ value => exact value.assignTail left
  | inBraces _ inner => exact ⟨inner.ok, inner.fail⟩
  | inBody _ inner => exact ⟨inner.ok, inner.fail⟩
  | recovering _ inner => exact inner.recovering

-- A recovered step that reports nothing has not failed: the scan finds a fault in an illegal token,
-- the step in any other.
theorem recovering_clean {r : Reader α} (forward : Forward r) (ended : ctx.ending.kind = .eof)
    (legal : ∀ t ∈ c.rest, t.kind ≠ .illegal) (ran : recovering r ctx c = .ok a next)
    (clean : next.reported = []) : ∃ b, a = some b ∧ r ctx c = .ok b next := by
  cases read : r ctx c with
  | ok b last =>
    rw [recovering_ok read] at ran
    cases ran
    exact ⟨b, rfl, rfl⟩
  | fail t fault failed =>
    have lawful : t.kind ≠ .illegal := by
      rcases (forward.fail read).2 with mem | rfl
      · exact legal t mem
      · rw [ended]; decide
    obtain ⟨last, eq, _, reports, _⟩ := recovering_fail read
    rw [eq] at ran
    cases ran
    exact absurd (reports.symm.trans clean) (by simp [noted, lawful, Cursor.report])

theorem Forward.declaration {nested : Nested} (size : Nat) [nested.Stepwise @Forward] :
    Forward (declaration size nested) where
  ok ran := by
    rw [declaration_eq] at ran
    exact Stepwise.forward.ok ran
  fail ran := by
    rw [declaration_eq] at ran
    exact Stepwise.forward.fail ran

instance level_forward (n : Nat) : (level n).Stepwise @Forward :=
  Stepwise.level (fun n _ => .declaration (n + 1)) n

end TinyScript.Parse
