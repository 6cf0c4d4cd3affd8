import TinyScript.Proofs.Tree.Surroundings

namespace TinyScript

-- Where nodes may begin, and which names and values they may hold. The values of the keywords are always
-- at hand.
structure Material where
  place : Position → Prop
  name : Bytes → Prop
  value : Literal → Prop
  nil : value .nil
  boolean : ∀ b, value (.boolean b)

structure Material.Offers (m : Material) (t : Token) : Prop where
  place : m.place t.span.start
  name : t.kind = .ident → m.name t.lexeme
  value : t.kind = .number ∨ t.kind = .string → m.value t.literal

def Params.MadeOf (m : Material) (ps : Params) : Prop := ∀ xs ∈ ps, xs ≠ [] ∧ ∀ x ∈ xs, m.name x

mutual

def Expr.MadeOf (m : Material) : Expr → Prop
  | .literal span v => m.place span.start ∧ m.value v
  | .name span x => m.place span.start ∧ m.name x
  | .grouping span e | .unary span _ e => m.place span.start ∧ e.MadeOf m
  | .binary span _ l r | .logical span _ l r => m.place span.start ∧ l.MadeOf m ∧ r.MadeOf m
  | .assign span x e => m.place span.start ∧ m.name x ∧ e.MadeOf m
  | .call span f es => m.place span.start ∧ f.MadeOf m ∧ Expr.MadeAll m es
  | .lambda span ps body => m.place span.start ∧ ps.MadeOf m ∧ body.MadeOf m

def Expr.MadeAll (m : Material) : List Expr → Prop
  | [] => True
  | e :: es => e.MadeOf m ∧ Expr.MadeAll m es

def Stmt.MadeOf (m : Material) : Stmt → Prop
  | .expr span e | .print span e | .giveBack span (some e) => m.place span.start ∧ e.MadeOf m
  | .giveBack span none => m.place span.start
  | .declare span x none => m.place span.start ∧ m.name x
  | .declare span x (some e) => m.place span.start ∧ m.name x ∧ e.MadeOf m
  | .block body => body.MadeOf m
  | .branch span c yes none => m.place span.start ∧ c.MadeOf m ∧ yes.MadeOf m
  | .branch span c yes (some no) => m.place span.start ∧ c.MadeOf m ∧ yes.MadeOf m ∧ no.MadeOf m
  | .loop span c body => m.place span.start ∧ c.MadeOf m ∧ body.MadeOf m
  | .function span f ps body => m.place span.start ∧ m.name f ∧ ps.MadeOf m ∧ body.MadeOf m

def Stmt.MadeAll (m : Material) : List Stmt → Prop
  | [] => True
  | s :: ss => s.MadeOf m ∧ Stmt.MadeAll m ss

def Block.MadeOf (m : Material) : Block → Prop
  | .absent => True
  | .braces span stmts => m.place span.start ∧ Stmt.MadeAll m stmts

end

section

variable {m : Material}

theorem Expr.MadeOf.start {e : Expr} (made : e.MadeOf m) : m.place e.span.start := by
  cases e with
  | _ => exact made.1

theorem Stmt.madeAll_append :
    Stmt.MadeAll m (ss ++ ss') ↔ Stmt.MadeAll m ss ∧ Stmt.MadeAll m ss' := by
  induction ss with
  | nil => simp [Stmt.MadeAll]
  | cons s ss ih => simp [Stmt.MadeAll, ih, and_assoc]

namespace Parse

-- All that is left to be read is offered.
def amid (m : Material) : Surroundings where
  before ctx c := (∀ t ∈ c.rest, m.Offers t) ∧ m.Offers ctx.ending
  after _ := True
  later ahead around := ⟨fun t mem => around.1 t (ahead.1.subset mem), around.2⟩
  earlier _ _ := trivial
  braced around := around

theorem amid_next {ctx : Context} {c : Cursor} (around : (amid m).before ctx c) :
    m.Offers (c.rest.headD ctx.ending) := by
  rcases next_mem ctx c with mem | atEnd
  · exact around.1 _ mem
  · rw [atEnd]
    exact around.2

theorem tree_madeOf {clauses : ForClauses} {whole keyword : Span} (begins : m.place whole.start)
    (named : m.place keyword.start) (firstMade : IfAny (Stmt.MadeOf m) clauses.first)
    (conditionMade : IfAny (Expr.MadeOf m) clauses.condition) (stepMade : IfAny (Expr.MadeOf m) clauses.step)
    (made : body.MadeOf m) : (clauses.tree whole keyword body).MadeOf m := by
  obtain ⟨first, condition, step⟩ := clauses
  have stepBegins : ∀ e, step = some e → m.place e.span.start := fun e isIt => (stepMade e isIt).start
  have endless := m.boolean true
  cases first <;> cases condition <;> cases step <;>
    simp_all [ForClauses.tree, forLoop, IfAny, Stmt.MadeOf, Stmt.MadeAll, Block.MadeOf, Expr.MadeOf]

structure Nested.Making (m : Material) (nested : Nested) : Prop where
  expression : MakesIn (amid m) (Expr.MadeOf m) nested.expression
  statement : MakesIn (amid m) (Stmt.MadeOf m) nested.statement
  declaration : MakesIn (amid m) (IfAny (Stmt.MadeOf m)) nested.declaration

namespace MakesIn.Amid

theorem peek : MakesIn (amid m) m.Offers peek := by
  intro ctx c t next ran around _
  cases ran
  exact amid_next around

theorem advance : MakesIn (amid m) m.Offers advance := by
  intro ctx c t next ran around _
  cases ran
  exact amid_next around

theorem openReturn : MakesIn (amid m) m.Offers openReturn := by
  intro ctx c t next ran around _
  rw [openReturn_eq] at ran
  cases ran
  exact amid_next around

theorem expect (kind : Kind) (place : Place) :
    MakesIn (amid m) (fun t => m.Offers t ∧ t.kind = kind) (expect kind place) := by
  intro ctx c t next ran around _
  by_cases sees : nextKind ctx c.rest = kind
  · rw [expect_ok sees] at ran
    cases ran
    exact ⟨amid_next around, sees⟩
  · rw [expect_fail sees] at ran
    cases ran

theorem leaf {make : Token → α} {P : α → Prop} (holds : ∀ t, m.Offers t → P (make t)) :
    MakesIn (amid m) P (leaf make) :=
  bind advance fun t offered => pure (holds t offered)

section

variable {operand : Reader Expr} [Stepwise @Forward operand]
  (inner : MakesIn (amid m) (Expr.MadeOf m) operand)
include inner

theorem chain (tier : Tier) (bound : Nat) {left : Expr} (made : left.MadeOf m) :
    MakesIn (amid m) (Expr.MadeOf m) (chain tier operand bound left) := by
  induction bound generalizing left with
  | zero => exact pure made
  | succ bound ih =>
    refine step fun op => ite _ (step fun _ => bind inner fun right also => ih ?_) (pure made)
    unfold Tier.combine
    dsimp only
    split
    · exact ⟨made.start, made, also⟩
    · exact ⟨made.start, made, also⟩

theorem ladder (rungs : List Tier) (bound : Nat) :
    MakesIn (amid m) (Expr.MadeOf m) (ladder bound operand rungs) := by
  induction rungs with
  | nil => exact inner
  | cons tier tighter ih => exact bind ih fun left made => chain ih tier bound made

theorem unary (bound : Nat) : MakesIn (amid m) (Expr.MadeOf m) (unary operand bound) := by
  induction bound with
  | zero => exact inner
  | succ bound ih =>
    refine bind peek fun t offered => ite _ (step fun _ => bind ih fun e made => ?_) inner
    exact pure ⟨offered.place, made⟩

theorem arguments (bound count : Nat) :
    MakesIn (amid m) (Expr.MadeAll m) (arguments operand bound count) := by
  induction bound generalizing count with
  | zero =>
    rw [arguments_zero]
    exact step fun _ => bind inner fun e made => pure ⟨made, trivial⟩
  | succ bound ih =>
    rw [arguments_succ]
    refine step fun _ => bind inner fun e made => bind (behind _ (ih _)) fun es each => pure ⟨made, ?_⟩
    cases es with
    | none => trivial
    | some es => exact each es rfl

theorem calls (size bound : Nat) {callee : Expr} (made : callee.MadeOf m) :
    MakesIn (amid m) (Expr.MadeOf m) (calls operand size bound callee) := by
  induction bound generalizing callee with
  | zero => exact pure made
  | succ bound ih =>
    rw [calls_succ]
    refine step fun _ => ite _ (step fun _ => ?_) (pure made)
    refine bind (unlessNext _ (arguments inner size 0)) fun args each => step fun close => ?_
    refine ih ⟨made.start, made, ?_⟩
    cases args with
    | none => trivial
    | some args => exact each args rfl

theorem assignTail {left : Expr} (made : left.MadeOf m) :
    MakesIn (amid m) (Expr.MadeOf m) (assignTail operand left) := by
  intro ctx c e next ran around _
  by_cases signed : nextKind ctx c.rest = .equal
  · cases left with
    | name span x =>
      rw [assignTail_name span x signed] at ran
      have assigned : MakesIn (amid m) (Expr.MadeOf m) (Parse.advance >>= fun _ =>
          operand >>= fun v => Pure.pure (Expr.assign (span.upTo v.span) x v)) :=
        step fun _ => bind inner fun v value => pure ⟨made.1, made.2, value⟩
      exact assigned ctx c e next ran around trivial
    | _ =>
      rw [assignTail_other signed (by intro _ _ eq; cases eq)] at ran
      obtain ⟨_, _, _, ran⟩ := Reader.of_bind_ok ran
      obtain ⟨_, _, _, ran⟩ := Reader.of_bind_ok ran
      cases ran
      exact made
  · rw [assignTail_value left signed] at ran
    cases ran
    exact made

theorem expressionStatement : MakesIn (amid m) (Stmt.MadeOf m) (expressionStatement operand) :=
  bind inner fun _ made => step fun _ => step fun _ => pure ⟨made.start, made⟩

end

theorem parameters (bound count : Nat) :
    MakesIn (amid m) (fun xs => xs ≠ [] ∧ ∀ x ∈ xs, m.name x) (parameters bound count) := by
  induction bound generalizing count with
  | zero =>
    rw [parameters_zero]
    refine step fun _ => bind (expect _ _) fun t offered => pure ⟨List.cons_ne_nil _ _, ?_⟩
    exact List.forall_mem_singleton.2 (offered.1.name offered.2)
  | succ bound ih =>
    rw [parameters_succ]
    refine step fun _ => bind (expect _ _) fun t offered => bind (behind _ (ih _)) fun xs each =>
      pure ⟨List.cons_ne_nil _ _, List.forall_mem_cons.2 ⟨offered.1.name offered.2, ?_⟩⟩
    cases xs with
    | none => exact List.forall_mem_nil _
    | some xs => exact (each xs rfl).2

section

variable {nested : Nested} [nested.Stepwise @Forward] (inner : nested.Making m) (size : Nat)
include inner

theorem declarations (braced : Bool) (bound : Nat) :
    MakesIn (amid m) (Stmt.MadeAll m) (declarations nested.declaration braced bound) := by
  induction bound with
  | zero => exact pure trivial
  | succ bound ih =>
    refine step fun _ => ite _ (pure trivial) (bind inner.declaration fun stmt each => ?_)
    refine bind ih fun stmts made => pure (Stmt.madeAll_append.2 ⟨?_, made⟩)
    cases stmt with
    | none => trivial
    | some s => exact ⟨each s rfl, trivial⟩

theorem block : MakesIn (amid m) (Block.MadeOf m) (block size nested) :=
  bind (expect _ _) fun _ offered => bind (braced (declarations inner true size)) fun _ made =>
    step fun _ => step fun _ => pure ⟨offered.1.place, made⟩

theorem functionRest (afterName beforeBody : Place) :
    MakesIn (amid m) (fun f => f.1.MadeOf m ∧ f.2.MadeOf m) (functionRest size nested afterName beforeBody) := by
  rw [functionRest_eq]
  refine step fun _ => bind (unlessNext _ (parameters size 0)) fun _ names => step fun _ => step fun _ =>
    ite _ ?_ (failHere _)
  have body : MakesIn (amid m) (Block.MadeOf m)
      (within .body (Parse.block size nested)) :=
    fun _ c b next ran around => block inner size _ c b next ran around
  exact bind body fun _ made => pure ⟨names, made⟩

theorem primary : MakesIn (amid m) (Expr.MadeOf m) (primary size nested) := by
  intro ctx c e next ran around there
  have offered := amid_next around
  rw [primary_eq] at ran
  replace ran : primaryBy size nested (nextKind ctx c.rest) ctx c = .ok e next := ran
  cases first : nextKind ctx c.rest with
  | kwFalse | kwTrue =>
    rw [first] at ran
    cases ran
    exact ⟨offered.place, m.boolean _⟩
  | kwNil =>
    rw [first] at ran
    cases ran
    exact ⟨offered.place, m.nil⟩
  | number =>
    rw [first] at ran
    cases ran
    exact ⟨offered.place, offered.value (.inl first)⟩
  | string =>
    rw [first] at ran
    cases ran
    exact ⟨offered.place, offered.value (.inr first)⟩
  | ident =>
    rw [first] at ran
    cases ran
    exact ⟨offered.place, offered.name first⟩
  | leftParen =>
    rw [first] at ran
    exact bind advance (fun _ offered => bind inner.expression fun _ made => step fun _ => step fun _ =>
      pure ⟨offered.place, made⟩) ctx c e next ran around there
  | kwFun =>
    rw [first] at ran
    exact bind advance (fun _ offered => bind (functionRest inner size _ _) fun _ made => step fun _ =>
      pure ⟨offered.place, made⟩) ctx c e next ran around there
  | _ =>
    rw [first] at ran
    cases ran

theorem expression : MakesIn (amid m) (Expr.MadeOf m) (expression size nested) := by
  rw [expression_eq]
  have operands : MakesIn (amid m) (Expr.MadeOf m) (call size nested) :=
    bind (primary inner size) fun _ made => calls inner.expression size size made
  exact bind (ladder (unary operands size) tiers size) fun _ made => assignTail inner.expression made

omit size

theorem variableDeclaration : MakesIn (amid m) (Stmt.MadeOf m) (variableDeclaration nested) := by
  rw [variableDeclaration_eq]
  refine bind advance fun _ offered => bind (expect _ _) fun _ named => ?_
  refine bind (behind _ inner.expression) fun value each => ?_
  refine step fun _ => step fun _ => pure ?_
  have name := named.1.name named.2
  cases value with
  | none => exact ⟨offered.place, name⟩
  | some e => exact ⟨offered.place, name, each e rfl⟩

theorem branchStatement : MakesIn (amid m) (Stmt.MadeOf m) (branchStatement nested) := by
  rw [branchStatement_eq]
  refine bind advance fun _ offered => step fun _ => bind inner.expression fun c condition => step fun _ => ?_
  refine bind inner.statement fun yes made => bind (behind _ inner.statement) fun no each => ?_
  refine step fun _ => pure ?_
  cases no with
  | none => exact ⟨offered.place, condition, made⟩
  | some s => exact ⟨offered.place, condition, made, each s rfl⟩

theorem whileStatement : MakesIn (amid m) (Stmt.MadeOf m) (whileStatement nested) :=
  bind advance fun _ offered => step fun _ => bind inner.expression fun _ condition => step fun _ =>
    bind inner.statement fun _ made => step fun _ => pure ⟨offered.place, condition, made⟩

theorem forFirst : MakesIn (amid m) (IfAny (Stmt.MadeOf m)) (forFirst nested) :=
  step fun _ => ite _ (leaf fun _ _ => fun _ isIt => nomatch isIt)
    (ite _ (wrapped (variableDeclaration inner)) (wrapped (expressionStatement inner.expression)))

theorem forClauses : MakesIn (amid m) (fun clauses => IfAny (Stmt.MadeOf m) clauses.first ∧
    IfAny (Expr.MadeOf m) clauses.condition ∧ IfAny (Expr.MadeOf m) clauses.step) (forClauses nested) :=
  step fun _ => bind (forFirst inner) fun _ first => bind (unlessNext _ inner.expression) fun _ condition =>
    step fun _ => bind (unlessNext _ inner.expression) fun _ last => step fun _ =>
      pure ⟨first, condition, last⟩

theorem forStatement : MakesIn (amid m) (Stmt.MadeOf m) (forStatement nested) := by
  rw [forStatement_clauses]
  refine bind advance fun start offered => bind (forClauses inner) fun clauses ⟨first, condition, last⟩ => ?_
  exact bind inner.statement fun body made => step fun _ =>
    pure (tree_madeOf offered.place offered.place first condition last made)

theorem printStatement : MakesIn (amid m) (Stmt.MadeOf m) (printStatement nested) :=
  bind advance fun _ offered => bind inner.expression fun _ made => step fun _ => step fun _ =>
    pure ⟨offered.place, made⟩

theorem returnStatement : MakesIn (amid m) (Stmt.MadeOf m) (returnStatement nested) := by
  rw [returnStatement_eq]
  refine bind openReturn fun _ offered => bind (unlessNext _ inner.expression) fun value each => ?_
  refine step fun _ => step fun _ => pure ?_
  cases value with
  | none => exact offered.place
  | some e => exact ⟨offered.place, each e rfl⟩

theorem statement (size : Nat) : MakesIn (amid m) (Stmt.MadeOf m) (statement size nested) := by
  rw [statement_eq]
  refine step fun first => ?_
  unfold statementBy
  split
  · exact forStatement inner
  · exact branchStatement inner
  · exact printStatement inner
  · exact returnStatement inner
  · exact whileStatement inner
  · exact map (block inner size) fun _ made => made
  · exact expressionStatement (expression inner size)

-- The name is the second token, which was looked at before.
theorem functionDeclaration (size : Nat) (named : secondKind c.rest = .ident)
    (ran : functionDeclaration size nested ctx c = .ok s next) (around : (amid m).before ctx c) : s.MadeOf m := by
  obtain ⟨t, u, rest, split⟩ : ∃ t u rest, c.rest = t :: u :: rest := by
    unfold secondKind at named
    rcases split : c.rest with _ | ⟨t, _ | ⟨u, rest⟩⟩
    · rw [split] at named
      cases named
    · rw [split] at named
      cases named
    · exact ⟨t, u, rest, rfl⟩
  have begins := around.1 t (by simp [split])
  have second := around.1 u (by simp [split])
  have isName : u.kind = .ident := by rwa [split] at named
  have left : (amid m).before ctx c.advance.advance := by
    refine ⟨fun v mem => around.1 v ?_, around.2⟩
    simp only [Cursor.advance, split] at mem ⊢
    exact List.mem_cons_of_mem _ (List.mem_cons_of_mem _ mem)
  have ran : (Parse.functionRest size nested .afterFunctionName .beforeFunctionBody >>= fun parts =>
      lastStop >>= fun stop => Pure.pure (Stmt.function ⟨t.span.start, stop⟩ u.lexeme parts.1 parts.2))
      ctx c.advance.advance = .ok s next := by
    have seen : (c.rest.headD ctx.ending) = t ∧ (c.advance.rest.headD ctx.ending) = u := by
      simp [Cursor.advance, split]
    rw [← seen.1, ← seen.2]
    exact ran
  exact bind (functionRest inner size _ _) (fun _ made => step fun _ =>
    pure ⟨begins.place, second.name isName, made⟩) ctx _ s next ran left trivial

theorem declaration (size : Nat) :
    MakesIn (amid m) (Stmt.MadeOf m) (declaration size nested) := by
  intro ctx c a next ran here there
  rw [declaration_eq] at ran
  by_cases isFunction : nextKind ctx c.rest = .kwFun ∧ secondKind c.rest = .ident
  · rw [isFunction.1, declarationBy, if_pos isFunction.2] at ran
    exact functionDeclaration inner size isFunction.2 ran here
  · refine (?_ : MakesIn (amid m) (Stmt.MadeOf m) (declarationBy size nested _ _)) ctx c a next ran here there
    unfold declarationBy
    split
    · next first =>
      rw [if_neg fun second => isFunction ⟨first, second⟩]
      exact statement inner size
    · exact variableDeclaration inner
    · exact failHere _
    · exact statement inner size

end

end MakesIn.Amid

theorem level_making (n : Nat) : (level n).Making m := by
  induction n with
  | zero => exact ⟨.failHere .noExpression, .failHere .noExpression, .recovering (.failHere .noExpression)⟩
  | succ n ih => exact ⟨MakesIn.Amid.expression ih (n + 1), MakesIn.Amid.statement ih (n + 1),
      .recovering (MakesIn.Amid.declaration ih (n + 1))⟩

end Parse

theorem parse_madeOf {tokens : List Token} (each : ∀ t ∈ tokens, m.Offers t)
    (last : m.Offers (missingEnd tokens)) : Stmt.MadeAll m (parse tokens).1 := by
  have ending : m.Offers ((tokens.find? fun t => t.kind = .eof).getD (missingEnd tokens)) := by
    cases found : tokens.find? fun t => t.kind = .eof with
    | none => exact last
    | some t => exact each t (List.mem_of_find?_eq_some found)
  have body : ∀ t ∈ tokens.takeWhile fun t => t.kind ≠ .eof, m.Offers t :=
    fun t mem => each t ((List.takeWhile_prefix _).subset mem)
  unfold parse
  dsimp only
  split
  · next ran =>
    exact Parse.MakesIn.Amid.declarations (Parse.level_making _) false _ _ _ _ _ ran ⟨body, ending⟩ trivial
  · trivial

end

end TinyScript
