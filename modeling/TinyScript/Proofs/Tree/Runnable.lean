import TinyScript.Proofs.Tree.Reader

namespace TinyScript

def unaryOperators : List Kind := [.bang, .minus]

def binaryOperators : List Kind :=
  [.bangEqual, .equalEqual, .greater, .greaterEqual, .less, .lessEqual, .minus, .plus, .slash, .star]

def logicalOperators : List Kind := [.kwOr, .kwAnd]

mutual

def Expr.Runnable : Expr → Prop
  | .literal _ _ | .name _ _ => True
  | .grouping _ e | .assign _ _ e => e.Runnable
  | .unary _ op e => op ∈ unaryOperators ∧ e.Runnable
  | .binary _ op l r => op ∈ binaryOperators ∧ l.Runnable ∧ r.Runnable
  | .logical _ op l r => op ∈ logicalOperators ∧ l.Runnable ∧ r.Runnable
  | .call _ f es => f.Runnable ∧ Expr.RunnableAll es
  | .lambda _ _ body => body.Runnable

def Expr.RunnableAll : List Expr → Prop
  | [] => True
  | e :: es => e.Runnable ∧ Expr.RunnableAll es

def Stmt.Runnable : Stmt → Prop
  | .expr _ e | .print _ e | .declare _ _ (some e) | .giveBack _ (some e) => e.Runnable
  | .declare _ _ none | .giveBack _ none => True
  | .block body => body.Runnable
  | .branch _ c yes none => c.Runnable ∧ yes.Runnable
  | .branch _ c yes (some no) => c.Runnable ∧ yes.Runnable ∧ no.Runnable
  | .loop _ c body => c.Runnable ∧ body.Runnable
  | .function _ _ _ body => body.Runnable

def Stmt.RunnableAll : List Stmt → Prop
  | [] => True
  | s :: ss => s.Runnable ∧ Stmt.RunnableAll ss

def Block.Runnable : Block → Prop
  | .absent => False
  | .braces _ stmts => Stmt.RunnableAll stmts

end

theorem Stmt.runnableAll_append :
    Stmt.RunnableAll (ss ++ ss') ↔ Stmt.RunnableAll ss ∧ Stmt.RunnableAll ss' := by
  induction ss with
  | nil => simp [Stmt.RunnableAll]
  | cons s ss ih => simp [Stmt.RunnableAll, ih, and_assoc]

def IfAny (P : α → Prop) (o : Option α) : Prop := ∀ a ∈ o, P a

namespace Parse

def Makes (P : α → Prop) (r : Reader α) : Prop := ∀ ctx c a next, r ctx c = .ok a next → P a

namespace Makes

variable {P : α → Prop} {Q : β → Prop} {r : Reader α}

theorem anything (r : Reader α) : Makes (fun _ => True) r := fun _ _ _ _ _ => trivial

theorem pure (holds : P a) : Makes P (Pure.pure a) := by
  intro ctx c b next ran
  cases ran
  exact holds

theorem bind {f : α → Reader β} (first : Makes P r) (second : ∀ a, P a → Makes Q (f a)) :
    Makes Q (r >>= f) := by
  intro ctx c b last ran
  obtain ⟨a, next, ran₁, ran₂⟩ := Reader.of_bind_ok ran
  exact second a (first ctx c a next ran₁) ctx next b last ran₂

theorem step {f : α → Reader β} (second : ∀ a, Makes Q (f a)) : Makes Q (r >>= f) :=
  bind (anything r) fun a _ => second a

theorem ite (p : Prop) [Decidable p] {s : Reader α} (yes : p → Makes P r) (no : Makes P s) :
    Makes P (if p then r else s) := by
  split
  · rename_i holds
    exact yes holds
  · exact no

theorem map {f : α → β} (inner : Makes P r) (holds : ∀ a, P a → Q (f a)) : Makes Q (f <$> r) :=
  bind inner fun a made => pure (holds a made)

theorem failHere (fault : Fault) : Makes P (failHere fault) := by
  intro ctx c a next ran
  cases ran

theorem within (bracket : Bracket) (inner : Makes P r) : Makes P (within bracket r) :=
  fun ctx c => inner (bracket.enter ctx) c

theorem unlessNext (kind : Kind) (inner : Makes P r) : Makes (IfAny P) (unlessNext kind r) := by
  refine step fun _ => ite _ (fun _ => pure ?_) (map inner ?_)
  · simp [IfAny]
  · simp [IfAny]

theorem behind (kind : Kind) (inner : Makes P r) : Makes (IfAny P) (behind kind r) := by
  rw [behind_eq]
  refine step fun _ => ite _ (fun _ => step fun _ => map inner ?_) (pure ?_)
  · simp [IfAny]
  · simp [IfAny]

theorem recovering (inner : Makes P r) : Makes (IfAny P) (recovering r) := by
  intro ctx c a next ran
  cases read : r ctx c with
  | ok b after =>
    rw [recovering_ok read] at ran
    cases ran
    simpa [IfAny] using inner ctx c _ _ read
  | fail t fault after =>
    rw [recovering_resume read] at ran
    cases ran
    simp [IfAny]

section

variable {operand : Reader Expr} (inner : Makes Expr.Runnable operand)
include inner

-- A chain has the operators of its tier, each of them known.
theorem chain {tier : Tier}
    (known : ∀ op ∈ tier.ops, op ∈ if tier.logical then logicalOperators else binaryOperators)
    (bound : Nat) {left : Expr} (runnable : left.Runnable) :
    Makes Expr.Runnable (chain tier operand bound left) := by
  induction bound generalizing left with
  | zero => exact pure runnable
  | succ bound ih =>
    refine step fun op => ite _ (fun ofTier => ?_) (pure runnable)
    refine step fun _ => bind inner fun right made => ih ?_
    have op_known := known op (List.contains_iff_mem.1 ofTier)
    unfold Tier.combine
    cases isLogical : tier.logical <;> rw [isLogical] at op_known
    · exact ⟨op_known, runnable, made⟩
    · exact ⟨op_known, runnable, made⟩

theorem ladder {rungs : List Tier} (known : ∀ tier ∈ rungs, ∀ op ∈ tier.ops,
      op ∈ if tier.logical then logicalOperators else binaryOperators) (bound : Nat) :
    Makes Expr.Runnable (ladder bound operand rungs) := by
  induction rungs with
  | nil => exact inner
  | cons tier tighter ih =>
    have tightly := ih fun tier mem => known tier (List.mem_cons_of_mem _ mem)
    exact bind tightly fun left made => chain tightly (known tier List.mem_cons_self) bound made

theorem unary (bound : Nat) : Makes Expr.Runnable (unary operand bound) := by
  induction bound with
  | zero => exact inner
  | succ bound ih =>
    refine step fun t => ite _ (fun signed => step fun _ => bind ih fun e made => pure ⟨?_, made⟩) inner
    simpa [unaryOperators] using signed

theorem arguments (bound count : Nat) : Makes Expr.RunnableAll (arguments operand bound count) := by
  induction bound generalizing count with
  | zero =>
    rw [arguments_zero]
    exact step fun _ => bind inner fun e made => pure ⟨made, trivial⟩
  | succ bound ih =>
    rw [arguments_succ]
    refine step fun _ => bind inner fun e made => bind (behind _ (ih _)) fun es each => pure ⟨made, ?_⟩
    cases es with
    | none => trivial
    | some es => exact each es rfl

theorem calls (size bound : Nat) {callee : Expr} (runnable : callee.Runnable) :
    Makes Expr.Runnable (calls operand size bound callee) := by
  induction bound generalizing callee with
  | zero => exact pure runnable
  | succ bound ih =>
    rw [calls_succ]
    refine step fun _ => ite _ (fun _ => step fun _ => ?_) (pure runnable)
    refine bind (unlessNext _ (arguments inner size 0)) fun args each => step fun close => ?_
    refine ih ⟨runnable, ?_⟩
    cases args with
    | none => trivial
    | some args => exact each args rfl

theorem assignTail {left : Expr} (runnable : left.Runnable) :
    Makes Expr.Runnable (assignTail operand left) := by
  refine step fun t => ite _ (fun _ => step fun _ => bind inner fun value made => ?_) (pure runnable)
  cases left with
  | name span x => exact pure made
  | _ => exact step fun _ => pure runnable

theorem expressionStatement : Makes Stmt.Runnable (expressionStatement operand) :=
  bind inner fun _ made => step fun _ => step fun _ => pure made

end

theorem declarations {item : Reader (Option Stmt)} (inner : Makes (IfAny Stmt.Runnable) item)
    (braced : Bool) (bound : Nat) : Makes Stmt.RunnableAll (declarations item braced bound) := by
  induction bound with
  | zero => exact pure trivial
  | succ bound ih =>
    refine step fun _ => ite _ (fun _ => pure trivial) ?_
    refine bind inner fun stmt each => bind ih fun stmts made => pure ?_
    refine Stmt.runnableAll_append.2 ⟨?_, made⟩
    cases stmt with
    | none => trivial
    | some s => exact ⟨each s rfl, trivial⟩

end Makes

theorem runnable_forLoop {first : Option Stmt} {condition step : Option Expr} {body : Stmt}
    (whole keyword : Span) (firstMade : IfAny Stmt.Runnable first)
    (conditionMade : IfAny Expr.Runnable condition) (stepMade : IfAny Expr.Runnable step)
    (bodyMade : body.Runnable) : (forLoop whole keyword first condition step body).Runnable := by
  cases first <;> cases condition <;> cases step <;>
    simp_all [forLoop, IfAny, Stmt.Runnable, Stmt.RunnableAll, Block.Runnable, Expr.Runnable]

structure Nested.Runnable (nested : Nested) : Prop where
  expression : Makes Expr.Runnable nested.expression
  statement : Makes Stmt.Runnable nested.statement
  declaration : Makes (IfAny Stmt.Runnable) nested.declaration

namespace Makes

section

variable {nested : Nested} (inner : nested.Runnable) (size : Nat)
include inner

theorem block : Makes Block.Runnable (block size nested) :=
  step fun _ => bind (within _ (declarations inner.declaration true size)) fun _ made =>
    step fun _ => step fun _ => pure made

theorem functionRest (afterName beforeBody : Place) :
    Makes (fun f => f.2.Runnable) (functionRest size nested afterName beforeBody) := by
  rw [functionRest_eq]
  refine step fun _ => step fun _ => step fun _ => step fun _ => ite _ (fun _ => ?_) (failHere _)
  exact bind (within _ (block inner size)) fun body made => pure made

theorem primaryBy (first : Kind) : Makes Expr.Runnable (primaryBy size nested first) := by
  unfold Parse.primaryBy
  cases first with
  | leftParen => exact step fun _ => bind inner.expression fun _ made => step fun _ => step fun _ => pure made
  | kwFun => exact step fun _ => bind (functionRest inner size _ _) fun _ made => step fun _ => pure made
  | _ => first | exact step fun _ => pure trivial | exact failHere _

theorem expression : Makes Expr.Runnable (expression size nested) := by
  rw [expression_eq]
  have primaries : Makes Expr.Runnable (primary size nested) := by
    rw [primary_eq]
    exact step fun first => primaryBy inner size first
  have operands : Makes Expr.Runnable (call size nested) :=
    bind primaries fun _ made => calls inner.expression size size made
  refine bind (ladder (unary operands size) ?_ size) fun _ made => assignTail inner.expression made
  decide

omit size

theorem variableDeclaration : Makes Stmt.Runnable (variableDeclaration nested) := by
  rw [variableDeclaration_eq]
  refine step fun _ => step fun _ => bind (behind _ inner.expression) fun value each => ?_
  refine step fun _ => step fun _ => pure ?_
  cases value with
  | none => trivial
  | some e => exact each e rfl

theorem branchStatement : Makes Stmt.Runnable (branchStatement nested) := by
  rw [branchStatement_eq]
  refine step fun _ => step fun _ => bind inner.expression fun c conditionMade => step fun _ => ?_
  refine bind inner.statement fun yes made => bind (behind _ inner.statement) fun no each => ?_
  refine step fun _ => pure ?_
  cases no with
  | none => exact ⟨conditionMade, made⟩
  | some s => exact ⟨conditionMade, made, each s rfl⟩

theorem whileStatement : Makes Stmt.Runnable (whileStatement nested) :=
  step fun _ => step fun _ => bind inner.expression fun _ conditionMade => step fun _ =>
    bind inner.statement fun _ made => step fun _ => pure ⟨conditionMade, made⟩

theorem forFirst : Makes (IfAny Stmt.Runnable) (forFirst nested) := by
  have wrapped {r : Reader Stmt} (made : Makes Stmt.Runnable r) :
      Makes (IfAny Stmt.Runnable) (some <$> r) :=
    map made fun _ runnable _ isIt => Option.some.inj isIt ▸ runnable
  refine step fun _ => ite _ (fun _ => step fun _ => pure ?_) (ite _ (fun _ => ?_) ?_)
  · simp [IfAny]
  · exact wrapped (variableDeclaration inner)
  · exact wrapped (expressionStatement inner.expression)

theorem forStatement : Makes Stmt.Runnable (forStatement nested) := by
  rw [forStatement_eq]
  refine step fun start => step fun _ => bind (forFirst inner) fun first firstMade => ?_
  refine bind (unlessNext _ inner.expression) fun condition conditionMade => step fun _ => ?_
  refine bind (unlessNext _ inner.expression) fun step' stepMade => step fun _ => ?_
  refine bind inner.statement fun body made => step fun stop => pure ?_
  exact runnable_forLoop _ _ firstMade conditionMade stepMade made

theorem printStatement : Makes Stmt.Runnable (printStatement nested) :=
  step fun _ => bind inner.expression fun _ made => step fun _ => step fun _ => pure made

theorem returnStatement : Makes Stmt.Runnable (returnStatement nested) := by
  rw [returnStatement_eq]
  refine step fun _ => bind (unlessNext _ inner.expression) fun value each => ?_
  refine step fun _ => step fun _ => pure ?_
  cases value with
  | none => trivial
  | some e => exact each e rfl

theorem functionDeclaration (size : Nat) : Makes Stmt.Runnable (functionDeclaration size nested) :=
  step fun _ => step fun _ => bind (functionRest inner size _ _) fun _ made => step fun _ => pure made

theorem statement (size : Nat) : Makes Stmt.Runnable (statement size nested) := by
  rw [statement_eq]
  refine step fun first => ?_
  unfold statementBy
  split
  · exact forStatement inner
  · exact branchStatement inner
  · exact printStatement inner
  · exact returnStatement inner
  · exact whileStatement inner
  · exact map (block inner size) fun _ made => made
  · exact expressionStatement (expression inner size)

theorem declaration (size : Nat) : Makes Stmt.Runnable (declaration size nested) := by
  intro ctx c a next ran
  rw [declaration_eq] at ran
  refine (?_ : Makes Stmt.Runnable (declarationBy size nested _ _)) ctx c a next ran
  unfold declarationBy
  split
  · exact ite _ (fun _ => functionDeclaration inner size) (statement inner size)
  · exact variableDeclaration inner
  · exact failHere _
  · exact statement inner size

end

end Makes

theorem level_runnable (n : Nat) : (level n).Runnable := by
  induction n with
  | zero =>
    have missing {α : Type} (P : α → Prop) : Makes P (Parse.failHere .noExpression) := .failHere _
    exact ⟨missing _, missing _, .recovering (missing _)⟩
  | succ n ih =>
    exact ⟨.expression ih (n + 1), .statement ih (n + 1), .recovering (.declaration ih (n + 1))⟩

end Parse

theorem parse_runnable (tokens : List Token) : Stmt.RunnableAll (parse tokens).1 := by
  unfold parse
  dsimp only
  split
  · next ran => exact Parse.Makes.declarations (Parse.level_runnable _).declaration false _ _ _ _ _ ran
  · trivial

end TinyScript
