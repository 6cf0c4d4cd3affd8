import TinyScript.Tree.Parse

namespace TinyScript.Parse

namespace Reader

variable {r : Reader α} {f : α → Reader β} {ctx : Context} {c : Cursor}

theorem run_eq (r : Reader α) (ctx : Context) (c : Cursor) : r.run ctx c = (r ctx c, ctx) :=
  Prod.ext rfl (r.balanced ctx c)

theorem plain_reply (step : Context → Cursor → Reply α) (ctx : Context) (c : Cursor) :
    Reader.plain step ctx c = step ctx c := rfl

theorem ext {s : Reader α} (same : ∀ ctx c, r ctx c = s ctx c) : r = s := by
  have runs : r.run = s.run := by
    funext ctx c
    rw [r.run_eq, s.run_eq, same]
  cases r
  cases s
  cases runs
  rfl

theorem bind_ok (ran : r ctx c = .ok a next) : (r >>= f) ctx c = f a ctx next := by
  have whole : r.run ctx c = (.ok a next, ctx) := ran ▸ r.run_eq ctx c
  show ((Reader.bind r f).run ctx c).1 = _
  unfold Reader.bind
  dsimp only
  rw [whole]
  rfl

theorem bind_fail (ran : r ctx c = .fail t fault next) : (r >>= f) ctx c = .fail t fault next := by
  have whole : r.run ctx c = (.fail t fault next, ctx) := ran ▸ r.run_eq ctx c
  show ((Reader.bind r f).run ctx c).1 = _
  unfold Reader.bind
  dsimp only
  rw [whole]

theorem bind_congr {s : Reader α} (same : r ctx c = s ctx c') : (r >>= f) ctx c = (s >>= f) ctx c' := by
  cases ran : s ctx c' with
  | ok a next => rw [bind_ok ran, bind_ok (same.trans ran)]
  | fail t fault next => rw [bind_fail ran, bind_fail (same.trans ran)]

theorem of_bind_ok (ran : (r >>= f) ctx c = .ok b last) :
    ∃ a next, r ctx c = .ok a next ∧ f a ctx next = .ok b last := by
  cases first : r ctx c with
  | ok a next => exact ⟨a, next, rfl, (bind_ok first).symm.trans ran⟩
  | fail t fault next => rw [bind_fail first] at ran; cases ran

theorem of_bind_fail (ran : (r >>= f) ctx c = .fail t fault last) :
    r ctx c = .fail t fault last ∨ ∃ a next, r ctx c = .ok a next ∧ f a ctx next = .fail t fault last := by
  cases first : r ctx c with
  | ok a next => exact .inr ⟨a, next, rfl, (bind_ok first).symm.trans ran⟩
  | fail t fault next => rw [bind_fail first] at ran; cases ran; exact .inl rfl

theorem bind_assoc (r : Reader α) (f : α → Reader β) (g : β → Reader γ) :
    r >>= f >>= g = r >>= fun a => f a >>= g := by
  refine ext fun ctx c => ?_
  cases ran : r ctx c with
  | ok a next =>
    rw [bind_ok ran]
    cases further : f a ctx next with
    | ok b last => rw [bind_ok ((bind_ok ran).trans further), bind_ok further]
    | fail t fault last => rw [bind_fail ((bind_ok ran).trans further), bind_fail further]
  | fail t fault next => rw [bind_fail ran, bind_fail (bind_fail ran)]

theorem pure_bind (a : α) (f : α → Reader β) : (Pure.pure a : Reader α) >>= f = f a := rfl

theorem map_bind (g : α → β) (r : Reader α) (f : β → Reader γ) :
    g <$> r >>= f = r >>= fun a => f (g a) := bind_assoc r (fun a => pure (g a)) f

theorem ite_bind (p : Prop) [Decidable p] (r s : Reader α) (f : α → Reader β) :
    (if p then r else s) >>= f = if p then r >>= f else s >>= f := by
  split <;> rfl

end Reader

theorem peek_bind (f : Token → Reader α) (ctx : Context) (c : Cursor) :
    (peek >>= f) ctx c = f (c.rest.headD ctx.ending) ctx c := rfl

theorem peekKind_bind (f : Kind → Reader α) (ctx : Context) (c : Cursor) :
    (peekKind >>= f) ctx c = f (c.rest.headD ctx.ending).kind ctx c := rfl

def nextKind (ctx : Context) (tokens : List Token) : Kind := (tokens.headD ctx.ending).kind

def secondKind (tokens : List Token) : Kind := (tokens.drop 1).head?.elim .eof Token.kind

def failHere (fault : Fault) : Reader α := .plain fun ctx c => .fail (c.rest.headD ctx.ending) fault c

def reportHere (fault : Fault) : Reader Unit := .plain fun ctx c =>
  .ok () (c.report (fault.diagnostic (c.rest.headD ctx.ending)))

def unlessNext (kind : Kind) (r : Reader α) : Reader (Option α) := do
  if (← peekKind) = kind then pure none else some <$> r

def behind (kind : Kind) (r : Reader α) : Reader (Option α) := do
  if ← accept kind then some <$> r else pure none

def countAgainst (count : Nat) (fault : Fault) : Reader Unit :=
  if maxArguments ≤ count then reportHere fault else pure ()

-- A choice by the next token is a choice by its kind.
theorem peek_ite (kind : Kind) (r : Reader α) (fault : Fault) :
    (peek >>= fun t => if t.kind = kind then r else failAt t fault)
      = peekKind >>= fun k => if k = kind then r else failHere fault := by
  refine Reader.ext fun ctx c => ?_
  show (if _ then r else _ : Reader α) ctx c = (if _ then r else _ : Reader α) ctx c
  split <;> rfl

theorem expect_eq (kind : Kind) (place : Place) : expect kind place = (do
    if (← peekKind) = kind then advance else failHere (.expected kind place)) :=
  peek_ite kind advance (.expected kind place)

theorem expect_fail (other : nextKind ctx c.rest ≠ kind) (place : Place) :
    expect kind place ctx c = .fail (c.rest.headD ctx.ending) (.expected kind place) c := by
  show (if nextKind ctx c.rest = kind then _ else _ : Reader Token) ctx c = _
  rw [if_neg other]
  rfl

theorem expect_ok (sees : nextKind ctx c.rest = kind) (place : Place) :
    expect kind place ctx c = .ok (c.rest.headD ctx.ending) c.advance := by
  show (if nextKind ctx c.rest = kind then _ else _ : Reader Token) ctx c = _
  rw [if_pos sees]
  rfl

theorem accept_bind (kind : Kind) (f : Bool → Reader α) : accept kind >>= f = (do
    if (← peekKind) = kind then
      let _ ← advance
      f true
    else f false) := by
  simp only [accept, Reader.bind_assoc, Reader.ite_bind, Reader.pure_bind]

theorem behind_eq (kind : Kind) (r : Reader α) : behind kind r = (do
    if (← peekKind) = kind then
      let _ ← advance
      some <$> r
    else return none) := accept_bind kind _

theorem behind_taken {r : Reader α} (sees : nextKind ctx c.rest = kind) :
    behind kind r ctx c = (some <$> r) ctx c.advance := by
  rw [behind_eq]
  show (if nextKind ctx c.rest = kind then _ else _ : Reader (Option α)) ctx c = _
  rw [if_pos sees]
  rfl

theorem behind_passed {r : Reader α} (other : nextKind ctx c.rest ≠ kind) :
    behind kind r ctx c = .ok none c := by
  rw [behind_eq]
  show (if nextKind ctx c.rest = kind then _ else _ : Reader (Option α)) ctx c = _
  rw [if_neg other]
  rfl

def checkReturn (start : Token) : Reader Token := do
  if !(← inFunction) then report start .strayReturn
  return start

def openReturn : Reader Token := advance >>= checkReturn

theorem checkReturn_eq (start : Token) (ctx : Context) (c : Cursor) : checkReturn start ctx c =
    .ok start (if ctx.inFunction then c else c.report (Fault.strayReturn.diagnostic start)) := by
  obtain ⟨ending, functions, blocks⟩ := ctx
  cases functions <;> rfl

theorem openReturn_eq (ctx : Context) (c : Cursor) : openReturn ctx c =
    let start := c.rest.headD ctx.ending
    .ok start (if ctx.inFunction then c.advance
      else c.advance.report (Fault.strayReturn.diagnostic start)) :=
  checkReturn_eq (c.rest.headD ctx.ending) ctx c.advance

theorem within_eq (bracket : Bracket) (r : Reader α) (ctx : Context) (c : Cursor) :
    within bracket r ctx c = r (bracket.enter ctx) c := rfl

-- The cursor of a failed step with its fault reported, unless the scan has reported the token.
def noted (failed : Cursor) (t : Token) (fault : Fault) : Cursor :=
  if t.kind = .illegal then failed else failed.report (fault.diagnostic t)

-- The same cursor one token on, if the step had read none.
def moved (c noted : Cursor) : Cursor :=
  if noted.rest.length = c.rest.length then noted.advance else noted

theorem recovering_ok {r : Reader α} (read : r ctx c = .ok a next) :
    recovering r ctx c = .ok (some a) next := by
  have whole : r.run ctx c = (.ok a next, ctx) := read ▸ r.run_eq ctx c
  show ((recovering r).run ctx c).1 = _
  unfold recovering
  dsimp only
  rw [whole]

theorem recovering_resume {r : Reader α} (read : r ctx c = .fail t fault failed) :
    recovering r ctx c = .ok none (resume ctx.inBlock (moved c (noted failed t fault)).reported
      (moved c (noted failed t fault)).last (moved c (noted failed t fault)).rest) := by
  have whole : r.run ctx c = (.fail t fault failed, ctx) := read ▸ r.run_eq ctx c
  show ((recovering r).run ctx c).1 = _
  unfold recovering
  dsimp only
  rw [whole]
  rfl

theorem recovering_congr {r s : Reader α} (same : r ctx c = s ctx c') (rests : c.rest = c'.rest) :
    recovering r ctx c = recovering s ctx c' := by
  cases read : s ctx c' with
  | ok a next => rw [recovering_ok read, recovering_ok (same.trans read)]
  | fail t fault failed =>
    rw [recovering_resume read, recovering_resume (same.trans read)]
    unfold moved
    rw [rests]

def leaf (make : Token → α) : Reader α := do
  let t ← advance
  return make t

section

variable (size : Nat) (nested : Nested)

theorem countAgainst_bind (count : Nat) (fault : Fault) (rest : Reader α) :
    (countAgainst count fault >>= fun _ => rest)
      = if maxArguments ≤ count then reportHere fault >>= fun _ => rest else rest := by
  unfold countAgainst
  split <;> rfl

theorem arguments_zero (expression : Reader Expr) (count : Nat) :
    arguments expression 0 count = (do
      countAgainst count .tooManyArguments
      return [← expression]) := by
  rw [arguments, countAgainst_bind]
  rfl

theorem arguments_succ (expression : Reader Expr) (bound count : Nat) :
    arguments expression (bound + 1) count = (do
      countAgainst count .tooManyArguments
      let e ← expression
      return e :: (← behind .comma (arguments expression bound (count + 1))).getD []) := by
  rw [arguments, countAgainst_bind]
  simp only [behind, Reader.bind_assoc, Reader.ite_bind, Reader.map_bind, Reader.pure_bind,
    Option.getD_some, Option.getD_none]
  rfl

theorem parameters_zero (count : Nat) :
    parameters 0 count = (do
      countAgainst count .tooManyParameters
      return [(← expect .ident .asParameterName).lexeme]) := by
  rw [parameters, countAgainst_bind]
  rfl

theorem parameters_succ (bound count : Nat) :
    parameters (bound + 1) count = (do
      countAgainst count .tooManyParameters
      let t ← expect .ident .asParameterName
      return t.lexeme :: (← behind .comma (parameters bound (count + 1))).getD []) := by
  rw [parameters, countAgainst_bind]
  simp only [behind, Reader.bind_assoc, Reader.ite_bind, Reader.map_bind, Reader.pure_bind,
    Option.getD_some, Option.getD_none]
  rfl

theorem calls_succ (expression : Reader Expr) (bound : Nat) (callee : Expr) :
    calls expression size (bound + 1) callee = (do
      if (← peekKind) = .leftParen then
        let _ ← advance
        let args ← unlessNext .rightParen (arguments expression size 0)
        let close ← expect .rightParen .afterArguments
        calls expression size bound (.call (callee.span.upTo close.span) callee (args.getD []))
      else return callee) := by
  rw [calls, accept_bind]
  simp only [unlessNext, Reader.bind_assoc, Reader.ite_bind, Reader.map_bind, Reader.pure_bind]
  rfl

theorem functionRest_eq (afterName beforeBody : Place) :
    functionRest size nested afterName beforeBody = (do
      let _ ← expect .leftParen afterName
      let params ← unlessNext .rightParen (parameters size 0)
      let _ ← expect .rightParen .afterParameters
      if (← peekKind) = .leftBrace then
        let body ← within .body (block size nested)
        return (params, body)
      else failHere (.expected .leftBrace beforeBody)) := by
  simp only [functionRest, peek_ite, unlessNext, Reader.bind_assoc, Reader.ite_bind, Reader.map_bind,
    Reader.pure_bind]

def primaryBy (first : Kind) : Reader Expr :=
  match first with
  | .kwFalse => leaf fun t => .literal t.span (.boolean false)
  | .kwTrue => leaf fun t => .literal t.span (.boolean true)
  | .kwNil => leaf fun t => .literal t.span .nil
  | .number | .string => leaf fun t => .literal t.span t.literal
  | .ident => leaf fun t => .name t.span t.lexeme
  | .leftParen => do
    let t ← advance
    let inner ← nested.expression
    let _ ← expect .rightParen .afterExpression
    return .grouping ⟨t.span.start, ← lastStop⟩ inner
  | .kwFun => do
    let t ← advance
    let (params, body) ← functionRest size nested .afterLambdaName .beforeLambdaBody
    return .lambda ⟨t.span.start, ← lastStop⟩ params body
  | .kwThis | .kwSuper => failHere .classes
  | _ => failHere .noExpression

theorem primary_eq : primary size nested = peekKind >>= primaryBy size nested := by
  refine Reader.ext fun ctx c => ?_
  unfold primary
  rw [peek_bind, peekKind_bind]
  generalize (c.rest.headD ctx.ending).kind = kind
  cases kind <;> rfl

theorem variableDeclaration_eq : variableDeclaration nested = (do
    let start ← advance
    let name ← expect .ident .asVariableName
    let value ← behind .equal nested.expression
    let _ ← expect .semicolon .afterDeclaration
    return .declare ⟨start.span.start, ← lastStop⟩ name.lexeme value) := by
  simp only [variableDeclaration, behind, Reader.bind_assoc, Reader.ite_bind, Reader.map_bind,
    Reader.pure_bind]

theorem branchStatement_eq : branchStatement nested = (do
    let start ← advance
    let _ ← expect .leftParen .afterIf
    let condition ← nested.expression
    let _ ← expect .rightParen .afterIfCondition
    let yes ← nested.statement
    let no ← behind .kwElse nested.statement
    return .branch ⟨start.span.start, ← lastStop⟩ condition yes no) := by
  simp only [branchStatement, behind, Reader.bind_assoc, Reader.ite_bind, Reader.map_bind,
    Reader.pure_bind]

theorem returnStatement_eq : returnStatement nested = (do
    let start ← openReturn
    let value ← unlessNext .semicolon nested.expression
    let _ ← expect .semicolon .afterReturnValue
    return .giveBack ⟨start.span.start, ← lastStop⟩ value) := by
  simp only [returnStatement, openReturn, checkReturn, unlessNext, Reader.bind_assoc, Reader.ite_bind,
    Reader.map_bind, Reader.pure_bind]

def forFirst (nested : Nested) : Reader (Option Stmt) := do
  let kind ← peekKind
  if kind = .semicolon then leaf fun _ => none
  else if kind = .kwVar then some <$> variableDeclaration nested
  else some <$> expressionStatement nested.expression

theorem forStatement_eq : forStatement nested = (do
    let start ← advance
    let _ ← expect .leftParen .afterFor
    let first ← forFirst nested
    let condition ← unlessNext .semicolon nested.expression
    let _ ← expect .semicolon .afterLoopCondition
    let step ← unlessNext .rightParen nested.expression
    let _ ← expect .rightParen .afterForClauses
    let body ← nested.statement
    return forLoop ⟨start.span.start, ← lastStop⟩ start.span first condition step body) := by
  simp only [forStatement, forFirst, leaf, unlessNext, Reader.bind_assoc, Reader.ite_bind,
    Reader.map_bind, Reader.pure_bind]

structure ForClauses where
  first : Option Stmt
  condition : Option Expr
  step : Option Expr

def forClauses (nested : Nested) : Reader ForClauses := do
  let _ ← expect .leftParen .afterFor
  let first ← forFirst nested
  let condition ← unlessNext .semicolon nested.expression
  let _ ← expect .semicolon .afterLoopCondition
  let step ← unlessNext .rightParen nested.expression
  let _ ← expect .rightParen .afterForClauses
  return ⟨first, condition, step⟩

def ForClauses.tree (clauses : ForClauses) (whole keyword : Span) (body : Stmt) : Stmt :=
  forLoop whole keyword clauses.first clauses.condition clauses.step body

theorem forStatement_clauses : forStatement nested = (do
    let start ← advance
    let clauses ← forClauses nested
    let body ← nested.statement
    return clauses.tree ⟨start.span.start, ← lastStop⟩ start.span body) := by
  simp only [forStatement_eq, forClauses, Reader.bind_assoc, Reader.pure_bind, ForClauses.tree]

def statementBy (first : Kind) : Reader Stmt :=
  match first with
  | .kwFor => forStatement nested
  | .kwIf => branchStatement nested
  | .kwPrint => printStatement nested
  | .kwReturn => returnStatement nested
  | .kwWhile => whileStatement nested
  | .leftBrace => Stmt.block <$> block size nested
  | _ => expressionStatement (expression size nested)

theorem statement_eq : statement size nested = peekKind >>= statementBy size nested := rfl

-- A declaration by the kinds of the two tokens in front of it. The second matters only behind `fun`,
-- which opens a declaration if a name follows and a lambda otherwise.
def declarationBy (first second : Kind) : Reader Stmt :=
  match first with
  | .kwFun => if second = .ident then functionDeclaration size nested else statement size nested
  | .kwVar => variableDeclaration nested
  | .kwClass => failHere .classes
  | _ => statement size nested

theorem declaration_eq (ctx : Context) (c : Cursor) : declaration size nested ctx c =
    declarationBy size nested (nextKind ctx c.rest) (secondKind c.rest) ctx c := by
  unfold declaration declarationBy nextKind secondKind
  rw [peek_bind]
  generalize (c.rest.headD ctx.ending).kind = kind
  cases kind <;> rfl

-- What may follow the operand of an assignment: the sign and a value. The fault is reported at the
-- sign, after the value was read.
def assignTail (value : Reader Expr) (left : Expr) : Reader Expr := do
  let t ← peek
  if t.kind = .equal then
    let _ ← advance
    let value ← value
    match left with
    | .name span x => return .assign (span.upTo value.span) x value
    | _ =>
      report t .invalidTarget
      return left
  else
    return left

theorem expression_eq : expression size nested = (do
    let left ← ladder size (unary (call size nested) size) tiers
    assignTail nested.expression left) := rfl

end

section

variable {value : Reader Expr}

theorem assignTail_value (left : Expr) (unsigned : nextKind ctx c.rest ≠ .equal) :
    assignTail value left ctx c = .ok left c := by
  show (if nextKind ctx c.rest = .equal then _ else Pure.pure left : Reader Expr) ctx c = _
  rw [if_neg unsigned]
  rfl

theorem assignTail_name (span : Span) (x : Bytes) (signed : nextKind ctx c.rest = .equal) :
    assignTail value (.name span x) ctx c =
    (advance >>= fun _ => value >>= fun v => Pure.pure (Expr.assign (span.upTo v.span) x v)) ctx c := by
  show (if nextKind ctx c.rest = .equal then _ else _ : Reader Expr) ctx c = _
  rw [if_pos signed]

theorem assignTail_other (signed : nextKind ctx c.rest = .equal) (unnamed : ∀ span x, left ≠ .name span x) :
    assignTail value left ctx c = (advance >>= fun _ => value >>= fun _ =>
      report (c.rest.headD ctx.ending) .invalidTarget >>= fun _ => Pure.pure left) ctx c := by
  show (if nextKind ctx c.rest = .equal then _ else _ : Reader Expr) ctx c = _
  rw [if_pos signed]
  cases left with
  | name span x => exact absurd rfl (unnamed span x)
  | _ => rfl

theorem assignTail_reports (signed : nextKind ctx c.rest = .equal)
    (unnamed : ∀ span x, left ≠ .name span x) (ran : assignTail value left ctx c = .ok a next) :
    next.reported ≠ [] := by
  obtain ⟨_, _, _, ran⟩ := Reader.of_bind_ok (assignTail_other signed unnamed ▸ ran)
  obtain ⟨_, mid, _, ran⟩ := Reader.of_bind_ok ran
  cases ran
  simp [Cursor.report]

end

end TinyScript.Parse
