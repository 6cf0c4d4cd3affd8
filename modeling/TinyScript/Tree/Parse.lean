import TinyScript.Tree.Cursor

namespace TinyScript

namespace Parse

structure Nested where
  expression : Reader Expr
  statement : Reader Stmt
  declaration : Reader (Option Stmt)

structure Tier where
  ops : List Kind
  logical : Bool

def tiers : List Tier :=
  [⟨[.kwOr], true⟩,
   ⟨[.kwAnd], true⟩,
   ⟨[.bangEqual, .equalEqual], false⟩,
   ⟨[.greater, .greaterEqual, .less, .lessEqual], false⟩,
   ⟨[.minus, .plus], false⟩,
   ⟨[.slash, .star], false⟩]

def Tier.combine (tier : Tier) (op : Kind) (left right : Expr) : Expr :=
  let span := left.span.upTo right.span
  if tier.logical then .logical span op left right else .binary span op left right

def chain (tier : Tier) (operand : Reader Expr) : (bound : Nat) → Expr → Reader Expr
  | 0, left => pure left
  | bound + 1, left => do
    let op ← peekKind
    if tier.ops.contains op then
      let _ ← advance
      let right ← operand
      chain tier operand bound (tier.combine op left right)
    else
      return left

def ladder (bound : Nat) (operand : Reader Expr) : List Tier → Reader Expr
  | [] => operand
  | tier :: tighter => do
    let left ← ladder bound operand tighter
    chain tier (ladder bound operand tighter) bound left

def unary (operand : Reader Expr) : (bound : Nat) → Reader Expr
  | 0 => operand
  | bound + 1 => do
    let t ← peek
    if t.kind = .bang ∨ t.kind = .minus then
      let _ ← advance
      let e ← unary operand bound
      return .unary (t.span.upTo e.span) t.kind e
    else
      operand

def arguments (expression : Reader Expr) : (bound count : Nat) → Reader (List Expr)
  | bound, count => do
    if maxArguments ≤ count then report (← peek) .tooManyArguments
    let e ← expression
    match bound with
    | 0 => return [e]
    | bound + 1 =>
      if ← accept .comma then
        return e :: (← arguments expression bound (count + 1))
      else
        return [e]

def calls (expression : Reader Expr) (size : Nat) : (bound : Nat) → Expr → Reader Expr
  | 0, callee => pure callee
  | bound + 1, callee => do
    if ← accept .leftParen then
      let args ← if (← peekKind) = .rightParen then pure [] else arguments expression size 0
      let close ← expect .rightParen .afterArguments
      calls expression size bound (.call (callee.span.upTo close.span) callee args)
    else
      return callee

def parameters : (bound count : Nat) → Reader (List Bytes)
  | bound, count => do
    if maxArguments ≤ count then report (← peek) .tooManyParameters
    let t ← expect .ident .asParameterName
    match bound with
    | 0 => return [t.lexeme]
    | bound + 1 =>
      if ← accept .comma then
        return t.lexeme :: (← parameters bound (count + 1))
      else
        return [t.lexeme]

def declarations (declaration : Reader (Option Stmt)) (braced : Bool) :
    (bound : Nat) → Reader (List Stmt)
  | 0 => pure []
  | bound + 1 => do
    let kind ← peekKind
    if kind = .eof ∨ (braced ∧ kind = .rightBrace) then
      return []
    else
      let stmt ← declaration
      let stmts ← declarations declaration braced bound
      return stmt.toList ++ stmts

def block (size : Nat) (nested : Nested) : Reader Block := do
  let start ← expect .leftBrace .beforeBlock
  let stmts ← within .braces (declarations nested.declaration true size)
  let _ ← expect .rightBrace .afterBlock
  return .braces ⟨start.span.start, ← lastStop⟩ stmts

def functionRest (size : Nat) (nested : Nested) (afterName beforeBody : Place) :
    Reader (Params × Block) := do
  let _ ← expect .leftParen afterName
  let params ← if (← peekKind) = .rightParen then pure none else some <$> parameters size 0
  let _ ← expect .rightParen .afterParameters
  let t ← peek
  if t.kind = .leftBrace then
    let body ← within .body (block size nested)
    return (params, body)
  else
    failAt t (.expected .leftBrace beforeBody)

def primary (size : Nat) (nested : Nested) : Reader Expr := do
  let t ← peek
  match t.kind with
  | .kwFalse => do
    let _ ← advance
    return .literal t.span (.boolean false)
  | .kwTrue => do
    let _ ← advance
    return .literal t.span (.boolean true)
  | .kwNil => do
    let _ ← advance
    return .literal t.span .nil
  | .number | .string => do
    let _ ← advance
    return .literal t.span t.literal
  | .ident => do
    let _ ← advance
    return .name t.span t.lexeme
  | .leftParen => do
    let _ ← advance
    let inner ← nested.expression
    let _ ← expect .rightParen .afterExpression
    return .grouping ⟨t.span.start, ← lastStop⟩ inner
  | .kwFun => do
    let _ ← advance
    let (params, body) ← functionRest size nested .afterLambdaName .beforeLambdaBody
    return .lambda ⟨t.span.start, ← lastStop⟩ params body
  | .kwThis | .kwSuper => failAt t .classes
  | _ => failAt t .noExpression

def call (size : Nat) (nested : Nested) : Reader Expr := do
  let callee ← primary size nested
  calls nested.expression size size callee

-- Another target than a name is reported, and the assignment then counts as that target.
def expression (size : Nat) (nested : Nested) : Reader Expr := do
  let left ← ladder size (unary (call size nested) size) tiers
  let t ← peek
  if t.kind = .equal then
    let _ ← advance
    let value ← nested.expression
    match left with
    | .name span x => return .assign (span.upTo value.span) x value
    | _ =>
      report t .invalidTarget
      return left
  else
    return left

def expressionStatement (expression : Reader Expr) : Reader Stmt := do
  let e ← expression
  let _ ← expect .semicolon .afterExpression
  return .expr ⟨e.span.start, ← lastStop⟩ e

def variableDeclaration (nested : Nested) : Reader Stmt := do
  let start ← advance
  let name ← expect .ident .asVariableName
  let value ← if ← accept .equal then some <$> nested.expression else pure none
  let _ ← expect .semicolon .afterDeclaration
  return .declare ⟨start.span.start, ← lastStop⟩ name.lexeme value

def functionDeclaration (size : Nat) (nested : Nested) : Reader Stmt := do
  let start ← advance
  let name ← advance
  let (params, body) ← functionRest size nested .afterFunctionName .beforeFunctionBody
  return .function ⟨start.span.start, ← lastStop⟩ name.lexeme params body

def branchStatement (nested : Nested) : Reader Stmt := do
  let start ← advance
  let _ ← expect .leftParen .afterIf
  let condition ← nested.expression
  let _ ← expect .rightParen .afterIfCondition
  let yes ← nested.statement
  let no ← if ← accept .kwElse then some <$> nested.statement else pure none
  return .branch ⟨start.span.start, ← lastStop⟩ condition yes no

def whileStatement (nested : Nested) : Reader Stmt := do
  let start ← advance
  let _ ← expect .leftParen .afterWhile
  let condition ← nested.expression
  let _ ← expect .rightParen .afterCondition
  let body ← nested.statement
  return .loop ⟨start.span.start, ← lastStop⟩ condition body

-- A missing condition is true and stands at the keyword.
def forLoop (whole keyword : Span) (first : Option Stmt) (condition : Option Expr)
    (step : Option Expr) (body : Stmt) : Stmt :=
  let body := match step with
    | none => body
    | some e => .block (.braces whole [body, .expr e.span e])
  let loop := .loop whole (condition.getD (.literal keyword (.boolean true))) body
  match first with
  | none => loop
  | some s => .block (.braces whole [s, loop])

def forStatement (nested : Nested) : Reader Stmt := do
  let start ← advance
  let _ ← expect .leftParen .afterFor
  let kind ← peekKind
  let first ←
    if kind = .semicolon then do
      let _ ← advance
      pure none
    else if kind = .kwVar then some <$> variableDeclaration nested
    else some <$> expressionStatement nested.expression
  let condition ← if (← peekKind) = .semicolon then pure none else some <$> nested.expression
  let _ ← expect .semicolon .afterLoopCondition
  let step ← if (← peekKind) = .rightParen then pure none else some <$> nested.expression
  let _ ← expect .rightParen .afterForClauses
  let body ← nested.statement
  return forLoop ⟨start.span.start, ← lastStop⟩ start.span first condition step body

def printStatement (nested : Nested) : Reader Stmt := do
  let start ← advance
  let value ← nested.expression
  let _ ← expect .semicolon .afterValue
  return .print ⟨start.span.start, ← lastStop⟩ value

def returnStatement (nested : Nested) : Reader Stmt := do
  let start ← advance
  if !(← inFunction) then report start .strayReturn
  let value ← if (← peekKind) = .semicolon then pure none else some <$> nested.expression
  let _ ← expect .semicolon .afterReturnValue
  return .giveBack ⟨start.span.start, ← lastStop⟩ value

def statement (size : Nat) (nested : Nested) : Reader Stmt := do
  match ← peekKind with
  | .kwFor => forStatement nested
  | .kwIf => branchStatement nested
  | .kwPrint => printStatement nested
  | .kwReturn => returnStatement nested
  | .kwWhile => whileStatement nested
  | .leftBrace => Stmt.block <$> block size nested
  | _ => expressionStatement (expression size nested)

def declaration (size : Nat) (nested : Nested) : Reader Stmt := do
  let t ← peek
  match t.kind with
  | .kwFun =>
    if (← peekSecond) = .ident then functionDeclaration size nested else statement size nested
  | .kwVar => variableDeclaration nested
  | .kwClass => failAt t .classes
  | _ => statement size nested

-- Whenever a rule goes around the circle of rules it has read a token, so level `n` reads every list of at most `n`
-- tokens as every higher level does.
def level : Nat → Nested
  | 0 =>
    let missing : {α : Type} → Reader α := do failAt (← peek) .noExpression
    ⟨missing, missing, recovering missing⟩
  | n + 1 =>
    let nested := level n
    ⟨expression (n + 1) nested, statement (n + 1) nested, recovering (declaration (n + 1) nested)⟩

end Parse

def missingEnd (tokens : List Token) : Token :=
  ⟨.eof, [], .nil, tokens.getLast?.elim .unknown fun t => .point t.span.stop⟩

def parse (tokens : List Token) : List Stmt × List Diagnostic :=
  let body := tokens.takeWhile fun t => t.kind ≠ .eof
  let ending := (tokens.find? fun t => t.kind = .eof).getD (missingEnd tokens)
  match Parse.declarations (Parse.level body.length).declaration false body.length
      ⟨ending, 0, 0⟩ ⟨body, none, []⟩ with
  | .ok stmts c => (stmts, c.reported)
  | .fail _ _ c => ([], c.reported)

end TinyScript
