import TinyScript.Tree
import TinyScript.Diagnostic

namespace TinyScript.Parse

inductive Place where
  | afterFunctionName | afterLambdaName | asParameterName | afterParameters
  | beforeFunctionBody | beforeLambdaBody
  | asVariableName | afterDeclaration
  | afterIf | afterIfCondition | afterWhile | afterCondition
  | afterFor | afterLoopCondition | afterForClauses
  | afterValue | afterReturnValue
  | beforeBlock | afterBlock
  | afterExpression | afterArguments
  deriving DecidableEq, Repr

def Place.wording : Place → String
  | .afterFunctionName => "after function name"
  | .afterLambdaName => "after lambda name"
  | .asParameterName => "as parameter name"
  | .afterParameters => "after parameters"
  | .beforeFunctionBody => "before function body"
  | .beforeLambdaBody => "before lambda body"
  | .asVariableName => "as variable name"
  | .afterDeclaration => "after variable declaration"
  | .afterIf => "after 'if'"
  | .afterIfCondition => "after if condition"
  | .afterWhile => "after 'while'"
  | .afterCondition => "after condition"
  | .afterFor => "after 'for'"
  | .afterLoopCondition => "after loop condition"
  | .afterForClauses => "after for clauses"
  | .afterValue => "after value"
  | .afterReturnValue => "after return value"
  | .beforeBlock => "before block"
  | .afterBlock => "after block"
  | .afterExpression => "after expression"
  | .afterArguments => "after arguments"

inductive Fault where
  | expected (kind : Kind) (place : Place)
  | noExpression
  | invalidTarget
  | tooManyParameters
  | tooManyArguments
  | classes
  | strayReturn
  deriving DecidableEq, Repr

def maxArguments : Nat := 255

namespace Fault

def code : Fault → Code
  | .expected _ _ => Code.expectedToken
  | .noExpression => Code.expectedExpression
  | .invalidTarget => Code.invalidTarget
  | .tooManyParameters | .tooManyArguments => Code.tooMany
  | .classes => Code.unsupported
  | .strayReturn => Code.strayReturn

def wording : Fault → Bytes
  | .expected kind place =>
    text "expected '" ++ kind.label ++ text "' " ++ text place.wording
  | .noExpression => text "expected expression"
  | .invalidTarget => text "invalid assignment target"
  | .tooManyParameters => text "can't have more than " ++ numeral maxArguments ++ text " parameters"
  | .tooManyArguments => text "can't have more than " ++ numeral maxArguments ++ text " arguments"
  | .classes => text "classes are not supported"
  | .strayReturn => text "can't return from top-level code"

def whereabouts (t : Token) : Bytes :=
  if t.kind = .eof then Report.atEnd else text " at '" ++ t.lexeme ++ text "'"

def diagnostic (f : Fault) (t : Token) : Diagnostic :=
  ⟨f.code, .error, Stage.parsing, f.wording ++ whereabouts t, t.span, []⟩

end Fault

structure Cursor where
  rest : List Token
  last : Option Token
  reported : List Diagnostic
  deriving Repr

namespace Cursor

def advance (c : Cursor) : Cursor :=
  match c.rest with
  | [] => c
  | t :: ts => ⟨ts, some t, c.reported⟩

def report (c : Cursor) (d : Diagnostic) : Cursor := { c with reported := c.reported ++ [d] }

end Cursor

structure Context where
  ending : Token
  functions : Nat
  blocks : Nat
  deriving Repr

namespace Context

def inFunction (ctx : Context) : Bool := 0 < ctx.functions

def inBlock (ctx : Context) : Bool := 0 < ctx.blocks

end Context

inductive Reply (α : Type) where
  | ok (value : α) (next : Cursor)
  | fail (token : Token) (fault : Fault) (next : Cursor)

-- A step of reading. It passes on the counts of the bodies and braces around it, and ends with those it
-- began with.
structure Reader (α : Type) where
  run : Context → Cursor → Reply α × Context
  balanced : ∀ ctx c, (run ctx c).2 = ctx

namespace Reader

def reply (r : Reader α) (ctx : Context) (c : Cursor) : Reply α := (r.run ctx c).1

instance : CoeFun (Reader α) fun _ => Context → Cursor → Reply α := ⟨reply⟩

def plain (step : Context → Cursor → Reply α) : Reader α := ⟨fun ctx c => (step ctx c, ctx), fun _ _ => rfl⟩

def pure (a : α) : Reader α := .plain fun _ c => .ok a c

def bind (r : Reader α) (f : α → Reader β) : Reader β where
  run ctx c :=
    match r.run ctx c with
    | (.ok a next, left) => (f a).run left next
    | (.fail t fault next, left) => (.fail t fault next, left)
  balanced ctx c := by
    have first := r.balanced ctx c
    split
    · next a next left ran => exact ((f a).balanced left next).trans ((congrArg Prod.snd ran).symm.trans first)
    · next ran => exact (congrArg Prod.snd ran).symm.trans first

instance : Monad Reader where
  pure := Reader.pure
  bind := Reader.bind

end Reader

def peek : Reader Token := .plain fun ctx c => .ok (c.rest.headD ctx.ending) c

def peekKind : Reader Kind := .plain fun ctx c => .ok (c.rest.headD ctx.ending).kind c

def peekSecond : Reader Kind := .plain fun _ c =>
  .ok ((c.rest.drop 1).head?.elim .eof Token.kind) c

def advance : Reader Token := .plain fun ctx c => .ok (c.rest.headD ctx.ending) c.advance

def accept (kind : Kind) : Reader Bool := do
  if (← peekKind) = kind then
    let _ ← advance
    return true
  else
    return false

def failAt (t : Token) (fault : Fault) : Reader α := .plain fun _ c => .fail t fault c

def report (t : Token) (fault : Fault) : Reader Unit := .plain fun _ c =>
  .ok () (c.report (fault.diagnostic t))

def expect (kind : Kind) (place : Place) : Reader Token := do
  let t ← peek
  if t.kind = kind then advance else failAt t (.expected kind place)

def lastStop : Reader Position := .plain fun ctx c =>
  .ok (c.last.elim (c.rest.headD ctx.ending).span.start fun t => t.span.stop) c

def inFunction : Reader Bool := .plain fun ctx c => .ok ctx.inFunction c

structure Bracket where
  enter : Context → Context
  leave : Context → Context
  undone : ∀ ctx, leave (enter ctx) = ctx

namespace Bracket

def body : Bracket where
  enter ctx := { ctx with functions := ctx.functions + 1 }
  leave ctx := { ctx with functions := ctx.functions - 1 }
  undone _ := rfl

def braces : Bracket where
  enter ctx := { ctx with blocks := ctx.blocks + 1 }
  leave ctx := { ctx with blocks := ctx.blocks - 1 }
  undone _ := rfl

end Bracket

-- The count goes down after a failed step too.
def within (bracket : Bracket) (r : Reader α) : Reader α where
  run ctx c :=
    let (reply, left) := r.run (bracket.enter ctx) c
    (reply, bracket.leave left)
  balanced ctx c := by
    show bracket.leave (r.run (bracket.enter ctx) c).2 = ctx
    rw [r.balanced, bracket.undone]

def opensStatement : Kind → Bool
  | .kwClass | .kwFun | .kwVar | .kwFor | .kwIf | .kwWhile | .kwPrint | .kwReturn => true
  | _ => false

def resume (inBlock : Bool) (reported : List Diagnostic) : Option Token → List Token → Cursor
  | last, [] => ⟨[], last, reported⟩
  | last, t :: ts =>
    if last.any (·.kind = .semicolon) || opensStatement t.kind || (inBlock && t.kind = .rightBrace) then
      ⟨t :: ts, last, reported⟩
    else resume inBlock reported (some t) ts

-- Reports the fault of a failed step and skips what is left of its statement, at least one token. A
-- fault at an illegal token is silent: the scan has reported that token.
def recovering (r : Reader α) : Reader (Option α) where
  run ctx c :=
    match r.run ctx c with
    | (.ok a next, left) => (.ok (some a) next, left)
    | (.fail t fault failed, left) =>
      let noted := if t.kind = .illegal then failed else failed.report (fault.diagnostic t)
      let moved := if noted.rest.length = c.rest.length then noted.advance else noted
      (.ok none (resume left.inBlock moved.reported moved.last moved.rest), left)
  balanced ctx c := by
    have first := r.balanced ctx c
    split
    · next ran => exact (congrArg Prod.snd ran).symm.trans first
    · next ran => exact (congrArg Prod.snd ran).symm.trans first

end TinyScript.Parse
