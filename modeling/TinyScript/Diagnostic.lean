import TinyScript.Span

namespace TinyScript

abbrev Code := String

namespace Code

def unterminatedString : Code := "E1001"
def unexpectedCharacter : Code := "E1003"

def expectedToken : Code := "E2001"
def expectedExpression : Code := "E2002"
def invalidTarget : Code := "E2003"
def tooMany : Code := "E2004"
def unsupported : Code := "E2005"
def strayReturn : Code := "E2006"

def undefinedVariable : Code := "E3001"
def operandType : Code := "E3002"
def divisionByZero : Code := "E3003"
def notCallable : Code := "E3004"
def arity : Code := "E3005"
def stackOverflow : Code := "E3006"
def stepBudget : Code := "E3007"
def builtin : Code := "E3008"

end Code

abbrev Stage := String

namespace Stage

def scanning : Stage := "lexical"
def parsing : Stage := "syntax"
def running : Stage := "runtime"

end Stage

inductive Severity where
  | error
  | unknown
  deriving DecidableEq, Repr

def Severity.name : Severity → String
  | .error => "error"
  | .unknown => "unknown"

def withHint (message hint : Bytes) : Bytes :=
  if hint = [] then message else message ++ text " (hint: " ++ hint ++ text ")"

structure Diagnostic where
  code : Code
  severity : Severity
  stage : Stage
  message : Bytes
  span : Span
  hint : Bytes
  deriving DecidableEq, Repr

namespace Diagnostic

def render (d : Diagnostic) : Bytes :=
  withHint (text "[" ++ text d.code ++ text "] " ++ text d.severity.name ++ text " at "
    ++ d.span.start.render ++ text ": " ++ d.message) d.hint

def anyError (ds : List Diagnostic) : Bool := ds.any fun d => d.severity == .error

end Diagnostic

structure Report where
  stage : Stage
  code : Code
  line : Int
  column : Int
  message : Bytes
  hint : Bytes
  deriving DecidableEq, Repr

namespace Report

def ofDiagnostic (d : Diagnostic) : Report :=
  ⟨d.stage, d.code, d.span.start.line, d.span.start.column, d.message, d.hint⟩

def render (r : Report) : Bytes :=
  withHint (text "[" ++ text r.code ++ text "] " ++ text r.stage ++ text " error at "
    ++ signedNumeral r.line ++ text ":" ++ signedNumeral r.column ++ text ": " ++ r.message) r.hint

def atEnd : Bytes := text " at end"

-- A string is still open, or every fault is a syntax fault at the end of the source.
def incomplete (rs : List Report) : Bool :=
  !rs.isEmpty &&
    (rs.any (fun r => r.code == Code.unterminatedString)
      || rs.all (fun r => r.stage == Stage.parsing && atEnd.isSuffixOf r.message))

end Report

end TinyScript
