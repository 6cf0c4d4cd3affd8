import TinyScript.Session
import TinyScript.Tree.Json

namespace TinyScript

def Json.optional (key : String) (s : Bytes) : List (String × Json) :=
  if s.isEmpty then [] else [(key, .string s)]

def Diagnostic.toJson (d : Diagnostic) : Json :=
  .object ([("code", .string (text d.code)), ("column", .int d.span.start.column)]
    ++ Json.optional "hint" d.hint
    ++ [("line", .int d.span.start.line), ("message", .string d.message),
      ("offset", .int d.span.start.offset), ("severity", .string (text d.severity.name)),
      ("stage", .string (text d.stage))])

def Token.toJson (t : Token) : Json :=
  let literal := match t.literal with
    | .nil => []
    | l => [("literal", l.toJson)]
  .object ([("kind", t.kind.toJson), ("lexeme", .string t.lexeme)] ++ literal
    ++ [("line", .int t.span.start.line), ("column", .int t.span.start.column),
      ("offset", .int t.span.start.offset)])

def Report.toJson (r : Report) : Json :=
  .object ([("stage", .string (text r.stage)), ("code", .string (text r.code)),
      ("line", .int r.line), ("column", .int r.column), ("message", .string r.message)]
    ++ Json.optional "hint" r.hint)

-- No lines are null, no reports have no field.
def Evaluation.toJson (e : Evaluation) : Json :=
  let output := if e.output.isEmpty then .null else .array (e.output.map .string)
  let reports := if e.reports.isEmpty then [] else [("reports", .array (e.reports.map Report.toJson))]
  .object ([("output", output)] ++ reports ++ [("ok", .bool e.ok)])

def tokensToJson (tokens : List Token) (diagnostics : List Diagnostic) : Json :=
  .object [("diagnostics", .array (diagnostics.map Diagnostic.toJson)),
    ("tokens", .array (tokens.map Token.toJson))]

def analysisToJson (a : Analysis) : Json :=
  .object [("ast", programToJson a.program),
    ("diagnostics", .array (a.diagnostics.map Diagnostic.toJson))]

end TinyScript
