import TinyScript.Tree
import TinyScript.Json

namespace TinyScript

def Position.toJson (p : Position) : Json :=
  .object [("column", .int p.column), ("line", .int p.line), ("offset", .int p.offset)]

def Span.toJson (s : Span) : Json :=
  .object [("end", s.stop.toJson), ("start", s.start.toJson)]

def Literal.toJson : Literal → Json
  | .nil => .null
  | .boolean b => .bool b
  | .number bits => .number bits
  | .string s => .string s

def Params.toJson : Params → Json
  | none => .null
  | some ps => .array (ps.map .string)

def Kind.toJson (k : Kind) : Json := .string k.label

mutual

def Expr.toJson : Expr → Json
  | .literal s v =>
    .object [("kind", .string (text "LiteralExpr")), ("span", s.toJson), ("value", v.toJson)]
  | .grouping s e =>
    .object [("inner", e.toJson), ("kind", .string (text "GroupingExpr")), ("span", s.toJson)]
  | .unary s op e =>
    .object [("kind", .string (text "UnaryExpr")), ("op", op.toJson), ("operand", e.toJson),
      ("span", s.toJson)]
  | .binary s op l r =>
    .object [("kind", .string (text "BinaryExpr")), ("left", l.toJson), ("op", op.toJson),
      ("right", r.toJson), ("span", s.toJson)]
  | .logical s op l r =>
    .object [("kind", .string (text "LogicalExpr")), ("left", l.toJson), ("op", op.toJson),
      ("right", r.toJson), ("span", s.toJson)]
  | .name s x =>
    .object [("kind", .string (text "VariableExpr")), ("name", .string x), ("span", s.toJson)]
  | .assign s x e =>
    .object [("kind", .string (text "AssignExpr")), ("name", .string x), ("span", s.toJson),
      ("value", e.toJson)]
  | .call s f args =>
    .object [("args", .array (Expr.toJsonEach args)), ("callee", f.toJson),
      ("kind", .string (text "CallExpr")), ("span", s.toJson)]
  | .lambda s ps b =>
    .object [("body", b.toJson), ("kind", .string (text "FuncExpr")), ("params", ps.toJson),
      ("span", s.toJson)]

def Expr.toJsonEach : List Expr → List Json
  | [] => []
  | e :: es => e.toJson :: Expr.toJsonEach es

def Stmt.toJson : Stmt → Json
  | .expr s e =>
    .object [("expr", e.toJson), ("kind", .string (text "ExprStmt")), ("span", s.toJson)]
  | .print s e =>
    .object [("expr", e.toJson), ("kind", .string (text "PrintStmt")), ("span", s.toJson)]
  | .declare s x none =>
    .object [("kind", .string (text "VarStmt")), ("name", .string x), ("span", s.toJson)]
  | .declare s x (some e) =>
    .object [("init", e.toJson), ("kind", .string (text "VarStmt")), ("name", .string x),
      ("span", s.toJson)]
  | .block b => b.toJson
  | .branch s c t none =>
    .object [("condition", c.toJson), ("kind", .string (text "IfStmt")), ("span", s.toJson),
      ("then", t.toJson)]
  | .branch s c t (some e) =>
    .object [("condition", c.toJson), ("else", e.toJson), ("kind", .string (text "IfStmt")),
      ("span", s.toJson), ("then", t.toJson)]
  | .loop s c b =>
    .object [("body", b.toJson), ("condition", c.toJson), ("kind", .string (text "WhileStmt")),
      ("span", s.toJson)]
  | .function s f ps b =>
    .object [("body", b.toJson), ("kind", .string (text "FuncStmt")), ("name", .string f),
      ("params", ps.toJson), ("span", s.toJson)]
  | .giveBack s none => .object [("kind", .string (text "ReturnStmt")), ("span", s.toJson)]
  | .giveBack s (some e) =>
    .object [("kind", .string (text "ReturnStmt")), ("span", s.toJson), ("value", e.toJson)]

def Block.toJson : Block → Json
  | .absent => .null
  | .braces s ss =>
    .object [("kind", .string (text "BlockStmt")), ("span", s.toJson),
      ("stmts", .array (Stmt.toJsonEach ss))]

def Stmt.toJsonEach : List Stmt → List Json
  | [] => []
  | s :: ss => s.toJson :: Stmt.toJsonEach ss

end

def programToJson (program : List Stmt) : Json :=
  .object [("body", .array (Stmt.toJsonEach program)), ("kind", .string (text "Program"))]

end TinyScript
