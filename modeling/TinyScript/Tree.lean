import TinyScript.Token

namespace TinyScript

-- A function written without parameters has none; a hand-made tree may also hold an empty list.
abbrev Params := Option (List Bytes)

def Params.names (ps : Params) : List Bytes := ps.getD []

mutual

inductive Expr where
  | literal (span : Span) (value : Literal)
  | grouping (span : Span) (inner : Expr)
  | unary (span : Span) (op : Kind) (operand : Expr)
  | binary (span : Span) (op : Kind) (left right : Expr)
  | logical (span : Span) (op : Kind) (left right : Expr)
  | name (span : Span) (name : Bytes)
  | assign (span : Span) (name : Bytes) (value : Expr)
  | call (span : Span) (callee : Expr) (args : List Expr)
  | lambda (span : Span) (params : Params) (body : Block)

inductive Stmt where
  | expr (span : Span) (value : Expr)
  | print (span : Span) (value : Expr)
  | declare (span : Span) (name : Bytes) (value : Option Expr)
  | block (body : Block)
  | branch (span : Span) (condition : Expr) (yes : Stmt) (no : Option Stmt)
  | loop (span : Span) (condition : Expr) (body : Stmt)
  | function (span : Span) (name : Bytes) (params : Params) (body : Block)
  | giveBack (span : Span) (value : Option Expr)

inductive Block where
  | braces (span : Span) (stmts : List Stmt)
  | absent

end

instance : Inhabited Expr := ⟨.literal .unknown .nil⟩

instance : Inhabited Block := ⟨.absent⟩

instance : Inhabited Stmt := ⟨.block .absent⟩

namespace Expr

def span : Expr → Span
  | .literal s _ | .grouping s _ | .unary s _ _ | .binary s _ _ _ | .logical s _ _ _ | .name s _
  | .assign s _ _ | .call s _ _ | .lambda s _ _ => s

end Expr

end TinyScript
