import TinyScript.Tree

namespace TinyScript

def parenthesized (head : Bytes) (parts : Bytes) : Bytes := text "(" ++ head ++ parts ++ text ")"

def Literal.written : Literal → Bytes
  | .string s => quoted s
  | l => l.render

mutual

def Expr.render : Expr → Bytes
  | .literal _ v => v.written
  | .grouping _ e => parenthesized (text "group") (text " " ++ e.render)
  | .unary _ op e => parenthesized op.label (text " " ++ e.render)
  | .binary _ op l r | .logical _ op l r =>
    parenthesized op.label (text " " ++ l.render ++ text " " ++ r.render)
  | .name _ x => x
  | .assign _ x e => parenthesized (text "= " ++ x) (text " " ++ e.render)
  | .call _ f args => parenthesized (text "call") (text " " ++ f.render ++ Expr.renderEach args)
  | .lambda _ ps b =>
    parenthesized (text "fun (" ++ Bytes.join (text " ") ps.names ++ text ")") (text " " ++ b.render)

def Expr.renderEach : List Expr → Bytes
  | [] => []
  | e :: es => text " " ++ e.render ++ Expr.renderEach es

def Stmt.render : Stmt → Bytes
  | .expr _ e => parenthesized (text ";") (text " " ++ e.render)
  | .print _ e => parenthesized (text "print") (text " " ++ e.render)
  | .declare _ x none => parenthesized (text "var " ++ x) []
  | .declare _ x (some e) => parenthesized (text "var " ++ x) (text " " ++ e.render)
  | .block b => b.render
  | .branch _ c s none => parenthesized (text "if") (text " " ++ c.render ++ text " " ++ s.render)
  | .branch _ c s (some t) =>
    parenthesized (text "if")
      (text " " ++ c.render ++ text " " ++ s.render ++ text " " ++ t.render)
  | .loop _ c s => parenthesized (text "while") (text " " ++ c.render ++ text " " ++ s.render)
  | .function _ f ps b =>
    parenthesized (text "fun " ++ f ++ text "(" ++ Bytes.join (text " ") ps.names ++ text ")")
      (text " " ++ b.render)
  | .giveBack _ none => parenthesized (text "return") []
  | .giveBack _ (some e) => parenthesized (text "return") (text " " ++ e.render)

def Block.render : Block → Bytes
  | .absent => text "<nil>"
  | .braces _ ss => parenthesized (text "block") (Stmt.renderEach ss)

def Stmt.renderEach : List Stmt → Bytes
  | [] => []
  | s :: ss => text " " ++ s.render ++ Stmt.renderEach ss

end

def renderProgram (program : List Stmt) : Bytes :=
  Bytes.join Bytes.newline (program.map Stmt.render)

end TinyScript
