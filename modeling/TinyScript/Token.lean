import TinyScript.Span
import TinyScript.Text.Quoted
import TinyScript.Decimal

namespace TinyScript

inductive Kind where
  | illegal | eof
  | leftParen | rightParen | leftBrace | rightBrace | comma | dot | minus | plus | semicolon
  | slash | star | bang | bangEqual | equal | equalEqual | greater | greaterEqual | less | lessEqual
  | ident | string | number
  | kwAnd | kwClass | kwElse | kwFalse | kwFun | kwFor | kwIf | kwNil | kwOr | kwPrint | kwReturn
  | kwSuper | kwThis | kwTrue | kwVar | kwWhile
  deriving DecidableEq, Repr

namespace Kind

def all : List Kind :=
  [.illegal, .eof, .leftParen, .rightParen, .leftBrace, .rightBrace, .comma, .dot, .minus, .plus,
   .semicolon, .slash, .star, .bang, .bangEqual, .equal, .equalEqual, .greater, .greaterEqual,
   .less, .lessEqual, .ident, .string, .number, .kwAnd, .kwClass, .kwElse, .kwFalse, .kwFun,
   .kwFor, .kwIf, .kwNil, .kwOr, .kwPrint, .kwReturn, .kwSuper, .kwThis, .kwTrue, .kwVar, .kwWhile]

def name : Kind → String
  | .illegal => "ILLEGAL"
  | .eof => "EOF"
  | .leftParen => "("
  | .rightParen => ")"
  | .leftBrace => "\x7b"
  | .rightBrace => "\x7d"
  | .comma => ","
  | .dot => "."
  | .minus => "-"
  | .plus => "+"
  | .semicolon => ";"
  | .slash => "/"
  | .star => "*"
  | .bang => "!"
  | .bangEqual => "!="
  | .equal => "="
  | .equalEqual => "=="
  | .greater => ">"
  | .greaterEqual => ">="
  | .less => "<"
  | .lessEqual => "<="
  | .ident => "IDENT"
  | .string => "STRING"
  | .number => "NUMBER"
  | .kwAnd => "and"
  | .kwClass => "class"
  | .kwElse => "else"
  | .kwFalse => "false"
  | .kwFun => "fun"
  | .kwFor => "for"
  | .kwIf => "if"
  | .kwNil => "nil"
  | .kwOr => "or"
  | .kwPrint => "print"
  | .kwReturn => "return"
  | .kwSuper => "super"
  | .kwThis => "this"
  | .kwTrue => "true"
  | .kwVar => "var"
  | .kwWhile => "while"

def keywords : List Kind :=
  [.kwAnd, .kwClass, .kwElse, .kwFalse, .kwFun, .kwFor, .kwIf, .kwNil, .kwOr, .kwPrint, .kwReturn,
   .kwSuper, .kwThis, .kwTrue, .kwVar, .kwWhile]

def isKeyword (k : Kind) : Bool := keywords.contains k

def label (k : Kind) : Bytes := text k.name

def ofWord (word : Bytes) : Kind := (keywords.find? fun k => k.label == word).getD .ident

def ofName? (name : String) : Option Kind := all.find? fun k => k.name == name

-- Numbers beyond the last kind name themselves.
def nameAt (n : Int) : Bytes :=
  match n with
  | .ofNat i => (all[i]?).elim (text "Kind(" ++ numeral i ++ text ")") label
  | .negSucc _ => text "Kind(" ++ signedNumeral n ++ text ")"

def isKeywordAt (n : Int) : Bool :=
  match n with
  | .ofNat i => (all[i]?).elim false isKeyword
  | .negSucc _ => false

end Kind

-- A number keeps the bit pattern of its double.
inductive Literal where
  | nil
  | boolean (b : Bool)
  | number (bits : UInt64)
  | string (s : Bytes)
  deriving DecidableEq, Repr

def Literal.render : Literal → Bytes
  | .nil => text "nil"
  | .boolean true => text "true"
  | .boolean false => text "false"
  | .number bits => Double.plain bits
  | .string s => s

structure Token where
  kind : Kind
  lexeme : Bytes
  literal : Literal
  span : Span
  deriving DecidableEq, Repr

namespace Token

def ending (p : Position) : Token := ⟨.eof, [], .nil, .point p⟩

def render (t : Token) : Bytes :=
  t.kind.label ++ text " " ++ quoted t.lexeme ++ text " " ++ t.span.start.render

end Token

end TinyScript
