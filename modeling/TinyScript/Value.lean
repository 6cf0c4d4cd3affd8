import TinyScript.Tree

namespace TinyScript

abbrev ScopeId := Nat

inductive Builtin where
  | clock | len | str | type
  deriving DecidableEq, Repr

namespace Builtin

def all : List Builtin := [.clock, .len, .str, .type]

def name : Builtin → Bytes
  | .clock => text "clock"
  | .len => text "len"
  | .str => text "str"
  | .type => text "type"

def arity : Builtin → Nat
  | .clock => 0
  | .len | .str | .type => 1

end Builtin

-- A lambda has an empty name.
structure Closure where
  name : Bytes
  params : Params
  body : Block
  scope : ScopeId

inductive Value where
  | nil
  | boolean (b : Bool)
  | number (x : Float)
  | string (s : Bytes)
  | function (identity : Nat) (f : Closure)
  | builtin (identity : Nat) (b : Builtin)

inductive ValueType where
  | nil | boolean | number | string | function
  deriving DecidableEq, Repr

def ValueType.name : ValueType → String
  | .nil => "nil"
  | .boolean => "boolean"
  | .number => "number"
  | .string => "string"
  | .function => "function"

namespace Value

def ofLiteral : Literal → Value
  | .nil => .nil
  | .boolean b => .boolean b
  | .number bits => .number (Float.ofBits bits)
  | .string s => .string s

def type : Value → ValueType
  | .nil => .nil
  | .boolean _ => .boolean
  | .number _ => .number
  | .string _ => .string
  | .function _ _ | .builtin _ _ => .function

def render : Value → Bytes
  | .nil => text "nil"
  | .boolean true => text "true"
  | .boolean false => text "false"
  | .number x => Double.plain x.toBits
  | .string s => s
  | .function _ f => if f.name = [] then text "<fn>" else text "<fn " ++ f.name ++ text ">"
  | .builtin _ _ => text "<native fn>"

def isTruthy : Value → Bool
  | .nil => false
  | .boolean b => b
  | _ => true

def equals : Value → Value → Bool
  | .nil, .nil => true
  | .boolean a, .boolean b => a == b
  | .number x, .number y => x == y
  | .string s, .string t => s == t
  | .function i _, .function j _ => i == j
  | .builtin i _, .builtin j _ => i == j
  | _, _ => false

end Value

end TinyScript
