import TinyScript.Text

namespace TinyScript.Yaml

-- Lines and columns count from zero.
structure Mark where
  index : Nat
  line : Nat
  column : Nat
  deriving DecidableEq, Repr

inductive ScalarStyle where
  | plain | singleQuoted | doubleQuoted | literal | folded
  deriving DecidableEq, Repr

inductive TokenKind where
  | streamStart | streamEnd
  | documentStart | documentEnd
  | version (major minor : Nat)
  | tagDirective (handle : String) (expansion : Bytes)
  | blockSequenceStart | blockMappingStart | blockEnd
  | flowSequenceStart | flowSequenceEnd | flowMappingStart | flowMappingEnd
  | blockEntry | flowEntry | key | value
  | alias (name : String)
  | anchor (name : String)
  | tag (handle : String) (suffix : Bytes)
  | scalar (style : ScalarStyle) (content : String)
  deriving DecidableEq, Repr

structure Token where
  kind : TokenKind
  mark : Mark
  endLine : Nat
  deriving DecidableEq, Repr

end TinyScript.Yaml
