import TinyScript.Text

namespace TinyScript.Yaml

inductive Tag where
  | null | bool | int | float | timestamp | str | seq | map | binary | merge
  | other (name : Bytes)
  deriving DecidableEq, Repr

namespace Tag

def name : Tag → Bytes
  | .null => text "!!null"
  | .bool => text "!!bool"
  | .int => text "!!int"
  | .float => text "!!float"
  | .timestamp => text "!!timestamp"
  | .str => text "!!str"
  | .seq => text "!!seq"
  | .map => text "!!map"
  | .binary => text "!!binary"
  | .merge => text "!!merge"
  | .other name => name

def languagePart : Bytes := text "tag:yaml.org,2002:"

def ofName (written : Bytes) : Tag :=
  let short := if languagePart.isPrefixOf written then
      text "!!" ++ written.drop languagePart.length
    else written
  ([.null, .bool, .int, .float, .timestamp, .str, .seq, .map, .binary, .merge].find?
    (·.name == short)).getD (.other short)

end Tag

inductive Node where
  | scalar (line : Nat) (tag : Tag) (value : Bytes)
  | sequence (line : Nat) (tag : Tag) (items : List Node)
  | mapping (line : Nat) (tag : Tag) (entries : List (Node × Node))
  -- another place of a node that was given a name, by the number of the node
  | alias (line : Nat) (name : Bytes) (target : Nat)

namespace Node

instance : Inhabited Node := ⟨.scalar 0 .null []⟩

def line : Node → Nat
  | .scalar n _ _ | .sequence n _ _ | .mapping n _ _ | .alias n _ _ => n

def missing (line : Nat) : Node := .scalar line .null []

def value : Node → Bytes
  | .scalar _ _ v | .alias _ v _ => v
  | _ => []

def sameShape : Node → Node → Bool
  | .scalar _ _ _, .scalar _ _ _ | .sequence _ _ _, .sequence _ _ _
  | .mapping _ _ _, .mapping _ _ _ | .alias _ _ _, .alias _ _ _ => true
  | _, _ => false

def isMergeKey : Node → Bool
  | .scalar _ tag value => tag == .merge && value == text "<<"
  | _ => false

end Node

end TinyScript.Yaml
