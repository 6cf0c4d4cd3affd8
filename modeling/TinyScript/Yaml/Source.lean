import TinyScript.Text.Utf8

namespace TinyScript.Yaml

structure Source where
  portions : List (List Char)
  broken : Bool

namespace Source

inductive Front where
  | char (c : Char) (width : Nat)
  -- the portion ends inside a character
  | incomplete
  | flaw

def isAllowed (code : Nat) : Bool :=
  code == 0x09 || code == 0x0A || code == 0x0D || (0x20 ≤ code && code ≤ 0x7E) || code == 0x85
    || (0xA0 ≤ code && code ≤ 0xD7FF) || (0xE000 ≤ code && code ≤ 0xFFFD)
    || (0x10000 ≤ code && code ≤ 0x10FFFF)

def allowed (code width : Nat) : Front :=
  if isAllowed code then .char (Char.ofNat code) width else .flaw

def announced? (b : UInt8) : Option Nat :=
  if b < 0x80 then some 1
  else if b < 0xC0 then none
  else if b < 0xE0 then some 2
  else if b < 0xF0 then some 3
  else if b < 0xF8 then some 4
  else none

def utf8Front : Bytes → Front
  | [] => .incomplete
  | b :: rest =>
    match announced? b with
    | none => .flaw
    | some width =>
      if ((b :: rest).drop (width - 1)).isEmpty then .incomplete
      else match Utf8.front? (b :: rest) with
        | none => .flaw
        | some (code, _) => allowed code width

def utf16Front (unit : UInt8 → UInt8 → Nat) : Bytes → Front
  | a :: b :: rest =>
    let high := unit a b
    if 0xDC00 ≤ high ∧ high < 0xE000 then .flaw
    else if 0xD800 ≤ high ∧ high < 0xDC00 then
      match rest with
      | c :: d :: _ =>
        let low := unit c d
        if 0xDC00 ≤ low ∧ low < 0xE000 then
          allowed (0x10000 + (high - 0xD800) * 0x400 + (low - 0xDC00)) 4
        else .flaw
      | _ => .incomplete
    else allowed high 2
  | _ => .incomplete

def portion? (front : Bytes → Front) : (bound : Nat) → Bytes → Option (List Char × Bytes)
  | 0, bytes => some ([], bytes)
  | bound + 1, bytes =>
    match front bytes with
    | .incomplete => some ([], bytes)
    | .flaw => none
    | .char c width => do
      let (more, left) ← portion? front bound (bytes.drop width)
      return (c :: more, left)

def portionSize : Nat := 512

-- What is left over of one portion begins the next; a character that the text ends in cannot be read.
def readPortions (front : Bytes → Front) : (bound size : Nat) → Bytes → Source
  | 0, _, bytes => ⟨[], !bytes.isEmpty⟩
  | bound + 1, size, bytes =>
    if bytes.isEmpty then ⟨[], false⟩
    else match portion? front size (bytes.take size) with
      | none | some ([], _) => ⟨[], true⟩
      | some (chars, left) =>
        let next := readPortions front bound portionSize (left ++ bytes.drop size)
        ⟨chars :: next.portions, next.broken⟩

def read (bytes : Bytes) : Source :=
  let bound := bytes.length + 1
  if [0xFF, 0xFE].isPrefixOf bytes then
    readPortions (utf16Front fun a b => a.toNat + 256 * b.toNat) bound (portionSize - 2) (bytes.drop 2)
  else if [0xFE, 0xFF].isPrefixOf bytes then
    readPortions (utf16Front fun a b => 256 * a.toNat + b.toNat) bound (portionSize - 2) (bytes.drop 2)
  else if [0xEF, 0xBB, 0xBF].isPrefixOf bytes then
    readPortions utf8Front bound (portionSize - 3) (bytes.drop 3)
  else readPortions utf8Front bound portionSize bytes

end Source

end TinyScript.Yaml
