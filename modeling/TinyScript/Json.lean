import TinyScript.Decimal
import TinyScript.Text.Utf8

namespace TinyScript

inductive Json where
  | null
  | bool (b : Bool)
  | int (n : Int)
  | number (bits : UInt64)
  | string (s : Bytes)
  | array (items : List Json)
  | object (fields : List (String × Json))

namespace Json

structure Unwritable where
  bits : UInt64
  deriving DecidableEq, Repr

def Unwritable.message (u : Unwritable) : Bytes :=
  text "json: unsupported value: " ++ Double.plain u.bits

-- Plain notation from one millionth up to below 10^21, scientific notation outside.
def writeNumber (bits : UInt64) : Except Unwritable Bytes :=
  let r := Double.rank bits
  if Double.infinite ≤ r then .error ⟨bits⟩
  else
    let small := r < Decimal.toRank ⟨1, -6⟩
    let large := Decimal.toRank ⟨1, 21⟩ ≤ r
    let d := Decimal.shortest r
    let sign := if Double.isNegative bits then text "-" else []
    .ok (sign ++ if r ≠ 0 ∧ (small ∨ large) then d.scientific else d.plain)

def escape : Glyph → Bytes
  | .stray _ => Utf8.replacement
  | .char code bs =>
    if code = quoteMark.toNat ∨ code = backslash.toNat then backslash :: bs
    else if code = 8 then text "\\b"
    else if code = 9 then text "\\t"
    else if code = 10 then text "\\n"
    else if code = 12 then text "\\f"
    else if code = 13 then text "\\r"
    else if code < 0x20 ∨ code = 0x26 ∨ code = 0x3C ∨ code = 0x3E ∨ code = 0x2028 ∨ code = 0x2029 then
      text "\\u" ++ Bytes.hex 4 code
    else bs

def writeString (s : Bytes) : Bytes := [quoteMark] ++ (glyphs s).flatMap escape ++ [quoteMark]

-- Pieces, so that texts are joined only once.
inductive Piece where
  | text (s : Bytes)
  -- a new line, indented by this many steps
  | line (level : Nat)
  deriving DecidableEq, Repr

def Piece.bytes : Piece → Bytes
  | .text s => s
  | .line level => byte '\n' :: List.replicate (2 * level) (byte ' ')

def mark (s : String) : Piece := .text (text s)

def label (key : String) : Piece := .text (writeString (text key) ++ text ": ")

mutual

def pieces (level : Nat) : Json → Except Unwritable (List Piece)
  | .null => .ok [mark "null"]
  | .bool true => .ok [mark "true"]
  | .bool false => .ok [mark "false"]
  | .int n => .ok [.text (signedNumeral n)]
  | .number bits => do
    return [.text (← writeNumber bits)]
  | .string s => .ok [.text (writeString s)]
  | .array [] => .ok [mark "[]"]
  | .array (item :: items) => do
    let first ← pieces (level + 1) item
    let more ← itemPieces (level + 1) items
    return mark "[" :: .line (level + 1) :: first ++ (more ++ [.line level, mark "]"])
  | .object [] => .ok [mark "\x7b\x7d"]
  | .object ((key, value) :: fields) => do
    let first ← pieces (level + 1) value
    let more ← fieldPieces (level + 1) fields
    return mark "\x7b" :: .line (level + 1) :: label key :: first
      ++ (more ++ [.line level, mark "\x7d"])

def itemPieces (level : Nat) : List Json → Except Unwritable (List Piece)
  | [] => .ok []
  | item :: items => do
    let first ← pieces level item
    let more ← itemPieces level items
    return mark "," :: .line level :: first ++ more

def fieldPieces (level : Nat) : List (String × Json) → Except Unwritable (List Piece)
  | [] => .ok []
  | (key, value) :: fields => do
    let first ← pieces level value
    let more ← fieldPieces level fields
    return mark "," :: .line level :: label key :: first ++ more

end

def write (j : Json) : Except Unwritable Bytes := do
  return (← pieces 0 j).flatMap Piece.bytes ++ Bytes.newline

end Json

end TinyScript
