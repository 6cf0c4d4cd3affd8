import TinyScript.Text

namespace TinyScript

namespace Utf8

def isTail (b : UInt8) : Bool := 0x80 ≤ b && b ≤ 0xBF

-- Overlong forms, surrogates and values above U+10FFFF are no characters; the bounds on the second byte exclude
-- them.
def front? : Bytes → Option (Nat × Nat)
  | [] => none
  | a :: rest =>
    if a < 0x80 then some (a.toNat, 1)
    else if a < 0xC2 then none
    else if a < 0xE0 then
      match rest with
      | b :: _ =>
        if isTail b then some ((a.toNat - 0xC0) * 64 + (b.toNat - 0x80), 2) else none
      | [] => none
    else if a < 0xF0 then
      match rest with
      | b :: c :: _ =>
        if isTail b && isTail c && (a != 0xE0 || 0xA0 ≤ b) && (a != 0xED || b ≤ 0x9F) then
          some ((a.toNat - 0xE0) * 4096 + (b.toNat - 0x80) * 64 + (c.toNat - 0x80), 3)
        else none
      | _ => none
    else if a < 0xF5 then
      match rest with
      | b :: c :: d :: _ =>
        if isTail b && isTail c && isTail d && (a != 0xF0 || 0x90 ≤ b) && (a != 0xF4 || b ≤ 0x8F) then
          some ((a.toNat - 0xF0) * 262144 + (b.toNat - 0x80) * 4096 + (c.toNat - 0x80) * 64
            + (d.toNat - 0x80), 4)
        else none
      | _ => none
    else none

def width (s : Bytes) : Nat := (front? s).elim 1 (·.2)

theorem width_pos (s : Bytes) : 0 < width s := by
  unfold width
  cases front : front? s with
  | none => simp
  | some found =>
    simp only [Option.elim]
    unfold front? at front
    grind

def replacement : Bytes := [0xEF, 0xBF, 0xBD]

end Utf8

inductive Glyph where
  | char (code : Nat) (bytes : Bytes)
  | stray (b : UInt8)
  deriving DecidableEq, Repr

namespace Glyph

def bytes : Glyph → Bytes
  | .char _ bs => bs
  | .stray b => [b]

end Glyph

def glyphs (s : Bytes) : List Glyph :=
  match s with
  | [] => []
  | a :: rest =>
    match Utf8.front? (a :: rest) with
    | some (code, n) => .char code ((a :: rest).take n) :: glyphs (rest.drop (n - 1))
    | none => .stray a :: glyphs rest
termination_by s.length

def countGlyphs (n : Nat) (s : Bytes) : Nat :=
  match s with
  | [] => n
  | a :: rest => countGlyphs (n + 1) (rest.drop (Utf8.width (a :: rest) - 1))
termination_by s.length

def glyphCount (s : Bytes) : Nat := countGlyphs 0 s

end TinyScript
