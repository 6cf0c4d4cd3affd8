import TinyScript.Text.Utf8

namespace TinyScript

def isBlankCode (code : Nat) : Bool :=
  (0x09 ≤ code && code ≤ 0x0D) || code == 0x20 || code == 0x85 || code == 0xA0 || code == 0x1680
    || (0x2000 ≤ code && code ≤ 0x200A) || code == 0x2028 || code == 0x2029 || code == 0x202F
    || code == 0x205F || code == 0x3000

def Glyph.isBlank : Glyph → Bool
  | .char code _ => isBlankCode code
  | .stray _ => false

def trimmed (s : Bytes) : Bytes :=
  let inner := ((glyphs s).dropWhile Glyph.isBlank).reverse.dropWhile Glyph.isBlank
  inner.reverse.flatMap Glyph.bytes

end TinyScript
