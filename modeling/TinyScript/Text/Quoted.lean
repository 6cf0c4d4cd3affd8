import TinyScript.Text.Printable

namespace TinyScript

namespace Quoted

def letter? (code : Nat) : Option Char :=
  match code with
  | 7 => some 'a'
  | 8 => some 'b'
  | 9 => some 't'
  | 10 => some 'n'
  | 11 => some 'v'
  | 12 => some 'f'
  | 13 => some 'r'
  | _ => none

def escape (quote : UInt8) : Glyph → Bytes
  | .stray b => text "\\x" ++ Bytes.hex 2 b.toNat
  | .char code bs =>
    if code = quote.toNat ∨ code = backslash.toNat then backslash :: bs
    else if isPrintable code then bs
    else match letter? code with
      | some c => [backslash, byte c]
      | none =>
        if code < 0x80 then text "\\x" ++ Bytes.hex 2 code
        else if code < 0x10000 then text "\\u" ++ Bytes.hex 4 code
        else text "\\U" ++ Bytes.hex 8 code

end Quoted

def quoted (s : Bytes) : Bytes :=
  [quoteMark] ++ (glyphs s).flatMap (Quoted.escape quoteMark) ++ [quoteMark]

-- A stray byte shows as U+FFFD.
def quotedFront (s : Bytes) : Bytes :=
  let shown := match (glyphs s).head? with
    | some (.char code bs) => Quoted.escape apostrophe (.char code bs)
    | _ => Utf8.replacement
  [apostrophe] ++ shown ++ [apostrophe]

end TinyScript
