namespace TinyScript

abbrev Bytes := List UInt8

def text (s : String) : Bytes := s.toUTF8.data.toList

def byte (c : Char) : UInt8 := c.toUInt8

def quoteMark : UInt8 := 0x22

def apostrophe : UInt8 := 0x27

def backslash : UInt8 := 0x5C

namespace Bytes

def newline : Bytes := [byte '\n']

def isDigit (b : UInt8) : Bool := byte '0' ≤ b && b ≤ byte '9'

def isLetter (b : UInt8) : Bool :=
  (byte 'a' ≤ b && b ≤ byte 'z') || (byte 'A' ≤ b && b ≤ byte 'Z') || b == byte '_'

-- A proper beginning comes first.
def le : Bytes → Bytes → Bool
  | [], _ => true
  | _ :: _, [] => false
  | a :: as, b :: bs => a < b || (a == b && le as bs)

def split (mark : UInt8) (s : Bytes) : List Bytes :=
  s.foldr (fun b pieces =>
    match pieces with
    | [] => [[b]]
    | first :: others => if b = mark then [] :: pieces else (b :: first) :: others) [[]]

def lines (s : Bytes) : List Bytes := split (byte '\n') s

def join (separator : Bytes) (parts : List Bytes) : Bytes := separator.intercalate parts

def hexDigit (n : Nat) : UInt8 :=
  if n < 10 then byte '0' + n.toUInt8 else byte 'a' + (n - 10).toUInt8

def hex : Nat → Nat → Bytes
  | 0, _ => []
  | width + 1, n => hex width (n / 16) ++ [hexDigit (n % 16)]

end Bytes

def numeral (n : Nat) : Bytes :=
  if n < 10 then [byte '0' + n.toUInt8] else numeral (n / 10) ++ [byte '0' + (n % 10).toUInt8]
termination_by n

def signedNumeral : Int → Bytes
  | .ofNat n => numeral n
  | .negSucc n => byte '-' :: numeral (n + 1)

def readNumeral (digits : Bytes) : Nat :=
  digits.foldl (fun n d => 10 * n + (d - byte '0').toNat) 0

end TinyScript
