import TinyScript.Yaml.Node
import TinyScript.Decimal

namespace TinyScript.Yaml

inductive Meaning where
  | null
  | bool (b : Bool)
  | int (n : Int)
  | float (bits : UInt64)
  | time
  | string (content : Bytes)

def Meaning.tag : Meaning → Tag
  | .null => .null
  | .bool _ => .bool
  | .int _ => .int
  | .float _ => .float
  | .time => .timestamp
  | .string _ => .str

namespace Scalar

def word? (s : Bytes) : Option Meaning :=
  let isOne (words : List String) := words.any fun w => text w == s
  if isOne ["", "~", "null", "Null", "NULL"] then some .null
  else if isOne ["true", "True", "TRUE"] then some (.bool true)
  else if isOne ["false", "False", "FALSE"] then some (.bool false)
  else if isOne [".nan", ".NaN", ".NAN"] then some (.float 0x7FF8000000000001)
  else if isOne [".inf", ".Inf", ".INF", "+.inf", "+.Inf", "+.INF"] then
    some (.float 0x7FF0000000000000)
  else if isOne ["-.inf", "-.Inf", "-.INF"] then some (.float 0xFFF0000000000000)
  else none

def digitValue (b : UInt8) : Nat :=
  if Bytes.isDigit b then (b - byte '0').toNat
  else if byte 'a' ≤ b ∧ b ≤ byte 'z' then (b - byte 'a').toNat + 10
  else if byte 'A' ≤ b ∧ b ≤ byte 'Z' then (b - byte 'A').toNat + 10
  else 36

def natInBase? (base : Nat) (digits : Bytes) : Option Nat :=
  if digits.isEmpty || digits.any (fun d => base ≤ digitValue d) then none
  else some (digits.foldl (fun n d => base * n + digitValue d) 0)

def nat? (s : Bytes) : Option Nat :=
  match s with
  | a :: b :: rest =>
    if a = byte '0' then
      if ¬ rest.isEmpty ∧ (b = byte 'x' ∨ b = byte 'X') then natInBase? 16 rest
      else if ¬ rest.isEmpty ∧ (b = byte 'o' ∨ b = byte 'O') then natInBase? 8 rest
      else if ¬ rest.isEmpty ∧ (b = byte 'b' ∨ b = byte 'B') then natInBase? 2 rest
      else natInBase? 8 (b :: rest)
    else natInBase? 10 s
  | _ => natInBase? 10 s

def signed? (magnitude : Bytes → Option Nat) (s : Bytes) : Option Int :=
  let number (negative : Bool) (digits : Bytes) : Option Int := do
    let n ← magnitude digits
    if n < Nat.pow 2 63 ∨ (negative ∧ n = Nat.pow 2 63) then
      return if negative then -(n : Int) else n
    else none
  match s with
  | a :: rest =>
    if a = byte '-' then number true rest
    else if a = byte '+' then number false rest
    else number false s
  | [] => none

def unsigned? (s : Bytes) : Option Int := do
  let n ← nat? s
  if n < Nat.pow 2 64 then return n else none

def marked? (s : Bytes) : Option Int :=
  if (text "0b").isPrefixOf s then signed? (natInBase? 2) (s.drop 2)
  else if (text "-0b").isPrefixOf s then signed? (natInBase? 2) (byte '-' :: s.drop 3)
  else if (text "0o").isPrefixOf s then signed? (natInBase? 8) (s.drop 2)
  else if (text "-0o").isPrefixOf s then signed? (natInBase? 8) (byte '-' :: s.drop 3)
  else none

def int? (s : Bytes) : Option Int := (signed? nat? s).orElse fun _ => unsigned? s

def exponent? (s : Bytes) : Option Int :=
  match s with
  | [] => some 0
  | e :: rest =>
    if e = byte 'e' ∨ e = byte 'E' then
      let (negative, digits) := match rest with
        | sign :: more =>
          if sign = byte '-' then (true, more)
          else if sign = byte '+' then (false, more)
          else (false, rest)
        | [] => (false, rest)
      (natInBase? 10 digits).map fun n => if negative then -(n : Int) else n
    else none

def floatBits? (digits : Nat) (exponent : Int) : Option UInt64 :=
  let magnitude := (numeral digits).length + exponent
  if digits = 0 ∨ magnitude < -400 then some 0
  else if 400 < magnitude then none
  else
    let r := Decimal.toRank ⟨digits, exponent⟩
    if r = Double.infinite then none else some (Double.ofRank r)

def float? (s : Bytes) : Option UInt64 := do
  let (negative, body) := match s with
    | sign :: rest =>
      if sign = byte '-' then (true, rest)
      else if sign = byte '+' then (false, rest)
      else (false, s)
    | [] => (false, s)
  let whole := body.takeWhile Bytes.isDigit
  let rest := body.drop whole.length
  let hasPoint := rest.head? == some (byte '.')
  let fraction := if hasPoint then (rest.drop 1).takeWhile Bytes.isDigit else []
  if whole.isEmpty && fraction.isEmpty then none
  let e ← exponent? (rest.drop (if hasPoint then fraction.length + 1 else 0))
  let bits ← floatBits? (readNumeral (whole ++ fraction)) (e - fraction.length)
  return if negative then bits + 0x8000000000000000 else bits

def daysIn (year month : Nat) : Nat :=
  if month = 2 then
    if year % 4 = 0 ∧ (year % 100 ≠ 0 ∨ year % 400 = 0) then 29 else 28
  else if month = 4 ∨ month = 6 ∨ month = 9 ∨ month = 11 then 30
  else 31

def twoDigits? (s : Bytes) : Option (Nat × Bytes) :=
  let digits := (s.take 2).takeWhile Bytes.isDigit
  if digits.isEmpty then none else some (readNumeral digits, s.drop digits.length)

def mark? (b : Char) (s : Bytes) : Option Bytes :=
  if s.head? = some (byte b) then some (s.drop 1) else none

def clockTime? (s : Bytes) : Option Bytes := do
  let (hour, s) ← twoDigits? s
  let (minute, s) ← twoDigits? (← mark? ':' s)
  let (second, s) ← twoDigits? (← mark? ':' s)
  if hour < 24 ∧ minute < 60 ∧ second < 60 then
    match (mark? '.' s).orElse fun _ => mark? ',' s with
    | some rest =>
      let fraction := rest.takeWhile Bytes.isDigit
      if fraction.isEmpty then none else return rest.drop fraction.length
    | none => return s
  else none

def isZone (s : Bytes) : Bool :=
  s == text "Z" ||
    match s with
    | [sign, a, b, colon, c, d] =>
      (sign == byte '+' || sign == byte '-') && colon == byte ':'
        && [a, b, c, d].all Bytes.isDigit && readNumeral [a, b] ≤ 24 && readNumeral [c, d] ≤ 60
    | _ => false

-- The time stands behind a `T` and has a zone, or behind spaces and has none.
def isTime (s : Bytes) : Bool :=
  let year := s.take 4
  let found : Option Bytes := do
    if year.length < 4 ∨ ¬ year.all Bytes.isDigit then none
    let (month, rest) ← twoDigits? (← mark? '-' (s.drop 4))
    let (day, rest) ← twoDigits? (← mark? '-' rest)
    if 1 ≤ month ∧ month ≤ 12 ∧ 1 ≤ day ∧ day ≤ daysIn (readNumeral year) month then
      return rest
    else none
  match found with
  | none => false
  | some [] => true
  | some (separator :: rest) =>
    if separator = byte 'T' ∨ separator = byte 't' then (clockTime? rest).any isZone
    else separator = byte ' '
      && (clockTime? (rest.dropWhile (· == byte ' '))).any (·.isEmpty)

def dividesDigits (before : UInt8) : Bytes → Bool
  | [] => before != byte '_'
  | b :: rest =>
    (if b = byte '_' then Bytes.isDigit before
      else before != byte '_' || Bytes.isDigit b) && dividesDigits b rest

-- Underscores do not count in numbers; in one that begins with its point they have to divide digits.
def meaning (s : Bytes) : Meaning :=
  match word? s with
  | some m => m
  | none =>
    match s with
    | [] => .null
    | first :: _ =>
      let bare := s.filter (· != byte '_')
      if first = byte '.' then
        if dividesDigits first s then (float? bare).elim (.string s) .float else .string s
      else if Bytes.isDigit first ∨ first = byte '+' ∨ first = byte '-' then
        if isTime s then .time
        else
          match int? bare, float? bare, marked? bare with
          | some n, _, _ => .int n
          | none, some bits, _ => .float bits
          | none, none, some n => .int n
          | none, none, none => .string s
      else .string s

def floatOfInt? (n : Int) : Option UInt64 :=
  if n < Nat.pow 2 63 then
    (floatBits? n.natAbs 0).map fun bits => if n < 0 then bits + 0x8000000000000000 else bits
  else none

def sextet? (b : UInt8) : Option Nat :=
  if byte 'A' ≤ b ∧ b ≤ byte 'Z' then some (b - byte 'A').toNat
  else if byte 'a' ≤ b ∧ b ≤ byte 'z' then some ((b - byte 'a').toNat + 26)
  else if Bytes.isDigit b then some ((b - byte '0').toNat + 52)
  else if b = byte '+' then some 62
  else if b = byte '/' then some 63
  else none

def binaryGroups? : Bytes → Option Bytes
  | [] => some []
  | [a, b, c, d] => do
    let a ← sextet? a
    let b ← sextet? b
    let first := (4 * a + b / 16).toUInt8
    if c = byte '=' then
      if d = byte '=' then return [first] else none
    let c ← sextet? c
    let second := (16 * b + c / 4).toUInt8
    if d = byte '=' then return [first, second]
    let d ← sextet? d
    return [first, second, (64 * c + d).toUInt8]
  | a :: b :: c :: d :: rest => do
    let a ← sextet? a
    let b ← sextet? b
    let c ← sextet? c
    let d ← sextet? d
    let more ← binaryGroups? rest
    return (4 * a + b / 16).toUInt8 :: (16 * b + c / 4).toUInt8 :: (64 * c + d).toUInt8 :: more
  | _ => none

def binary? (s : Bytes) : Option Bytes :=
  binaryGroups? (s.filter fun b => b != byte '\n' && b != byte '\r')

def under? (tag : Tag) (value : Bytes) : Option Meaning :=
  match tag with
  | .binary => (binary? value).map .string
  | .str | .seq | .map | .merge | .other _ => some (.string value)
  | .null | .bool | .int | .float | .timestamp =>
    let m := meaning value
    if m.tag = tag then some m
    else match tag, m with
      | .float, .int n => (floatOfInt? n).map .float
      | _, _ => none

end Scalar

end TinyScript.Yaml
