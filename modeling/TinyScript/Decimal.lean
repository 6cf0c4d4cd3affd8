import TinyScript.Double

namespace TinyScript

-- The number `digits * 10^exponent`.
structure Decimal where
  digits : Nat
  exponent : Int
  deriving DecidableEq, Repr

namespace Decimal

def toRank (d : Decimal) : Nat :=
  Double.nearest (d.digits * Nat.pow 10 d.exponent.toNat) (Nat.pow 10 (-d.exponent).toNat)

def trim (digits : Nat) (exponent : Int) : Decimal :=
  if digits = 0 then ⟨0, 0⟩
  else if digits % 10 = 0 then trim (digits / 10) (exponent + 1)
  else ⟨digits, exponent⟩
termination_by digits
decreasing_by omega

def exact (r : Nat) : Decimal :=
  let m := Double.significand r
  let k := Double.scale r
  if 1074 ≤ k then ⟨m * Nat.pow 2 (k - 1074), 0⟩
  else if m % Nat.pow 2 (1074 - k) = 0 then ⟨m / Nat.pow 2 (1074 - k), 0⟩
  else ⟨m * Nat.pow 5 (1074 - k), k - 1074⟩

-- The nearer one first, at equal distance the even one.
def neighbours (d : Decimal) (length n : Nat) : List Decimal :=
  if length ≤ n then [d]
  else
    let unit := Nat.pow 10 (length - n)
    let low := d.digits / unit
    let exponent := d.exponent + (length - n : Nat)
    let twice := 2 * (d.digits % unit)
    if twice < unit ∨ (twice = unit ∧ low % 2 = 0) then [⟨low, exponent⟩, ⟨low + 1, exponent⟩]
    else [⟨low + 1, exponent⟩, ⟨low, exponent⟩]

def search (r : Nat) (d : Decimal) (length : Nat) : (tries n : Nat) → Decimal
  | 0, _ => d
  | tries + 1, n =>
    match (neighbours d length n).find? fun c => c.toRank = r with
    | some c => c
    | none => search r d length tries (n + 1)

def shortest (r : Nat) : Decimal :=
  let d := exact r
  let c := search r d (numeral d.digits).length 17 1
  trim c.digits c.exponent

def plain (d : Decimal) : Bytes :=
  let digits := numeral d.digits
  if 0 ≤ d.exponent then digits ++ List.replicate d.exponent.toNat (byte '0')
  else
    let places := (-d.exponent).toNat
    let padded := List.replicate (places + 1 - digits.length) (byte '0') ++ digits
    let whole := padded.length - places
    padded.take whole ++ [byte '.'] ++ padded.drop whole

def scientific (d : Decimal) : Bytes :=
  let digits := numeral d.digits
  let power := d.exponent + (digits.length - 1 : Nat)
  let mantissa := match digits with
    | first :: second :: more => first :: byte '.' :: second :: more
    | short => short
  mantissa ++ [byte 'e'] ++ (if 0 ≤ power then byte '+' :: numeral power.toNat
    else byte '-' :: numeral (-power).toNat)

end Decimal

namespace Double

def read (whole fraction : Bytes) : UInt64 :=
  ofRank (Decimal.toRank ⟨readNumeral (whole ++ fraction), -(fraction.length : Int)⟩)

def plain (bits : UInt64) : Bytes :=
  let r := rank bits
  if infinite < r then text "NaN"
  else
    let sign := if isNegative bits then text "-" else []
    if r = infinite then (if isNegative bits then text "-Inf" else text "+Inf")
    else sign ++ (Decimal.shortest r).plain

end Double

end TinyScript
