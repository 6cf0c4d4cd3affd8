import TinyScript.Text

namespace TinyScript.Double

def infinite : Nat := 2047 * Nat.pow 2 52

def rank (bits : UInt64) : Nat := bits.toNat % Nat.pow 2 63

def isNegative (bits : UInt64) : Bool := Nat.pow 2 63 ≤ bits.toNat

def ofRank (r : Nat) : UInt64 := r.toUInt64

def significand (r : Nat) : Nat :=
  if r < Nat.pow 2 52 then r else r % Nat.pow 2 52 + Nat.pow 2 52

def scale (r : Nat) : Nat := r / Nat.pow 2 52 - 1

def roundDiv (num den : Nat) : Nat :=
  let floor := num / den
  let twice := 2 * (num % den)
  if twice < den then floor
  else if den < twice then floor + 1
  else floor + floor % 2

-- The quotient is taken in units of `2^(k - 1074)`, for the least `k` at which the significand has at most 53
-- digits.
def nearest (num den : Nat) : Nat :=
  if num = 0 then 0 else
    let fine := num * Nat.pow 2 1074
    let guess := fine.log2 - den.log2 - 53
    let k := if fine / (den * Nat.pow 2 guess) < Nat.pow 2 53 then guess else guess + 1
    min infinite (k * Nat.pow 2 52 + roundDiv fine (den * Nat.pow 2 k))

end TinyScript.Double
