import Mathlib.Data.List.TakeWhile
import Mathlib.Tactic.Ring
import TinyScript.Proofs.Text
import TinyScript.Token.Scan

namespace TinyScript

namespace Double

theorem roundDiv_scale (num den : Nat) (positive : 0 < c) : roundDiv (num * c) (den * c) = roundDiv num den := by
  have twice : 2 * (num % den * c) = 2 * (num % den) * c := by ring
  unfold roundDiv
  dsimp only
  rw [Nat.mul_div_mul_right _ _ positive, Nat.mul_mod_mul_right, twice]
  simp only [Nat.mul_lt_mul_right positive]

theorem roundDiv_exact (m : Nat) (positive : 0 < den) : roundDiv (m * den) den = m := by
  unfold roundDiv
  dsimp only
  rw [Nat.mul_div_cancel _ positive, Nat.mul_mod_left, if_pos (by omega)]

-- The unit in which a quotient has at most 53 binary digits, and 53 of them unless it is the least one.
structure Fits (fine den k : Nat) : Prop where
  within : fine < den * 2 ^ (k + 53)
  least : k = 0 ∨ den * 2 ^ (k + 52) ≤ fine

theorem Fits.unique (fits : Fits fine den k) (other : Fits fine den k') : k = k' := by
  have finer {a b : Nat} (below : a < b) (small : fine < den * 2 ^ (a + 53)) (large : den * 2 ^ (b + 52) ≤ fine) :
      False := by
    have mono : den * 2 ^ (a + 53) ≤ den * 2 ^ (b + 52) :=
      Nat.mul_le_mul_left den (Nat.pow_le_pow_right (by decide) (by omega))
    omega
  have large := fits.least
  have large' := other.least
  rcases Nat.lt_trichotomy k k' with below | same | above
  · exact (finer below fits.within (large'.resolve_left (by omega))).elim
  · exact same
  · exact (finer above other.within (large.resolve_left (by omega))).elim

theorem Fits.scale (fits : Fits fine den k) (positive : 0 < c) : Fits (fine * c) (den * c) k := by
  have swap (n : Nat) : den * c * n = den * n * c := Nat.mul_right_comm ..
  obtain ⟨within, least⟩ := fits
  constructor
  · rw [swap]
    exact Nat.mul_lt_mul_of_pos_right within positive
  · rw [swap]
    exact least.imp_right fun large => Nat.mul_le_mul_right c large

theorem fits_guess (fine den : Nat) (some : fine ≠ 0) (positive : 0 < den) :
    Fits fine den (if fine / (den * 2 ^ (fine.log2 - den.log2 - 53)) < 2 ^ 53 then fine.log2 - den.log2 - 53
      else fine.log2 - den.log2 - 53 + 1) := by
  have fineLow : 2 ^ fine.log2 ≤ fine := Nat.log2_self_le some
  have fineHigh : fine < 2 ^ (fine.log2 + 1) := Nat.lt_log2_self
  have denLow : 2 ^ den.log2 ≤ den := Nat.log2_self_le (by omega)
  have denHigh : den < 2 ^ (den.log2 + 1) := Nat.lt_log2_self
  generalize fine.log2 = l at *
  generalize den.log2 = d at *
  generalize guess : l - d - 53 = g
  have unit : den * 2 ^ g * 2 ^ 53 = den * 2 ^ (g + 53) := by rw [Nat.pow_add]; ring
  have quotient : fine / (den * 2 ^ g) < 2 ^ 53 ↔ fine < den * 2 ^ (g + 53) := by
    rw [Nat.div_lt_iff_lt_mul (Nat.mul_pos positive (Nat.two_pow_pos g)), Nat.mul_comm, unit]
  split
  · next small =>
    refine ⟨quotient.1 small, ?_⟩
    by_cases first : g = 0
    · exact .inl first
    · refine .inr (Nat.le_of_lt ?_)
      calc den * 2 ^ (g + 52) < 2 ^ (d + 1) * 2 ^ (g + 52) :=
            Nat.mul_lt_mul_of_pos_right denHigh (Nat.two_pow_pos _)
        _ = 2 ^ l := by rw [← Nat.pow_add]; congr 1; omega
        _ ≤ fine := fineLow
  · next large =>
    refine ⟨?_, .inr ?_⟩
    · calc fine < 2 ^ (l + 1) := fineHigh
        _ ≤ 2 ^ (d + (g + 1 + 53)) := Nat.pow_le_pow_right (by decide) (by omega)
        _ = 2 ^ d * 2 ^ (g + 1 + 53) := Nat.pow_add ..
        _ ≤ den * 2 ^ (g + 1 + 53) := Nat.mul_le_mul_right _ denLow
    · exact Nat.not_lt.1 fun small => large (quotient.2 small)

-- A finite double is a whole number of times the least one, which is one part in so many.
@[irreducible] def finest : Nat := Nat.pow 2 1074

theorem finest_pos : 0 < finest := by
  unfold finest
  generalize 1074 = n
  exact Nat.two_pow_pos n

theorem pow_mul_finest (large : 1074 ≤ k) : 2 ^ (k - 1074) * finest = 2 ^ k := by
  unfold finest
  generalize 1074 = n at large ⊢
  rw [Nat.pow_eq, ← Nat.pow_add, Nat.sub_add_cancel large]

theorem pow_mul_pow_finest (small : k ≤ 1074) : 2 ^ (1074 - k) * 2 ^ k = finest := by
  unfold finest
  generalize 1074 = n at small ⊢
  rw [Nat.pow_eq, ← Nat.pow_add, Nat.sub_add_cancel small]

theorem nearest_zero (den : Nat) : nearest 0 den = 0 := if_pos rfl

theorem nearest_of_fits (some : num ≠ 0) (positive : 0 < den) (fits : Fits (num * finest) den k) :
    nearest num den = min infinite (k * 2 ^ 52 + roundDiv (num * finest) (den * 2 ^ k)) := by
  have someFine : num * finest ≠ 0 := Nat.mul_ne_zero some (Nat.ne_of_gt finest_pos)
  have guess := (fits_guess (num * finest) den someFine positive).unique fits
  unfold nearest
  unfold finest at guess ⊢
  generalize Nat.pow 2 1074 = unit at guess ⊢
  rw [if_neg some, ← guess]
  rfl

theorem nearest_scale (num : Nat) (positive : 0 < den) (factor : 0 < c) :
    nearest (num * c) (den * c) = nearest num den := by
  by_cases none : num = 0
  · rw [none, Nat.zero_mul, nearest_zero, nearest_zero]
  · have someFine : num * finest ≠ 0 := Nat.mul_ne_zero none (Nat.ne_of_gt finest_pos)
    obtain ⟨k, fits⟩ : ∃ k, Fits (num * finest) den k := ⟨_, fits_guess _ den someFine positive⟩
    have swap : num * c * finest = num * finest * c := Nat.mul_right_comm ..
    have swap' (n : Nat) : den * c * n = den * n * c := Nat.mul_right_comm ..
    have scaled : Fits (num * c * finest) (den * c) k := swap ▸ fits.scale factor
    rw [nearest_of_fits none positive fits, nearest_of_fits (Nat.mul_ne_zero none (Nat.ne_of_gt factor))
      (Nat.mul_pos positive factor) scaled, swap, swap', roundDiv_scale _ _ factor]

theorem nearest_le (num den : Nat) : nearest num den ≤ infinite := by
  unfold nearest
  split
  · exact Nat.zero_le _
  · exact Nat.min_le_left _ _

theorem scale_significand (r : Nat) : scale r * 2 ^ 52 + significand r = r ∧ significand r < 2 ^ 53 ∧
    (scale r = 0 ∨ 2 ^ 52 ≤ significand r) := by
  unfold scale significand
  simp only [Nat.pow_eq]
  split <;> omega

theorem nearest_exact (small : r < infinite) (positive : 0 < den)
    (exact : num * finest = significand r * (den * 2 ^ scale r)) : nearest num den = r := by
  obtain ⟨sum, narrow, wide⟩ := scale_significand r
  by_cases none : num = 0
  · rw [none, Nat.zero_mul, eq_comm, Nat.mul_eq_zero] at exact
    have zero : significand r = 0 := exact.resolve_right (Nat.ne_of_gt (Nat.mul_pos positive (Nat.two_pow_pos _)))
    rw [none, nearest_zero]
    omega
  · have fits : Fits (num * finest) den (scale r) := by
      have unit (n : Nat) : den * 2 ^ (scale r + n) = 2 ^ n * (den * 2 ^ scale r) := by rw [Nat.pow_add]; ring
      rw [exact]
      constructor
      · rw [unit]
        exact Nat.mul_lt_mul_of_pos_right narrow (Nat.mul_pos positive (Nat.two_pow_pos _))
      · rw [unit]
        exact wide.imp_right fun large => Nat.mul_le_mul_right _ large
    rw [nearest_of_fits none positive fits, exact, roundDiv_exact _ (Nat.mul_pos positive (Nat.two_pow_pos _)), sum]
    exact Nat.min_eq_right (Nat.le_of_lt small)

theorem roundDiv_bounds (num den : Nat) : num / den ≤ roundDiv num den ∧ roundDiv num den ≤ num / den + 1 := by
  unfold roundDiv
  dsimp only
  split
  · omega
  · split <;> omega

-- A quotient is rounded up to an even number from half a unit below it on.
theorem le_roundDiv (even : n % 2 = 0) (some : 0 < n) (positive : 0 < den) :
    n ≤ roundDiv num den ↔ (2 * n - 1) * den ≤ 2 * num := by
  have whole : den * (num / den) + num % den = num := Nat.div_add_mod num den
  have small : num % den < den := Nat.mod_lt num positive
  have bounds := roundDiv_bounds num den
  have twice : (2 * n - 1) * den + den = 2 * (den * n) := by
    rw [← Nat.succ_mul, show (2 * n - 1).succ = 2 * n by omega]
    ring
  rcases Nat.lt_trichotomy (num / den + 1) n with below | reached | above
  · have scaled : den * (num / den + 2) ≤ den * n := Nat.mul_le_mul_left den below
    rw [Nat.mul_add] at scaled
    omega
  · have scaled : den * n = den * (num / den) + den := by rw [← reached, Nat.mul_add, Nat.mul_one]
    unfold roundDiv
    dsimp only
    split
    · omega
    · split <;> omega
  · have scaled : den * n ≤ den * (num / den) := Nat.mul_le_mul_left den (Nat.le_of_lt_succ above)
    omega

-- This rank is that of a power of two, and the ranks below it have a unit of half the size. It is reached from
-- half of that unit below the power on.
theorem Fits.le_rank (fits : Fits fine den k) (positive : 0 < den) :
    (n + 3) * 2 ^ 52 ≤ k * 2 ^ 52 + roundDiv fine (den * 2 ^ k) ↔ (2 ^ 54 - 1) * (den * 2 ^ n) ≤ fine := by
  obtain ⟨within, least⟩ := fits
  have unit : 0 < den * 2 ^ k := Nat.mul_pos positive (Nat.two_pow_pos k)
  have steps (j : Nat) : den * 2 ^ (n + j) = 2 ^ j * (den * 2 ^ n) := by
    rw [Nat.pow_add]
    ring
  have bounds := roundDiv_bounds fine (den * 2 ^ k)
  rcases Nat.lt_trichotomy k (n + 1) with below | rfl | above
  · have quotient : fine / (den * 2 ^ k) < 2 ^ 53 := by
      rw [Nat.div_lt_iff_lt_mul unit, Nat.mul_left_comm, ← Nat.pow_add, Nat.add_comm 53]
      exact within
    have small : den * 2 ^ (k + 53) ≤ den * 2 ^ (n + 53) :=
      Nat.mul_le_mul_left den (Nat.pow_le_pow_right (by decide) (by omega))
    rw [steps] at small
    omega
  · have half : 2 ^ 53 ≤ roundDiv fine (den * 2 ^ (n + 1)) ↔ _ := le_roundDiv (by decide) (by decide) unit
    rw [steps] at half ⊢
    omega
  · have wide : den * 2 ^ (k + 52) ≤ fine := least.resolve_left (by omega)
    have quotient : 2 ^ 52 ≤ fine / (den * 2 ^ k) := by
      rw [Nat.le_div_iff_mul_le unit, Nat.mul_left_comm, ← Nat.pow_add, Nat.add_comm 52]
      exact wide
    have large : den * 2 ^ (n + 54) ≤ den * 2 ^ (k + 52) :=
      Nat.mul_le_mul_left den (Nat.pow_le_pow_right (by decide) (by omega))
    rw [steps] at large
    omega

-- Halfway between the largest finite number and the next one that there would be.
@[irreducible] def overflow : Nat := (2 ^ 54 - 1) * Nat.pow 2 970

theorem overflow_pos : 0 < overflow := by
  unfold overflow
  generalize 970 = n
  exact Nat.mul_pos (by decide) (Nat.two_pow_pos n)

theorem overflow_le (num den : Nat) :
    overflow * den ≤ num ↔ (2 ^ 54 - 1) * (den * 2 ^ (970 + 1074)) ≤ num * finest := by
  have scaled : (2 ^ 54 - 1) * (den * 2 ^ (970 + 1074)) = overflow * den * finest := by
    unfold overflow finest
    generalize 970 = n
    generalize 1074 = k
    rw [Nat.pow_eq, Nat.pow_eq, Nat.pow_add]
    ring
  rw [scaled, Nat.mul_le_mul_right_iff finest_pos]

theorem nearest_eq_infinite (positive : 0 < den) : nearest num den = infinite ↔ overflow * den ≤ num := by
  by_cases none : num = 0
  · have large := Nat.mul_pos overflow_pos positive
    rw [none, nearest_zero]
    exact ⟨nofun, by omega⟩
  · have someFine : num * finest ≠ 0 := Nat.mul_ne_zero none (Nat.ne_of_gt finest_pos)
    obtain ⟨k, fits⟩ : ∃ k, Fits (num * finest) den k := ⟨_, fits_guess _ den someFine positive⟩
    have first : infinite = (970 + 1074 + 3) * 2 ^ 52 := rfl
    rw [nearest_of_fits none positive fits, overflow_le, ← fits.le_rank positive, ← first]
    omega

end Double

namespace Decimal

open Double

theorem toRank_ten (digits : Nat) (exponent : Int) :
    toRank ⟨10 * digits, exponent⟩ = toRank ⟨digits, exponent + 1⟩ := by
  unfold toRank
  simp only [Nat.pow_eq]
  by_cases large : 0 ≤ exponent
  · have up : (exponent + 1).toNat = exponent.toNat + 1 := by omega
    have whole : (-exponent).toNat = 0 ∧ (-(exponent + 1)).toNat = 0 := by omega
    have same : 10 * digits * 10 ^ exponent.toNat = digits * 10 ^ (exponent.toNat + 1) := by
      rw [Nat.pow_succ]
      ring
    rw [whole.1, whole.2, up, same]
  · have down : (-exponent).toNat = (-(exponent + 1)).toNat + 1 := by omega
    have fraction : exponent.toNat = 0 ∧ (exponent + 1).toNat = 0 := by omega
    rw [fraction.1, fraction.2, down, Nat.pow_zero, Nat.mul_one, Nat.mul_one, Nat.pow_succ, Nat.mul_comm 10]
    exact nearest_scale digits (Nat.pow_pos (by decide)) (by decide)

theorem toRank_zero (exponent : Int) : toRank ⟨0, exponent⟩ = 0 := by
  unfold toRank
  rw [Nat.zero_mul, nearest_zero]

theorem toRank_trim (digits : Nat) (exponent : Int) : (trim digits exponent).toRank = toRank ⟨digits, exponent⟩ := by
  fun_induction trim digits exponent with
  | case1 exponent => rw [toRank_zero, toRank_zero]
  | case2 digits exponent _ ends ih =>
    have tens : digits = 10 * (digits / 10) := by omega
    rw [ih, ← toRank_ten, ← tens]
  | case3 => rfl

theorem toRank_whole (digits : Nat) : toRank ⟨digits, 0⟩ = nearest digits 1 := by
  rw [toRank]
  exact congrArg (nearest · 1) (Nat.mul_one digits)

theorem toRank_exact (small : r < infinite) : (exact r).toRank = r := by
  unfold exact
  simp only [Nat.pow_eq]
  split
  · next large =>
    rw [toRank_whole]
    refine nearest_exact small (by decide) ?_
    rw [Nat.mul_assoc, pow_mul_finest large, Nat.one_mul]
  · next fine =>
    generalize steps : 1074 - scale r = j
    have unit : 2 ^ j * 2 ^ scale r = finest := steps ▸ pow_mul_pow_finest (Nat.le_of_not_le fine)
    split
    · next divides =>
      have whole : significand r / 2 ^ j * 2 ^ j = significand r :=
        Nat.div_mul_cancel (Nat.dvd_of_mod_eq_zero divides)
      rw [toRank_whole]
      refine nearest_exact small (by decide) ?_
      rw [← unit, ← Nat.mul_assoc, whole, Nat.one_mul]
    · have places : ((scale r : Int) - 1074).toNat = 0 ∧ (-((scale r : Int) - 1074)).toNat = j := by omega
      unfold toRank
      simp only [Nat.pow_eq]
      rw [places.1, places.2, Nat.pow_zero, Nat.mul_one]
      refine nearest_exact small (Nat.pow_pos (by decide)) ?_
      have ten : 10 ^ j = 5 ^ j * 2 ^ j := Nat.mul_pow 5 2 j
      rw [← unit, ten]
      ring

theorem toRank_search (start : d.toRank = r) (length tries n : Nat) : (search r d length tries n).toRank = r := by
  induction tries generalizing n with
  | zero => exact start
  | succ tries ih =>
    rw [search]
    split
    · next c found => simpa using List.find?_some found
    · exact ih (n + 1)

theorem toRank_shortest (small : r < infinite) : (shortest r).toRank = r := by
  unfold shortest
  dsimp only
  rw [toRank_trim]
  exact toRank_search (toRank_exact small) _ 17 1

theorem toRank_eq_infinite (digits places : Nat) :
    toRank ⟨digits, -(places : Int)⟩ = infinite ↔ overflow * 10 ^ places ≤ digits := by
  have exponent : (-(places : Int)).toNat = 0 ∧ (- -(places : Int)).toNat = places := by omega
  unfold toRank
  simp only [Nat.pow_eq]
  rw [exponent.1, exponent.2, Nat.pow_zero, Nat.mul_one]
  exact nearest_eq_infinite (Nat.pow_pos (by decide))

structure Plain (whole fraction : Bytes) : Prop where
  some : whole ≠ []
  digits : ∀ b ∈ whole ++ fraction, Bytes.isDigit b = true

def pointed (whole fraction : Bytes) : Bytes := if fraction = [] then whole else whole ++ byte '.' :: fraction

theorem plain_parts (d : Decimal) : ∃ whole fraction, d.plain = pointed whole fraction ∧ Plain whole fraction ∧
    d.toRank = toRank ⟨readNumeral (whole ++ fraction), -(fraction.length : Int)⟩ := by
  obtain ⟨digits, exponent⟩ := d
  have allDigits := numeral_digits digits
  have nonempty := numeral_ne_nil digits
  have value := readNumeral_numeral digits
  unfold plain
  dsimp only
  generalize numeral digits = s at allDigits nonempty value ⊢
  have zeros (n : Nat) : ∀ b ∈ List.replicate n (byte '0'), Bytes.isDigit b = true := by
    intro b mem
    rw [List.eq_of_mem_replicate mem]
    decide
  split
  · next large =>
    refine ⟨s ++ List.replicate exponent.toNat (byte '0'), [], rfl, ⟨by simp [nonempty], ?_⟩, ?_⟩
    · rw [List.append_nil]
      exact List.forall_mem_append.2 ⟨allDigits, zeros _⟩
    · have whole : (-exponent).toNat = 0 := by omega
      rw [List.append_nil, readNumeral_append_zeros, value, List.length_nil, Int.ofNat_zero, Int.neg_zero,
        toRank_whole, toRank, whole]
      rfl
  · next small =>
    generalize places : (-exponent).toNat = n
    have exponent_eq : exponent = -(n : Int) := by omega
    generalize padding : List.replicate (n + 1 - s.length) (byte '0') ++ s = padded
    have length : n < padded.length := by
      rw [← padding, List.length_append, List.length_replicate]
      omega
    have fraction : (padded.drop (padded.length - n)).length = n := by
      rw [List.length_drop]
      omega
    refine ⟨padded.take (padded.length - n), padded.drop (padded.length - n), ?_, ⟨?_, ?_⟩, ?_⟩
    · have some : padded.drop (padded.length - n) ≠ [] := by
        apply List.ne_nil_of_length_pos
        omega
      rw [pointed, if_neg some, List.append_assoc, List.singleton_append]
    · apply List.ne_nil_of_length_pos
      rw [List.length_take]
      omega
    · rw [List.take_append_drop, ← padding]
      exact List.forall_mem_append.2 ⟨zeros _, allDigits⟩
    · rw [List.take_append_drop, fraction, ← padding, readNumeral_zeros_append, value, exponent_eq]

theorem Plain.bytes (parts : Plain whole fraction) :
    ∀ b ∈ pointed whole fraction, Bytes.isDigit b = true ∨ b = byte '.' := by
  obtain ⟨wholeDigits, fractionDigits⟩ := List.forall_mem_append.1 parts.digits
  unfold pointed
  split
  · exact fun b mem => .inl (wholeDigits b mem)
  · intro b mem
    rcases List.mem_append.1 mem with mem | mem
    · exact .inl (wholeDigits b mem)
    · rcases List.mem_cons.1 mem with isPoint | mem
      · exact .inr isPoint
      · exact .inl (fractionDigits b mem)

theorem Plain.first (parts : Plain whole fraction) : (pointed whole fraction).head?.any Bytes.isDigit = true := by
  obtain ⟨b, whole, rfl⟩ := List.exists_cons_of_ne_nil parts.some
  have digit := parts.digits b List.mem_cons_self
  unfold pointed
  split
  · simpa using digit
  · simpa using digit

theorem Plain.takeWhile (parts : Plain whole fraction) :
    (pointed whole fraction).takeWhile Bytes.isDigit = whole := by
  have digits := (List.forall_mem_append.1 parts.digits).1
  unfold pointed
  split
  · exact List.takeWhile_eq_self_iff.2 digits
  · rw [List.takeWhile_append_of_pos digits, List.takeWhile_cons_of_neg (by decide), List.append_nil]

theorem Plain.drop (whole fraction : Bytes) : (pointed whole fraction).drop (whole.length + 1) = fraction := by
  unfold pointed
  split
  · next none => rw [none, List.drop_eq_nil_iff]; omega
  · rw [List.drop_append]
    simp

theorem literal_plain (d : Decimal) : Scan.literal .number d.plain = .number (ofRank d.toRank) := by
  obtain ⟨whole, fraction, written, parts, rank⟩ := plain_parts d
  rw [written, rank, Scan.literal, parts.takeWhile, Plain.drop]
  rfl

end Decimal

namespace Double

theorem infinite_lt : infinite < 2 ^ 63 := by decide

theorem ofRank_toNat (small : r < 2 ^ 63) : (ofRank r).toNat = r := by
  rw [ofRank, UInt64.toNat_ofNat']
  omega

theorem rank_ofRank (small : r < 2 ^ 63) : rank (ofRank r) = r := by
  rw [rank, ofRank_toNat small]
  exact Nat.mod_eq_of_lt small

theorem isNegative_ofRank (small : r < 2 ^ 63) : isNegative (ofRank r) = false := by
  rw [isNegative, ofRank_toNat small]
  exact decide_eq_false (Nat.not_le.2 small)

theorem plain_ofRank (small : r < infinite) : plain (ofRank r) = (Decimal.shortest r).plain := by
  have positive : r < 2 ^ 63 := Nat.lt_trans small infinite_lt
  unfold plain
  dsimp only
  rw [rank_ofRank positive, isNegative_ofRank positive, if_neg (Nat.lt_asymm small), if_neg (Nat.ne_of_lt small)]
  rfl

theorem plain_first (small : r < infinite) : (plain (ofRank r)).head?.any Bytes.isDigit = true := by
  obtain ⟨whole, fraction, written, parts, _⟩ := Decimal.plain_parts (Decimal.shortest r)
  rw [plain_ofRank small, written]
  exact parts.first

theorem plain_bytes (small : r < infinite) : ∀ b ∈ plain (ofRank r), Bytes.isDigit b = true ∨ b = byte '.' := by
  obtain ⟨whole, fraction, written, parts, _⟩ := Decimal.plain_parts (Decimal.shortest r)
  rw [plain_ofRank small, written]
  exact parts.bytes

theorem plain_infinite : plain (ofRank infinite) = text "+Inf" := by
  decide +kernel

theorem literal_ofRank (small : r < infinite) : Scan.literal .number (plain (ofRank r)) = .number (ofRank r) := by
  rw [plain_ofRank small, Decimal.literal_plain, Decimal.toRank_shortest small]

end Double

end TinyScript
