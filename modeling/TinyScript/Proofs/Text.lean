import Mathlib.Algebra.Group.Nat.Defs
import TinyScript.Text

namespace TinyScript

@[simp] theorem text_inj {a b : String} : text a = text b ↔ a = b := by
  refine ⟨fun same => ?_, congrArg text⟩
  unfold text at same
  exact String.toByteArray_inj.1 (ByteArray.ext (Array.toList_inj.1 same))

namespace Bytes

theorem split_cons (b : UInt8) (cut : split mark s = first :: others) :
    split mark (b :: s) = if b = mark then [] :: split mark s else (b :: first) :: others := by
  unfold split at cut ⊢
  rw [List.foldr_cons, cut]

theorem split_ne_nil (mark : UInt8) (s : Bytes) : split mark s ≠ [] := by
  induction s with
  | nil => exact List.cons_ne_nil _ _
  | cons b s ih =>
    obtain ⟨first, others, cut⟩ := List.exists_cons_of_ne_nil ih
    rw [split_cons b cut]
    split <;> exact List.cons_ne_nil _ _

theorem split_mark (mark : UInt8) (s : Bytes) : split mark (mark :: s) = [] :: split mark s := by
  obtain ⟨first, others, cut⟩ := List.exists_cons_of_ne_nil (split_ne_nil mark s)
  rw [split_cons mark cut, if_pos rfl]

theorem split_other (other : b ≠ mark) (cut : split mark s = first :: others) :
    split mark (b :: s) = (b :: first) :: others := by
  rw [split_cons b cut, if_neg other]

theorem split_clean (clean : mark ∉ s) : split mark s = [s] := by
  induction s with
  | nil => rfl
  | cons b s ih =>
    obtain ⟨other, clean⟩ := not_or.1 (mt List.mem_cons.2 clean)
    exact split_other (Ne.symm other) (ih clean)

theorem split_append (clean : mark ∉ s) (rest : Bytes) : split mark (s ++ mark :: rest) = s :: split mark rest := by
  induction s with
  | nil => exact split_mark mark rest
  | cons b s ih =>
    obtain ⟨other, clean⟩ := not_or.1 (mt List.mem_cons.2 clean)
    exact split_other (Ne.symm other) (ih clean)

theorem split_join (some : parts ≠ []) (clean : ∀ s ∈ parts, mark ∉ s) : split mark (join [mark] parts) = parts := by
  unfold join
  induction parts with
  | nil => exact absurd rfl some
  | cons s parts ih =>
    obtain ⟨first, others⟩ := List.forall_mem_cons.1 clean
    cases parts with
    | nil =>
      rw [List.intercalate_singleton]
      exact split_clean first
    | cons t parts =>
      rw [List.intercalate_cons_cons, List.append_assoc, List.singleton_append, split_append first,
        ih (List.cons_ne_nil _ _) others]

end Bytes

theorem digit_toNat (small : n < 10) : (byte '0' + n.toUInt8).toNat = 48 + n := by
  rw [UInt8.toNat_add]
  show (48 + n % 256) % 256 = 48 + n
  omega

theorem digit_isDigit (small : n < 10) : Bytes.isDigit (byte '0' + n.toUInt8) = true := by
  have code := digit_toNat small
  simp only [Bytes.isDigit, Bool.and_eq_true, decide_eq_true_eq, UInt8.le_iff_toNat_le, code]
  exact ⟨Nat.le_add_right 48 n, by show 48 + n ≤ 57; omega⟩

theorem digit_value (small : n < 10) : (byte '0' + n.toUInt8 - byte '0').toNat = n := by
  have code := digit_toNat small
  rw [UInt8.toNat_sub, code]
  show (256 - 48 + (48 + n)) % 256 = n
  omega

theorem numeral_digits (n : Nat) : ∀ b ∈ numeral n, Bytes.isDigit b = true := by
  induction n using Nat.strongRecOn with
  | ind n ih =>
    rw [numeral]
    split
    · next small => simpa using digit_isDigit small
    · next large =>
      have smaller := ih (n / 10) (by omega)
      have last := digit_isDigit (Nat.mod_lt n (by decide : 0 < 10))
      simpa [or_imp, forall_and] using ⟨smaller, last⟩

theorem numeral_ne_nil (n : Nat) : numeral n ≠ [] := by
  rw [numeral]
  split <;> simp

theorem readNumeral_snoc (s : Bytes) (d : UInt8) :
    readNumeral (s ++ [d]) = 10 * readNumeral s + (d - byte '0').toNat := by
  simp [readNumeral]

theorem readNumeral_numeral (n : Nat) : readNumeral (numeral n) = n := by
  induction n using Nat.strongRecOn with
  | ind n ih =>
    rw [numeral]
    split
    · next small =>
      have single := readNumeral_snoc [] (byte '0' + n.toUInt8)
      rw [digit_value small] at single
      simpa [readNumeral] using single
    · next large =>
      rw [readNumeral_snoc, ih (n / 10) (by omega), digit_value (Nat.mod_lt n (by decide))]
      omega

theorem readNumeral_zeros_append (k : Nat) (s : Bytes) :
    readNumeral (List.replicate k (byte '0') ++ s) = readNumeral s := by
  induction k with
  | zero => rfl
  | succ k ih => exact ih

theorem readNumeral_append_zeros (s : Bytes) (k : Nat) :
    readNumeral (s ++ List.replicate k (byte '0')) = readNumeral s * 10 ^ k := by
  induction k with
  | zero => simp
  | succ k ih =>
    have zero : (byte '0' - byte '0').toNat = 0 := by decide
    rw [List.replicate_succ', ← List.append_assoc, readNumeral_snoc, ih, zero, Nat.pow_succ, Nat.add_zero,
      Nat.mul_left_comm, Nat.mul_comm 10]

end TinyScript
