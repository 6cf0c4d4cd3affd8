import Mathlib.Tactic.Convert
import TinyScript.Text.Utf8

namespace TinyScript.Utf8

theorem isTail_iff {b : UInt8} : isTail b = true ↔ 0x80 ≤ b.toNat ∧ b.toNat ≤ 0xBF := by
  simp [isTail, UInt8.le_iff_toNat_le]

-- The bytes of a character by their number. The bounds on the second byte leave out what has a shorter
-- form, the surrogates, and what lies above the last character.
inductive Encodes : Bytes → Nat → Prop where
  | one {a : UInt8} : a.toNat < 0x80 → Encodes [a] a.toNat
  | two {a b : UInt8} : 0xC2 ≤ a.toNat → a.toNat < 0xE0 → isTail b = true →
    Encodes [a, b] ((a.toNat - 0xC0) * 64 + (b.toNat - 0x80))
  | three {a b c : UInt8} : 0xE0 ≤ a.toNat → a.toNat < 0xF0 → isTail b = true → isTail c = true →
    (a.toNat = 0xE0 → 0xA0 ≤ b.toNat) → (a.toNat = 0xED → b.toNat ≤ 0x9F) →
    Encodes [a, b, c] ((a.toNat - 0xE0) * 4096 + (b.toNat - 0x80) * 64 + (c.toNat - 0x80))
  | four {a b c d : UInt8} : 0xF0 ≤ a.toNat → a.toNat < 0xF5 → isTail b = true → isTail c = true →
    isTail d = true → (a.toNat = 0xF0 → 0x90 ≤ b.toNat) → (a.toNat = 0xF4 → b.toNat ≤ 0x8F) →
    Encodes [a, b, c, d]
      ((a.toNat - 0xF0) * 262144 + (b.toNat - 0x80) * 4096 + (c.toNat - 0x80) * 64 + (d.toNat - 0x80))

theorem front?_of_encodes (encoded : Encodes bs code) (rest : Bytes) :
    front? (bs ++ rest) = some (code, bs.length) := by
  cases encoded with
  | one small => simp [front?, UInt8.lt_iff_toNat_lt, small]
  | two low high tail =>
    simp [front?, UInt8.lt_iff_toNat_lt, tail]
    grind
  | three low high second third short surrogate =>
    simp [front?, UInt8.lt_iff_toNat_lt, UInt8.le_iff_toNat_le, ← UInt8.toNat_inj, second, third]
    grind
  | four low high second third fourth short last =>
    simp [front?, UInt8.lt_iff_toNat_lt, UInt8.le_iff_toNat_le, ← UInt8.toNat_inj, second, third, fourth]
    grind

theorem front?_cases (s : Bytes) :
    front? s = none ∨ ∃ bs code rest, s = bs ++ rest ∧ Encodes bs code := by
  fun_cases front? s with
  | case2 a rest small => exact .inr ⟨[a], _, rest, rfl, .one small⟩
  | case4 a _ low high b rest tail =>
    simp only [UInt8.lt_iff_toNat_lt, Nat.not_lt] at low high
    exact .inr ⟨[a, b], _, rest, rfl, .two low high tail⟩
  | case7 a _ _ low high b c rest bounds =>
    simp [UInt8.lt_iff_toNat_lt, UInt8.le_iff_toNat_le, ← UInt8.toNat_inj] at low high bounds
    obtain ⟨⟨⟨second, third⟩, short⟩, surrogate⟩ := bounds
    exact .inr ⟨[a, b, c], _, rest, rfl, .three low high second third (by omega) (by omega)⟩
  | case10 a _ _ _ low high b c d rest bounds =>
    simp [UInt8.lt_iff_toNat_lt, UInt8.le_iff_toNat_le, ← UInt8.toNat_inj] at low high bounds
    obtain ⟨⟨⟨⟨second, third⟩, fourth⟩, short⟩, last⟩ := bounds
    exact .inr ⟨[a, b, c, d], _, rest, rfl, .four low high second third fourth (by omega) (by omega)⟩
  | _ => exact .inl rfl

theorem encodes_of_front? (found : front? s = some (code, n)) :
    ∃ bs rest, s = bs ++ rest ∧ Encodes bs code ∧ bs.length = n := by
  rcases front?_cases s with none | ⟨bs, code', rest, rfl, encoded⟩
  · rw [none] at found
    cases found
  · rw [front?_of_encodes encoded] at found
    obtain ⟨rfl, rfl⟩ := Prod.mk.inj (Option.some.inj found)
    exact ⟨bs, rest, rfl, encoded, rfl⟩

theorem toNat_byte {n : Nat} (small : n < 256) : (UInt8.ofNat n).toNat = n := UInt8.toNat_ofNat_of_lt' small

theorem encodes_char (c : Char) : Encodes (String.utf8EncodeChar c) c.toNat := by
  have scalar : c.toNat < 0xD800 ∨ 0xDFFF < c.toNat ∧ c.toNat < 0x110000 := c.valid
  have tail (v : Nat) : (UInt8.ofNat (v % 64 + 128)).toNat = v % 64 + 128 ∧
      isTail (UInt8.ofNat (v % 64 + 128)) = true := by
    have small := toNat_byte (n := v % 64 + 128) (by omega)
    exact ⟨small, isTail_iff.2 (by omega)⟩
  unfold String.utf8EncodeChar
  dsimp only
  rw [show c.val.toNat = c.toNat from rfl]
  generalize c.toNat = v at scalar
  split
  · have first := toNat_byte (n := v) (by omega)
    convert Encodes.one (a := UInt8.ofNat v) (by omega)
    exact first.symm
  · split
    · have first := toNat_byte (n := v / 64 % 32 + 192) (by omega)
      have second := tail v
      convert Encodes.two (a := UInt8.ofNat (v / 64 % 32 + 192)) (by omega) (by omega) second.2
      omega
    · split
      · have first := toNat_byte (n := v / 4096 % 16 + 224) (by omega)
        have second := tail (v / 64)
        have third := tail v
        convert Encodes.three (a := UInt8.ofNat (v / 4096 % 16 + 224)) (by omega) (by omega) second.2 third.2
          (by omega) (by omega)
        omega
      · have first := toNat_byte (n := v / 262144 % 8 + 240) (by omega)
        have second := tail (v / 4096)
        have third := tail (v / 64)
        have fourth := tail v
        convert Encodes.four (a := UInt8.ofNat (v / 262144 % 8 + 240)) (by omega) (by omega) second.2 third.2
          fourth.2 (by omega) (by omega)
        omega

namespace Encodes

theorem scalar (encoded : Encodes bs code) : code.isValidChar := by
  show code < 0xD800 ∨ 0xDFFF < code ∧ code < 0x110000
  cases encoded with
  | one small => omega
  | two low high second =>
    rw [isTail_iff] at second
    omega
  | three low high second third short surrogate =>
    rw [isTail_iff] at second third
    omega
  | four low high second third fourth short last =>
    rw [isTail_iff] at second third fourth
    omega

-- Every form is the form of a character: the bytes are the digits of its number.
theorem char (encoded : Encodes bs code) : ∃ c : Char, c.toNat = code ∧ String.utf8EncodeChar c = bs := by
  refine ⟨Char.ofNatAux code encoded.scalar, by rfl, ?_⟩
  have value : (Char.ofNatAux code encoded.scalar).val.toNat = code := by rfl
  have digit {n : Nat} {b : UInt8} (same : n = b.toNat) : UInt8.ofNat n = b := by
    rw [same, UInt8.ofNat_toNat]
  unfold String.utf8EncodeChar
  dsimp only
  rw [value]
  cases encoded with
  | one small => rw [if_pos (by omega), digit rfl]
  | @two a b low high second =>
    rw [isTail_iff] at second
    rw [if_neg (by omega), if_pos (by omega), digit (b := a) (by omega), digit (b := b) (by omega)]
  | @three a b c low high second third short surrogate =>
    rw [isTail_iff] at second third
    rw [if_neg (by omega), if_neg (by omega), if_pos (by omega), digit (b := a) (by omega),
      digit (b := b) (by omega), digit (b := c) (by omega)]
  | @four a b c d low high second third fourth short last =>
    rw [isTail_iff] at second third fourth
    rw [if_neg (by omega), if_neg (by omega), if_neg (by omega), digit (b := a) (by omega),
      digit (b := b) (by omega), digit (b := c) (by omega), digit (b := d) (by omega)]

theorem narrow (encoded : Encodes bs code) : (∃ a, bs = [a] ∧ a.toNat = code ∧ code < 0x80) ∨
    0x80 ≤ code ∧ bs ≠ [] ∧ ∀ b ∈ bs, 0x80 ≤ b.toNat := by
  cases encoded with
  | one small => exact .inl ⟨_, rfl, rfl, small⟩
  | two low high second =>
    rw [isTail_iff] at second
    exact .inr ⟨by omega, nofun, by simp; omega⟩
  | three low high second third short surrogate =>
    rw [isTail_iff] at second third
    exact .inr ⟨by omega, nofun, by simp; omega⟩
  | four low high second third fourth short last =>
    rw [isTail_iff] at second third fourth
    exact .inr ⟨by omega, nofun, by simp; omega⟩

end Encodes

theorem width_char (c : Char) (rest : Bytes) :
    width (String.utf8EncodeChar c ++ rest) = (String.utf8EncodeChar c).length := by
  rw [width, front?_of_encodes (encodes_char c)]
  rfl

theorem char_of_wide (wide : width s ≠ 1) : ∃ c : Char, 0x80 ≤ c.toNat ∧ String.utf8EncodeChar c <+: s := by
  unfold width at wide
  cases found : front? s with
  | none =>
    rw [found] at wide
    exact absurd rfl wide
  | some front =>
    rw [found] at wide
    obtain ⟨bs, rest, rfl, encoded, length⟩ := encodes_of_front? found
    rcases encoded.narrow with ⟨a, rfl, _⟩ | ⟨large, _⟩
    · exact absurd length.symm wide
    · obtain ⟨c, value, rfl⟩ := encoded.char
      exact ⟨c, by omega, List.prefix_append _ _⟩

end TinyScript.Utf8

namespace TinyScript

def Glyph.Formed : Glyph → Prop
  | .char code bs => Utf8.Encodes bs code
  | .stray _ => True

theorem glyphs_formed (s : Bytes) : ∀ g ∈ glyphs s, g.Formed := by
  fun_induction glyphs s with
  | case1 => exact List.forall_mem_nil _
  | case2 a rest code n found ih =>
    obtain ⟨bs, rest', split, encoded, rfl⟩ := Utf8.encodes_of_front? found
    refine List.forall_mem_cons.2 ⟨?_, ih⟩
    rw [split, List.take_left]
    exact encoded
  | case3 a rest _ ih => exact List.forall_mem_cons.2 ⟨trivial, ih⟩

theorem glyphs_bytes (s : Bytes) : (glyphs s).flatMap Glyph.bytes = s := by
  fun_induction glyphs s with
  | case1 => rfl
  | case2 a rest code n found ih =>
    have width := Utf8.width_pos (a :: rest)
    rw [Utf8.width, found] at width
    obtain ⟨n, rfl⟩ : ∃ m, n = m + 1 := Nat.exists_eq_succ_of_ne_zero (Nat.ne_of_gt width)
    rw [List.flatMap_cons, ih]
    exact List.take_append_drop (n + 1) (a :: rest)
  | case3 a rest _ ih =>
    rw [List.flatMap_cons, ih]
    rfl

end TinyScript
