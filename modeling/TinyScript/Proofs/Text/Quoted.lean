import Mathlib.Algebra.Group.Nat.Defs
import TinyScript.Proofs.Text.Utf8
import TinyScript.Text.Quoted

namespace TinyScript

namespace Quoted

def hexValue (d : UInt8) : Nat := if d ≤ byte '9' then (d - byte '0').toNat else (d - byte 'a').toNat + 10

def unhex (digits : Bytes) : Nat := digits.foldl (fun n d => 16 * n + hexValue d) 0

def unletter (c : UInt8) : UInt8 :=
  if c = byte 'a' then 7 else if c = byte 'b' then 8 else if c = byte 't' then 9 else if c = byte 'n' then 10
  else if c = byte 'v' then 11 else if c = byte 'f' then 12 else if c = byte 'r' then 13 else c

-- What an escape stands for, and how many bytes of it follow the backslash.
def escaped (c : UInt8) (more : Bytes) : Bytes × Nat :=
  if c = byte 'x' then ([(unhex (more.take 2)).toUInt8], 3)
  else if c = byte 'u' then (String.utf8EncodeChar (.ofNat (unhex (more.take 4))), 5)
  else if c = byte 'U' then (String.utf8EncodeChar (.ofNat (unhex (more.take 8))), 9)
  else ([unletter c], 1)

def unescape (s : Bytes) : Bytes × Bytes :=
  match s with
  | [] => ([], [])
  | b :: rest =>
    if b = quoteMark then ([], rest)
    else match if b = backslash then rest else [] with
      | [] => (b :: (unescape rest).1, (unescape rest).2)
      | c :: more =>
        let inner := unescape (rest.drop (escaped c more).2)
        ((escaped c more).1 ++ inner.1, inner.2)
termination_by s.length

theorem unescape_length (s : Bytes) : (unescape s).2.length ≤ s.length := by
  fun_induction unescape s with
  | case1 => exact Nat.le_refl _
  | case2 rest => exact Nat.le_succ _
  | case3 b rest _ _ ih => exact Nat.le_succ_of_le ih
  | case4 b rest _ c more _ inner ih =>
    rw [List.length_drop] at ih
    exact Nat.le_succ_of_le (Nat.le_trans ih (Nat.sub_le _ _))

theorem unhex_snoc (s : Bytes) (d : UInt8) : unhex (s ++ [d]) = 16 * unhex s + hexValue d := by
  simp [unhex]

theorem hexDigit_value : ∀ n < 16, hexValue (Bytes.hexDigit n) = n := by decide

theorem unhex_hex (small : n < 16 ^ width) : unhex (Bytes.hex width n) = n := by
  induction width generalizing n with
  | zero =>
    obtain rfl : n = 0 := by omega
    rfl
  | succ width ih =>
    rw [Nat.pow_succ] at small
    rw [Bytes.hex, unhex_snoc, ih (by omega), hexDigit_value _ (Nat.mod_lt n (by decide))]
    omega

theorem hex_length (width n : Nat) : (Bytes.hex width n).length = width := by
  induction width generalizing n with
  | zero => rfl
  | succ width ih => rw [Bytes.hex, List.length_append, ih, List.length_singleton]

theorem unescape_mark (rest : Bytes) : unescape (quoteMark :: rest) = ([], rest) := by
  rw [unescape, if_pos rfl]

theorem unescape_plain (plain : ∀ b ∈ s, b ≠ quoteMark ∧ b ≠ backslash) (t : Bytes) :
    unescape (s ++ t) = (s ++ (unescape t).1, (unescape t).2) := by
  induction s with
  | nil => rfl
  | cons b s ih =>
    obtain ⟨⟨unquoted, unescaped⟩, plain⟩ := List.forall_mem_cons.1 plain
    rw [List.cons_append, unescape, if_neg unquoted, if_neg unescaped, ih plain]
    rfl

theorem unescape_escaped (c : UInt8) (more : Bytes) : unescape (backslash :: c :: more) =
    let inner := unescape ((c :: more).drop (escaped c more).2)
    ((escaped c more).1 ++ inner.1, inner.2) := by
  rw [unescape, if_neg (by decide), if_pos rfl]

-- By the letter behind the backslash and the number of digits that it asks for.
theorem unescape_hex (meaning : Nat → Bytes) (isHex : ∀ more, escaped c more = (meaning (unhex (more.take w)), w + 1))
    (small : n < 16 ^ w) (t : Bytes) : unescape (backslash :: c :: (Bytes.hex w n ++ t)) =
      (meaning n ++ (unescape t).1, (unescape t).2) := by
  have length := hex_length w n
  have value := unhex_hex small
  generalize Bytes.hex w n = digits at length value ⊢
  subst length
  rw [unescape_escaped, isHex, List.take_left, value, List.drop_succ_cons, List.drop_left]

inductive Escapes : Bytes → Bytes → Prop where
  | marked : b = quoteMark ∨ b = backslash → Escapes [b] [backslash, b]
  | plain : (∀ b ∈ bs, b ≠ quoteMark ∧ b ≠ backslash ∧ b ≠ byte '\n') → Escapes bs bs
  | letter : letter? n = some c → Escapes [n.toUInt8] [backslash, byte c]
  | byte : n < 0x100 → Escapes [n.toUInt8] (text "\\x" ++ Bytes.hex 2 n)
  | short : n < 0x10000 → Escapes (String.utf8EncodeChar (.ofNat n)) (text "\\u" ++ Bytes.hex 4 n)
  | long : n < 0x110000 → Escapes (String.utf8EncodeChar (.ofNat n)) (text "\\U" ++ Bytes.hex 8 n)

theorem escape_char (encoded : Utf8.Encodes bs code) : Escapes bs (escape quoteMark (.char code bs)) := by
  have wide : String.utf8EncodeChar (.ofNat code) = bs := by
    obtain ⟨c, rfl, rfl⟩ := encoded.char
    rw [Char.ofNat_toNat]
  have last : code < 0x110000 := by
    rcases encoded.scalar with low | ⟨_, high⟩
    · exact Nat.lt_trans low (by decide)
    · exact high
  have ascii (small : code < 0x80) : bs = [code.toUInt8] := by
    rcases encoded.narrow with ⟨a, rfl, rfl, _⟩ | ⟨large, _⟩
    · rw [show a.toNat.toUInt8 = a from UInt8.ofNat_toNat]
    · omega
  rw [escape]
  split
  · next isMark =>
    rcases isMark with rfl | rfl
    · exact ascii (by decide) ▸ .marked (.inl rfl)
    · exact ascii (by decide) ▸ .marked (.inr rfl)
  · next unmarked =>
    split
    · next printable =>
      have visible : 0x20 ≤ code := by
        unfold isPrintable at printable
        split at printable
        · simpa using printable
        · omega
      refine .plain fun b mem => ?_
      rcases encoded.narrow with ⟨a, rfl, rfl, _⟩ | ⟨_, _, high⟩
      · obtain rfl := List.mem_singleton.1 mem
        refine ⟨fun same => unmarked (.inl (same ▸ rfl)), fun same => unmarked (.inr (same ▸ rfl)), fun same => ?_⟩
        exact absurd (same ▸ visible) (by decide)
      · have large := high b mem
        refine ⟨?_, ?_, ?_⟩
        all_goals
          rintro rfl
          exact absurd large (by decide)
    · split
      · next c found =>
        have small : code < 0x80 := by
          unfold letter? at found
          split at found <;> first | omega | cases found
        exact ascii small ▸ .letter found
      · split
        · next small =>
          rw [ascii small]
          exact .byte (by omega)
        · split
          · next short =>
            rw [← wide]
            exact .short short
          · rw [← wide]
            exact .long last

theorem escape_escapes (formed : g.Formed) : Escapes g.bytes (escape quoteMark g) := by
  cases g with
  | stray b =>
    have hexed : Escapes [b.toNat.toUInt8] (text "\\x" ++ Bytes.hex 2 b.toNat) := .byte b.toNat_lt
    rwa [show b.toNat.toUInt8 = b from UInt8.ofNat_toNat] at hexed
  | char code bs => exact escape_char formed

theorem opening_x : text "\\x" = [backslash, byte 'x'] := by decide +kernel

theorem opening_u : text "\\u" = [backslash, byte 'u'] := by decide +kernel

theorem opening_U : text "\\U" = [backslash, byte 'U'] := by decide +kernel

theorem Escapes.read (escapes : Escapes bs s) (t : Bytes) :
    unescape (s ++ t) = (bs ++ (unescape t).1, (unescape t).2) := by
  cases escapes with
  | marked isMark =>
    rcases isMark with rfl | rfl
    · exact unescape_escaped quoteMark t
    · exact unescape_escaped backslash t
  | plain plain => exact unescape_plain (fun b mem => ⟨(plain b mem).1, (plain b mem).2.1⟩) t
  | @letter n c found =>
    have read : escaped (TinyScript.byte c) t = ([n.toUInt8], 1) := by
      unfold letter? at found
      split at found <;> cases found <;> rfl
    rw [List.cons_append, List.singleton_append, unescape_escaped, read]
    rfl
  | @byte n small =>
    rw [opening_x]
    exact unescape_hex (fun n => [n.toUInt8]) (fun _ => rfl) small t
  | @short n small =>
    rw [opening_u]
    exact unescape_hex (fun n => String.utf8EncodeChar (.ofNat n)) (fun _ => rfl) small t
  | @long n small =>
    rw [opening_U]
    exact unescape_hex (fun n => String.utf8EncodeChar (.ofNat n)) (fun _ => rfl)
      (Nat.lt_trans small (by decide)) t

theorem hex_line (width n : Nat) : byte '\n' ∉ Bytes.hex width n := by
  have digits : ∀ n < 16, Bytes.hexDigit n ≠ byte '\n' := by decide
  induction width generalizing n with
  | zero => exact List.not_mem_nil
  | succ width ih =>
    have last := digits (n % 16) (Nat.mod_lt n (by decide))
    rw [Bytes.hex, List.mem_append, List.mem_singleton, not_or]
    exact ⟨ih (n / 16), Ne.symm last⟩

theorem Escapes.line (escapes : Escapes bs s) : TinyScript.byte '\n' ∉ s := by
  cases escapes with
  | marked isMark => rcases isMark with rfl | rfl <;> decide
  | plain plain => exact fun mem => (plain _ mem).2.2 rfl
  | letter found =>
    unfold letter? at found
    split at found <;> cases found <;> decide
  | byte | short | long =>
    rw [List.mem_append, not_or]
    exact ⟨by decide +kernel, hex_line _ _⟩

end Quoted

open Quoted

theorem unescape_quoted (s rest : Bytes) :
    unescape ((glyphs s).flatMap (escape quoteMark) ++ quoteMark :: rest) = (s, rest) := by
  have each (gs : List Glyph) (formed : ∀ g ∈ gs, g.Formed) :
      unescape (gs.flatMap (escape quoteMark) ++ quoteMark :: rest) = (gs.flatMap Glyph.bytes, rest) := by
    induction gs with
    | nil => exact unescape_mark rest
    | cons g gs ih =>
      obtain ⟨first, others⟩ := List.forall_mem_cons.1 formed
      rw [List.flatMap_cons, List.append_assoc, (escape_escapes first).read, ih others, List.flatMap_cons]
  rw [each (glyphs s) (glyphs_formed s), glyphs_bytes]

theorem quoted_line (s : Bytes) : byte '\n' ∉ quoted s := by
  have inside : byte '\n' ∉ (glyphs s).flatMap (escape quoteMark) := by
    intro mem
    obtain ⟨g, found, mem⟩ := List.mem_flatMap.1 mem
    exact (escape_escapes (glyphs_formed s g found)).line mem
  simpa [quoted, inside] using by decide

end TinyScript
