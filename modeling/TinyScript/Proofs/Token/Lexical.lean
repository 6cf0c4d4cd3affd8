import TinyScript.Proofs.Token.Lossless

namespace TinyScript

namespace Lexical

-- The classes of bytes: [A-Za-z_], [0-9], and both together.

def Letter (b : UInt8) : Prop :=
  byte 'A' ≤ b ∧ b ≤ byte 'Z' ∨ byte 'a' ≤ b ∧ b ≤ byte 'z' ∨ b = byte '_'

def Digit (b : UInt8) : Prop := byte '0' ≤ b ∧ b ≤ byte '9'

def WordByte (b : UInt8) : Prop := Letter b ∨ Digit b

def marks : List Kind :=
  [.leftParen, .rightParen, .leftBrace, .rightBrace, .comma, .dot, .minus, .plus, .semicolon, .slash, .star,
   .bang, .bangEqual, .equal, .equalEqual, .greater, .greaterEqual, .less, .lessEqual]

def lengthened : List Kind := [.bang, .equal, .less, .greater]

def Word (w : Bytes) : Prop := ∃ b more, w = b :: more ∧ Letter b ∧ ∀ c ∈ more, WordByte c

def Digits (w : Bytes) : Prop := w ≠ [] ∧ ∀ c ∈ w, Digit c

inductive Spells : Kind → Bytes → Prop where
  | keyword : k ∈ Kind.keywords → Spells k k.label
  | ident : Word w → (∀ k ∈ Kind.keywords, w ≠ k.label) → Spells .ident w
  | whole : Digits w → Spells .number w
  | fraction : Digits whole → Digits part → Spells .number (whole ++ byte '.' :: part)
  | string : quoteMark ∉ inside → Spells .string (quoteMark :: (inside ++ [quoteMark]))
  | mark : k ∈ marks → Spells k k.label

def Unfollowed (group : UInt8 → Prop) (rest : Bytes) : Prop := ∀ b ∈ rest.head?, ¬group b

def NumberAt (w rest : Bytes) : Prop :=
  Unfollowed Digit rest ∧
    ((Digits w ∧ ∀ d more, rest = byte '.' :: d :: more → ¬Digit d) ∨
      ∃ whole part, Digits whole ∧ Digits part ∧ w = whole ++ byte '.' :: part)

def MarkAt (k : Kind) (w rest : Bytes) : Prop :=
  w = k.label ∧ (k ∈ lengthened → rest.head? ≠ some (byte '=')) ∧ (k = .slash → rest.head? ≠ some (byte '/'))

-- A string that nothing ends, a character beyond ASCII, or a byte that begins nothing at all.
def IllegalAt (w rest : Bytes) : Prop :=
  (rest = [] ∧ ∃ inside, quoteMark ∉ inside ∧ w = quoteMark :: inside) ∨
  (∃ c : Char, 0x80 ≤ c.toNat ∧ w = String.utf8EncodeChar c) ∨
  ∃ b, w = [b] ∧ b ∉ blanks ∧ (∀ k v, Spells k v → v.head? ≠ some b) ∧
    ∀ c : Char, 0x80 ≤ c.toNat → ¬String.utf8EncodeChar c <+: b :: rest

inductive Rule : Kind → Bytes → Bytes → Prop where
  | keyword : k ∈ Kind.keywords → Unfollowed WordByte rest → Rule k k.label rest
  | ident : Word w → (∀ k ∈ Kind.keywords, w ≠ k.label) → Unfollowed WordByte rest → Rule .ident w rest
  | number : NumberAt w rest → Rule .number w rest
  | string : quoteMark ∉ inside → Rule .string (quoteMark :: (inside ++ [quoteMark])) rest
  | mark : k ∈ marks → MarkAt k w rest → Rule k w rest
  | illegal : IllegalAt w rest → Rule .illegal w rest

inductive Tiles : Bytes → List (Kind × Bytes) → Prop where
  | done : LastLayout gap → Tiles gap []
  | next : Layout gap → Rule k w rest → Tiles rest pairs → Tiles (gap ++ (w ++ rest)) ((k, w) :: pairs)

-- The kind of a token is what its lexeme and the rest of the text say, and no lexeme of the grammar is
-- longer than its own, or is there at all if it is illegal.
structure Munched (t : Token) (rest : Bytes) : Prop where
  word : t.kind = .ident ∨ t.kind ∈ Kind.keywords ↔ Word t.lexeme ∧ Unfollowed WordByte rest
  keyword : ∀ k ∈ Kind.keywords, (t.kind = k ↔ t.lexeme = k.label ∧ Unfollowed WordByte rest)
  number : t.kind = .number ↔ NumberAt t.lexeme rest
  string : t.kind = .string ↔ ∃ inside, quoteMark ∉ inside ∧ t.lexeme = quoteMark :: (inside ++ [quoteMark])
  literal : t.kind = .string → ∀ inside, t.lexeme = quoteMark :: (inside ++ [quoteMark]) →
    t.literal = .string inside
  mark : ∀ k ∈ marks, (t.kind = k ↔ MarkAt k t.lexeme rest)
  illegal : t.kind = .illegal ↔ IllegalAt t.lexeme rest
  longest : ∀ k w, Spells k w → w <+: t.lexeme ++ rest → t.kind ≠ .illegal ∧ w.length ≤ t.lexeme.length

theorem letter_iff {b : UInt8} : Letter b ↔ Bytes.isLetter b = true := by
  simp only [Letter, Bytes.isLetter, Bool.or_eq_true, Bool.and_eq_true, decide_eq_true_eq, beq_iff_eq]
  rw [← or_assoc, or_comm (a := _ ∧ _)]

theorem digit_iff {b : UInt8} : Digit b ↔ Bytes.isDigit b = true := by
  simp [Digit, Bytes.isDigit]

theorem wordByte_iff {b : UInt8} : WordByte b ↔ Scan.isWordByte b = true := by
  simp [WordByte, Scan.isWordByte, letter_iff, digit_iff]

theorem letter_number {b : UInt8} : Letter b ↔
    65 ≤ b.toNat ∧ b.toNat ≤ 90 ∨ 97 ≤ b.toNat ∧ b.toNat ≤ 122 ∨ b.toNat = 95 := by
  simp only [Letter, UInt8.le_iff_toNat_le, ← UInt8.toNat_inj]
  rfl

theorem digit_number {b : UInt8} : Digit b ↔ 48 ≤ b.toNat ∧ b.toNat ≤ 57 := by
  simp only [Digit, UInt8.le_iff_toNat_le]
  rfl

theorem letter_digit (letter : Letter b) : ¬Digit b := by
  rw [letter_number] at letter
  rw [digit_number]
  omega

theorem letter_plain (letter : Letter b) : b ∉ Scan.special :=
  Scan.not_special (by decide) (letter_iff.1 letter)

theorem digit_plain (digit : Digit b) : b ∉ Scan.special := Scan.not_special (by decide) (digit_iff.1 digit)

theorem Digits.first (all : Digits w) : ∃ b more, w = b :: more ∧ Digit b := by
  obtain ⟨b, more, rfl⟩ := List.exists_cons_of_ne_nil all.1
  exact ⟨b, more, rfl, all.2 b List.mem_cons_self⟩

theorem word_label (known : k ∈ Kind.keywords) : Word k.label := by
  have words : ∀ k ∈ Kind.keywords,
      (k.label.head?.any Bytes.isLetter && k.label.all Scan.isWordByte) = true := by decide +kernel
  have word := words k known
  cases split : k.label with
  | nil => simp [split] at word
  | cons b more =>
    rw [split] at word
    simp only [List.head?_cons, Option.any_some, Bool.and_eq_true, List.all_eq_true] at word
    exact ⟨b, more, rfl, letter_iff.2 word.1, fun c mem => wordByte_iff.2 (word.2 c (List.mem_cons_of_mem b mem))⟩

theorem Spells.name (spelt : Spells .ident w) : Word w ∧ ∀ k ∈ Kind.keywords, w ≠ k.label := by
  cases spelt with
  | ident word other => exact ⟨word, other⟩
  | keyword known | mark known => exact absurd known (by decide)

section

variable {group : UInt8 → Prop} {p : UInt8 → Bool} (group_iff : ∀ b, group b ↔ p b = true)
include group_iff

theorem takeWhile_group (within : ∀ c ∈ w, group c) (ends : Unfollowed group rest) :
    (w ++ rest).takeWhile p = w := by
  rw [List.takeWhile_append_of_pos fun c mem => (group_iff c).1 (within c mem)]
  cases rest with
  | nil => simp
  | cons b rest =>
    have stop : p b ≠ true := fun mine => ends b rfl ((group_iff b).2 mine)
    simp [stop]

theorem group_takeWhile (s : Bytes) :
    ∃ w rest, s = w ++ rest ∧ w = s.takeWhile p ∧ (∀ c ∈ w, group c) ∧ Unfollowed group rest := by
  refine ⟨s.takeWhile p, s.dropWhile p, List.takeWhile_append_dropWhile.symm, rfl, ?_, ?_⟩
  · intro c mem
    exact (group_iff c).2 (List.mem_takeWhile_imp mem)
  · intro b first mine
    have stop := List.head?_dropWhile_not p s
    rw [first] at stop
    simp [(group_iff b).1 mine] at stop

theorem group_le_takeWhile (within : ∀ c ∈ w, group c) (front : w <+: s) :
    w.length ≤ (s.takeWhile p).length := by
  obtain ⟨rest, rfl⟩ := front
  rw [List.takeWhile_append_of_pos fun c mem => (group_iff c).1 (within c mem), List.length_append]
  omega

end

end Lexical

end TinyScript
