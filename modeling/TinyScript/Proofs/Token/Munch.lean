import TinyScript.Proofs.Text.Utf8
import TinyScript.Proofs.Token.Lexical
import TinyScript.Proofs.Token.Seam

namespace TinyScript

namespace Scan

open Lexical

theorem munch_word (letter : Letter b) (more : Bytes) :
    munch b more = (.ofWord ((b :: more).takeWhile isWordByte), ((b :: more).takeWhile isWordByte).length) := by
  have unquoted : b ≠ quoteMark := by
    rintro rfl
    exact letter_plain letter List.mem_cons_self
  have undigit : ¬Bytes.isDigit b = true := fun digit => letter_digit letter (digit_iff.2 digit)
  rw [munch, if_neg unquoted, if_neg undigit, if_pos (letter_iff.1 letter)]

theorem munch_number (digit : Digit b) (more : Bytes) : munch b more = (.number, numberLength (b :: more)) := by
  have unquoted : b ≠ quoteMark := by
    rintro rfl
    exact digit_plain digit List.mem_cons_self
  rw [munch, if_neg unquoted, if_pos (digit_iff.1 digit)]

theorem ofWord_label (known : k ∈ Kind.keywords) : Kind.ofWord k.label = k := by
  revert k
  decide +kernel

theorem ofWord_ident (other : ∀ k ∈ Kind.keywords, w ≠ k.label) : Kind.ofWord w = .ident := by
  have none : Kind.keywords.find? (fun k => k.label == w) = none := by
    simpa using fun k mem => Ne.symm (other k mem)
  rw [Kind.ofWord, none]
  rfl

def IsSign (b : UInt8) : Prop := b ≠ quoteMark ∧ ¬Bytes.isDigit b = true ∧ ¬Bytes.isLetter b = true

instance (b : UInt8) : Decidable (IsSign b) := inferInstanceAs (Decidable (_ ∧ _))

theorem munch_mark (sign : IsSign b) (marked : mark? b = some k) (more : Bytes) : munch b more = (k, 1) := by
  rw [munch, if_neg sign.1, if_neg sign.2.1, if_neg sign.2.2, marked]

theorem munch_comparison (sign : IsSign b) (unmarked : mark? b = none) (compared : comparison? b = some kinds)
    (more : Bytes) : munch b more = if more.head? == some (byte '=') then (kinds.2, 2) else (kinds.1, 1) := by
  rw [munch, if_neg sign.1, if_neg sign.2.1, if_neg sign.2.2, unmarked, compared]

-- The marks are the bytes that are looked up, and some of them with an equals sign behind them.
theorem mark_cases (known : k ∈ marks) : ∃ b, IsSign b ∧ b ∉ blanks ∧ (b = byte '/' → k = .slash) ∧
    (k.label = [b] ∧ mark? b = some k ∨
      (∃ long, k.label = [b] ∧ mark? b = none ∧ comparison? b = some (k, long) ∧ k ∈ lengthened) ∨
      ∃ short, k.label = [b, byte '='] ∧ mark? b = none ∧ comparison? b = some (short, k)) := by
  have table : ∀ k ∈ marks, let b := k.label.headD 0
      IsSign b ∧ b ∉ blanks ∧ (b = byte '/' → k = .slash) ∧
        (k.label = [b] ∧ mark? b = some k ∨
          (k.label = [b] ∧ mark? b = none ∧ (comparison? b).map (·.1) = some k ∧ k ∈ lengthened) ∨
          k.label = [b, byte '='] ∧ mark? b = none ∧ (comparison? b).map (·.2) = some k) := by
    decide +kernel
  obtain ⟨sign, unblank, slash, cases⟩ := table k known
  refine ⟨k.label.headD 0, sign, unblank, slash, ?_⟩
  rcases cases with marked | ⟨label, unmarked, compared, longer⟩ | ⟨label, unmarked, compared⟩
  · exact .inl marked
  · obtain ⟨⟨_, long⟩, found, rfl⟩ := Option.map_eq_some_iff.1 compared
    exact .inr (.inl ⟨long, label, unmarked, found, longer⟩)
  · obtain ⟨⟨short, _⟩, found, rfl⟩ := Option.map_eq_some_iff.1 compared
    exact .inr (.inr ⟨short, label, unmarked, found⟩)

theorem ite_some {P : α → Prop} {p : Prop} [Decidable p] (here : p → P a) (there : others = some x → P x)
    (found : (if p then some a else others) = some x) : P x := by
  split at found
  · next holds => exact Option.some.inj found ▸ here holds
  · exact there found

theorem mark?_label (marked : mark? b = some k) : k ∈ marks ∧ k ∉ lengthened ∧ k.label = [b] := by
  revert marked
  unfold mark?
  repeat
    refine ite_some (P := fun k => k ∈ marks ∧ k ∉ lengthened ∧ k.label = [b]) (by rintro rfl; decide +kernel) ?_
  nofun

theorem comparison?_label (compared : comparison? b = some kinds) :
    (kinds.1 ∈ marks ∧ kinds.1 ≠ .slash ∧ kinds.1.label = [b]) ∧
      kinds.2 ∈ marks ∧ kinds.2 ∉ lengthened ∧ kinds.2 ≠ .slash ∧ kinds.2.label = [b, byte '='] := by
  revert compared
  unfold comparison?
  repeat
    refine ite_some (P := fun kinds : Kind × Kind => (kinds.1 ∈ marks ∧ kinds.1 ≠ .slash ∧ kinds.1.label = [b]) ∧
      kinds.2 ∈ marks ∧ kinds.2 ∉ lengthened ∧ kinds.2 ≠ .slash ∧ kinds.2.label = [b, byte '='])
      (by rintro rfl; decide +kernel) ?_
  nofun

-- A sign that is not looked up. It begins no lexeme of the grammar, and every other byte begins some.
def IsStray (b : UInt8) : Prop := IsSign b ∧ mark? b = none ∧ comparison? b = none

theorem munch_stray (stray : IsStray b) (more : Bytes) : munch b more = (.illegal, Utf8.width (b :: more)) := by
  obtain ⟨sign, unmarked, uncompared⟩ := stray
  rw [munch, if_neg sign.1, if_neg sign.2.1, if_neg sign.2.2, unmarked, uncompared]

theorem stray_of_unspelt (first : ∀ k v, Spells k v → v.head? ≠ some b) : IsStray b := by
  refine ⟨⟨?_, ?_, ?_⟩, ?_, ?_⟩
  · rintro rfl
    have empty : Spells .string (quoteMark :: ([] ++ [quoteMark])) := .string List.not_mem_nil
    exact first _ _ empty rfl
  · intro digit
    have single : Digits [b] := ⟨List.cons_ne_nil _ _, List.forall_mem_singleton.2 (digit_iff.2 digit)⟩
    exact first .number _ (.whole single) rfl
  · intro letter
    have single : Word [b] := ⟨b, [], rfl, letter_iff.2 letter, List.forall_mem_nil _⟩
    have longer : ∀ k ∈ Kind.keywords, k.label.length ≠ 1 := by decide +kernel
    exact first .ident _ (.ident single fun k known same => longer k known (same ▸ rfl)) rfl
  · cases marked : mark? b with
    | none => rfl
    | some k =>
      obtain ⟨known, _, label⟩ := mark?_label marked
      exact absurd (by rw [label]; rfl) (first k _ (.mark known))
  · cases compared : comparison? b with
    | none => rfl
    | some kinds =>
      obtain ⟨⟨known, _, label⟩, _⟩ := comparison?_label compared
      exact absurd (by rw [label]; rfl) (first kinds.1 _ (.mark known))

theorem unspelt_of_stray (stray : IsStray b) (spelt : Spells k v) : v.head? ≠ some b := by
  obtain ⟨sign, unmarked, uncompared⟩ := stray
  have ofWord {w : Bytes} (word : Word w) : w.head? ≠ some b := by
    obtain ⟨c, more, rfl, letter, _⟩ := word
    rintro ⟨rfl⟩
    exact sign.2.2 (letter_iff.1 letter)
  have ofDigits {w : Bytes} (rest : Bytes) (all : Digits w) : (w ++ rest).head? ≠ some b := by
    obtain ⟨c, more, rfl, digit⟩ := all.first
    rintro ⟨rfl⟩
    exact sign.2.1 (digit_iff.1 digit)
  cases spelt with
  | keyword known => exact ofWord (word_label known)
  | ident word _ => exact ofWord word
  | whole all =>
    have first := ofDigits [] all
    rwa [List.append_nil] at first
  | fraction all _ => exact ofDigits _ all
  | string _ =>
    rintro ⟨rfl⟩
    exact sign.1 rfl
  | mark known =>
    obtain ⟨c, _, _, _, ⟨label, marked⟩ | ⟨_, label, _, compared, _⟩ | ⟨_, label, _, compared⟩⟩ := mark_cases known
    all_goals
      rw [label]
      rintro ⟨rfl⟩
    · exact absurd (unmarked.symm.trans marked) nofun
    · exact absurd (uncompared.symm.trans compared) nofun
    · exact absurd (uncompared.symm.trans compared) nofun

theorem stray_of_high (high : 0x80 ≤ b.toNat) : IsStray b := by
  have ascii : ∀ k ∈ marks, ∀ c ∈ k.label, c.toNat < 0x80 := by decide +kernel
  refine ⟨⟨?_, ?_, ?_⟩, ?_, ?_⟩
  · rintro rfl
    exact absurd high (by decide)
  · rw [← digit_iff, digit_number]
    omega
  · rw [← letter_iff, letter_number]
    omega
  · refine Option.eq_none_iff_forall_ne_some.2 fun k marked => ?_
    obtain ⟨known, _, label⟩ := mark?_label marked
    exact absurd (ascii k known b (label ▸ List.mem_cons_self)) (Nat.not_lt.2 high)
  · refine Option.eq_none_iff_forall_ne_some.2 fun kinds compared => ?_
    obtain ⟨⟨known, _, label⟩, _⟩ := comparison?_label compared
    exact absurd (ascii _ known b (label ▸ List.mem_cons_self)) (Nat.not_lt.2 high)

theorem unfollowed_point (rest : Bytes) : Unfollowed Digit (byte '.' :: rest) := by
  intro b first
  obtain rfl := Option.some.inj first
  rw [digit_iff]
  decide

theorem numberLength_whole (whole : Digits w) (ends : Unfollowed Digit rest)
    (pointless : ∀ d more, rest = byte '.' :: d :: more → ¬Digit d) : numberLength (w ++ rest) = w.length := by
  have run := takeWhile_group (fun _ => digit_iff) whole.2 ends
  unfold numberLength
  dsimp only
  rw [run, List.drop_left]
  split
  · next point d more =>
    rw [if_neg]
    intro fraction
    obtain ⟨rfl, digit⟩ : point = byte '.' ∧ Bytes.isDigit d = true := by simpa using fraction
    exact pointless d more rfl (digit_iff.2 digit)
  · rfl

theorem numberLength_fraction (whole : Digits w) (digit : Digit d) (more : Bytes) :
    numberLength (w ++ byte '.' :: d :: more) = w.length + 1 + ((d :: more).takeWhile Bytes.isDigit).length := by
  have run := takeWhile_group (fun _ => digit_iff) whole.2 (unfollowed_point (d :: more))
  unfold numberLength
  dsimp only
  rw [run, List.drop_left]
  exact if_pos (by simpa using digit_iff.1 digit)

theorem numberLength_at (number : NumberAt w rest) : numberLength (w ++ rest) = w.length := by
  obtain ⟨ends, ⟨whole, pointless⟩ | ⟨whole, part, wholeDigits, partDigits, rfl⟩⟩ := number
  · exact numberLength_whole whole ends pointless
  · have run := takeWhile_group (fun _ => digit_iff) partDigits.2 ends
    obtain ⟨d, part, rfl, digit⟩ := partDigits.first
    have length := numberLength_fraction wholeDigits digit (part ++ rest)
    rw [← List.cons_append, run] at length
    simp only [List.append_assoc, List.cons_append, List.length_append, List.length_cons] at length ⊢
    omega

theorem numberAt_exists (digit : Digit b) (more : Bytes) :
    ∃ w rest, b :: more = w ++ rest ∧ NumberAt w rest := by
  have run {s w : Bytes} {d : UInt8} (digit : Digit d) (run : w = (d :: s).takeWhile Bytes.isDigit)
      (within : ∀ c ∈ w, Digit c) : Digits w := by
    refine ⟨?_, within⟩
    rw [run]
    simp [digit_iff.1 digit]
  obtain ⟨whole, left, split, isRun, within, ends⟩ := group_takeWhile (fun _ => digit_iff) (b :: more)
  by_cases fraction : ∃ d rest, left = byte '.' :: d :: rest ∧ Digit d
  · obtain ⟨d, behind, rfl, partDigit⟩ := fraction
    obtain ⟨part, rest, split', isRun', within', ends'⟩ := group_takeWhile (fun _ => digit_iff) (d :: behind)
    refine ⟨whole ++ byte '.' :: part, rest, ?_, ends',
      .inr ⟨whole, part, run digit isRun within, run partDigit isRun' within', rfl⟩⟩
    rw [split, split']
    simp
  · refine ⟨whole, left, split, ends, .inl ⟨run digit isRun within, fun d rest point partDigit => ?_⟩⟩
    exact fraction ⟨d, rest, point, partDigit⟩

def Takes (k : Kind) (w rest : Bytes) : Prop :=
  ∃ b more, w ++ rest = b :: more ∧ Starts b more ∧ munch b more = (k, w.length)

namespace Takes

theorem starts_of (plain : b ∉ special) (more : Bytes) : Starts b more := by
  refine ⟨fun blank => plain (List.mem_cons_of_mem _ (List.mem_cons_of_mem _ blank)), ?_⟩
  rintro rfl
  exact absurd (List.mem_cons_of_mem _ List.mem_cons_self) plain

theorem starts_quote (more : Bytes) : Starts quoteMark more :=
  ⟨by decide, fun isSlash => absurd isSlash (by decide)⟩

theorem word (word : Word w) (ends : Unfollowed WordByte rest) : Takes (.ofWord w) w rest := by
  obtain ⟨b, more, rfl, letter, within⟩ := word
  have all : ∀ c ∈ b :: more, WordByte c := List.forall_mem_cons.2 ⟨.inl letter, within⟩
  refine ⟨b, more ++ rest, rfl, starts_of (letter_plain letter) _, ?_⟩
  rw [munch_word letter, ← List.cons_append, takeWhile_group (fun _ => wordByte_iff) all ends]

theorem number (number : NumberAt w rest) : Takes .number w rest := by
  obtain ⟨b, more, rfl, digit⟩ : ∃ b more, w = b :: more ∧ Digit b := by
    obtain ⟨_, ⟨whole, _⟩ | ⟨whole, part, wholeDigits, _, rfl⟩⟩ := number
    · exact whole.first
    · obtain ⟨b, more, rfl, digit⟩ := wholeDigits.first
      exact ⟨b, _, rfl, digit⟩
  refine ⟨b, more ++ rest, rfl, starts_of (digit_plain digit) _, ?_⟩
  rw [munch_number digit, ← List.cons_append, numberLength_at number]

theorem string (unquoted : quoteMark ∉ inside) (rest : Bytes) :
    Takes .string (quoteMark :: (inside ++ [quoteMark])) rest := by
  refine ⟨quoteMark, inside ++ [quoteMark] ++ rest, rfl, starts_quote _, ?_⟩
  have closed := munch_closed unquoted rest
  simpa using closed

theorem mark (known : k ∈ marks) (mark : MarkAt k w rest) : Takes k w rest := by
  obtain ⟨rfl, single, alone⟩ := mark
  obtain ⟨b, sign, unblank, slash, taken⟩ := mark_cases known
  have starts : Starts b rest := ⟨unblank, fun isSlash => alone (slash isSlash)⟩
  rcases taken with ⟨label, marked⟩ | ⟨long, label, unmarked, compared, longer⟩ | ⟨short, label, unmarked, compared⟩
  · refine ⟨b, rest, by rw [label]; rfl, starts, ?_⟩
    rw [munch_mark sign marked, label]
    rfl
  · refine ⟨b, rest, by rw [label]; rfl, starts, ?_⟩
    rw [munch_comparison sign unmarked compared, if_neg (by simpa using single longer), label]
    rfl
  · refine ⟨b, byte '=' :: rest, by rw [label]; rfl, ⟨unblank, fun _ => by rw [List.head?_cons]; decide⟩, ?_⟩
    rw [munch_comparison sign unmarked compared, label]
    rfl

theorem illegal (illegal : IllegalAt w rest) : Takes .illegal w rest := by
  rcases illegal with ⟨rfl, inside, unquoted, rfl⟩ | ⟨c, wide, rfl⟩ | ⟨b, rfl, unblank, first, nothing⟩
  · refine ⟨quoteMark, inside, by simp, starts_quote _, ?_⟩
    rw [munch_open unquoted]
    rfl
  · rcases (Utf8.encodes_char c).narrow with ⟨_, _, _, small⟩ | ⟨_, some, high⟩
    · omega
    · obtain ⟨b, more, split⟩ := List.exists_cons_of_ne_nil some
      have high : 0x80 ≤ b.toNat := high b (split ▸ List.mem_cons_self)
      have low : ∀ b ∈ special, b.toNat < 0x80 := by decide +kernel
      refine ⟨b, more ++ rest, by rw [split]; rfl, starts_of (fun mem => ?_) _, ?_⟩
      · exact absurd (low b mem) (Nat.not_lt.2 high)
      · rw [munch_stray (stray_of_high high), ← List.cons_append, ← split, Utf8.width_char]
  · have stray := stray_of_unspelt first
    refine ⟨b, rest, rfl, ⟨unblank, fun isSlash => ?_⟩, ?_⟩
    · have unmarked := stray.2.1
      rw [isSlash] at unmarked
      cases unmarked
    · have narrow : Utf8.width (b :: rest) = 1 := by
        apply Classical.byContradiction
        intro wide
        obtain ⟨c, large, front⟩ := Utf8.char_of_wide wide
        exact nothing c large front
      rw [munch_stray stray, narrow]
      rfl

end Takes

theorem rule_takes (rule : Rule k w rest) : Takes k w rest := by
  cases rule with
  | keyword known ends =>
    have taken := Takes.word (word_label known) ends
    rwa [ofWord_label known] at taken
  | ident word other ends =>
    have taken := Takes.word word ends
    rwa [ofWord_ident other] at taken
  | number number => exact .number number
  | string unquoted => exact .string unquoted rest
  | mark known mark => exact .mark known mark
  | illegal illegal => exact .illegal illegal

theorem rule_unique (rule : Rule k w rest) (other : Rule k' w' rest') (same : w ++ rest = w' ++ rest') :
    k = k' ∧ w = w' := by
  obtain ⟨b, more, split, _, taken⟩ := rule_takes rule
  obtain ⟨b', more', split', _, taken'⟩ := rule_takes other
  obtain ⟨rfl, rfl⟩ := List.cons.inj ((split.symm.trans same).trans split')
  obtain ⟨sameKind, sameLength⟩ := Prod.mk.inj (taken.symm.trans taken')
  exact ⟨sameKind, List.append_inj_left same sameLength⟩

-- Some rule holds wherever a lexeme begins, by its first byte.

theorem rule_quote (more : Bytes) : ∃ k w rest, quoteMark :: more = w ++ rest ∧ Rule k w rest := by
  by_cases quoted : quoteMark ∈ more
  · obtain ⟨inside, behind, rfl, unquoted⟩ := List.eq_append_cons_of_mem quoted
    exact ⟨.string, _, behind, by simp, .string unquoted⟩
  · exact ⟨.illegal, quoteMark :: more, [], by simp, .illegal (.inl ⟨rfl, more, quoted, rfl⟩)⟩

theorem rule_word (letter : Letter b) (more : Bytes) : ∃ k w rest, b :: more = w ++ rest ∧ Rule k w rest := by
  obtain ⟨w, rest, split, isRun, within, ends⟩ := group_takeWhile (fun _ => wordByte_iff) (b :: more)
  have word : Word w := by
    rw [List.takeWhile_cons_of_pos (wordByte_iff.1 (.inl letter))] at isRun
    rw [isRun] at within ⊢
    exact ⟨b, _, rfl, letter, (List.forall_mem_cons.1 within).2⟩
  by_cases known : ∃ k ∈ Kind.keywords, w = k.label
  · obtain ⟨k, known, rfl⟩ := known
    exact ⟨k, _, rest, split, .keyword known ends⟩
  · refine ⟨.ident, w, rest, split, .ident word (fun k mem same => known ⟨k, mem, same⟩) ends⟩

theorem rule_comparison (compared : comparison? b = some kinds) (more : Bytes) :
    ∃ k w rest, b :: more = w ++ rest ∧ Rule k w rest := by
  obtain ⟨⟨known, other, label⟩, knownLong, last, otherLong, labelLong⟩ := comparison?_label compared
  by_cases long : more.head? = some (byte '=')
  · obtain ⟨rest, rfl⟩ := List.head?_eq_some_iff.1 long
    refine ⟨kinds.2, _, rest, rfl, .mark knownLong ⟨labelLong.symm, fun longer => ?_, fun isSlash => ?_⟩⟩
    · exact absurd longer last
    · exact absurd isSlash otherLong
  · exact ⟨kinds.1, _, more, rfl, .mark known ⟨label.symm, fun _ => long, fun isSlash => absurd isSlash other⟩⟩

theorem rule_stray (stray : IsStray b) (unblank : b ∉ blanks) (more : Bytes) :
    ∃ k w rest, b :: more = w ++ rest ∧ Rule k w rest := by
  by_cases wide : ∃ c : Char, 0x80 ≤ c.toNat ∧ String.utf8EncodeChar c <+: b :: more
  · obtain ⟨c, large, rest, split⟩ := wide
    exact ⟨.illegal, _, rest, split.symm, .illegal (.inr (.inl ⟨c, large, rfl⟩))⟩
  · refine ⟨.illegal, [b], more, rfl, .illegal (.inr (.inr ⟨b, rfl, unblank, ?_, ?_⟩))⟩
    · exact fun k v spelt => unspelt_of_stray stray spelt
    · exact fun c large front => wide ⟨c, large, front⟩

theorem rule_exists (starts : Starts b more) : ∃ k w rest, b :: more = w ++ rest ∧ Rule k w rest := by
  by_cases isQuote : b = quoteMark
  · exact isQuote ▸ rule_quote more
  by_cases digit : Digit b
  · obtain ⟨w, rest, split, number⟩ := numberAt_exists digit more
    exact ⟨.number, w, rest, split, .number number⟩
  by_cases letter : Letter b
  · exact rule_word letter more
  cases marked : mark? b with
  | some k =>
    obtain ⟨known, last, label⟩ := mark?_label marked
    refine ⟨k, _, more, rfl, .mark known ⟨label.symm, fun longer => absurd longer last, ?_⟩⟩
    rintro rfl
    exact starts.2 (List.cons.inj label).1.symm
  | none =>
    cases compared : comparison? b with
    | some kinds => exact rule_comparison compared more
    | none =>
      have sign : IsSign b := ⟨isQuote, fun is => digit (digit_iff.2 is), fun is => letter (letter_iff.2 is)⟩
      exact rule_stray ⟨sign, marked, compared⟩ starts.1 more

theorem spelt_le_munch (spelt : Spells k w) (front : w <+: b :: more) :
    (munch b more).1 ≠ .illegal ∧ w.length ≤ (munch b more).2 := by
  have ofWord {w : Bytes} (word : Word w) (front : w <+: b :: more) :
      (munch b more).1 ≠ .illegal ∧ w.length ≤ (munch b more).2 := by
    obtain ⟨c, tail, rfl, letter, within⟩ := word
    obtain rfl : c = b := (List.cons_prefix_cons.1 front).1
    have all : ∀ d ∈ c :: tail, WordByte d := List.forall_mem_cons.2 ⟨.inl letter, within⟩
    rw [munch_word letter]
    refine ⟨fun illegal => ?_, group_le_takeWhile (fun _ => wordByte_iff) all front⟩
    have known := ofWord_cases ((c :: more).takeWhile isWordByte)
    rw [show Kind.ofWord ((c :: more).takeWhile isWordByte) = .illegal from illegal] at known
    exact absurd known (by decide)
  have legal : ∀ k ∈ marks, k ≠ .illegal := by decide
  cases spelt with
  | keyword known => exact ofWord (word_label known) front
  | ident word _ => exact ofWord word front
  | whole all =>
    obtain ⟨c, tail, rfl, digit⟩ := all.first
    obtain rfl : c = b := (List.cons_prefix_cons.1 front).1
    rw [munch_number digit]
    refine ⟨nofun, Nat.le_trans (group_le_takeWhile (fun _ => digit_iff) all.2 front) (digits_le_numberLength _)⟩
  | @fraction whole part wholeDigits partDigits =>
    obtain ⟨rest, split⟩ := front
    obtain ⟨d, part, rfl, partDigit⟩ := partDigits.first
    have length := numberLength_fraction wholeDigits partDigit (part ++ rest)
    have longest : (d :: part).length ≤ ((d :: (part ++ rest)).takeWhile Bytes.isDigit).length :=
      group_le_takeWhile (fun _ => digit_iff) partDigits.2 (List.prefix_append (d :: part) rest)
    obtain ⟨c, tail, rfl, digit⟩ := wholeDigits.first
    obtain rfl : c = b := (List.cons.inj split).1
    rw [munch_number digit, ← split]
    refine ⟨nofun, ?_⟩
    simp only [List.append_assoc, List.cons_append, List.length_append, List.length_cons] at length ⊢
    simp only [List.length_cons] at longest
    omega
  | @string inside unquoted =>
    obtain ⟨rest, split⟩ := front
    have split : quoteMark :: (inside ++ quoteMark :: rest) = b :: more := by simpa using split
    obtain ⟨rfl, rfl⟩ := List.cons.inj split
    rw [munch_closed unquoted]
    exact ⟨nofun, by simp⟩
  | mark known =>
    obtain ⟨c, sign, _, _, taken⟩ := mark_cases known
    rcases taken with ⟨label, marked⟩ | ⟨long, label, unmarked, compared, _⟩ | ⟨short, label, unmarked, compared⟩
    all_goals
      rw [label] at front ⊢
      obtain ⟨rfl, behind⟩ := List.cons_prefix_cons.1 front
    · rw [munch_mark sign marked]
      exact ⟨legal k known, Nat.le_refl 1⟩
    · have knownLong := (comparison?_label compared).2.1
      rw [munch_comparison sign unmarked compared]
      split
      · exact ⟨legal long knownLong, Nat.le_succ 1⟩
      · exact ⟨legal k known, Nat.le_refl 1⟩
    · obtain ⟨rest, rfl⟩ := behind
      rw [munch_comparison sign unmarked compared]
      exact ⟨legal k known, Nat.le_refl 2⟩

end Scan

namespace Lexical

open Scan

-- Each rule is the only one for its kinds.

theorem Rule.of_word (rule : Rule k w rest) (isWord : k = .ident ∨ k ∈ Kind.keywords) :
    Word w ∧ Unfollowed WordByte rest := by
  have signs : ∀ k ∈ marks, ¬(k = .ident ∨ k ∈ Kind.keywords) := by decide
  cases rule with
  | keyword known ends => exact ⟨word_label known, ends⟩
  | ident word _ ends => exact ⟨word, ends⟩
  | mark known _ => exact absurd isWord (signs k known)
  | number | string | illegal => exact absurd isWord (by decide)

theorem Rule.of_keyword (rule : Rule k w rest) (known : k ∈ Kind.keywords) :
    w = k.label ∧ Unfollowed WordByte rest := by
  have signs : ∀ k ∈ marks, k ∉ Kind.keywords := by decide
  cases rule with
  | keyword _ ends => exact ⟨rfl, ends⟩
  | mark mark _ => exact absurd known (signs k mark)
  | ident | number | string | illegal => exact absurd known (by decide)

theorem Rule.of_number (rule : Rule .number w rest) : NumberAt w rest := by
  cases rule with
  | number number => exact number
  | keyword known | mark known => exact absurd known (by decide)

theorem Rule.of_string (rule : Rule .string w rest) :
    ∃ inside, quoteMark ∉ inside ∧ w = quoteMark :: (inside ++ [quoteMark]) := by
  cases rule with
  | string unquoted => exact ⟨_, unquoted, rfl⟩
  | keyword known | mark known => exact absurd known (by decide)

theorem Rule.of_mark (rule : Rule k w rest) (known : k ∈ marks) : MarkAt k w rest := by
  have words : ∀ k ∈ Kind.keywords, k ∉ marks := by decide
  cases rule with
  | mark _ mark => exact mark
  | keyword word _ => exact absurd known (words k word)
  | ident | number | string | illegal => exact absurd known (by decide)

theorem Rule.of_illegal (rule : Rule .illegal w rest) : IllegalAt w rest := by
  cases rule with
  | illegal illegal => exact illegal
  | keyword known | mark known => exact absurd known (by decide)

theorem Rule.munched (rule : Rule t.kind t.lexeme rest) (literal : t.literal = Scan.literal t.kind t.lexeme) :
    Munched t rest := by
  have only {k : Kind} (other : Rule k t.lexeme rest) : t.kind = k := (rule_unique rule other rfl).1
  constructor
  case word =>
    refine ⟨rule.of_word, fun ⟨word, ends⟩ => ?_⟩
    by_cases known : ∃ k ∈ Kind.keywords, t.lexeme = k.label
    · obtain ⟨k, known, same⟩ := known
      have isKind : t.kind = k := only (same ▸ .keyword known ends)
      exact .inr (isKind ▸ known)
    · exact .inl (only (.ident word (fun k mem same => known ⟨k, mem, same⟩) ends))
  case keyword =>
    refine fun k known => ⟨fun isKind => ?_, fun ⟨same, ends⟩ => only (same ▸ .keyword known ends)⟩
    exact (isKind ▸ rule).of_keyword known
  case number => exact ⟨fun isKind => (isKind ▸ rule).of_number, fun number => only (.number number)⟩
  case string =>
    refine ⟨fun isKind => (isKind ▸ rule).of_string, fun ⟨inside, unquoted, same⟩ => ?_⟩
    exact only (same ▸ .string unquoted)
  case literal =>
    intro isKind inside same
    rw [literal, isKind, same]
    simp [Scan.literal]
  case mark =>
    exact fun k known => ⟨fun isKind => (isKind ▸ rule).of_mark known, fun mark => only (.mark known mark)⟩
  case illegal => exact ⟨fun isKind => (isKind ▸ rule).of_illegal, fun illegal => only (.illegal illegal)⟩
  case longest =>
    intro k w spelt front
    obtain ⟨b, more, split, _, taken⟩ := rule_takes rule
    have longest := spelt_le_munch spelt (split ▸ front)
    rwa [taken] at longest

end Lexical

namespace Scan

open Lexical

theorem tokenAt_rule (starts : Starts b more) (start : Position) :
    Rule (tokenAt start b more).kind (tokenAt start b more).lexeme ((b :: more).drop (munch b more).2) := by
  obtain ⟨k, w, rest, split, rule⟩ := rule_exists starts
  obtain ⟨c, tail, split', _, taken⟩ := rule_takes rule
  obtain ⟨rfl, rfl⟩ := List.cons.inj (split.trans split')
  show Rule (munch b more).1 ((b :: more).take (munch b more).2) _
  rwa [taken, split, List.take_left, List.drop_left]

theorem layout_gap (gap : Layout s) (rest : Bytes) : layout false (s ++ rest) = s.length + layout false rest := by
  induction gap with
  | nil => simp
  | blank blank _ ih =>
    rw [List.cons_append, layout, if_pos (isBlank_iff.2 blank), ih, List.length_cons]
    omega
  | @comment inside s line _ ih =>
    have broken : layout false (byte '\n' :: (s ++ rest)) = layout false (s ++ rest) + 1 := rfl
    simp only [List.cons_append, List.append_assoc]
    rw [layout_comment line _ (.inr rfl), broken, ih]
    simp only [List.length_cons, List.length_append]
    omega

theorem layout_last (gap : LastLayout s) : layout false s = s.length := by
  cases gap with
  | whole gap =>
    have all := layout_gap gap []
    rwa [List.append_nil] at all
  | @comment front inside gap line =>
    have all := layout_comment line [] (.inl rfl)
    rw [List.append_nil] at all
    rw [layout_gap gap, all, List.length_append]
    rfl

theorem layout_starts (starts : Starts b more) : layout false (b :: more) = 0 := by
  rw [layout, if_neg fun blank => starts.1 (isBlank_iff.1 blank), if_neg]
  simpa using starts.2

theorem tiles_tokens (tiles : Tiles s pairs) (place : Position) :
    pairs = ((tokensFrom place s).filter (·.kind ≠ .eof)).map fun t => (t.kind, t.lexeme) := by
  induction tiles generalizing place with
  | @done gap last =>
    rw [tokensFrom_end (by rw [layout_last last, List.drop_length])]
    rfl
  | @next gap k w rest pairs whole rule _ ih =>
    obtain ⟨b, more, split, starts, taken⟩ := rule_takes rule
    have found : (gap ++ (w ++ rest)).drop (layout false (gap ++ (w ++ rest))) = b :: more := by
      rw [layout_gap whole, split, layout_starts starts]
      exact List.drop_left
    have kind (start : Position) : (tokenAt start b more).kind = k := by rw [tokenAt_kind, taken]
    have lexeme (start : Position) : (tokenAt start b more).lexeme = w := by
      show (b :: more).take (munch b more).2 = w
      rw [taken, ← split, List.take_left]
    have behind : (b :: more).drop (munch b more).2 = rest := by rw [taken, ← split, List.drop_left]
    have inner : k ≠ .eof := by
      have other := munch_ne_eof b more
      rwa [taken] at other
    rw [tokensFrom_token found, List.filter_cons_of_pos (by simpa [kind] using inner), List.map_cons, kind, lexeme,
      behind, ← ih]

theorem tokens_tile (place : Position) (s : Bytes) :
    Tiles s (((tokensFrom place s).filter (·.kind ≠ .eof)).map fun t => (t.kind, t.lexeme)) := by
  refine tokensFrom_induction (motive := fun _ s ts =>
    Tiles s ((ts.filter (·.kind ≠ .eof)).map fun t => (t.kind, t.lexeme))) ?_ ?_ place s
  · exact fun _ gap last => .done last
  · intro place gap b more whole starts rest
    have tiles := Tiles.next whole (tokenAt_rule starts (place.after gap)) rest
    have inner : (tokenAt (place.after gap) b more).kind ≠ .eof := munch_ne_eof b more
    rw [List.filter_cons_of_pos (by simpa using inner), List.map_cons]
    rwa [show (tokenAt (place.after gap) b more).lexeme ++ (b :: more).drop (munch b more).2 = b :: more from
      List.take_append_drop _ _] at tiles

theorem tokensFrom_munched (front s : Bytes) (place : Position) (here : place.offset = front.length) :
    ∀ t ∈ tokensFrom place s, t.kind ≠ .eof → Munched t ((front ++ s).drop t.span.stop.offset.toNat) := by
  refine tokensFrom_induction (motive := fun place s ts => ∀ front : Bytes, place.offset = front.length →
    ∀ t ∈ ts, t.kind ≠ .eof → Munched t ((front ++ s).drop t.span.stop.offset.toNat)) ?_ ?_ place s front here
  · intro place gap _ front _ t mem inner
    obtain rfl := List.mem_singleton.1 mem
    exact absurd rfl inner
  · intro place gap b more _ starts ih front here
    have split := List.take_append_drop (munch b more).2 (b :: more)
    have munched := (tokenAt_rule starts (place.after gap)).munched rfl
    generalize behind : (b :: more).drop (munch b more).2 = rest at split munched ih
    generalize taken : (b :: more).take (munch b more).2 = lexeme at split
    have stop : (tokenAt (place.after gap) b more).span.stop.offset = (front ++ gap ++ lexeme).length := by
      show ((place.after gap).after ((b :: more).take (munch b more).2)).offset = _
      rw [taken, Position.after_offset, Position.after_offset, here]
      simp only [List.length_append, Int.natCast_add]
    rw [← split]
    refine List.forall_mem_cons.2 ⟨fun _ => ?_, ?_⟩
    · rw [stop, Int.toNat_natCast, ← List.append_assoc, ← List.append_assoc, List.drop_left]
      exact munched
    · have later := ih (front ++ gap ++ lexeme) stop
      simpa using later

end Scan

open Lexical

theorem scan_munches_maximally (s : Bytes) :
    (∀ t ∈ scan s, t.kind ≠ .eof → Munched t (s.drop t.span.stop.offset.toNat)) ∧
      ∀ pairs, Tiles s pairs ↔ pairs = ((scan s).filter (·.kind ≠ .eof)).map fun t => (t.kind, t.lexeme) := by
  refine ⟨Scan.tokensFrom_munched [] s .start rfl, fun pairs => ⟨fun tiles => Scan.tiles_tokens tiles .start, ?_⟩⟩
  rintro rfl
  exact Scan.tokens_tile .start s

end TinyScript
