import TinyScript.Proofs.Token.Lines

namespace TinyScript.Scan

theorem takeWhile_short {p : UInt8 → Bool} {s : Bytes} (short : (s.takeWhile p).length < s.length) (q : Bytes) :
    (s ++ q).takeWhile p = s.takeWhile p := by
  rw [List.takeWhile_append, if_neg (Nat.ne_of_lt short)]

theorem digits_le_numberLength (s : Bytes) : (s.takeWhile Bytes.isDigit).length ≤ numberLength s := by
  unfold numberLength
  dsimp only
  split
  · split <;> omega
  · exact Nat.le_refl _

-- A number that ends before the text does may still go on behind a point.
theorem numberLength_append {s : Bytes} (short : numberLength s < s.length)
    (pointless : s.drop (numberLength s) ≠ [byte '.']) (q : Bytes) :
    numberLength (s ++ q) = numberLength s := by
  have whole := takeWhile_short (Nat.lt_of_le_of_lt (digits_le_numberLength s) short) q
  have within : (s.takeWhile Bytes.isDigit).length ≤ s.length := (List.takeWhile_prefix _).length_le
  unfold numberLength at short pointless ⊢
  dsimp only at short pointless ⊢
  rw [whole, List.drop_append_of_le_length within]
  have length : (s.drop (s.takeWhile Bytes.isDigit).length).length = _ := List.length_drop
  generalize (s.takeWhile Bytes.isDigit).length = whole at *
  rcases left : s.drop whole with _ | ⟨point, _ | ⟨digit, more⟩⟩
  · rw [left] at length short
    simp only [List.length_nil] at length short
    omega
  · rw [left] at pointless
    have other : (point == byte '.') = false := by
      simpa [left] using pointless
    cases q with
    | nil => rfl
    | cons d q => simp [other]
  · rw [left] at length short
    simp only [List.length_cons, List.cons_append] at length short ⊢
    split at short
    · next fraction =>
      have behind := takeWhile_short (s := digit :: more) (p := Bytes.isDigit)
        (by simp only [List.length_cons]; omega) q
      rw [List.cons_append] at behind
      rw [if_pos fraction, if_pos fraction, behind]
    · next other => rw [if_neg other, if_neg other]

theorem munch_append (legal : (munch b more).1 ≠ .illegal) (short : (b :: more).drop (munch b more).2 ≠ [])
    (pointless : (munch b more).1 = .number → (b :: more).drop (munch b more).2 ≠ [byte '.']) (q : Bytes) :
    munch b (more ++ q) = munch b more := by
  by_cases isQuote : b = quoteMark
  · subst isQuote
    refine munch_quoted (Decidable.byContradiction fun unclosed => legal ?_) quoteMark q
    rw [munch_open unclosed]
  · replace short : (munch b more).2 < (b :: more).length := by
      rw [Ne, List.drop_eq_nil_iff] at short
      omega
    unfold munch at legal short pointless ⊢
    rw [if_neg isQuote] at legal short pointless
    rw [if_neg isQuote, if_neg isQuote, ← List.cons_append]
    split
    · next digit =>
      rw [if_pos digit] at short pointless
      rw [numberLength_append short (pointless rfl)]
    · next digitless =>
      rw [if_neg digitless] at legal short
      split
      · next letter =>
        rw [if_pos letter] at short
        rw [takeWhile_short short]
      · next letterless =>
        rw [if_neg letterless] at legal short
        cases marked : mark? b with
        | some kind => rfl
        | none =>
          cases signed : comparison? b with
          | none =>
            rw [marked, signed] at legal
            exact absurd rfl legal
          | some kinds =>
            have some : more ≠ [] := by
              rintro rfl
              rw [marked, signed] at short
              exact absurd short (Nat.lt_irrefl 1)
            obtain ⟨c, more, rfl⟩ := List.exists_cons_of_ne_nil some
            rfl

theorem munch_single (known : kind = .comma ∨ kind = .equal) (found : (munch b more).1 = kind) :
    mark? b = some kind ∨ ∃ other, comparison? b = some (kind, other) ∨ comparison? b = some (other, kind) := by
  unfold munch at found
  split at found
  · dsimp only at found
    grind
  · split at found
    · grind
    · split at found
      · have word := ofWord_cases ((b :: more).takeWhile isWordByte)
        rw [show Kind.ofWord ((b :: more).takeWhile isWordByte) = kind from found] at word
        rcases known with rfl | rfl <;> exact absurd word (by decide)
      · split at found
        · next kind' _ marked => exact .inl (marked.trans (congrArg some found))
        · next short long _ signed =>
          split at found
          · exact .inr ⟨short, .inr (found ▸ signed)⟩
          · exact .inr ⟨long, .inl (found ▸ signed)⟩
        · grind

theorem munch_comma (isComma : (munch b more).1 = .comma) : b = byte ',' := by
  rcases munch_single (.inl rfl) isComma with marked | ⟨_, signed | signed⟩
  · refine Decidable.byContradiction fun other => absurd marked ?_
    unfold mark?
    rw [if_neg other]
    repeat refine ite_ne_some _ (by decide) ?_
    nofun
  all_goals
    unfold comparison? at signed
    grind

theorem munch_sign (isSign : (munch b more).1 = .equal) : b = byte '=' := by
  rcases munch_single (.inr rfl) isSign with marked | ⟨_, signed | signed⟩
  · refine absurd marked ?_
    unfold mark?
    repeat refine ite_ne_some _ (by decide) ?_
    nofun
  all_goals
    unfold comparison? at signed
    grind

theorem munch_equals (rest : Bytes) :
    munch (byte '=') rest = if rest.head? == some (byte '=') then (.equalEqual, 2) else (.equal, 1) := rfl

-- What becomes of the tokens of a text with these bytes behind it. Either the tokens at its end that may
-- have changed are no commas or signs, or the bytes double the sign at its end.
inductive Seam (place : Position) (s q : Bytes) : Prop where
  | kept (init tail : List Token) (alone : ∃ stop, tokensFrom place s = init ++ tail ++ [.ending stop])
    (others : ∀ t ∈ tail, t.kind ≠ .comma ∧ t.kind ≠ .equal)
    (joined : ∃ place' rest, tokensFrom place (s ++ q) = init ++ tokensFrom place' rest)
  | doubled (init : List Token) (sign : Token) (longer : sign.kind = .equalEqual) (more : Bytes)
    (first : q = byte '=' :: more)
    (joined : ∃ place', ∀ rest,
      tokensFrom place (s ++ byte '=' :: rest) = init ++ sign :: tokensFrom place' rest)

theorem Seam.all_changed (alone : ∃ stop, tokensFrom place s = tokens ++ [.ending stop])
    (others : ∀ t ∈ tokens, t.kind ≠ .comma ∧ t.kind ≠ .equal) : Seam place s q :=
  .kept [] tokens alone others ⟨place, s ++ q, rfl⟩

section

variable {s : Bytes} (found : s.drop (layout false s) = b :: more)
include found

theorem tokensFrom_last (last : (b :: more).drop (munch b more).2 = []) (place : Position) :
    ∃ stop, tokensFrom place s = [tokenAt (lexemeStart place s) b more, .ending stop] := by
  rw [tokensFrom_token found, last, tokensFrom_end rfl]
  exact ⟨_, rfl⟩

theorem Seam.cons (skips : ∀ q, layout false (s ++ q) = layout false s)
    (same : ∀ q, munch b (more ++ q) = munch b more)
    (seam : Seam (tokenAt (lexemeStart place s) b more).span.stop ((b :: more).drop (munch b more).2) q) :
    Seam place s q := by
  cases seam with
  | kept init tail alone others joined =>
    obtain ⟨stop, alone⟩ := alone
    obtain ⟨place', rest, joined⟩ := joined
    refine .kept (tokenAt (lexemeStart place s) b more :: init) tail ⟨stop, ?_⟩ others ⟨place', rest, ?_⟩
    · rw [tokensFrom_token found, alone]
      rfl
    · rw [tokensFrom_append_same found (skips q) (same q), joined]
      rfl
  | doubled init sign longer rest first joined =>
    obtain ⟨place', joined⟩ := joined
    refine .doubled (tokenAt (lexemeStart place s) b more :: init) sign longer rest first
      ⟨place', fun rest => ?_⟩
    rw [tokensFrom_append_same found (skips _) (same _), joined]
    rfl

theorem Seam.sign (isSign : b = byte '=') (single : more = []) (q : Bytes) : Seam place s q := by
  subst isSign single
  have skips (q : Bytes) : layout false (s ++ q) = layout false s :=
    layout_append found fun isSlash => absurd isSlash (by decide)
  by_cases double : q.head? = some (byte '=')
  · obtain ⟨rest, rfl⟩ := List.head?_eq_some_iff.1 double
    refine .doubled [] (tokenAt (lexemeStart place s) (byte '=') [byte '=']) rfl rest rfl
      ⟨(tokenAt (lexemeStart place s) (byte '=') [byte '=']).span.stop, fun rest => ?_⟩
    rw [tokensFrom_append found (skips _)]
    rfl
  · have same : munch (byte '=') ([] ++ q) = munch (byte '=') [] := by
      rw [List.nil_append, munch_equals, if_neg (by simpa using double)]
      rfl
    exact .kept [_] [] (tokensFrom_last found rfl place) (List.forall_mem_nil _)
      ⟨_, q, tokensFrom_append_same found (skips q) same place⟩

theorem Seam.last (last : (b :: more).drop (munch b more).2 = []) (q : Bytes) : Seam place s q := by
  by_cases isComma : (munch b more).1 = .comma
  · obtain rfl := munch_comma isComma
    have skips (q : Bytes) : layout false (s ++ q) = layout false s :=
      layout_append found fun isSlash => absurd isSlash (by decide)
    refine .cons found skips (fun _ => rfl) ?_
    rw [last]
    exact .all_changed ⟨_, tokensFrom_end rfl _⟩ (List.forall_mem_nil _)
  · by_cases isSign : (munch b more).1 = .equal
    · obtain rfl := munch_sign isSign
      have single : more = [] := by
        rw [munch_equals] at isSign last
        split at last
        · next double => rw [if_pos double] at isSign; cases isSign
        · exact last
      exact .sign found rfl single q
    · exact .all_changed (tokensFrom_last found last place) (List.forall_mem_singleton.2 ⟨isComma, isSign⟩)

end

-- By the length of the text. A lexeme in front of others stays as it is, but for a number with nothing
-- but a point behind it.
theorem seam {s : Bytes} (legal : ∀ t ∈ tokensFrom place s, t.kind ≠ .illegal) (q : Bytes) : Seam place s q := by
  induction length : s.length using Nat.strongRecOn generalizing place s with
  | ind n ih =>
    cases found : s.drop (layout false s) with
    | nil => exact .all_changed ⟨_, tokensFrom_end found place⟩ (List.forall_mem_nil _)
    | cons b more =>
      have token := tokensFrom_token found place
      rw [token] at legal
      obtain ⟨lawful, legal⟩ := List.forall_mem_cons.1 legal
      by_cases last : (b :: more).drop (munch b more).2 = []
      · exact .last found last q
      · by_cases point : (munch b more).1 = .number ∧ (b :: more).drop (munch b more).2 = [byte '.']
        · obtain ⟨isNumber, isPoint⟩ := point
          obtain ⟨stop, pointed⟩ := tokensFrom_last (s := [byte '.']) rfl rfl
            (tokenAt (lexemeStart place s) b more).span.stop
          rw [isPoint, pointed] at token
          refine .all_changed ⟨stop, token⟩ (List.forall_mem_cons.2 ⟨?_, List.forall_mem_singleton.2 ?_⟩)
          · rw [tokenAt_kind, isNumber]
            decide
          · show Kind.dot ≠ .comma ∧ Kind.dot ≠ .equal
            decide
        · have some : more ≠ [] := by
            rintro rfl
            exact last (List.drop_of_length_le (munch_pos b []))
          have skips (q : Bytes) : layout false (s ++ q) = layout false s :=
            layout_append found fun _ none => absurd none some
          have same := munch_append lawful last fun isNumber isPoint => point ⟨isNumber, isPoint⟩
          exact .cons found skips same (ih _ (length ▸ behind_token_lt found) legal rfl)

end TinyScript.Scan
