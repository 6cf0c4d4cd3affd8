import Mathlib.Data.List.TakeWhile
import TinyScript.Token.Scan

namespace TinyScript

theorem Position.after_append (place : Position) (s t : Bytes) :
    place.after (s ++ t) = (place.after s).after t := List.foldl_append

namespace Scan

theorem takeWhile_stop {p : UInt8 → Bool} (stops : p mark = false) (s rest : Bytes) :
    (s ++ mark :: rest).takeWhile p = s.takeWhile p := by
  induction s with
  | nil => rw [List.nil_append, List.takeWhile_cons, stops]; rfl
  | cons b s ih => rw [List.cons_append, List.takeWhile_cons, List.takeWhile_cons, ih]

-- A byte that goes on with no lexeme but a string.
structure Stops (mark : UInt8) : Prop where
  word : isWordByte mark = false
  point : mark ≠ byte '.'
  sign : mark ≠ byte '='
  tail : Utf8.isTail mark = false

theorem newline_stops : Stops (byte '\n') := ⟨by decide, by decide, by decide, by decide⟩

theorem quote_stops : Stops quoteMark := ⟨by decide, by decide, by decide, by decide⟩

theorem Stops.digit (stops : Stops mark) : Bytes.isDigit mark = false := (Bool.or_eq_false_iff.1 stops.word).2

theorem numberLength_stop (stops : Stops mark) (s rest : Bytes) :
    numberLength (s ++ mark :: rest) = numberLength s := by
  have within : (s.takeWhile Bytes.isDigit).length ≤ s.length := (List.takeWhile_prefix _).length_le
  simp only [numberLength, takeWhile_stop stops.digit, List.drop_append_of_le_length within]
  generalize (s.takeWhile Bytes.isDigit).length = whole
  rcases s.drop whole with _ | ⟨point, _ | ⟨digit, more⟩⟩
  · cases rest <;> simp [stops.point]
  · simp [stops.digit]
  · have digits := takeWhile_stop stops.digit (digit :: more) rest
    rw [List.cons_append] at digits
    simp only [List.cons_append, digits]

theorem numberLength_le (s : Bytes) : numberLength s ≤ s.length := by
  have within : (s.takeWhile Bytes.isDigit).length ≤ s.length := (List.takeWhile_prefix _).length_le
  unfold numberLength
  generalize (s.takeWhile Bytes.isDigit).length = whole at within
  dsimp only
  split
  · next point digit rest found =>
    have length : (s.drop whole).length = (point :: digit :: rest).length := by rw [found]
    have digits : ((digit :: rest).takeWhile Bytes.isDigit).length ≤ (digit :: rest).length :=
      (List.takeWhile_prefix _).length_le
    simp only [List.length_drop, List.length_cons] at length digits
    split <;> omega
  · exact within

theorem width_stop (stops : Stops mark) (b : UInt8) (s rest : Bytes) :
    Utf8.width (b :: (s ++ mark :: rest)) = Utf8.width (b :: s) := by
  have front : Utf8.front? (b :: (s ++ mark :: rest)) = Utf8.front? (b :: s) := by
    unfold Utf8.front?
    match s with
    | [] =>
      match rest with
      | [] | [_] | _ :: _ :: _ =>
        simp only [List.nil_append, stops.tail, Bool.false_and, Bool.false_eq_true, if_false]
    | [c] =>
      cases rest <;>
        simp only [List.cons_append, List.nil_append, stops.tail, Bool.and_false, Bool.false_and,
          Bool.false_eq_true, if_false]
    | [c, d] =>
      simp only [List.cons_append, List.nil_append, stops.tail, Bool.and_false, Bool.false_and,
        Bool.false_eq_true, if_false]
    | c :: d :: e :: line => rfl
  rw [Utf8.width, front, Utf8.width]

theorem width_le (b : UInt8) (rest : Bytes) : Utf8.width (b :: rest) ≤ rest.length + 1 := by
  unfold Utf8.width Utf8.front?
  grind

theorem munch_stop (stops : Stops mark) (unquoted : b ≠ quoteMark) (s rest : Bytes) :
    munch b (s ++ mark :: rest) = munch b s := by
  have head : ((s ++ mark :: rest).head? == some (byte '=')) = (s.head? == some (byte '=')) := by
    cases s with
    | nil => simpa using stops.sign
    | cons c s => rfl
  unfold munch
  rw [if_neg unquoted, if_neg unquoted, ← List.cons_append, numberLength_stop stops,
    takeWhile_stop stops.word, List.cons_append, width_stop stops, head]

theorem munch_le (b : UInt8) (rest : Bytes) : (munch b rest).2 ≤ rest.length + 1 := by
  unfold munch
  split
  · dsimp only
    split
    · dsimp only; omega
    · have within : (rest.takeWhile (· != quoteMark)).length ≤ rest.length :=
        (List.takeWhile_prefix _).length_le
      exact Nat.succ_le_succ within
  · split
    · exact numberLength_le (b :: rest)
    · split
      · exact (List.takeWhile_prefix (l := b :: rest) isWordByte).length_le
      · split
        · simp
        · split
          · next lengthened =>
            cases rest with
            | nil => cases lengthened
            | cons c rest => simp
          · simp
        · exact width_le b rest

theorem takeWhile_unquoted {inside : Bytes} (unquoted : quoteMark ∉ inside) :
    inside.takeWhile (· != quoteMark) = inside := by
  rw [List.takeWhile_eq_self_iff]
  intro b mem
  exact bne_iff_ne.2 fun eq => unquoted (eq ▸ mem)

theorem unquoted_lines {line rest : Bytes} (first : quoteMark ∉ line) (others : quoteMark ∉ rest) :
    quoteMark ∉ line ++ byte '\n' :: rest := by
  rw [List.mem_append, List.mem_cons, not_or, not_or]
  exact ⟨first, by decide, others⟩

theorem munch_open {rest : Bytes} (unclosed : quoteMark ∉ rest) :
    munch quoteMark rest = (.illegal, rest.length + 1) := by
  unfold munch
  rw [if_pos rfl, takeWhile_unquoted unclosed, if_neg (Nat.lt_irrefl _)]

theorem munch_closed {inside : Bytes} (unquoted : quoteMark ∉ inside) (behind : Bytes) :
    munch quoteMark (inside ++ quoteMark :: behind) = (.string, inside.length + 2) := by
  have ends := takeWhile_stop (p := (· != quoteMark)) (by decide : (quoteMark != quoteMark) = false) inside
  unfold munch
  rw [if_pos rfl, ends, takeWhile_unquoted unquoted]
  exact if_pos (by simp)

-- Behind a quote nothing changes the lexeme: it ends there, or the quote begins another one.
theorem munch_quoted {more : Bytes} (quoted : quoteMark ∈ more) (b : UInt8) (q : Bytes) :
    munch b (more ++ q) = munch b more := by
  obtain ⟨inside, behind, rfl, unquoted⟩ := List.eq_append_cons_of_mem quoted
  rw [List.append_assoc, List.cons_append]
  by_cases isQuote : b = quoteMark
  · rw [isQuote, munch_closed unquoted, munch_closed unquoted]
  · rw [munch_stop quote_stops isQuote, munch_stop quote_stops isQuote]

theorem munch_line {line : Bytes} (closed : b = quoteMark → quoteMark ∈ line) (rest : Bytes) :
    munch b (line ++ byte '\n' :: rest) = munch b line := by
  by_cases isQuote : b = quoteMark
  · exact munch_quoted (closed isQuote) b _
  · exact munch_stop newline_stops isQuote line rest

theorem ofWord_cases (word : Bytes) : Kind.ofWord word = .ident ∨ Kind.ofWord word ∈ Kind.keywords := by
  unfold Kind.ofWord
  cases found : Kind.keywords.find? fun k => k.label == word with
  | none => exact .inl rfl
  | some kind => exact .inr (List.mem_of_find?_eq_some found)

theorem ofWord_ne_eof (word : Bytes) : Kind.ofWord word ≠ .eof := by
  intro isEnd
  have known := ofWord_cases word
  rw [isEnd] at known
  exact absurd known (by decide)

theorem ite_ne_some {kind other : Kind} (p : Prop) [Decidable p] (first : kind ≠ other)
    (rest : others ≠ some other) : (if p then some kind else others) ≠ some other := by
  split
  · exact fun same => first (Option.some.inj same)
  · exact rest

theorem mark?_ne_eof (b : UInt8) : mark? b ≠ some .eof := by
  unfold mark?
  repeat refine ite_ne_some _ (by decide) ?_
  nofun

theorem comparison?_ne_eof (found : comparison? b = some (short, long)) : short ≠ .eof ∧ long ≠ .eof := by
  unfold comparison? at found
  grind

theorem munch_ne_eof (b : UInt8) (rest : Bytes) : (munch b rest).1 ≠ .eof := by
  unfold munch
  split
  · dsimp only
    split <;> nofun
  · split
    · nofun
    · split
      · exact ofWord_ne_eof _
      · split
        · next kind mark => exact fun isEnd => mark?_ne_eof b (isEnd ▸ mark)
        · next short long _ known =>
          have kinds := comparison?_ne_eof known
          split
          · exact kinds.2
          · exact kinds.1
        · nofun

-- Blanks and comments in front of a lexeme do not depend on what follows it, unless the lexeme is a
-- slash that becomes a comment.
theorem layout_append {s : Bytes} (found : s.drop (layout inComment s) = b :: more)
    (seam : b = byte '/' → more = [] → q.head? ≠ some (byte '/')) :
    layout inComment (s ++ q) = layout inComment s := by
  induction s generalizing inComment with
  | nil => cases found
  | cons c s ih =>
    cases inComment with
    | true => exact congrArg (· + 1) (ih found)
    | false =>
      rw [layout] at found
      rw [List.cons_append, layout, layout]
      split at found
      · next blank =>
        rw [if_pos blank, if_pos blank, ih found]
      · next other =>
        rw [if_neg other, if_neg other]
        split at found
        · next comment =>
          obtain ⟨next, rest, rfl⟩ : ∃ next rest, s = next :: rest :=
            List.exists_cons_of_ne_nil (by rintro rfl; simp at comment)
          rw [if_pos comment, ih found]
          exact if_pos comment
        · next lexeme =>
          obtain ⟨rfl, rfl⟩ := List.cons.inj found
          rw [if_neg lexeme, if_neg]
          cases s with
          | nil => simpa using fun isSlash => seam isSlash rfl
          | cons next rest => exact lexeme

theorem layout_line {line : Bytes} (all : line.drop (layout inComment line) = []) (rest : Bytes) :
    layout inComment (line ++ byte '\n' :: rest) = line.length + 1 + layout false rest := by
  induction line generalizing inComment with
  | nil => cases inComment <;> simp [layout, isBlank, Nat.add_comm]
  | cons b line ih =>
    have skip (flag : Bool) (all : line.drop (layout flag line) = []) :
        layout flag (line ++ byte '\n' :: rest) + 1 = line.length + 1 + 1 + layout false rest := by
      rw [ih all]
      omega
    cases inComment with
    | true => exact skip (b != byte '\n') all
    | false =>
      rw [layout] at all
      rw [List.cons_append, layout, List.length_cons]
      split at all
      · next blank =>
        rw [if_pos blank]
        exact skip false all
      · next other =>
        rw [if_neg other]
        split at all
        · next comment =>
          rw [if_pos]
          · exact skip true all
          · cases line with
            | nil => simp at comment
            | cons next rest => exact comment
        · cases all

theorem tokensFrom_end {s : Bytes} (found : s.drop (layout false s) = []) (place : Position) :
    tokensFrom place s = [.ending (place.after s)] := by
  rw [tokensFrom]
  split
  · rw [List.take_of_length_le (List.drop_eq_nil_iff.1 found)]
  · next found' => rw [found] at found'; cases found'

def lexemeStart (place : Position) (s : Bytes) : Position := place.after (s.take (layout false s))

def tokenAt (start : Position) (b : UInt8) (more : Bytes) : Token :=
  let lexeme := (b :: more).take (munch b more).2
  ⟨(munch b more).1, lexeme, literal (munch b more).1 lexeme, ⟨start, start.after lexeme⟩⟩

theorem tokenAt_kind : (tokenAt start b more).kind = (munch b more).1 := rfl

theorem tokensFrom_token {s : Bytes} (found : s.drop (layout false s) = b :: more) (place : Position) :
    tokensFrom place s = tokenAt (lexemeStart place s) b more ::
      tokensFrom (tokenAt (lexemeStart place s) b more).span.stop ((b :: more).drop (munch b more).2) := by
  rw [tokensFrom]
  split
  · next empty => rw [found] at empty; cases empty
  · next b' more' found' =>
    rw [found] at found'
    cases found'
    rfl

theorem behind_token_lt {s : Bytes} (found : s.drop (layout false s) = b :: more) :
    ((b :: more).drop (munch b more).2).length < s.length := by
  have positive := munch_pos b more
  have length : (s.drop (layout false s)).length = (b :: more).length := by rw [found]
  simp only [List.length_drop, List.length_cons] at length ⊢
  omega

theorem tokensFrom_skip {front : Bytes}
    (skips : layout false (front ++ rest) = front.length + layout false rest) (place : Position) :
    tokensFrom place (front ++ rest) = tokensFrom (place.after front) rest := by
  have left : (front ++ rest).drop (layout false (front ++ rest)) = rest.drop (layout false rest) := by
    rw [skips, List.drop_append, List.drop_of_length_le (by omega), Nat.add_sub_cancel_left]
    rfl
  have start : lexemeStart place (front ++ rest) = lexemeStart (place.after front) rest := by
    rw [lexemeStart, skips, List.take_append, List.take_of_length_le (by omega), Nat.add_sub_cancel_left,
      Position.after_append]
    rfl
  cases found : rest.drop (layout false rest) with
  | nil => rw [tokensFrom_end found, tokensFrom_end (left.trans found), Position.after_append]
  | cons b more => rw [tokensFrom_token found, tokensFrom_token (left.trans found), start]

theorem tokensFrom_shape (place : Position) (s : Bytes) :
    ∃ body stop, tokensFrom place s = body ++ [.ending stop] ∧ ∀ t ∈ body, t.kind ≠ .eof := by
  induction length : s.length using Nat.strongRecOn generalizing place s with
  | ind n ih =>
    cases found : s.drop (layout false s) with
    | nil => exact ⟨[], _, tokensFrom_end found place, List.forall_mem_nil _⟩
    | cons b more =>
      rw [tokensFrom_token found]
      obtain ⟨body, stop, eq, inner⟩ := ih _ (length ▸ behind_token_lt found)
        (tokenAt (lexemeStart place s) b more).span.stop ((b :: more).drop (munch b more).2) rfl
      rw [eq, ← List.cons_append]
      refine ⟨_, stop, rfl, List.forall_mem_cons.2 ⟨?_, inner⟩⟩
      rw [tokenAt_kind]
      exact munch_ne_eof b more

theorem tokensFrom_inner (alone : tokensFrom place s = body ++ [.ending stop]) :
    ∀ t ∈ body, t.kind ≠ .eof := by
  obtain ⟨body', stop', shape, inner⟩ := tokensFrom_shape place s
  obtain ⟨rfl, _⟩ := List.append_inj' (alone.symm.trans shape) rfl
  exact inner

def OpenString (t : Token) : Prop := t.kind = .illegal ∧ t.lexeme.head? = some quoteMark

theorem OpenString.reported (isOpen : OpenString t) :
    ∃ d, t.diagnostic? = some d ∧ d.severity = .error ∧ d.code = Code.unterminatedString := by
  obtain ⟨illegal, quoted⟩ := isOpen
  obtain ⟨kind, lexeme, literal, span⟩ := t
  obtain ⟨rest, rfl⟩ : ∃ rest, lexeme = quoteMark :: rest := List.head?_eq_some_iff.1 quoted
  cases illegal
  refine ⟨_, rfl, rfl, ?_⟩
  show (Token.fault (quoteMark :: rest)).1 = _
  rw [Token.fault, if_pos rfl]

theorem tokenAt_open (start : Position) (unclosed : quoteMark ∉ more) :
    OpenString (tokenAt start quoteMark more) := by
  refine ⟨congrArg Prod.fst (munch_open unclosed), ?_⟩
  show ((quoteMark :: more).take (munch quoteMark more).2).head? = _
  rw [munch_open unclosed]
  rfl

theorem tokenAt_closed (start : Position) (closed : b = quoteMark → quoteMark ∈ more) :
    ¬OpenString (tokenAt start b more) := by
  rintro ⟨illegal, quoted⟩
  have first : ((b :: more).take (munch b more).2).head? = some b := by
    rw [List.head?_take, if_neg (Nat.ne_of_gt (munch_pos b more))]
    rfl
  obtain rfl : b = quoteMark := Option.some.inj (first.symm.trans quoted)
  obtain ⟨inside, behind, rfl, unquoted⟩ := List.eq_append_cons_of_mem (closed rfl)
  rw [tokenAt_kind, munch_closed unquoted] at illegal
  cases illegal

-- A string token takes the text up to its second quote, or up to the end.

theorem tokensFrom_quote (start : Position) (more : Bytes) :
    tokensFrom start (quoteMark :: more) = tokenAt start quoteMark more ::
      tokensFrom (tokenAt start quoteMark more).span.stop ((quoteMark :: more).drop (munch quoteMark more).2) :=
  tokensFrom_token (s := quoteMark :: more) rfl start

theorem tokensFrom_open (start : Position) (unclosed : quoteMark ∉ more) :
    ∃ stop, tokensFrom start (quoteMark :: more) = [tokenAt start quoteMark more, .ending stop] := by
  rw [tokensFrom_quote, munch_open unclosed, List.drop_of_length_le (Nat.le_of_eq List.length_cons),
    tokensFrom_end rfl]
  exact ⟨_, rfl⟩

theorem tokensFrom_closed (start : Position) (unquoted : quoteMark ∉ inside) (behind : Bytes) :
    ∃ t place, t.kind = .string ∧
      tokensFrom start (quoteMark :: (inside ++ quoteMark :: behind)) = t :: tokensFrom place behind := by
  have behindIt : (quoteMark :: (inside ++ quoteMark :: behind)).drop (inside.length + 2) = behind := by simp
  rw [tokensFrom_quote, munch_closed unquoted, behindIt]
  exact ⟨_, _, congrArg Prod.fst (munch_closed unquoted behind), rfl⟩

theorem tokenAt_append (same : munch b (more ++ q) = munch b more) (start : Position) :
    tokenAt start b (more ++ q) = tokenAt start b more := by
  unfold tokenAt
  rw [same, ← List.cons_append, List.take_append_of_le_length (munch_le b more)]

section

variable {s : Bytes} (found : s.drop (layout false s) = b :: more)
include found

theorem tokensFrom_append (skips : layout false (s ++ q) = layout false s) (place : Position) :
    tokensFrom place (s ++ q) = tokenAt (lexemeStart place s) b (more ++ q) ::
      tokensFrom (tokenAt (lexemeStart place s) b (more ++ q)).span.stop
        ((b :: (more ++ q)).drop (munch b (more ++ q)).2) := by
  have starts : layout false s ≤ s.length := by
    have length : (s.drop (layout false s)).length = (b :: more).length := by rw [found]
    simp only [List.length_drop, List.length_cons] at length
    omega
  have start : lexemeStart place (s ++ q) = lexemeStart place s := by
    rw [lexemeStart, skips, List.take_append_of_le_length starts]
    rfl
  have dropped : (s ++ q).drop (layout false (s ++ q)) = b :: (more ++ q) := by
    rw [skips, List.drop_append_of_le_length starts, found, List.cons_append]
  rw [tokensFrom_token dropped, start]

theorem tokensFrom_append_same (skips : layout false (s ++ q) = layout false s)
    (same : munch b (more ++ q) = munch b more) (place : Position) :
    tokensFrom place (s ++ q) = tokenAt (lexemeStart place s) b more ::
      tokensFrom (tokenAt (lexemeStart place s) b more).span.stop ((b :: more).drop (munch b more).2 ++ q) := by
  rw [tokensFrom_append found skips, tokenAt_append same, same, ← List.cons_append,
    List.drop_append_of_le_length (munch_le b more)]

theorem tokensFrom_line_closed (closed : b = quoteMark → quoteMark ∈ more) (place : Position) (rest : Bytes) :
    tokensFrom place (s ++ byte '\n' :: rest) = tokenAt (lexemeStart place s) b more ::
      tokensFrom (tokenAt (lexemeStart place s) b more).span.stop
        ((b :: more).drop (munch b more).2 ++ byte '\n' :: rest) := by
  have skips : layout false (s ++ byte '\n' :: rest) = layout false s :=
    layout_append found fun _ _ => by rw [List.head?_cons]; decide
  exact tokensFrom_append_same found skips (munch_line closed rest) place

theorem after_line_token (place : Position) (rest : Bytes) :
    (tokenAt (lexemeStart place s) b more).span.stop.after ((b :: more).drop (munch b more).2 ++ rest) =
      place.after (s ++ rest) := by
  have whole : s.take (layout false s) ++ ((b :: more).take (munch b more).2 ++
      ((b :: more).drop (munch b more).2 ++ rest)) = s ++ rest := by
    rw [← List.append_assoc ((b :: more).take _), List.take_append_drop, ← found, ← List.append_assoc,
      List.take_append_drop]
  rw [← whole, Position.after_append place, Position.after_append _ ((b :: more).take _)]
  rfl

end

theorem mem_of_mem_behind {more : Bytes} (mem : x ∈ (b :: more).drop (munch b more).2) : x ∈ more := by
  obtain ⟨n, length⟩ := Nat.exists_eq_add_one.2 (munch_pos b more)
  rw [length] at mem
  exact List.mem_of_mem_drop mem

-- By the length of the line: behind its first token stands a shorter one. The last token may be a string
-- that is not closed on the line, and then it goes on with whatever follows.
theorem tokensFrom_line (place : Position) (line : Bytes) :
    (∃ body start more, (∀ t ∈ body, ¬OpenString t) ∧ quoteMark ∉ more ∧ quoteMark :: more <:+ line ∧
      tokensFrom place line = body ++ tokensFrom start (quoteMark :: more) ∧
      ∀ q, tokensFrom place (line ++ q) = body ++ tokensFrom start (quoteMark :: (more ++ q))) ∨
    ∃ body, (∀ t ∈ body, ¬OpenString t) ∧ tokensFrom place line = body ++ [.ending (place.after line)] ∧
      ∀ rest, tokensFrom place (line ++ byte '\n' :: rest) =
        body ++ tokensFrom (place.after (line ++ Bytes.newline)) rest := by
  induction length : line.length using Nat.strongRecOn generalizing place line with
  | ind n ih =>
    cases found : line.drop (layout false line) with
    | nil =>
      refine .inr ⟨[], List.forall_mem_nil _, tokensFrom_end found place, fun rest => ?_⟩
      have skips : layout false (line ++ Bytes.newline ++ rest) =
          (line ++ Bytes.newline).length + layout false rest := by
        rw [List.append_assoc, List.length_append]
        exact layout_line found rest
      rw [List.nil_append, ← tokensFrom_skip skips, List.append_assoc]
      rfl
    | cons b more =>
      have within : b :: more <:+ line := found ▸ List.drop_suffix _ _
      rw [tokensFrom_token found]
      by_cases closed : b = quoteMark → quoteMark ∈ more
      · have ends := after_line_token found place []
        rw [List.append_nil, List.append_nil] at ends
        have first := tokenAt_closed (lexemeStart place line) closed
        rcases ih _ (length ▸ behind_token_lt found) (tokenAt (lexemeStart place line) b more).span.stop
            ((b :: more).drop (munch b more).2) rfl with
            ⟨body, start, inside, others, unclosed, later, short, eq⟩ | ⟨body, others, short, eq⟩
        · have quoted : quoteMark ∈ more := mem_of_mem_behind (later.subset List.mem_cons_self)
          refine .inl ⟨tokenAt (lexemeStart place line) b more :: body, start, inside,
            List.forall_mem_cons.2 ⟨first, others⟩, unclosed,
            (later.trans (List.drop_suffix _ _)).trans within, ?_, fun q => ?_⟩
          · rw [short, List.cons_append]
          · have skips : layout false (line ++ q) = layout false line :=
              layout_append found fun _ none => absurd (none ▸ quoted) List.not_mem_nil
            rw [tokensFrom_append_same found skips (munch_quoted quoted b q), eq, List.cons_append]
        · refine .inr ⟨tokenAt (lexemeStart place line) b more :: body,
            List.forall_mem_cons.2 ⟨first, others⟩, ?_, fun rest => ?_⟩
          · rw [short, ends, List.cons_append]
          · rw [tokensFrom_line_closed found closed, eq, after_line_token found, List.cons_append]
      · obtain ⟨rfl, unclosed⟩ := Classical.not_imp.1 closed
        refine .inl ⟨[], lexemeStart place line, more, List.forall_mem_nil _, unclosed, within, ?_, fun q => ?_⟩
        · rw [tokensFrom_quote]
          rfl
        · have skips : layout false (line ++ q) = layout false line :=
            layout_append found fun isSlash => absurd isSlash (by decide)
          rw [tokensFrom_append found skips, tokensFrom_quote]
          rfl

end Scan

theorem scan_beginning (line rest : Bytes) :
    (∃ t ∈ scan (line ++ Bytes.newline), Scan.OpenString t) ∨
    ∃ start missing stop stop', scan (line ++ Bytes.newline) = start ++ [.ending stop] ∧
      scan (line ++ Bytes.newline ++ rest) = start ++ missing ++ [.ending stop'] ∧
      ∀ t ∈ start ++ missing, t.kind ≠ .eof := by
  rcases Scan.tokensFrom_line .start line with ⟨body, start, more, _, unclosed, _, _, eq⟩ | ⟨start, _, _, eq⟩
  · refine .inl ⟨_, ?_, Scan.tokenAt_open start (Scan.unquoted_lines unclosed List.not_mem_nil)⟩
    show _ ∈ Scan.tokensFrom .start (line ++ byte '\n' :: [])
    rw [eq, Scan.tokensFrom_quote]
    exact List.mem_append_right _ List.mem_cons_self
  · obtain ⟨missing, stop', shape, inner⟩ :=
      Scan.tokensFrom_shape (Position.start.after (line ++ Bytes.newline)) rest
    obtain ⟨start', stop, shape', inner'⟩ := Scan.tokensFrom_shape .start (line ++ Bytes.newline)
    have short : start' ++ [Token.ending stop] =
        start ++ Scan.tokensFrom (Position.start.after (line ++ Bytes.newline)) [] :=
      shape'.symm.trans (eq [])
    rw [Scan.tokensFrom_end rfl] at short
    obtain ⟨rfl, _⟩ := List.append_inj' short rfl
    refine .inr ⟨start', missing, stop, stop', shape', ?_, List.forall_mem_append.2 ⟨inner', inner⟩⟩
    rw [List.append_assoc, List.append_assoc, ← shape]
    exact eq rest

theorem scanDiagnostics_eq_nil {tokens : List Token} :
    scanDiagnostics tokens = [] ↔ ∀ t ∈ tokens, t.kind ≠ .illegal := by
  unfold scanDiagnostics
  rw [List.filterMap_eq_nil_iff]
  refine forall₂_congr fun t _ => ?_
  unfold Token.diagnostic?
  split
  · next illegal => exact ⟨nofun, fun legal => absurd illegal legal⟩
  · next legal => exact ⟨fun _ => legal, fun _ => rfl⟩

theorem scanDiagnostics_span (mem : d ∈ scanDiagnostics tokens) : ∃ t ∈ tokens, d.span = t.span := by
  obtain ⟨t, here, fault⟩ := List.mem_filterMap.1 mem
  unfold Token.diagnostic? at fault
  split at fault
  · cases fault
    exact ⟨t, here, rfl⟩
  · cases fault

end TinyScript
