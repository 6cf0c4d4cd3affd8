import TinyScript.Proofs.Token.Lines

namespace TinyScript

def slice (s : Bytes) (start stop : Int) : Bytes := (s.drop start.toNat).take (stop - start).toNat

theorem slice_middle (front middle back : Bytes) :
    slice (front ++ (middle ++ back)) front.length (front.length + middle.length) = middle := by
  have length : ((front.length : Int) + middle.length - front.length).toNat = middle.length := by omega
  rw [slice, length, Int.toNat_natCast, List.drop_left, List.take_left]

theorem Position.after_offset (place : Position) (s : Bytes) :
    (place.after s).offset = place.offset + s.length := by
  induction s generalizing place with
  | nil => simp [after]
  | cons b s ih =>
    have one : (place.next b).offset = place.offset + 1 := by
      unfold next
      split <;> rfl
    show ((place.next b).after s).offset = _
    rw [ih, one, List.length_cons]
    omega

def blanks : Bytes := [byte ' ', byte '\t', byte '\r', byte '\n']

inductive Layout : Bytes → Prop where
  | nil : Layout []
  | blank : b ∈ blanks → Layout s → Layout (b :: s)
  | comment : byte '\n' ∉ inside → Layout s →
    Layout (byte '/' :: byte '/' :: (inside ++ byte '\n' :: s))

-- A comment on the last line ends with the text.
inductive LastLayout : Bytes → Prop where
  | whole : Layout s → LastLayout s
  | comment : Layout front → byte '\n' ∉ inside → LastLayout (front ++ byte '/' :: byte '/' :: inside)

namespace LastLayout

theorem behindBlank (blank : b ∈ blanks) (rest : LastLayout s) : LastLayout (b :: s) := by
  cases rest with
  | whole rest => exact .whole (.blank blank rest)
  | comment front line => exact .comment (.blank blank front) line

theorem behindComment (line : byte '\n' ∉ inside) (rest : LastLayout s) :
    LastLayout (byte '/' :: byte '/' :: (inside ++ byte '\n' :: s)) := by
  cases rest with
  | whole rest => exact .whole (.comment line rest)
  | comment front lastLine =>
    have all := LastLayout.comment (.comment line front) lastLine
    simpa using all

end LastLayout

def Gaps (s : Bytes) (start : Int) : List Token → Prop
  | [] => True
  | t :: ts =>
    start ≤ t.span.start.offset ∧ t.span.start.offset ≤ t.span.stop.offset ∧
      (if t.kind = .eof then LastLayout (slice s start t.span.start.offset)
        else Layout (slice s start t.span.start.offset)) ∧
      Gaps s t.span.stop.offset ts

-- A text without its layout. The machine has two states, inside a string and outside, and goes from one
-- to the other at every quotation mark; outside it leaves out blanks, and lines from two slashes on.
def stripped (inString : Bool) (s : Bytes) : Bytes :=
  match s with
  | [] => []
  | b :: rest =>
    if b = quoteMark then b :: stripped (!inString) rest
    else if inString then b :: stripped true rest
    else if b = byte '/' ∧ rest.head? = some (byte '/') then
      stripped false ((rest.dropWhile (· ≠ byte '\n')).drop 1)
    else if b ∈ blanks then stripped false rest
    else b :: stripped false rest
termination_by s.length
decreasing_by
  all_goals simp only [List.length_cons, List.length_drop]
  all_goals have shorter := (List.dropWhile_suffix (l := rest) (· ≠ byte '\n')).length_le
  all_goals omega

namespace Scan

theorem isBlank_iff : isBlank b = true ↔ b ∈ blanks := by
  simp [isBlank, blanks, or_assoc]

-- Inside a comment the rest of the line is layout. The line break itself is a blank.
theorem layout_inComment (line : byte '\n' ∉ inside) (tail : Bytes)
    (ends : tail = [] ∨ tail.head? = some (byte '\n')) :
    layout true (inside ++ tail) = inside.length + layout false tail := by
  induction inside with
  | nil =>
    cases tail with
    | nil => rfl
    | cons c tail =>
      have isBreak : c = byte '\n' := by simpa using ends
      simp [isBreak, layout, isBlank]
  | cons c inside ih =>
    obtain ⟨other, line⟩ : byte '\n' ≠ c ∧ byte '\n' ∉ inside := by simpa using line
    have goesOn : (c != byte '\n') = true := by simpa using Ne.symm other
    rw [List.cons_append, layout, goesOn, ih line, List.length_cons]
    omega

theorem layout_comment (line : byte '\n' ∉ inside) (tail : Bytes)
    (ends : tail = [] ∨ tail.head? = some (byte '\n')) :
    layout false (byte '/' :: byte '/' :: (inside ++ tail)) = inside.length + 2 + layout false tail := by
  have inner : byte '\n' ∉ byte '/' :: inside := by
    rw [List.mem_cons, not_or]
    exact ⟨by decide, line⟩
  have opened : layout false (byte '/' :: byte '/' :: (inside ++ tail)) =
      layout true ((byte '/' :: inside) ++ tail) + 1 := rfl
  rw [opened, layout_inComment inner tail ends, List.length_cons]
  omega

def Starts (b : UInt8) (more : Bytes) : Prop :=
  b ∉ blanks ∧ (b = byte '/' → more.head? ≠ some (byte '/'))

theorem line_split (s : Bytes) : ∃ inside tail, s = inside ++ tail ∧ byte '\n' ∉ inside ∧
    (tail = [] ∨ tail.head? = some (byte '\n')) := by
  refine ⟨s.takeWhile (· ≠ byte '\n'), s.dropWhile (· ≠ byte '\n'),
    List.takeWhile_append_dropWhile.symm, fun mem => ?_, ?_⟩
  · simpa using List.mem_takeWhile_imp mem
  · cases stop : s.dropWhile (· ≠ byte '\n') with
    | nil => exact .inl rfl
    | cons d tail =>
      have kept := List.head?_dropWhile_not (· ≠ byte '\n') s
      rw [stop] at kept
      exact .inr (by simpa using kept)

def Splits (s : Bytes) : Prop := ∃ gap rest, s = gap ++ rest ∧ layout false s = gap.length ∧
  ((rest = [] ∧ LastLayout gap) ∨ ∃ b more, rest = b :: more ∧ Layout gap ∧ Starts b more)

namespace Splits

theorem blank (skips : isBlank c = true) (split : Splits s) : Splits (c :: s) := by
  obtain ⟨gap, rest, rfl, skipped, cases⟩ := split
  have blank := isBlank_iff.1 skips
  refine ⟨c :: gap, rest, rfl, by rw [layout, if_pos skips, skipped, List.length_cons], ?_⟩
  rcases cases with ⟨none, last⟩ | ⟨b, more, found, whole, starts⟩
  · exact .inl ⟨none, last.behindBlank blank⟩
  · exact .inr ⟨b, more, found, .blank blank whole, starts⟩

theorem comment (line : byte '\n' ∉ inside) (split : Splits s) :
    Splits (byte '/' :: byte '/' :: (inside ++ byte '\n' :: s)) := by
  obtain ⟨gap, rest, rfl, skipped, cases⟩ := split
  refine ⟨byte '/' :: byte '/' :: (inside ++ byte '\n' :: gap), rest, by simp, ?_, ?_⟩
  · have broken : layout false (byte '\n' :: (gap ++ rest)) = layout false (gap ++ rest) + 1 := rfl
    rw [layout_comment line _ (.inr rfl), broken, skipped]
    simp only [List.length_cons, List.length_append]
    omega
  · rcases cases with ⟨none, last⟩ | ⟨b, more, found, whole, starts⟩
    · exact .inl ⟨none, last.behindComment line⟩
    · exact .inr ⟨b, more, found, .comment line whole, starts⟩

theorem lastComment (line : byte '\n' ∉ inside) : Splits (byte '/' :: byte '/' :: inside) := by
  refine ⟨byte '/' :: byte '/' :: inside, [], by simp, ?_, .inl ⟨rfl, .comment .nil line⟩⟩
  have skipped := layout_comment line [] (.inl rfl)
  rwa [List.append_nil] at skipped

theorem start (notBlank : ¬isBlank c = true) (noComment : ¬(c = byte '/' ∧ s.head? = some (byte '/'))) :
    Splits (c :: s) := by
  refine ⟨[], c :: s, rfl, ?_, .inr ⟨c, s, rfl, .nil, ?_⟩⟩
  · rw [layout, if_neg notBlank, if_neg (by simpa using noComment)]
    rfl
  · exact ⟨fun mem => notBlank (isBlank_iff.2 mem), fun isSlash second => noComment ⟨isSlash, second⟩⟩

end Splits

-- By the length of the text, since a comment is skipped in one go.
theorem layout_split (s : Bytes) : Splits s := by
  induction length : s.length using Nat.strongRecOn generalizing s with
  | ind n ih =>
    cases s with
    | nil => exact ⟨[], [], rfl, rfl, .inl ⟨rfl, .whole .nil⟩⟩
    | cons c s =>
      rw [List.length_cons] at length
      by_cases blank : isBlank c = true
      · exact .blank blank (ih s.length (by omega) s rfl)
      · by_cases comment : c = byte '/' ∧ s.head? = some (byte '/')
        · obtain ⟨rfl, second⟩ := comment
          obtain ⟨text, rfl⟩ := List.head?_eq_some_iff.1 second
          obtain ⟨inside, tail, rfl, line, ends⟩ := line_split text
          cases tail with
          | nil =>
            rw [List.append_nil]
            exact .lastComment line
          | cons d tail =>
            obtain rfl : d = byte '\n' := by simpa using ends
            simp only [List.length_cons, List.length_append] at length
            exact .comment line (ih tail.length (by omega) tail rfl)
        · exact .start blank comment

theorem tokensFrom_induction {motive : Position → Bytes → List Token → Prop}
    (ending : ∀ place gap, LastLayout gap → motive place gap [.ending (place.after gap)])
    (token : ∀ place gap b more, Layout gap → Starts b more →
      motive (tokenAt (place.after gap) b more).span.stop ((b :: more).drop (munch b more).2)
        (tokensFrom (tokenAt (place.after gap) b more).span.stop ((b :: more).drop (munch b more).2)) →
      motive place (gap ++ b :: more) (tokenAt (place.after gap) b more ::
        tokensFrom (tokenAt (place.after gap) b more).span.stop ((b :: more).drop (munch b more).2)))
    (place : Position) (s : Bytes) : motive place s (tokensFrom place s) := by
  induction length : s.length using Nat.strongRecOn generalizing place s with
  | ind n ih =>
    obtain ⟨gap, rest, rfl, skipped, cases⟩ := layout_split s
    have left : (gap ++ rest).drop (layout false (gap ++ rest)) = rest := by rw [skipped, List.drop_left]
    rcases cases with ⟨rfl, last⟩ | ⟨b, more, rfl, whole, starts⟩
    · rw [tokensFrom_end left, List.append_nil]
      exact ending place gap last
    · have start : lexemeStart place (gap ++ b :: more) = place.after gap := by
        rw [lexemeStart, skipped, List.take_left]
      rw [tokensFrom_token left, start]
      apply token place gap b more whole starts
      exact ih _ (length ▸ behind_token_lt left) _ _ rfl

def special : Bytes := quoteMark :: byte '/' :: blanks

theorem not_special {p : UInt8 → Bool} (none : special.any p = false) (mine : p c = true) : c ∉ special :=
  fun mem => List.any_eq_false.1 none c mem mine

theorem numberLength_bytes (s : Bytes) :
    ∀ c ∈ s.take (numberLength s), (Bytes.isDigit c || c == byte '.') = true := by
  have digits (s : Bytes) : ∀ c ∈ s.take (s.takeWhile Bytes.isDigit).length, Bytes.isDigit c = true := by
    intro c mem
    rw [← List.prefix_iff_eq_take.1 (List.takeWhile_prefix _)] at mem
    exact List.mem_takeWhile_imp mem
  have whole := digits s
  unfold numberLength
  dsimp only
  split
  · next point digit rest found =>
    split
    · next fraction =>
      obtain ⟨isPoint, _⟩ : point = byte '.' ∧ Bytes.isDigit digit = true := by simpa using fraction
      intro c mem
      rw [Nat.add_assoc, List.take_add, found, Nat.add_comm 1, List.take_succ_cons, List.mem_append,
        List.mem_cons] at mem
      rcases mem with front | rfl | behind
      · simp [whole c front]
      · simp [isPoint]
      · simp [digits (digit :: rest) c behind]
    · intro c mem
      simp [whole c mem]
  · intro c mem
    simp [whole c mem]

theorem width_bytes (b : UInt8) (more : Bytes) :
    ∀ c ∈ (b :: more).take (Utf8.width (b :: more)), c = b ∨ Utf8.isTail c = true := by
  unfold Utf8.width Utf8.front?
  intro c mem
  grind

theorem lexeme_plain (unquoted : b ≠ quoteMark) (other : b ≠ byte '/') (starts : Starts b more) :
    ∀ c ∈ (b :: more).take (munch b more).2, c ∉ special := by
  have first : b ∉ special := by simp [special, unquoted, other, starts.1]
  have alone (c : UInt8) (mem : c ∈ (b :: more).take 1) : c ∉ special := by
    obtain rfl : c = b := by simpa using mem
    exact first
  unfold munch
  rw [if_neg unquoted]
  split
  · intro c mem
    exact not_special (p := fun c => Bytes.isDigit c || c == byte '.') (by decide) (numberLength_bytes _ c mem)
  · split
    · intro c mem
      dsimp only at mem
      rw [← List.prefix_iff_eq_take.1 (List.takeWhile_prefix _)] at mem
      exact not_special (p := isWordByte) (by decide) (List.mem_takeWhile_imp mem)
    · split
      · exact alone
      · split
        · next long =>
          obtain ⟨rest, rfl⟩ : ∃ rest, more = byte '=' :: rest := by
            cases more with
            | nil => cases long
            | cons d rest => exact ⟨rest, by simpa using long⟩
          intro c mem
          obtain rfl | rfl : c = b ∨ c = byte '=' := by simpa using mem
          · exact first
          · decide
        · exact alone
      · intro c mem
        rcases width_bytes b more c mem with rfl | isTail
        · exact first
        · exact not_special (by decide) isTail

end Scan

open Scan

section

variable {s rest : Bytes}

theorem stripped_plain (plain : ∀ c ∈ s, c ∉ special) (rest : Bytes) :
    stripped false (s ++ rest) = s ++ stripped false rest := by
  induction s with
  | nil => rfl
  | cons c s ih =>
    obtain ⟨mine, others⟩ := List.forall_mem_cons.1 plain
    obtain ⟨unquoted, other, unblank⟩ : c ≠ quoteMark ∧ c ≠ byte '/' ∧ c ∉ blanks := by
      simpa [special] using mine
    rw [List.cons_append, stripped, if_neg unquoted, if_neg (by decide), if_neg (by simp [other]),
      if_neg unblank, ih others, List.cons_append]

theorem stripped_inside (unquoted : quoteMark ∉ s) (rest : Bytes) :
    stripped true (s ++ rest) = s ++ stripped true rest := by
  induction s with
  | nil => rfl
  | cons c s ih =>
    obtain ⟨mine, others⟩ : quoteMark ≠ c ∧ quoteMark ∉ s := by simpa using unquoted
    rw [List.cons_append, stripped, if_neg (Ne.symm mine), if_pos rfl, ih others, List.cons_append]

theorem stripped_comment (line : byte '\n' ∉ inside) (rest : Bytes) :
    stripped false (byte '/' :: byte '/' :: (inside ++ rest)) =
      stripped false ((rest.dropWhile (· ≠ byte '\n')).drop 1) := by
  have skipped : (byte '/' :: (inside ++ rest)).dropWhile (· ≠ byte '\n') =
      rest.dropWhile (· ≠ byte '\n') := by
    rw [← List.cons_append]
    apply List.dropWhile_append_of_pos
    intro c mem
    rcases List.mem_cons.1 mem with rfl | mem
    · decide
    · have other : c ≠ byte '\n' := by
        rintro rfl
        exact line mem
      simpa using other
  rw [stripped, if_neg (by decide), if_neg (by decide), if_pos ⟨rfl, rfl⟩, skipped]

theorem stripped_blank (blank : b ∈ blanks) (rest : Bytes) :
    stripped false (b :: rest) = stripped false rest := by
  have unquoted : b ≠ quoteMark := fun isQuote => absurd (isQuote ▸ blank) (by decide)
  have other : b ≠ byte '/' := fun isSlash => absurd (isSlash ▸ blank) (by decide)
  rw [stripped, if_neg unquoted, if_neg (by decide), if_neg (by simp [other]), if_pos blank]

theorem stripped_layout (gap : Layout s) (rest : Bytes) : stripped false (s ++ rest) = stripped false rest := by
  induction gap with
  | nil => rfl
  | blank blank _ ih => rw [List.cons_append, stripped_blank blank, ih]
  | comment line _ ih =>
    simp only [List.cons_append, List.append_assoc]
    rw [stripped_comment line, List.dropWhile_cons, if_neg (by decide)]
    exact ih

theorem stripped_last (gap : LastLayout s) : stripped false s = [] := by
  cases gap with
  | whole gap =>
    have left := stripped_layout gap []
    rwa [List.append_nil, stripped] at left
  | @comment front inside gap line =>
    have left := stripped_comment line []
    rw [List.append_nil] at left
    rw [stripped_layout gap, left]
    simp [stripped]

-- The machine copies a lexeme. A string takes it into its other state and back, or to the end.
theorem stripped_lexeme (starts : Starts b more) : stripped false (b :: more) =
    (b :: more).take (munch b more).2 ++ stripped false ((b :: more).drop (munch b more).2) := by
  by_cases isQuote : b = quoteMark
  · subst isQuote
    have opened : stripped false (quoteMark :: more) = quoteMark :: stripped true more := by
      rw [stripped, if_pos rfl]
      rfl
    by_cases quoted : quoteMark ∈ more
    · obtain ⟨inside, behind, rfl, unquoted⟩ := List.eq_append_cons_of_mem quoted
      have closed : stripped true (quoteMark :: behind) = quoteMark :: stripped false behind := by
        rw [stripped, if_pos rfl]
        rfl
      have taken : (quoteMark :: (inside ++ quoteMark :: behind)).take (inside.length + 2) =
          quoteMark :: (inside ++ [quoteMark]) := by
        rw [List.take_succ_cons, List.take_append, List.take_of_length_le (Nat.le_succ _),
          Nat.add_sub_cancel_left, List.take_succ_cons, List.take_zero]
      rw [opened, munch_closed unquoted, stripped_inside unquoted, closed, taken]
      simp
    · have inside := stripped_inside quoted []
      rw [List.append_nil, stripped, List.append_nil] at inside
      rw [opened, munch_open quoted, inside, List.take_of_length_le (by simp),
        List.drop_of_length_le (by simp), stripped, List.append_nil]
  · by_cases isSlash : b = byte '/'
    · subst isSlash
      have single : munch (byte '/') more = (.slash, 1) := rfl
      have alone : ¬(byte '/' = byte '/' ∧ more.head? = some (byte '/')) := fun both => starts.2 rfl both.2
      rw [single, stripped, if_neg (by decide), if_neg (by decide), if_neg alone, if_neg starts.1]
      rfl
    · have copied := stripped_plain (lexeme_plain isQuote isSlash starts) ((b :: more).drop (munch b more).2)
      rwa [List.take_append_drop] at copied

end

theorem lexemes_stripped (place : Position) (s : Bytes) :
    (tokensFrom place s).flatMap Token.lexeme = stripped false s := by
  refine tokensFrom_induction (motive := fun _ s ts => ts.flatMap Token.lexeme = stripped false s) ?_ ?_ place s
  · intro place gap last
    rw [stripped_last last]
    rfl
  · intro place gap b more whole starts ih
    rw [List.flatMap_cons, ih, stripped_layout whole, stripped_lexeme starts]
    rfl

theorem tokenAt_slices (front gap : Bytes) (b : UInt8) (more : Bytes) (place : Position)
    (here : place.offset = front.length) :
    let t := tokenAt (place.after gap) b more
    slice (front ++ (gap ++ b :: more)) place.offset t.span.start.offset = gap ∧
      slice (front ++ (gap ++ b :: more)) t.span.start.offset t.span.stop.offset = t.lexeme ∧
      t.span.start.offset = place.offset + gap.length ∧
      t.span.stop.offset = (front ++ gap ++ t.lexeme).length ∧
      front ++ (gap ++ b :: more) = front ++ gap ++ t.lexeme ++ (b :: more).drop (munch b more).2 := by
  intro t
  have split : b :: more = t.lexeme ++ (b :: more).drop (munch b more).2 := (List.take_append_drop _ _).symm
  have start : t.span.start.offset = place.offset + gap.length := Position.after_offset place gap
  have stop : t.span.stop.offset = t.span.start.offset + t.lexeme.length := Position.after_offset _ t.lexeme
  refine ⟨?_, ?_, start, ?_, ?_⟩
  · rw [start, here]
    exact slice_middle front gap _
  · have length : t.span.start.offset = ((front ++ gap).length : Nat) := by
      rw [start, here, List.length_append]
      omega
    rw [stop, length, split, ← List.append_assoc]
    exact slice_middle (front ++ gap) t.lexeme _
  · rw [stop, start, here, List.length_append, List.length_append]
    omega
  · rw [List.append_assoc, List.append_assoc, ← split]

theorem tokensFrom_gaps (front s : Bytes) (place : Position) (here : place.offset = front.length) :
    Gaps (front ++ s) place.offset (tokensFrom place s) := by
  refine tokensFrom_induction (motive := fun place s ts => ∀ front : Bytes, place.offset = front.length →
    Gaps (front ++ s) place.offset ts) ?_ ?_ place s front here
  · intro place gap last front here
    have offset := Position.after_offset place gap
    have middle := slice_middle front gap []
    rw [List.append_nil, ← here, ← offset] at middle
    refine ⟨?_, Int.le_refl _, ?_, trivial⟩
    · show _ ≤ (place.after gap).offset
      omega
    · show LastLayout (slice _ _ (place.after gap).offset)
      rw [middle]
      exact last
  · intro place gap b more whole starts ih front here
    obtain ⟨before, _, start, stop, split⟩ := tokenAt_slices front gap b more place here
    refine ⟨by omega, ?_, ?_, ?_⟩
    · rw [stop, start, here, List.length_append, List.length_append]
      omega
    · rw [if_neg (by rw [tokenAt_kind]; exact munch_ne_eof b more), before]
      exact whole
    · rw [split]
      exact ih _ stop

theorem tokensFrom_lexemes (front s : Bytes) (place : Position) (here : place.offset = front.length) :
    ∀ t ∈ tokensFrom place s, t.kind ≠ .eof →
      t.lexeme ≠ [] ∧ t.lexeme = slice (front ++ s) t.span.start.offset t.span.stop.offset := by
  refine tokensFrom_induction (motive := fun place s ts => ∀ front : Bytes, place.offset = front.length →
    ∀ t ∈ ts, t.kind ≠ .eof →
      t.lexeme ≠ [] ∧ t.lexeme = slice (front ++ s) t.span.start.offset t.span.stop.offset) ?_ ?_ place s front here
  · intro place gap _ front _ t mem inner
    obtain rfl := List.mem_singleton.1 mem
    exact absurd rfl inner
  · intro place gap b more _ _ ih front here
    obtain ⟨_, own, _, stop, split⟩ := tokenAt_slices front gap b more place here
    refine List.forall_mem_cons.2 ⟨fun _ => ⟨?_, own.symm⟩, ?_⟩
    · have positive := munch_pos b more
      intro empty
      have length := congrArg List.length empty
      simp [tokenAt] at length
      omega
    · rw [split]
      exact ih _ stop

theorem tokensFrom_ending (place : Position) (s : Bytes) :
    (tokensFrom place s).getLast? = some (.ending (place.after s)) := by
  refine tokensFrom_induction (motive := fun place s ts =>
    ts.getLast? = some (.ending (place.after s))) ?_ ?_ place s
  · intro place gap _
    rfl
  · intro place gap b more _ _ ih
    have ends : (tokenAt (place.after gap) b more).span.stop.after ((b :: more).drop (munch b more).2) =
        place.after (gap ++ b :: more) := by
      show ((place.after gap).after _).after _ = _
      rw [← Position.after_append, List.take_append_drop, ← Position.after_append]
    rw [List.getLast?_cons, ih, Option.getD_some, ends]

theorem scan_literal (s : Bytes) : ∀ t ∈ scan s, t.literal = Scan.literal t.kind t.lexeme := by
  refine tokensFrom_induction (motive := fun _ _ ts =>
    ∀ t ∈ ts, t.literal = Scan.literal t.kind t.lexeme) ?_ ?_ .start s
  · intro place gap _ t mem
    obtain rfl := List.mem_singleton.1 mem
    rfl
  · intro place gap b more _ _ ih
    exact List.forall_mem_cons.2 ⟨rfl, ih⟩

theorem scan_lossless (s : Bytes) :
    (∃ body stop, scan s = body ++ [.ending stop] ∧ stop.offset = (s.length : Int) ∧
      ∀ t ∈ body, t.kind ≠ .eof ∧ t.lexeme ≠ [] ∧
        t.lexeme = slice s t.span.start.offset t.span.stop.offset) ∧
    Gaps s 0 (scan s) ∧
    (scan s).flatMap Token.lexeme = stripped false s := by
  refine ⟨?_, tokensFrom_gaps [] s .start rfl, lexemes_stripped .start s⟩
  obtain ⟨body, stop, shape, inner⟩ := tokensFrom_shape .start s
  refine ⟨body, stop, shape, ?_, fun t mem => ⟨inner t mem, ?_⟩⟩
  · have ends := tokensFrom_ending .start s
    rw [shape, List.getLast?_concat] at ends
    cases ends
    rw [Position.after_offset]
    exact Int.zero_add _
  · exact tokensFrom_lexemes [] s .start rfl t (shape ▸ List.mem_append_left _ mem) (inner t mem)

end TinyScript
