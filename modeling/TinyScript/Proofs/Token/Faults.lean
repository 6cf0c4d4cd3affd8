import Mathlib.Data.List.Forall2
import TinyScript.Proofs.Token.Munch

namespace TinyScript

structure Scanner where
  rest : Bytes
  place : Position
  reported : List Diagnostic

namespace Scanner

def start (s : Bytes) : Scanner := ⟨s, .start, []⟩

def skip (sc : Scanner) : Scanner :=
  let gap := sc.rest.take (Scan.layout false sc.rest)
  { sc with rest := sc.rest.drop (Scan.layout false sc.rest), place := sc.place.after gap }

def read (sc : Scanner) (kind : Kind) (n : Nat) : Token × Scanner :=
  let lexeme := sc.rest.take n
  let stop := sc.place.after lexeme
  (⟨kind, lexeme, Scan.literal kind lexeme, ⟨sc.place, stop⟩⟩, { sc with rest := sc.rest.drop n, place := stop })

def refuse (sc : Scanner) (n : Nat) (code : Code) (message hint : Bytes) : Token × Scanner :=
  let (t, next) := sc.read .illegal n
  let report : Diagnostic := ⟨code, .error, Stage.scanning, message, ⟨sc.place, next.place⟩, hint⟩
  (t, { next with reported := next.reported ++ [report] })

def readString (sc : Scanner) (more : Bytes) : Token × Scanner :=
  let inside := (more.takeWhile (· != quoteMark)).length
  if inside < more.length then sc.read .string (inside + 2)
  else sc.refuse (inside + 1) Code.unterminatedString (text "unterminated string") []

def readSign (sc : Scanner) (b : UInt8) (more : Bytes) : Token × Scanner :=
  match Scan.mark? b, Scan.comparison? b with
  | some kind, _ => sc.read kind 1
  | none, some (short, long) =>
    if more.head? == some (byte '=') then sc.read long 2 else sc.read short 1
  | none, none =>
    if b = byte '&' then
      sc.refuse 1 Code.unexpectedCharacter (text "unexpected character: '&'") (text "did you mean 'and'?")
    else if b = byte '|' then
      sc.refuse 1 Code.unexpectedCharacter (text "unexpected character: '|'") (text "did you mean 'or'?")
    else
      sc.refuse (Utf8.width (b :: more)) Code.unexpectedCharacter
        (text "unexpected character: " ++ quotedFront (b :: more)) []

def next (sc : Scanner) : Token × Scanner :=
  let sc := sc.skip
  match sc.rest with
  | [] => (.ending sc.place, sc)
  | b :: more =>
    if b = quoteMark then sc.readString more
    else if Bytes.isDigit b then sc.read .number (Scan.numberLength (b :: more))
    else if Bytes.isLetter b then
      let word := (b :: more).takeWhile Scan.isWordByte
      sc.read (.ofWord word) word.length
    else sc.readSign b more

end Scanner

theorem glyphs_front (b : UInt8) (more : Bytes) : (glyphs (b :: more)).head? =
    some ((Utf8.front? (b :: more)).elim (.stray b) fun front => .char front.1 ((b :: more).take front.2)) := by
  rw [glyphs]
  cases Utf8.front? (b :: more) <;> rfl

-- A report shows the character in front of the text, a token the one in its lexeme, and they are the same.
theorem quotedFront_width (b : UInt8) (more : Bytes) :
    quotedFront ((b :: more).take (Utf8.width (b :: more))) = quotedFront (b :: more) := by
  have same : (glyphs ((b :: more).take (Utf8.width (b :: more)))).head? = (glyphs (b :: more)).head? := by
    cases found : Utf8.front? (b :: more) with
    | some front =>
      obtain ⟨code, n⟩ := front
      obtain ⟨bs, rest, split, encoded, rfl⟩ := Utf8.encodes_of_front? found
      have taken : (b :: more).take bs.length = bs := by rw [split, List.take_left]
      have alone := Utf8.front?_of_encodes encoded []
      rw [List.append_nil] at alone
      rw [glyphs_front, Utf8.width, found]
      simp only [Option.elim_some, taken]
      cases bs with
      | nil => cases encoded
      | cons a bs => rw [glyphs_front, alone, Option.elim_some, List.take_length]
    | none =>
      have alone : Utf8.front? [b] = none := by
        unfold Utf8.front? at found ⊢
        grind
      rw [glyphs_front, Utf8.width, found]
      show (glyphs [b]).head? = _
      rw [glyphs_front, alone]
      rfl
  unfold quotedFront
  rw [same]

theorem scanDiagnostics_cons (t : Token) (ts : List Token) :
    scanDiagnostics (t :: ts) = t.diagnostic?.toList ++ scanDiagnostics ts := by
  unfold scanDiagnostics
  cases found : t.diagnostic? <;> simp [found]

namespace Scanner

open Scan Lexical

-- The scanner behind a token, with what is then left of the text. The token says itself what is reported.
def past (sc : Scanner) (t : Token) (left : Bytes) : Scanner :=
  ⟨left, t.span.stop, sc.reported ++ t.diagnostic?.toList⟩

def Takes (sc : Scanner) (b : UInt8) (more : Bytes) (found : Token × Scanner) : Prop :=
  found = (tokenAt sc.place b more, sc.past (tokenAt sc.place b more) ((b :: more).drop (munch b more).2))

section

variable {sc : Scanner} (split : sc.rest = b :: more)
include split

theorem read_takes (taken : munch b more = (kind, n)) (legal : kind ≠ .illegal) :
    sc.Takes b more (sc.read kind n) := by
  have silent : (tokenAt sc.place b more).diagnostic? = none := by
    unfold Token.diagnostic?
    rw [if_neg (by rw [tokenAt_kind, taken]; exact legal)]
  unfold Takes past
  rw [silent]
  simp only [read, split, tokenAt, taken, Option.toList_none, List.append_nil]

theorem refuse_takes (taken : munch b more = (.illegal, n))
    (faulty : Token.fault ((b :: more).take n) = (code, message, hint)) :
    sc.Takes b more (sc.refuse n code message hint) := by
  have illegal : (tokenAt sc.place b more).kind = .illegal := by rw [tokenAt_kind, taken]
  have lexeme : (tokenAt sc.place b more).lexeme = (b :: more).take n := by simp only [tokenAt, taken]
  have reports : (tokenAt sc.place b more).diagnostic? =
      some ⟨code, .error, Stage.scanning, message, (tokenAt sc.place b more).span, hint⟩ := by
    unfold Token.diagnostic?
    rw [if_pos illegal, lexeme, faulty]
  unfold Takes past
  rw [reports]
  simp only [refuse, read, split, tokenAt, taken, Option.toList_some]

end

section

variable {sc : Scanner}

theorem readString_takes (split : sc.rest = quoteMark :: more) :
    sc.Takes quoteMark more (sc.readString more) := by
  have taken : munch quoteMark more =
      let inside := (more.takeWhile (· != quoteMark)).length
      if inside < more.length then (.string, inside + 2) else (.illegal, inside + 1) := rfl
  unfold readString
  dsimp only at taken ⊢
  split
  · next closed =>
    rw [if_pos closed] at taken
    exact read_takes split taken nofun
  · next isOpen =>
    rw [if_neg isOpen] at taken
    exact refuse_takes split taken rfl

theorem readSign_takes (split : sc.rest = b :: more) (sign : IsSign b) :
    sc.Takes b more (sc.readSign b more) := by
  have legal : ∀ k ∈ marks, k ≠ .illegal := by decide
  unfold readSign
  cases marked : mark? b with
  | some kind => exact read_takes split (munch_mark sign marked more) (legal kind (mark?_label marked).1)
  | none =>
    cases compared : comparison? b with
    | some kinds =>
      obtain ⟨short, long⟩ := kinds
      have taken := munch_comparison sign marked compared more
      obtain ⟨⟨known, _⟩, knownLong, _⟩ := comparison?_label compared
      dsimp only
      split
      · next isLong =>
        rw [if_pos isLong] at taken
        exact read_takes split taken (legal long knownLong)
      · next isShort =>
        rw [if_neg isShort] at taken
        exact read_takes split taken (legal short known)
    | none =>
      have taken := munch_stray ⟨sign, marked, compared⟩ more
      dsimp only
      split
      · next isAnd =>
        subst isAnd
        refine refuse_takes split taken ?_
        show Token.fault [byte '&'] = _
        decide +kernel
      · next notAnd =>
        split
        · next isOr =>
          subst isOr
          refine refuse_takes split taken ?_
          show Token.fault [byte '|'] = _
          decide +kernel
        · next notOr =>
          refine refuse_takes split taken ?_
          have shown := quotedFront_width b more
          obtain ⟨n, wide⟩ := Nat.exists_eq_add_of_lt (Utf8.width_pos (b :: more))
          rw [wide, Nat.zero_add, List.take_succ_cons] at shown ⊢
          simp only [Token.fault, if_neg sign.1, if_neg notAnd, if_neg notOr, shown]

theorem next_takes (found : sc.rest.drop (layout false sc.rest) = b :: more) :
    sc.skip.Takes b more sc.next := by
  have split : sc.skip.rest = b :: more := found
  unfold next
  dsimp only
  rw [split]
  dsimp only
  split
  · next isQuote =>
    subst isQuote
    exact readString_takes split
  · next unquoted =>
    split
    · next digit => exact read_takes split (munch_number (digit_iff.2 digit) more) nofun
    · next undigit =>
      split
      · next letter =>
        have word := ofWord_cases ((b :: more).takeWhile isWordByte)
        refine read_takes split (munch_word (letter_iff.2 letter) more) fun illegal => ?_
        rw [illegal] at word
        exact absurd word (by decide)
      · next unletter => exact readSign_takes split ⟨unquoted, undigit, unletter⟩

theorem next_ends (found : sc.rest.drop (layout false sc.rest) = []) :
    sc.next = (.ending (sc.place.after sc.rest), sc.skip) := by
  have split : sc.skip.rest = [] := found
  have all : sc.skip.place = sc.place.after sc.rest := by
    unfold skip
    dsimp only
    rw [List.take_of_length_le (List.drop_eq_nil_iff.1 found)]
  unfold next
  dsimp only
  rw [split, all]

end

theorem next_shorter {sc : Scanner} (inner : sc.next.1.kind ≠ .eof) :
    sc.next.2.rest.length < sc.rest.length := by
  cases found : sc.rest.drop (layout false sc.rest) with
  | nil =>
    rw [next_ends found] at inner
    exact absurd rfl inner
  | cons b more =>
    rw [next_takes found]
    exact behind_token_lt found

def run (sc : Scanner) : List Token × List Diagnostic :=
  if _inner : sc.next.1.kind = .eof then ([sc.next.1], sc.next.2.reported)
  else
    let (tokens, reports) := run sc.next.2
    (sc.next.1 :: tokens, reports)
termination_by sc.rest.length
decreasing_by exact next_shorter _inner

theorem run_end {sc : Scanner} (found : sc.rest.drop (layout false sc.rest) = []) :
    sc.run = ([.ending (sc.place.after sc.rest)], sc.reported) := by
  have read := next_ends found
  rw [run, dif_pos (by rw [read]; rfl), read]
  rfl

theorem run_token {sc : Scanner} (found : sc.rest.drop (layout false sc.rest) = b :: more) :
    sc.run = (sc.next.1 :: sc.next.2.run.1, sc.next.2.run.2) := by
  have read := next_takes found
  have inner : sc.next.1.kind ≠ .eof := by
    rw [read]
    exact munch_ne_eof b more
  rw [run, dif_neg inner]

theorem run_eq (sc : Scanner) :
    sc.run = (tokensFrom sc.place sc.rest, sc.reported ++ scanDiagnostics (tokensFrom sc.place sc.rest)) := by
  induction length : sc.rest.length using Nat.strongRecOn generalizing sc with
  | ind n ih =>
    cases found : sc.rest.drop (layout false sc.rest) with
    | nil =>
      have silent : scanDiagnostics [.ending (sc.place.after sc.rest)] = [] := rfl
      rw [run_end found, tokensFrom_end found, silent, List.append_nil]
    | cons b more =>
      have read := next_takes found
      have later := ih _ (length ▸ next_shorter (by rw [read]; exact munch_ne_eof b more)) sc.next.2 rfl
      rw [run_token found, later, read, tokensFrom_token found, scanDiagnostics_cons, ← List.append_assoc]
      rfl

end Scanner

structure Diagnostic.Explains (d : Diagnostic) (t : Token) : Prop where
  span : d.span = t.span
  unclosed : d.code = Code.unterminatedString ↔ t.lexeme.head? = some quoteMark
  unexpected : t.lexeme.head? ≠ some quoteMark → d.code = Code.unexpectedCharacter ∧
    ((∃ b, t.lexeme = [b]) ∨ ∃ c : Char, 0x80 ≤ c.toNat ∧ t.lexeme = String.utf8EncodeChar c)

open Scan Lexical

-- A lexeme that begins with a quote is illegal only because it goes on to the end of the text.
theorem illegalAt_quote (illegal : IllegalAt w rest) (quoted : w.head? = some quoteMark) : rest = [] := by
  rcases illegal with ⟨ends, _⟩ | ⟨c, wide, rfl⟩ | ⟨b, rfl, _, first, _⟩
  · exact ends
  · rcases (Utf8.encodes_char c).narrow with ⟨_, _, _, small⟩ | ⟨_, _, high⟩
    · omega
    · exact absurd (high quoteMark (List.mem_of_mem_head? quoted)) (by decide)
  · have spelt : Spells .string (quoteMark :: ([] ++ [quoteMark])) := .string List.not_mem_nil
    exact absurd quoted.symm (first _ _ spelt)

theorem fault_code (w : Bytes) : (Token.fault w).1 =
    if w.head? = some quoteMark then Code.unterminatedString else Code.unexpectedCharacter := by
  cases w with
  | nil => rfl
  | cons b more => by_cases isQuote : b = quoteMark <;> simp [Token.fault, isQuote]

theorem explains_of_illegalAt {t : Token} (isKind : t.kind = .illegal) (illegal : IllegalAt t.lexeme rest) :
    ∃ d, t.diagnostic? = some d ∧ d.Explains t := by
  refine ⟨⟨(Token.fault t.lexeme).1, .error, Stage.scanning, (Token.fault t.lexeme).2.1, t.span,
    (Token.fault t.lexeme).2.2⟩, ?_, rfl, ?_, fun unquoted => ⟨?_, ?_⟩⟩
  · unfold Token.diagnostic?
    rw [if_pos isKind]
  · rw [fault_code]
    split
    · next quoted => simp [quoted]
    · next unquoted => simp [unquoted, Code.unterminatedString, Code.unexpectedCharacter]
  · rw [fault_code, if_neg unquoted]
  · rcases illegal with ⟨_, inside, _, isString⟩ | character | ⟨b, alone, _⟩
    · rw [isString] at unquoted
      exact absurd rfl unquoted
    · exact .inr character
    · exact .inl ⟨b, alone⟩

theorem scanDiagnostics_explain {ts : List Token}
    (illegal : ∀ t ∈ ts, t.kind = .illegal → ∃ rest, IllegalAt t.lexeme rest) :
    List.Forall₂ Diagnostic.Explains (scanDiagnostics ts) (ts.filter (·.kind = .illegal)) := by
  induction ts with
  | nil => exact .nil
  | cons t ts ih =>
    obtain ⟨mine, others⟩ := List.forall_mem_cons.1 illegal
    rw [scanDiagnostics_cons]
    by_cases isKind : t.kind = .illegal
    · obtain ⟨rest, here⟩ := mine isKind
      obtain ⟨d, reported, explains⟩ := explains_of_illegalAt isKind here
      rw [reported, List.filter_cons_of_pos (by simpa using isKind)]
      exact .cons explains (ih others)
    · have silent : t.diagnostic? = none := if_neg isKind
      rw [silent, List.filter_cons_of_neg (by simpa using isKind)]
      exact ih others

-- A string that nothing ends has taken the rest of the text, so it is the last token, and no other is one.
theorem tokensFrom_unclosed (place : Position) (s : Bytes) : ∀ front t back,
    tokensFrom place s = front ++ t :: back → t.kind = .illegal → t.lexeme.head? = some quoteMark →
      (∃ stop, back = [.ending stop]) ∧ ∀ u ∈ front, u.kind = .illegal → u.lexeme.head? ≠ some quoteMark := by
  refine tokensFrom_induction (motive := fun _ _ ts => ∀ front t back, ts = front ++ t :: back →
    t.kind = .illegal → t.lexeme.head? = some quoteMark → (∃ stop, back = [.ending stop]) ∧
      ∀ u ∈ front, u.kind = .illegal → u.lexeme.head? ≠ some quoteMark) ?_ ?_ place s
  · intro place gap _ front t back split illegal
    have isEnd : t ∈ [Token.ending (place.after gap)] := split ▸ by simp
    rw [List.mem_singleton.1 isEnd] at illegal
    cases illegal
  · intro place gap b more _ starts ih front t back split illegal quoted
    have rule := tokenAt_rule starts (place.after gap)
    generalize tokenAt (place.after gap) b more = first at *
    generalize (b :: more).drop (munch b more).2 = rest at *
    have last (isKind : first.kind = .illegal) (isString : first.lexeme.head? = some quoteMark) : rest = [] :=
      illegalAt_quote (isKind ▸ rule).of_illegal isString
    cases front with
    | nil =>
      obtain ⟨rfl, rfl⟩ := List.cons.inj split
      refine ⟨?_, List.forall_mem_nil _⟩
      rw [last illegal quoted]
      exact ⟨_, tokensFrom_end rfl _⟩
    | cons u front =>
      obtain ⟨rfl, behind⟩ := List.cons.inj split
      obtain ⟨ends, others⟩ := ih front t back behind illegal quoted
      refine ⟨ends, List.forall_mem_cons.2 ⟨fun isKind isString => ?_, others⟩⟩
      rw [last isKind isString, tokensFrom_end rfl] at behind
      have isEnd : t ∈ [Token.ending (first.span.stop.after [])] := behind ▸ by simp
      rw [List.mem_singleton.1 isEnd] at illegal
      cases illegal

theorem illegal_tokens_reported_once (s : Bytes) :
    (Scanner.start s).run = (scan s, scanDiagnostics (scan s)) ∧
    List.Forall₂ Diagnostic.Explains (scanDiagnostics (scan s)) ((scan s).filter (·.kind = .illegal)) ∧
    ∀ front t back, scan s = front ++ t :: back → t.kind = .illegal → t.lexeme.head? = some quoteMark →
      (∃ stop, back = [.ending stop]) ∧ ∀ u ∈ front, u.kind = .illegal → u.lexeme.head? ≠ some quoteMark := by
  refine ⟨(Scanner.start s).run_eq, scanDiagnostics_explain fun t mem isKind => ?_, tokensFrom_unclosed .start s⟩
  have munched := tokensFrom_munched [] s .start rfl t mem (by rw [isKind]; decide)
  exact ⟨_, munched.illegal.1 isKind⟩

end TinyScript
