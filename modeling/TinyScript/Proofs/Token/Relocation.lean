import TinyScript.Proofs.Token.Lines
import TinyScript.Proofs.Tree.Shape

namespace TinyScript

def Token.relocate (g : Position → Position) (t : Token) : Token := { t with span := t.span.relocate g }

def Diagnostic.relocate (g : Position → Position) (d : Diagnostic) : Diagnostic :=
  { d with span := d.span.relocate g }

namespace Position

def moved (bytes lines : Int) (p : Position) : Position := ⟨p.offset + bytes, p.line + lines, p.column⟩

theorem next_moved (bytes lines : Int) (p : Position) (b : UInt8) :
    (p.moved bytes lines).next b = (p.next b).moved bytes lines := by
  unfold next moved
  split <;> simp only [mk.injEq, and_true] <;> omega

theorem after_moved (bytes lines : Int) (p : Position) (s : Bytes) :
    (p.moved bytes lines).after s = (p.after s).moved bytes lines := by
  induction s generalizing p with
  | nil => rfl
  | cons b s ih =>
    show ((p.moved bytes lines).next b).after s = _
    rw [next_moved, ih]
    rfl

theorem after_lineBreak (p : Position) (s : Bytes) :
    p.after (s ++ Bytes.newline) =
      ⟨p.offset + (s.length + 1), p.line + (s.count (byte '\n') + 1), 1⟩ := by
  induction s generalizing p with
  | nil => rfl
  | cons b s ih =>
    show (p.next b).after (s ++ Bytes.newline) = _
    rw [ih]
    unfold next
    by_cases isBreak : b = byte '\n'
    · rw [if_pos isBreak, isBreak, List.count_cons_self, List.length_cons]
      simp only [mk.injEq, and_true]
      omega
    · rw [if_neg isBreak, List.count_cons_of_ne isBreak, List.length_cons]
      simp only [mk.injEq, and_true]
      omega

end Position

namespace Scan

theorem tokensFrom_moved (bytes lines : Int) (place : Position) (s : Bytes) :
    tokensFrom (place.moved bytes lines) s =
      (tokensFrom place s).map (Token.relocate (.moved bytes lines)) := by
  induction length : s.length using Nat.strongRecOn generalizing place s with
  | ind n ih =>
    cases found : s.drop (layout false s) with
    | nil =>
      rw [tokensFrom_end found, tokensFrom_end found, Position.after_moved]
      rfl
    | cons b more =>
      have start : lexemeStart (place.moved bytes lines) s = (lexemeStart place s).moved bytes lines :=
        Position.after_moved bytes lines place _
      have token : tokenAt ((lexemeStart place s).moved bytes lines) b more =
          (tokenAt (lexemeStart place s) b more).relocate (.moved bytes lines) := by
        unfold tokenAt
        dsimp only
        rw [Position.after_moved]
        rfl
      rw [tokensFrom_token found, tokensFrom_token found, start, token, List.map_cons]
      exact congrArg _ (ih _ (length ▸ behind_token_lt found) _ _ rfl)

end Scan

theorem scanDiagnostics_relocate (g : Position → Position) (tokens : List Token) :
    scanDiagnostics (tokens.map (Token.relocate g)) =
      (scanDiagnostics tokens).map (Diagnostic.relocate g) := by
  unfold scanDiagnostics
  rw [List.filterMap_map, List.map_filterMap]
  refine congrArg (List.filterMap · tokens) (funext fun t => ?_)
  show Token.diagnostic? (t.relocate g) = t.diagnostic?.map (Diagnostic.relocate g)
  unfold Token.diagnostic?
  show (if t.kind = .illegal then _ else _) = _
  split <;> rfl

def behindLines (s : Bytes) : Position → Position := .moved (s.length + 1) (s.count (byte '\n') + 1)

theorem scan_lines (a b : Bytes) (closed : ∀ t ∈ scan a, ¬Scan.OpenString t) :
    ∃ body stop, scan a = body ++ [.ending stop] ∧ (∀ t ∈ body, t.kind ≠ .eof) ∧
      scan (a ++ Bytes.newline ++ b) = body ++ (scan b).map (Token.relocate (behindLines a)) := by
  rcases Scan.tokensFrom_line .start a with ⟨body, start, more, _, unclosed, _, alone, _⟩ | ⟨body, _, alone, eq⟩
  · refine absurd (Scan.tokenAt_open start unclosed) (closed _ ?_)
    rw [scan, alone, Scan.tokensFrom_quote]
    exact List.mem_append_right _ List.mem_cons_self
  · have place : Position.start.after (a ++ Bytes.newline) = behindLines a .start := by
      rw [Position.after_lineBreak, behindLines, Position.moved, Position.start]
    refine ⟨body, _, alone, Scan.tokensFrom_inner alone, ?_⟩
    rw [List.append_assoc]
    show Scan.tokensFrom .start (a ++ byte '\n' :: b) = _
    rw [eq b, place]
    exact congrArg _ (Scan.tokensFrom_moved _ _ .start b)

theorem scan_composes_at_lines (a b : Bytes)
    (closed : ∀ d ∈ scanDiagnostics (scan a), d.code ≠ Code.unterminatedString) :
    scan (a ++ Bytes.newline ++ b) = (scan a).filter (·.kind ≠ .eof) ++
      (scan b).map (Token.relocate (behindLines a)) ∧
    scanDiagnostics (scan (a ++ Bytes.newline ++ b)) = scanDiagnostics (scan a) ++
      (scanDiagnostics (scan b)).map (Diagnostic.relocate (behindLines a)) := by
  have ended (t : Token) (mem : t ∈ scan a) : ¬Scan.OpenString t := by
    intro isOpen
    obtain ⟨d, reported, _, code⟩ := isOpen.reported
    exact closed d (List.mem_filterMap.2 ⟨t, mem, reported⟩) code
  obtain ⟨body, stop, alone, inner, whole⟩ := scan_lines a b ended
  have tokens : (scan a).filter (·.kind ≠ .eof) = body := by
    simpa [alone, Token.ending] using inner
  have silent : scanDiagnostics [Token.ending stop] = [] := rfl
  refine ⟨by rw [whole, tokens], ?_⟩
  rw [whole, alone, ← scanDiagnostics_relocate]
  unfold scanDiagnostics at silent ⊢
  rw [List.filterMap_append, List.filterMap_append, silent, List.append_nil]

-- A comment, a number with a point behind it and half of a character in front of the line break, an equals
-- sign and an open string behind it.
def brokenOffText : Bytes := text "x // \"\n1." ++ [0xC3]

def goingOnText : Bytes := text "= @\"y"

theorem scan_composes_at_lines_brokenOff :
    (scanDiagnostics (scan brokenOffText)).map (·.code) = [Code.unexpectedCharacter] ∧
    (scan (brokenOffText ++ Bytes.newline ++ goingOnText)).map (fun t => (t.kind, t.span.start)) =
      [(.ident, ⟨0, 1, 1⟩), (.number, ⟨7, 2, 1⟩), (.dot, ⟨8, 2, 2⟩), (.illegal, ⟨9, 2, 3⟩),
       (.equal, ⟨11, 3, 1⟩), (.illegal, ⟨13, 3, 3⟩), (.illegal, ⟨14, 3, 4⟩), (.eof, ⟨16, 3, 6⟩)] := by
  have codes : (scanDiagnostics (scan brokenOffText)).map (·.code) = [Code.unexpectedCharacter] := by
    decide +kernel
  have closed (d : Diagnostic) (mem : d ∈ scanDiagnostics (scan brokenOffText)) :
      d.code ≠ Code.unterminatedString := by
    have known : d.code ∈ [Code.unexpectedCharacter] := codes ▸ List.mem_map_of_mem mem
    rw [List.mem_singleton.1 known]
    decide
  refine ⟨codes, ?_⟩
  rw [(scan_composes_at_lines brokenOffText goingOnText closed).1]
  decide +kernel

end TinyScript
