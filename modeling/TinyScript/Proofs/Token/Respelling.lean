import TinyScript.Proofs.Session.Layout
import TinyScript.Proofs.Token.Munch

namespace TinyScript

namespace Lexical

section

variable {rest : Bytes} (clear : ∀ b ∈ rest.head?, b ∈ blanks)
include clear

theorem unfollowed_clear {group : UInt8 → Prop} (none : ∀ b ∈ blanks, ¬group b) : Unfollowed group rest :=
  fun b first => none b (clear b first)

theorem head_ne_of_clear (other : b ∉ blanks) : rest.head? ≠ some b :=
  fun first => other (clear b first)

-- All bytes of a character beyond ASCII are beyond it, so the character is no more than the first byte here.
theorem char_of_clear {c : Char} (wide : 0x80 ≤ c.toNat) (front : String.utf8EncodeChar c <+: b :: rest) :
    String.utf8EncodeChar c = [b] := by
  have low : ∀ b ∈ blanks, b.toNat < 0x80 := by decide +kernel
  rcases (Utf8.encodes_char c).narrow with ⟨_, _, _, small⟩ | ⟨_, some, high⟩
  · omega
  · obtain ⟨a, more, split⟩ := List.exists_cons_of_ne_nil some
    rw [split] at front high ⊢
    obtain ⟨rfl, behind⟩ := List.cons_prefix_cons.1 front
    cases more with
    | nil => rfl
    | cons d more =>
      obtain ⟨tail, rfl⟩ := behind
      have highSecond := high d (List.mem_cons_of_mem _ List.mem_cons_self)
      exact absurd (low d (clear d rfl)) (Nat.not_lt.2 highSecond)

theorem NumberAt.before (number : NumberAt w behind) : NumberAt w rest := by
  have digitless : ∀ b ∈ blanks, ¬Digit b := by simp only [digit_iff]; decide +kernel
  refine ⟨unfollowed_clear clear digitless, number.2.imp_left fun ⟨digits, _⟩ => ⟨digits, ?_⟩⟩
  rintro d more rfl
  exact absurd (clear _ rfl) (by decide)

theorem IllegalAt.before (illegal : IllegalAt w behind) (ends : behind = [] → rest = []) : IllegalAt w rest := by
  rcases illegal with ⟨last, string⟩ | char | ⟨b, rfl, unblank, unspelt, nothing⟩
  · exact .inl ⟨ends last, string⟩
  · exact .inr (.inl char)
  · refine .inr (.inr ⟨b, rfl, unblank, unspelt, fun c wide front => nothing c wide ?_⟩)
    rw [char_of_clear clear wide front]
    exact List.prefix_append [b] behind

theorem Rule.before (rule : Rule k w behind) (ends : behind = [] → rest = []) : Rule k w rest := by
  have wordless : ∀ b ∈ blanks, ¬WordByte b := by simp only [wordByte_iff]; decide +kernel
  cases rule with
  | keyword known _ => exact .keyword known (unfollowed_clear clear wordless)
  | ident word other _ => exact .ident word other (unfollowed_clear clear wordless)
  | number number => exact .number (number.before clear)
  | string unquoted => exact .string unquoted
  | mark known mark =>
    refine .mark known ⟨mark.1, fun _ => ?_, fun _ => ?_⟩
    · exact head_ne_of_clear clear (by decide)
    · exact head_ne_of_clear clear (by decide)
  | illegal illegal => exact .illegal (illegal.before clear ends)

end

theorem Tiles.behindBlank (blank : b ∈ blanks) (tiles : Tiles s pairs) : Tiles (b :: s) pairs := by
  cases tiles with
  | done last => exact .done (last.behindBlank blank)
  | next gap rule rest => exact .next (.blank blank gap) rule rest

theorem Tiles.ne_nil (tiles : Tiles s (pair :: pairs)) : s ≠ [] := by
  cases tiles with
  | next _ rule _ =>
    obtain ⟨b, more, split, _⟩ := Scan.rule_takes rule
    rw [split]
    simp

-- By the lexemes from the last one on: each has the end of the text behind it, or a blank.
theorem Tiles.join (tiles : Tiles s pairs) : Tiles (Bytes.join (text " ") (pairs.map (·.2))) pairs := by
  induction tiles with
  | done _ => exact .done (.whole .nil)
  | @next gap k w rest pairs _ rule tiles ih =>
    cases pairs with
    | nil =>
      have clear : ∀ b ∈ ([] : Bytes).head?, b ∈ blanks := by simp
      have alone := Tiles.next .nil (rule.before clear fun _ => rfl) (.done (.whole .nil))
      rw [List.nil_append, List.append_nil] at alone
      rwa [List.map_cons, List.map_nil, Bytes.join, List.intercalate_singleton]
    | cons pair pairs =>
      have blank : byte ' ' ∈ blanks := by decide
      generalize joined : Bytes.join (text " ") ((pair :: pairs).map (·.2)) = others at ih
      have clear : ∀ b ∈ (byte ' ' :: others).head?, b ∈ blanks := by
        rintro b ⟨rfl⟩
        exact blank
      have split : Bytes.join (text " ") (((k, w) :: pair :: pairs).map (·.2)) = w ++ byte ' ' :: others := by
        have single : text " " = [byte ' '] := by decide +kernel
        rw [← joined, List.map_cons, List.map_cons, Bytes.join, List.intercalate_cons_cons, List.append_assoc, single]
        rfl
      rw [split]
      exact .next .nil (rule.before clear fun last => absurd last tiles.ne_nil) (ih.behindBlank blank)

theorem Tiles.scanned (tiles : Tiles s pairs) :
    ∃ body stop, scan s = body ++ [.ending stop] ∧ body.map Token.spelling = pairs := by
  obtain ⟨body, stop, shape, inner⟩ := Scan.tokensFrom_shape .start s
  have kept : (Scan.tokensFrom .start s).filter (·.kind ≠ .eof) = body := by
    rw [shape, List.filter_append, List.filter_eq_self.2 (by simpa using inner)]
    simp [Token.ending]
  refine ⟨body, stop, shape, ?_⟩
  rw [Scan.tiles_tokens tiles .start, kept]
  rfl

end Lexical

def respelled (s : Bytes) : Bytes :=
  Bytes.join (text " ") (((scan s).filter (·.kind ≠ .eof)).map (·.lexeme))

theorem respelled_spelling (s : Bytes) : (scan (respelled s)).map Token.spelling = (scan s).map Token.spelling := by
  have tiles := Scan.tokens_tile .start s
  have joined := tiles.join
  rw [List.map_map] at joined
  obtain ⟨body, stop, found, spelt⟩ := tiles.scanned
  obtain ⟨body', stop', found', spelt'⟩ := joined.scanned
  have same : body'.map Token.spelling = body.map Token.spelling := spelt'.trans spelt.symm
  calc (scan (respelled s)).map Token.spelling = body'.map Token.spelling ++ [(.eof, [])] := by
        rw [show scan (respelled s) = _ from found', List.map_append]
        rfl
    _ = (scan s).map Token.spelling := by
        rw [same, found, List.map_append]
        rfl

theorem respelled_scans_alike (s : Bytes) :
    (scan (respelled s)).map (fun t => (t.kind, t.lexeme, t.literal)) =
      (scan s).map (fun t => (t.kind, t.lexeme, t.literal)) ∧
    (scanDiagnostics (scan (respelled s))).map (fun d => (d.code, d.message, d.hint)) =
      (scanDiagnostics (scan s)).map fun d => (d.code, d.message, d.hint) := by
  have placeless : (scan (respelled s)).map (Token.relocate nowhere) = (scan s).map (Token.relocate nowhere) := by
    rw [scan_nowhere, scan_nowhere, respelled_spelling]
  have reported : (scanDiagnostics (scan (respelled s))).map (Diagnostic.relocate nowhere) =
      (scanDiagnostics (scan s)).map (Diagnostic.relocate nowhere) := by
    rw [← scanDiagnostics_relocate, ← scanDiagnostics_relocate, placeless]
  constructor
  · have tokens := congrArg (List.map fun t => (t.kind, t.lexeme, t.literal)) placeless
    rwa [List.map_map, List.map_map] at tokens
  · have faults := congrArg (List.map fun d => (d.code, d.message, d.hint)) reported
    rwa [List.map_map, List.map_map] at faults

end TinyScript
