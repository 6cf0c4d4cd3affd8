import TinyScript.Proofs.Command.Status
import TinyScript.Proofs.Decimal
import TinyScript.Proofs.Token.Lossless
import TinyScript.Proofs.Tree.Acceptance
import TinyScript.Proofs.Tree.Numbers

namespace TinyScript

-- The value of a number, with its digits behind the point as a fraction, is too large for a finite one.
def Lexical.Overflows (w : Bytes) : Prop :=
  let whole := w.takeWhile Bytes.isDigit
  let fraction := w.drop (whole.length + 1)
  Double.overflow * 10 ^ fraction.length ≤ readNumeral (whole ++ fraction)

namespace Scan

open Lexical

theorem literal_numbers (k : Kind) (w : Bytes) :
    ∀ bits ∈ (literal k w).numbers, k = .number ∧ ∃ r ≤ Double.infinite, bits = Double.ofRank r ∧
      (r = Double.infinite ↔ Overflows w) := by
  intro bits mem
  unfold literal at mem
  split at mem
  · cases mem
  · rw [List.mem_singleton.1 mem]
    exact ⟨rfl, _, Double.nearest_le _ _, rfl, Decimal.toRank_eq_infinite _ _⟩
  · cases mem

theorem literal_overflow (overflows : Overflows w) :
    Double.ofRank Double.infinite ∈ (literal .number w).numbers := by
  refine List.mem_singleton.2 (congrArg Double.ofRank ?_)
  exact ((Decimal.toRank_eq_infinite _ _).2 overflows).symm

end Scan

namespace Json

theorem holds_optional (key : String) (s : Bytes) : ∀ field ∈ optional key s, ¬Holds bits field.2 := by
  unfold optional
  split <;> simp

theorem holds_diagnostic (d : Diagnostic) : ¬Holds bits d.toJson := by
  have hint : ∀ field ∈ optional "hint" d.hint, ¬Holds bits field.2 := holds_optional _ _
  simpa [Diagnostic.toJson, or_imp, forall_and] using fun key value mem => hint (key, value) mem

theorem holds_analysis (a : Analysis) : Holds bits (analysisToJson a) ↔ bits ∈ Stmt.numbersAll a.program := by
  simp [analysisToJson, holds_program, holds_diagnostic]

end Json

def Stmt.Finite (program : List Stmt) : Prop :=
  ∀ bits ∈ Stmt.numbersAll program, Double.rank bits < Double.infinite

theorem analyse_numbers (source : Bytes) : ∀ bits ∈ Stmt.numbersAll (analyse source).program,
    Double.rank bits < Double.infinite ∨
      bits = Double.ofRank Double.infinite ∧ ∃ t ∈ scan source, t.kind = .number ∧ Lexical.Overflows t.lexeme := by
  intro bits mem
  obtain ⟨t, among, literal⟩ := parse_numbers (scan source) bits mem
  rw [scan_literal source t among] at literal
  obtain ⟨isNumber, r, small, rfl, overflow⟩ := Scan.literal_numbers _ _ bits literal
  rcases Nat.lt_or_eq_of_le small with finite | infinite
  · left
    rwa [Double.rank_ofRank (Nat.lt_trans finite Double.infinite_lt)]
  · exact .inr ⟨congrArg _ infinite, t, among, isNumber, overflow.1 infinite⟩

theorem analyse_clean_numbers (clean : (analyse source).diagnostics = []) (mem : t ∈ scan source)
    (isNumber : t.kind = .number) : t.literal.numbers ⊆ Stmt.numbersAll (analyse source).program := by
  obtain ⟨scanned, parsed⟩ : scanDiagnostics (scan source) = [] ∧ (parse (scan source)).2 = [] :=
    List.append_eq_nil_iff.1 clean
  rw [scanDiagnostics_eq_nil] at scanned
  obtain ⟨body, stop, shape, inner⟩ : ∃ body stop, scan source = body ++ [.ending stop] ∧
    ∀ t ∈ body, t.kind ≠ .eof := Scan.tokensFrom_shape .start source
  show _ ⊆ Stmt.numbersAll (parse (scan source)).1
  rw [shape] at mem scanned parsed ⊢
  have derived := derives_of_parse rfl inner (fun t mem => scanned t (List.mem_append_left _ mem)) parsed
  have carries := derived.numbers
  rw [Grammar.Symbol.numbers, Stmt.numbersAll_bare] at carries
  rcases List.mem_append.1 mem with mem | last
  · exact carries t mem isNumber
  · rw [List.mem_singleton.1 last] at isNumber
    cases isNumber

theorem Stmt.Finite.of_tokens (small : ∀ t ∈ scan source, t.kind = .number → ¬Lexical.Overflows t.lexeme) :
    Stmt.Finite (analyse source).program := by
  intro bits mem
  rcases analyse_numbers source bits mem with finite | ⟨_, t, among, isNumber, overflows⟩
  · exact finite
  · exact absurd overflows (small t among isNumber)

theorem Stmt.Finite.tokens (finite : Stmt.Finite (analyse source).program)
    (clean : (analyse source).diagnostics = []) (mem : t ∈ scan source) (isNumber : t.kind = .number) :
    ¬Lexical.Overflows t.lexeme := by
  intro overflows
  have literal := Scan.literal_overflow overflows
  rw [← isNumber, ← scan_literal source t mem] at literal
  have small := finite _ (analyse_clean_numbers clean mem isNumber literal)
  rw [Double.rank_ofRank Double.infinite_lt] at small
  exact Nat.lt_irrefl _ small

namespace Command

theorem treeDocument_finite (finite : Stmt.Finite a.program) :
    ∃ document, (analysisToJson a).write = .ok document ∧
      treeDocument a = ⟨sourceExit a.diagnostics, document, []⟩ := by
  cases written : (analysisToJson a).write with
  | ok document =>
    refine ⟨document, rfl, ?_⟩
    rw [treeDocument, printJson, written]
  | error u =>
    obtain ⟨holds, large⟩ := Json.of_write_error written
    have small := finite _ ((Json.holds_analysis a).1 holds)
    omega

theorem treeDocument_infinite (infinite : ¬Stmt.Finite (analyse source).program) :
    treeDocument (analyse source) = .failure (text "JSON encoding failed: json: unsupported value: +Inf") := by
  obtain ⟨bits, mem, large⟩ : ∃ bits ∈ Stmt.numbersAll (analyse source).program,
      ¬Double.rank bits < Double.infinite := by
    simpa [Stmt.Finite] using infinite
  have holds := (Json.holds_analysis (analyse source)).2 mem
  obtain ⟨u, failed⟩ := holds.write_error (Nat.le_of_not_lt large)
  obtain ⟨held, large⟩ := Json.of_write_error failed
  have isInfinity : u.bits = Double.ofRank Double.infinite := by
    rcases analyse_numbers source _ ((Json.holds_analysis _).1 held) with finite | ⟨isInfinity, _⟩
    · omega
    · exact isInfinity
  rw [treeDocument, printJson, failed]
  show Completion.failure (_ ++ u.message) = _
  have message : text "JSON encoding failed: " ++ (text "json: unsupported value: " ++ text "+Inf") =
      text "JSON encoding failed: json: unsupported value: +Inf" := by decide +kernel
  rw [Json.Unwritable.message, isInfinity, Double.plain_infinite, message]

end Command

open Command in
theorem document_iff_finite (engine : Engine) (limits : Limits) (json : Bool) (source : Bytes) :
    let a := analyse source
    -- the document is printed, and the status is that of the tree in the other form
    (Stmt.Finite a.program → ∃ document, (analysisToJson a).write = .ok document ∧
      perform? engine limits json .parse source = some (a.events, ⟨sourceExit a.diagnostics, document, []⟩) ∧
      status? engine limits json .parse source = status? engine limits json .ast source) ∧
    -- nothing is printed, and the status is that of a wrong use
    (¬Stmt.Finite a.program → status? engine limits json .parse source = some 1 ∧
      perform? engine limits json .parse source =
        some (a.events, .failure (text "JSON encoding failed: json: unsupported value: +Inf"))) ∧
    status? engine limits json .ast source = some (if a.diagnostics = [] then 0 else 65) ∧
    ((∀ t ∈ scan source, t.kind = .number → ¬Lexical.Overflows t.lexeme) → Stmt.Finite a.program) ∧
    (a.diagnostics = [] → Stmt.Finite a.program →
      ∀ t ∈ scan source, t.kind = .number → ¬Lexical.Overflows t.lexeme) := by
  intro a
  refine ⟨fun finite => ?_, fun infinite => ?_, status?_ast .., .of_tokens, fun clean finite t mem isNumber => ?_⟩
  · obtain ⟨document, written, printed⟩ := treeDocument_finite finite
    refine ⟨document, written, ?_, ?_⟩
    · rw [perform?, perform, printed]
      rfl
    · rw [status?, status?, perform?, perform?, perform, perform, printed]
      rfl
  · have failed := treeDocument_infinite infinite
    refine ⟨?_, ?_⟩
    · rw [status?, perform?, perform, failed]
      rfl
    · rw [perform?, perform, failed]
      rfl
  · exact finite.tokens clean mem isNumber

def hugeNumber : Bytes := text "2" ++ List.replicate 308 (byte '0') ++ text ";"

open Command in
theorem document_of_hugeNumber_fails :
    let engine : Engine := ⟨0, fun _ => 0⟩
    (analyse hugeNumber).diagnostics = [] ∧
    status? engine ⟨0, 8⟩ false .ast hugeNumber = some 0 ∧
    (perform? engine ⟨0, 8⟩ false .ast hugeNumber).map (·.2) = some ⟨.success, text "(; +Inf)\n", []⟩ ∧
    status? engine ⟨0, 8⟩ false .parse hugeNumber = some 1 ∧
    (perform? engine ⟨0, 8⟩ false .parse hugeNumber).map (·.2) =
      some ⟨.usage, [], text "error: JSON encoding failed: json: unsupported value: +Inf\n"⟩ := by
  decide +kernel

end TinyScript
