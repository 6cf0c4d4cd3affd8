import TinyScript.Proofs.Token.Lines
import TinyScript.Proofs.Tree.Truncation
import TinyScript.Repl

namespace TinyScript

open Scan Parse

def Mendable (ds : List Diagnostic) : Prop :=
  (∃ d ∈ ds, d.severity = .error ∧ d.code = Code.unterminatedString) ∨ (ds ≠ [] ∧ ∀ d ∈ ds, EndFault d)

namespace Mendable

variable {ds : List Diagnostic}

theorem incomplete (mendable : Mendable ds) : Report.incomplete (ds.map Report.ofDiagnostic) = true := by
  unfold Report.incomplete
  rw [Bool.and_eq_true, Bool.or_eq_true, List.any_map, List.all_map, List.isEmpty_map]
  rcases mendable with ⟨d, mem, _, code⟩ | ⟨some, ends⟩
  · have any : ds.any ((fun r => r.code == Code.unterminatedString) ∘ Report.ofDiagnostic) = true :=
      List.any_eq_true.2 ⟨d, mem, beq_iff_eq.2 code⟩
    exact ⟨by cases ds <;> trivial, .inl any⟩
  · refine ⟨by cases ds <;> trivial, .inr (List.all_eq_true.2 fun d mem => ?_)⟩
    have isEnd := ends d mem
    rw [Function.comp_apply, Bool.and_eq_true]
    exact ⟨beq_iff_eq.2 isEnd.stage, List.isSuffixOf_iff_suffix.2 isEnd.message⟩

theorem anyError (mendable : Mendable ds) : Diagnostic.anyError ds = true := by
  obtain ⟨d, mem, severity⟩ : ∃ d ∈ ds, d.severity = .error := by
    rcases mendable with ⟨d, mem, severity, _⟩ | ⟨some, ends⟩
    · exact ⟨d, mem, severity⟩
    · obtain ⟨d, mem⟩ := List.exists_mem_of_ne_nil ds some
      exact ⟨d, mem, (ends d mem).severity⟩
  exact List.any_eq_true.2 ⟨d, mem, beq_iff_eq.2 severity⟩

theorem of_open {tokens : List Token} (mem : t ∈ tokens) (isOpen : OpenString t) (more : List Diagnostic) :
    Mendable (scanDiagnostics tokens ++ more) := by
  obtain ⟨d, reported, severity, code⟩ := isOpen.reported
  exact .inl ⟨d, List.mem_append_left more (List.mem_filterMap.2 ⟨t, mem, reported⟩), severity, code⟩

end Mendable

theorem analyse_beginning (p q : Bytes) (clean : (analyse (p ++ Bytes.newline ++ q)).diagnostics = []) :
    (analyse (p ++ Bytes.newline)).diagnostics = [] ∨
      Mendable (analyse (p ++ Bytes.newline)).diagnostics := by
  obtain ⟨scanned, parsed⟩ := List.append_eq_nil_iff.1 clean
  rcases scan_beginning p q with ⟨t, mem, isOpen⟩ | ⟨start, missing, stop, stop', short, whole, inner⟩
  · exact .inr (.of_open mem isOpen _)
  · rw [whole] at scanned parsed
    have legal : ∀ t ∈ start ++ missing, t.kind ≠ .illegal := fun t mem =>
      scanDiagnostics_eq_nil.1 scanned t (List.mem_append_left _ mem)
    have legal' : scanDiagnostics (scan (p ++ Bytes.newline)) = [] := by
      rw [short, scanDiagnostics_eq_nil, List.forall_mem_append]
      exact ⟨fun t mem => legal t (List.mem_append_left _ mem), List.forall_mem_singleton.2 nofun⟩
    have ends : ∀ d ∈ (parse (scan (p ++ Bytes.newline))).2, EndFault d := by
      rw [short]
      exact parse_beginning rfl rfl inner legal parsed
    show scanDiagnostics _ ++ (parse _).2 = [] ∨ Mendable (scanDiagnostics _ ++ (parse _).2)
    rw [legal', List.nil_append]
    by_cases none : (parse (scan (p ++ Bytes.newline))).2 = []
    · exact .inl none
    · exact .inr (.inr ⟨none, ends⟩)

theorem Repl.evaluate_mendable (style : Style) (clock : Nat → Float) (s : Repl.State) (line : Bytes)
    (mendable : Mendable (analyse (s.pending ++ line ++ Bytes.newline)).diagnostics) :
    Repl.evaluate? style clock s line =
      some (Repl.stay ⟨s.session, s.pending ++ line ++ Bytes.newline⟩ .nothing) := by
  obtain ⟨events, skipped⟩ : ∃ events, s.session.eval? clock (s.pending ++ line ++ Bytes.newline) = some
      ⟨⟨[], (analyse (s.pending ++ line ++ Bytes.newline)).diagnostics.map Report.ofDiagnostic, false⟩,
        events, s.session⟩ := ⟨_, if_pos mendable.anyError⟩
  show (s.session.eval? clock (s.pending ++ line ++ Bytes.newline)).bind _ = _
  rw [skipped]
  exact if_pos mendable.incomplete

theorem beginning_never_rejected (p q : Bytes)
    (valid : (analyse (p ++ Bytes.newline ++ q)).diagnostics = []) :
    (analyse (p ++ Bytes.newline)).diagnostics = [] ∨
      Report.incomplete ((analyse (p ++ Bytes.newline)).diagnostics.map Report.ofDiagnostic) = true ∧
      ∀ style clock (s : Repl.State) line, s.pending ++ line = p →
        Repl.evaluate? style clock s line = some (Repl.stay ⟨s.session, p ++ Bytes.newline⟩ .nothing) := by
  rcases analyse_beginning p q valid with none | mendable
  · exact .inl none
  · refine .inr ⟨mendable.incomplete, ?_⟩
    rintro style clock s line rfl
    exact Repl.evaluate_mendable style clock s line mendable

-- A block is open, and in it a function that has no name yet.
theorem beginning_never_rejected_unnamed :
    (analyse (text "\x7b fun" ++ Bytes.newline ++ text "f() \x7b print f; \x7d \x7d")).diagnostics = [] ∧
    (analyse (text "\x7b fun" ++ Bytes.newline)).diagnostics ≠ [] ∧
    Report.incomplete
      ((analyse (text "\x7b fun" ++ Bytes.newline)).diagnostics.map Report.ofDiagnostic) = true := by
  have valid : (analyse (text "\x7b fun" ++ Bytes.newline ++
      text "f() \x7b print f; \x7d \x7d")).diagnostics = [] := by decide +kernel
  have faulty : (analyse (text "\x7b fun" ++ Bytes.newline)).diagnostics ≠ [] := by decide +kernel
  exact ⟨valid, faulty, ((beginning_never_rejected _ _ valid).resolve_left faulty).1⟩

end TinyScript
