import TinyScript.Proofs.Command.Status
import TinyScript.Proofs.Text

namespace TinyScript

open Command in
theorem asLines_lines (s : Bytes) : asLines (Bytes.lines s) = s ++ Bytes.newline := by
  unfold Bytes.lines
  induction s with
  | nil => rfl
  | cons b s ih =>
    obtain ⟨first, others, cut⟩ := List.exists_cons_of_ne_nil (Bytes.split_ne_nil (byte '\n') s)
    by_cases ends : b = byte '\n'
    · subst ends
      rw [Bytes.split_mark, asLines, List.flatMap_cons, ← asLines, ih]
      rfl
    · rw [cut] at ih
      rw [Bytes.split_other ends cut]
      exact congrArg (b :: ·) ih

theorem printedLines_closed (s : Bytes) :
    printedLines (s ++ Bytes.newline) = if s = [] then [] else Bytes.lines s := by
  have closed : Bytes.newline.isSuffixOf (s ++ Bytes.newline) = true :=
    List.isSuffixOf_iff_suffix.2 (List.suffix_append s Bytes.newline)
  have body : (s ++ Bytes.newline).dropLast = s := List.dropLast_concat
  unfold printedLines
  simp only [closed, body, if_true, List.isEmpty_iff]

theorem Machine.output_cons {m : Machine} (printed : m.printed = last :: earlier) :
    m.output = earlier.reverse.flatMap (fun s => s ++ Bytes.newline) ++ last ++ Bytes.newline := by
  unfold Machine.output
  rw [printed, List.reverse_cons, List.flatMap_append, List.flatMap_singleton, List.append_assoc]

theorem Machine.output_one_empty {m : Machine} (printed : m.printed = last :: earlier) :
    earlier.reverse.flatMap (fun s => s ++ Bytes.newline) ++ last = [] ↔ m.printed = [[]] := by
  rw [printed, List.append_eq_nil_iff, List.flatMap_eq_nil_iff, List.cons.injEq, and_comm]
  refine and_congr_right fun _ => ⟨fun none => ?_, fun none => by simp [none]⟩
  refine List.eq_nil_iff_forall_not_mem.2 fun s mem => ?_
  have absent := none s (List.mem_reverse.2 mem)
  exact List.cons_ne_nil _ _ (List.append_eq_nil_iff.1 absent).2

theorem printedLines_output (m : Machine) :
    (Command.asLines (printedLines m.output) = m.output ↔ m.printed ≠ [[]]) ∧
      (m.printed = [[]] → printedLines m.output = []) := by
  cases printed : m.printed with
  | nil =>
    have nothing : m.output = [] := by
      rw [Machine.output, printed]
      rfl
    rw [nothing]
    exact ⟨iff_of_true rfl (List.cons_ne_nil _ _).symm, nofun⟩
  | cons last earlier =>
    have one := Machine.output_one_empty printed
    rw [Machine.output_cons printed, printedLines_closed, ← printed]
    by_cases empty : m.printed = [[]]
    · rw [if_pos (one.2 empty), one.2 empty]
      exact ⟨iff_of_false (List.cons_ne_nil _ _).symm (absurd empty), fun _ => rfl⟩
    · rw [if_neg (mt one.1 empty), asLines_lines]
      exact ⟨iff_of_true rfl empty, fun alone => absurd alone empty⟩

theorem Repl.evaluate?_clean {s : Session} (style : Style)
    (clean : (analyse (pending ++ line ++ Bytes.newline)).diagnostics = [])
    (ran : s.eval? clock (pending ++ line ++ Bytes.newline) = some reply) :
    ∃ reaction, evaluate? style clock ⟨s, pending⟩ line = some reaction ∧
      reaction.shown.stdout = Command.asLines reply.evaluation.output := by
  have complete : ¬ awaitsMore (pending ++ line ++ Bytes.newline) = true :=
    fun awaits => awaitsMore_faulty awaits clean
  rw [evaluate?_eq, if_neg complete, Act.perform?, ran]
  exact ⟨_, rfl, rfl⟩

theorem output_relayed_iff {s : Session} (clean : (analyse source).diagnostics = [])
    (ran : s.eval? clock source = some reply) :
    ∃ e, s.interpreter.execute? clock (analyse source).program s.heap s.readings = some e ∧
      (Command.asLines reply.evaluation.output = e.machine.output ↔ e.machine.printed ≠ [[]]) ∧
      (e.machine.printed = [[]] → reply.evaluation.output = []) ∧
      (∀ limits engine, s = .new limits engine.patience → clock = engine.clock → ∃ exit stderr,
        Command.perform? engine limits false .run source =
          some (reply.events, ⟨exit, Command.asLines reply.evaluation.output, stderr⟩)) ∧
      ∀ style pending line, source = pending ++ line ++ Bytes.newline → ∃ reaction,
        Repl.evaluate? style clock ⟨s, pending⟩ line = some reaction ∧
          reaction.shown.stdout = Command.asLines reply.evaluation.output := by
  obtain ⟨e, executed, same⟩ := Repl.eval?_clean clean ran
  obtain ⟨relayed, lost⟩ := printedLines_output e.machine
  refine ⟨e, executed, ?_, ?_, ?_, ?_⟩
  · rw [same]
    exact relayed
  · rw [same]
    exact lost
  · rintro limits engine rfl rfl
    exact ⟨_, _, Command.perform?_run ran false⟩
  · rintro style pending line rfl
    exact Repl.evaluate?_clean style clean ran

def firstExecution? (limits : Limits) (source : Bytes) : Option Execution :=
  let s := Session.new limits 0
  s.interpreter.execute? (fun _ => 0) (analyse source).program s.heap s.readings

-- An empty line, a text with a newline of its own, and an error.
def breakingOff : Bytes := text "print \"\"; print \"a\n\"; -nil;\n"

theorem output_relayed_breakingOff :
    (analyse breakingOff).diagnostics = [] ∧
    ∃ reply e, run? ⟨0, 8⟩ 0 (fun _ => 0) breakingOff = some reply ∧
      firstExecution? ⟨0, 8⟩ breakingOff = some e ∧ e.error.isSome = true ∧
      reply.evaluation.output = [[], text "a", []] ∧
      Command.asLines reply.evaluation.output = e.machine.output := by
  have clean : (analyse breakingOff).diagnostics = [] := by decide +kernel
  have shown : (run? ⟨0, 8⟩ 0 (fun _ => 0) breakingOff).map (·.evaluation.output) =
      some [[], text "a", []] := by decide +kernel
  have ended : (firstExecution? ⟨0, 8⟩ breakingOff).map (fun e => (e.error.isSome, e.machine.printed)) =
      some (true, [text "a\n", []]) := by decide +kernel
  obtain ⟨reply, ran, lines⟩ := Option.map_eq_some_iff.1 shown
  obtain ⟨e, executed, relayed, _⟩ := output_relayed_iff clean ran
  have first : firstExecution? ⟨0, 8⟩ breakingOff = some e := executed
  rw [first] at ended
  obtain ⟨failed, printed⟩ := Prod.mk.inj (Option.some.inj ended)
  have several : e.machine.printed ≠ [[]] := by
    rw [printed]
    decide
  exact ⟨clean, reply, e, ran, first, failed, lines, relayed.2 several⟩

-- One empty line alone is printed and never shown.
theorem empty_line_lost :
    (analyse (text "print \"\";")).diagnostics = [] ∧
    ∃ reply e, run? ⟨0, 1024⟩ 0 (fun _ => 0) (text "print \"\";") = some reply ∧
      firstExecution? ⟨0, 1024⟩ (text "print \"\";") = some e ∧
      e.machine.output = Bytes.newline ∧ Command.asLines reply.evaluation.output = [] := by
  have clean : (analyse (text "print \"\";")).diagnostics = [] := by decide +kernel
  have shown : (run? ⟨0, 1024⟩ 0 (fun _ => 0) (text "print \"\";")).map
      (fun reply => Command.asLines reply.evaluation.output) = some [] := by decide +kernel
  have printed : (firstExecution? ⟨0, 1024⟩ (text "print \"\";")).map (·.machine.output) =
      some Bytes.newline := by decide +kernel
  obtain ⟨reply, ran, lost⟩ := Option.map_eq_some_iff.1 shown
  obtain ⟨e, executed, output⟩ := Option.map_eq_some_iff.1 printed
  exact ⟨clean, reply, e, ran, executed, output, lost⟩

end TinyScript
