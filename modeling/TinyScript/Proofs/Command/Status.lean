import TinyScript.Command
import TinyScript.Proofs.Json
import TinyScript.Proofs.Repl.Chunks

namespace TinyScript

namespace Json.Writable

theorem optional (key : String) (s : Bytes) : ∀ field ∈ Json.optional key s, Writable field.2 := by
  intro field mem
  unfold Json.optional at mem
  split at mem
  · cases mem
  · rw [List.mem_singleton.1 mem]
    exact .string s

theorem report (r : Report) : Writable r.toJson := by
  refine .object fun field mem => ?_
  rcases List.mem_append.1 mem with own | hint
  · simp only [List.mem_cons, List.not_mem_nil, or_false] at own
    rcases own with rfl | rfl | rfl | rfl | rfl
    · exact .string _
    · exact .string _
    · exact .int _
    · exact .int _
    · exact .string _
  · exact optional _ _ field hint

theorem evaluation (e : Evaluation) : Writable e.toJson := by
  refine .object fun field mem => ?_
  simp only [List.mem_append, List.mem_singleton] at mem
  rcases mem with (rfl | reports) | rfl
  · dsimp only
    split
    · exact .null
    · refine .array fun item mem => ?_
      obtain ⟨line, _, rfl⟩ := List.mem_map.1 mem
      exact .string line
  · split at reports
    · cases reports
    · rw [List.mem_singleton.1 reports]
      refine .array fun item mem => ?_
      obtain ⟨r, _, rfl⟩ := List.mem_map.1 mem
      exact .report r
  · exact .bool _

end Json.Writable

namespace Command

def status? (engine : Engine) (limits : Limits) (json : Bool) (command : Command) (source : Bytes) :
    Option Nat :=
  (perform? engine limits json command source).map (·.2.exit.status)

theorem showEvaluation_exit (json : Bool) (e : Evaluation) :
    (showEvaluation json e).exit = evaluationExit e := by
  cases json with
  | false => rfl
  | true =>
    obtain ⟨written, ok⟩ := (Json.Writable.evaluation e).write
    show (printJson e.toJson (evaluationExit e)).exit = evaluationExit e
    rw [printJson, ok]

theorem perform?_run (ran : run? limits engine.patience engine.clock source = some reply) (json : Bool) :
    perform? engine limits json .run source = some (reply.events, showEvaluation json reply.evaluation) := by
  show (run? limits engine.patience engine.clock source).bind _ = _
  rw [ran]
  rfl

theorem status?_run (ran : run? limits engine.patience engine.clock source = some reply) (json : Bool) :
    status? engine limits json .run source = some (evaluationExit reply.evaluation).status := by
  rw [status?, perform?_run ran, ← showEvaluation_exit json]
  rfl

theorem sourceExit_analyse (source : Bytes) :
    sourceExit (analyse source).diagnostics =
      if (analyse source).diagnostics = [] then .success else .badSource := by
  rw [sourceExit, anyError_analyse]
  cases (analyse source).diagnostics <;> rfl

theorem status?_ast (engine : Engine) (limits : Limits) (json : Bool) (source : Bytes) :
    status? engine limits json .ast source =
      some (if (analyse source).diagnostics = [] then 0 else 65) := by
  show some (sourceExit (analyse source).diagnostics).status = _
  rw [sourceExit_analyse]
  split <;> rfl

-- The tokens are a part of what is analysed. A document of them that cannot be written is another matter.
theorem status?_tokens (found : status? engine limits json .tokens source = some 65) :
    (analyse source).diagnostics ≠ [] := by
  intro clean
  have silent : scanDiagnostics (scan source) = [] := (List.append_eq_nil_iff.1 clean).1
  have status : (listTokens json source).exit.status = 65 := Option.some.inj found
  unfold listTokens at status
  dsimp only at status
  rw [silent] at status
  cases json with
  | false => cases status
  | true =>
    simp only [if_true, printJson] at status
    split at status <;> cases status

theorem evaluationExit_faulty (faulty : (analyse source).diagnostics ≠ []) (output : List Bytes) :
    evaluationExit ⟨output, (analyse source).diagnostics.map Report.ofDiagnostic, false⟩ = .badSource := by
  obtain ⟨d, ds, found⟩ := List.exists_cons_of_ne_nil faulty
  have mem : d ∈ (analyse source).diagnostics := by
    rw [found]
    exact List.mem_cons_self
  have ofSource : (d.stage == Stage.scanning || d.stage == Stage.parsing) = true := by
    rcases List.mem_append.1 mem with scanned | parsed
    · rw [(scanDiagnostics_stage scanned).2]
      rfl
    · rw [(parse_stage parsed).2]
      rfl
  rw [found]
  simp only [evaluationExit, List.map_cons, List.any_cons, Report.ofDiagnostic, ofSource, Bool.true_or,
    Bool.false_eq_true, if_false, if_true]

structure Refused (engine : Engine) (limits : Limits) (source : Bytes) (reply : Session.Reply) : Prop where
  faulty : (analyse source).diagnostics ≠ []
  ok : reply.evaluation.ok = false
  output : reply.evaluation.output = []
  -- nothing is executed: nothing is bound, the clock is not read, nothing happens after the analysis
  session : reply.session = .new limits engine.patience
  events : reply.events = (analyse source).events ++ [.skipped reply.evaluation.reports.length]
  reports : reply.evaluation.reports =
    (scanDiagnostics (scan source)).map Report.ofDiagnostic ++
      (TinyScript.parse (scan source)).2.map Report.ofDiagnostic
  lexical : ∀ d ∈ scanDiagnostics (scan source), d.stage = Stage.scanning
  syntactic : ∀ d ∈ (TinyScript.parse (scan source)).2, d.stage = Stage.parsing
  ast : ∀ json, status? engine limits json .ast source = some 65
  run : ∀ json, status? engine limits json .run source = some 65

structure Executed (engine : Engine) (limits : Limits) (source : Bytes) (reply : Session.Reply) : Prop where
  clean : (analyse source).diagnostics = []
  ast : ∀ json, status? engine limits json .ast source = some 0
  run : (reply.evaluation.ok = true ∧ reply.evaluation.reports = [] ∧
      ∀ json, status? engine limits json .run source = some 0) ∨
    (reply.evaluation.ok = false ∧ (∃ r, reply.evaluation.reports = [r] ∧ r.stage = Stage.running) ∧
      ∀ json, status? engine limits json .run source = some 70)

theorem Refused.of_faulty (faulty : (analyse source).diagnostics ≠ [])
    (ran : run? limits engine.patience engine.clock source = some reply) :
    Refused engine limits source reply := by
  have status := status?_run ran
  rw [run?, Repl.eval?_faulty _ _ faulty] at ran
  cases ran
  rw [evaluationExit_faulty faulty] at status
  exact {
    faulty := faulty
    ok := rfl
    output := rfl
    session := rfl
    events := rfl
    reports := List.map_append
    lexical := fun d mem => (scanDiagnostics_stage mem).2
    syntactic := fun d mem => (parse_stage mem).2
    ast := fun json => by rw [status?_ast, if_neg faulty]
    run := status }

theorem Executed.of_clean (clean : (analyse source).diagnostics = [])
    (ran : run? limits engine.patience engine.clock source = some reply) :
    Executed engine limits source reply := by
  have status := status?_run ran
  obtain ⟨e, _, same⟩ := Repl.eval?_clean clean ran
  refine ⟨clean, fun json => by rw [status?_ast, if_pos clean], ?_⟩
  rw [same] at status ⊢
  cases failed : e.error with
  | none =>
    rw [failed] at status
    exact .inl ⟨rfl, rfl, status⟩
  | some error =>
    rw [failed] at status
    exact .inr ⟨rfl, ⟨_, rfl, rfl⟩, status⟩

end Command

open Command in
theorem statuses_agree (ran : run? limits engine.patience engine.clock source = some reply) :
    (Refused engine limits source reply ∨ Executed engine limits source reply) ∧
    ∀ json, status? engine limits json .tokens source = some 65 →
      (∀ json, status? engine limits json .ast source = some 65) ∧
        ∀ json, status? engine limits json .run source = some 65 := by
  constructor
  · by_cases clean : (analyse source).diagnostics = []
    · exact .inr (.of_clean clean ran)
    · exact .inl (.of_faulty clean ran)
  · intro json found
    have refused := Refused.of_faulty (status?_tokens found) ran
    exact ⟨refused.ast, refused.run⟩

-- The reading fails before the stray byte, and the byte is reported first.
def mixedFaults : Bytes := text "print ; @"

def lateFailure : Bytes := text "print 1; -nil;"

open Command in
theorem statuses_agree_mixedFaults_lateFailure :
    (∃ reply, run? ⟨0, 8⟩ 0 (fun _ => 0) mixedFaults = some reply ∧
      reply.evaluation.reports.map (·.stage) = [Stage.scanning, Stage.parsing] ∧
      Refused ⟨0, fun _ => 0⟩ ⟨0, 8⟩ mixedFaults reply) ∧
    ∃ reply, run? ⟨0, 8⟩ 0 (fun _ => 0) lateFailure = some reply ∧
      reply.evaluation.output = [text "1"] ∧ Executed ⟨0, fun _ => 0⟩ ⟨0, 8⟩ lateFailure reply := by
  have stages : (run? ⟨0, 8⟩ 0 (fun _ => 0) mixedFaults).map (fun reply =>
      reply.evaluation.reports.map (·.stage)) = some [Stage.scanning, Stage.parsing] := by decide +kernel
  have faulty : (analyse mixedFaults).diagnostics ≠ [] := by decide +kernel
  have lines : (run? ⟨0, 8⟩ 0 (fun _ => 0) lateFailure).map (·.evaluation.output) =
      some [text "1"] := by decide +kernel
  have clean : (analyse lateFailure).diagnostics = [] := by decide +kernel
  let engine : Engine := ⟨0, fun _ => 0⟩
  obtain ⟨reply, ran, stages⟩ := Option.map_eq_some_iff.1 stages
  obtain ⟨reply', ran', lines⟩ := Option.map_eq_some_iff.1 lines
  have agree : Refused engine ⟨0, 8⟩ mixedFaults reply ∨ Executed engine ⟨0, 8⟩ mixedFaults reply :=
    (statuses_agree ran).1
  have agree' : Refused engine ⟨0, 8⟩ lateFailure reply' ∨ Executed engine ⟨0, 8⟩ lateFailure reply' :=
    (statuses_agree ran').1
  exact ⟨⟨reply, ran, stages, agree.resolve_right fun executed => faulty executed.clean⟩,
    reply', ran', lines, agree'.resolve_left fun refused => refused.faulty clean⟩

end TinyScript
