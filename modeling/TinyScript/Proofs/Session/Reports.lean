import TinyScript.Proofs.Run.Beside
import TinyScript.Proofs.Token.Lines
import TinyScript.Proofs.Tree.Reports
import TinyScript.Session

namespace TinyScript

def tokenPlace (source : Bytes) (p : Position) : Prop := ∃ t ∈ scan source, t.span.start = p

theorem missingEnd_place (source : Bytes) : tokenPlace source (missingEnd (scan source)).span.start := by
  obtain ⟨body, stop, shape, _⟩ := Scan.tokensFrom_shape .start source
  have last : (scan source).getLast? = some (.ending stop) := by
    rw [scan, shape]
    exact List.getLast?_concat
  refine ⟨.ending stop, List.mem_of_getLast? last, ?_⟩
  unfold missingEnd
  rw [last]
  rfl

theorem analyse_place (mem : d ∈ (analyse source).diagnostics) : tokenPlace source d.span.start := by
  rcases List.mem_append.1 mem with scanned | parsed
  · obtain ⟨t, isToken, same⟩ := scanDiagnostics_span scanned
    exact ⟨t, isToken, by rw [same]⟩
  · obtain ⟨fault, t, rfl, isToken | isEnd⟩ := parse_reports parsed
    · exact ⟨t, isToken, rfl⟩
    · rw [isEnd]
      exact missingEnd_place source

theorem Session.new_failed {allowed : Position → Prop} (placed : Stmt.PlacedAll allowed program)
    (ran : (new limits patience).interpreter.run clock program (new limits patience).heap
      (new limits patience).readings = .failed e m) : allowed e.error.span.start := by
  have unlike : Heap.empty.Paired allowed .nothing Heap.empty := .nothing _ _
  obtain ⟨k, _, heaps, areTwins⟩ := unlike.addGlobals
  have beside : ((new limits patience).interpreter.run clock program (new limits patience).heap
      (new limits patience).readings).Beside allowed (fun _ _ _ => True) k _ _ _ :=
    Interpreter.run_beside rfl rfl heaps areTwins placed clock _
  rw [ran] at beside
  exact beside.begins

theorem Interpreter.error_of_execute? {i : Interpreter}
    (executed : i.execute? clock program heap readings = some execution) (failed : execution.error = some e) :
    ∃ m, i.run clock program heap readings = .failed e m := by
  unfold execute? Outcome.execution? at executed
  split at executed
  · cases executed
    cases failed
  · next ran =>
    cases executed
    cases failed
    exact ⟨_, ran⟩
  · cases executed

theorem reports_point_at_tokens (ran : run? limits patience clock source = some reply) :
    ∀ r ∈ reply.evaluation.reports,
      ∃ t ∈ scan source, r.line = t.span.start.line ∧ r.column = t.span.start.column := by
  have pointed {d : Diagnostic} : tokenPlace source d.span.start →
      ∃ t ∈ scan source, (Report.ofDiagnostic d).line = t.span.start.line ∧
        (Report.ofDiagnostic d).column = t.span.start.column := by
    rintro ⟨t, isToken, begins⟩
    exact ⟨t, isToken, congrArg Position.line begins.symm, congrArg Position.column begins.symm⟩
  have analysed : ∀ r ∈ (analyse source).diagnostics.map Report.ofDiagnostic,
      ∃ t ∈ scan source, r.line = t.span.start.line ∧ r.column = t.span.start.column := by
    intro r mem
    obtain ⟨d, reported, rfl⟩ := List.mem_map.1 mem
    exact pointed (analyse_place reported)
  have placed : Stmt.PlacedAll (tokenPlace source) (analyse source).program :=
    parse_placed (fun t isToken => ⟨t, isToken, rfl⟩) (missingEnd_place source)
  unfold run? Session.eval? Session.eval at ran
  dsimp only at ran
  split at ran
  · cases ran
    exact analysed
  · obtain ⟨execution, executed, ran⟩ := Option.bind_eq_some_iff.1 ran
    cases ran
    dsimp only
    split
    · exact analysed
    · next reported =>
      obtain ⟨e, failed, rfl⟩ := Option.map_eq_some_iff.1 reported
      obtain ⟨m, stopped⟩ := Interpreter.error_of_execute? executed failed
      intro r mem
      rcases List.mem_append.1 mem with before | last
      · exact analysed r before
      · rw [List.mem_singleton.1 last]
        exact pointed (Session.new_failed placed stopped)

-- The error comes up in the second line, in a function that is called in the fourth.
def distantText : Bytes := text "fun f(a) \x7b\n  return -a;\n\x7d\nvar g = f; g(nil);"

theorem reports_point_at_tokens_distant :
    ∃ reply, run? ⟨0, 8⟩ 0 (fun _ => 0) distantText = some reply ∧
      reply.evaluation.reports.map (fun r => (r.code, r.line, r.column)) = [(Code.operandType, 2, 10)] ∧
      ∀ r ∈ reply.evaluation.reports,
        ∃ t ∈ scan distantText, r.line = t.span.start.line ∧ r.column = t.span.start.column := by
  have ran : (run? ⟨0, 8⟩ 0 (fun _ => 0) distantText).map (fun reply =>
      reply.evaluation.reports.map fun r => (r.code, r.line, r.column)) =
      some [(Code.operandType, 2, 10)] := by decide +kernel
  obtain ⟨reply, answered, reports⟩ := Option.map_eq_some_iff.1 ran
  exact ⟨reply, answered, reports, reports_point_at_tokens answered⟩

end TinyScript
