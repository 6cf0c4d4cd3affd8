import TinyScript.Proofs.Tree.Reports
import TinyScript.Repl

namespace TinyScript

theorem scanDiagnostics_stage {tokens : List Token} (mem : d ∈ scanDiagnostics tokens) :
    d.severity = .error ∧ d.stage = Stage.scanning := by
  obtain ⟨t, _, fault⟩ := List.mem_filterMap.1 mem
  unfold Token.diagnostic? at fault
  split at fault
  · cases fault
    exact ⟨rfl, rfl⟩
  · cases fault

theorem parse_stage {tokens : List Token} (mem : d ∈ (parse tokens).2) :
    d.severity = .error ∧ d.stage = Stage.parsing := by
  obtain ⟨fault, t, rfl, _⟩ := parse_reports mem
  exact ⟨rfl, rfl⟩

theorem analyse_severity {source : Bytes} (mem : d ∈ (analyse source).diagnostics) :
    d.severity = .error := by
  rcases List.mem_append.1 mem with scanned | parsed
  · exact (scanDiagnostics_stage scanned).1
  · exact (parse_stage parsed).1

theorem anyError_analyse (source : Bytes) :
    Diagnostic.anyError (analyse source).diagnostics = !(analyse source).diagnostics.isEmpty := by
  cases found : (analyse source).diagnostics with
  | nil => rfl
  | cons d ds =>
    have severe : d.severity = .error := analyse_severity (by rw [found]; exact List.mem_cons_self)
    simp [Diagnostic.anyError, severe]

-- An error of a run is no fault of the source, so no more source mends it.
theorem incomplete_runtime (e : RuntimeError) :
    Report.incomplete [Report.ofDiagnostic e.diagnostic] = false := by
  obtain ⟨fault, span⟩ := e
  cases fault <;> rfl

namespace Repl

def awaitsMore (source : Bytes) : Bool :=
  Report.incomplete ((analyse source).diagnostics.map Report.ofDiagnostic)

def judgedIncomplete (result : Evaluation) : Bool :=
  !result.ok && result.output.isEmpty && Report.incomplete result.reports

theorem eval?_faulty (s : Session) (clock : Nat → Float)
    (faulty : (analyse source).diagnostics ≠ []) :
    s.eval? clock source =
      some ⟨⟨[], (analyse source).diagnostics.map Report.ofDiagnostic, false⟩,
        (analyse source).events ++ [.skipped ((analyse source).diagnostics.map Report.ofDiagnostic).length],
        s⟩ := by
  refine if_pos ?_
  rw [anyError_analyse]
  cases found : (analyse source).diagnostics with
  | nil => exact absurd found faulty
  | cons d ds => rfl

theorem eval?_clean {s : Session} (clean : (analyse source).diagnostics = [])
    (ran : s.eval? clock source = some reply) :
    ∃ e, s.interpreter.execute? clock (analyse source).program s.heap s.readings = some e ∧
      reply.evaluation = ⟨printedLines e.machine.output,
        (e.error.map fun failure => Report.ofDiagnostic failure.error.diagnostic).toList, e.error.isNone⟩ := by
  unfold Session.eval? Session.eval at ran
  simp only [clean, Diagnostic.anyError, List.any_nil, Bool.false_eq_true, if_false, List.map_nil,
    List.nil_append] at ran
  obtain ⟨e, executed, rest⟩ := Option.bind_eq_some_iff.1 ran
  refine ⟨e, executed, ?_⟩
  cases rest
  dsimp only
  cases e.error <;> rfl

theorem awaitsMore_faulty (awaits : awaitsMore source = true) : (analyse source).diagnostics ≠ [] := by
  intro clean
  unfold awaitsMore at awaits
  rw [clean] at awaits
  cases awaits

-- The judgement asks for the text only: what was executed is never judged incomplete.
theorem judgedIncomplete_eq {s : Session} (ran : s.eval? clock source = some reply) :
    judgedIncomplete reply.evaluation = awaitsMore source := by
  by_cases clean : (analyse source).diagnostics = []
  · have never : awaitsMore source = false := by
      rw [awaitsMore, clean]
      rfl
    obtain ⟨e, _, same⟩ := eval?_clean clean ran
    rw [never, judgedIncomplete, same]
    cases failed : e.error with
    | none => rfl
    | some error =>
      dsimp only [Option.map_some, Option.toList_some]
      rw [incomplete_runtime, Bool.and_false]
  · rw [eval?_faulty s clock clean] at ran
    cases ran
    rfl

theorem eval?_awaiting {s : Session} (awaits : awaitsMore source = true)
    (ran : s.eval? clock source = some reply) : reply.session = s ∧ reply.evaluation.output = [] := by
  rw [eval?_faulty s clock (awaitsMore_faulty awaits)] at ran
  cases ran
  exact ⟨rfl, rfl⟩

inductive Act where
  | nothing
  | chunk (source : Bytes)
  | listing
  | hint
  | farewell
  deriving DecidableEq, Repr

-- What an input comes to while some text is pending, and the text that is pending then. After the
-- last input nothing is.
def heed (pending : Bytes) : Input → Act × Option Bytes
  | .interrupt => (if pending = [] then .hint else .nothing, some [])
  | .eof => (.farewell, none)
  | .broken => (.nothing, none)
  | .line line =>
    let word := trimmed line
    let chunk := pending ++ line ++ Bytes.newline
    if pending = [] ∧ word = [] then (.nothing, some [])
    else if pending = [] ∧ (word = text "exit" ∨ word = text ":quit") then (.nothing, none)
    else if pending = [] ∧ word = text ":env" then (.listing, some [])
    else if awaitsMore chunk then (.nothing, some chunk)
    else (.chunk chunk, some [])

def plan (pending : Bytes) : List Input → List Act
  | [] => [(heed pending .eof).1]
  | input :: rest =>
    match heed pending input with
    | (act, none) => [act]
    | (act, some pending) => act :: plan pending rest

def Act.perform? (style : Style) (clock : Nat → Float) (s : Session) : Act → Option (Shown × Session)
  | .nothing => some (.nothing, s)
  | .chunk source => do
    let reply ← s.eval? clock source
    let result := reply.evaluation
    return (⟨result.output.flatMap fun line => line ++ Bytes.newline, reportLines style result.reports⟩,
      reply.session)
  | .listing => some (⟨Repl.listing s, []⟩, s)
  | .hint => some (⟨style.paint Style.gray (text "(use 'exit' or Ctrl+D to quit)") ++ Bytes.newline, []⟩, s)
  | .farewell => some (⟨Bytes.newline, []⟩, s)

def perform? (style : Style) (clock : Nat → Float) (s : Session) :
    List Act → Option (List Shown × Session)
  | [] => some ([], s)
  | act :: rest => do
    let (shown, s) ← act.perform? style clock s
    let (more, s) ← perform? style clock s rest
    return (shown :: more, s)

def Transcript.shown (t : Transcript) : List Shown := t.readings.map (·.before) ++ [t.last]

theorem evaluate?_eq (style : Style) (clock : Nat → Float) (s : State) (line : Bytes) :
    evaluate? style clock s line =
      if awaitsMore (s.pending ++ line ++ Bytes.newline) then
        some (stay ⟨s.session, s.pending ++ line ++ Bytes.newline⟩ .nothing)
      else
        ((Act.chunk (s.pending ++ line ++ Bytes.newline)).perform? style clock s.session).map
          fun done => stay ⟨done.2, []⟩ done.1 := by
  generalize same : s.pending ++ line ++ Bytes.newline = chunk
  show (s.session.eval? clock _).bind _ = _
  rw [same]
  cases ran : s.session.eval? clock chunk with
  | none =>
    have complete : ¬ awaitsMore chunk = true := by
      intro awaits
      rw [eval?_faulty s.session clock (awaitsMore_faulty awaits)] at ran
      cases ran
    rw [if_neg complete]
    simp only [Act.perform?, ran]
    rfl
  | some reply =>
    have judged := judgedIncomplete_eq ran
    unfold judgedIncomplete at judged
    simp only [Act.perform?, ran, Option.bind_eq_bind, Option.bind_some, judged]
    split
    · rename_i awaits
      obtain ⟨kept, _⟩ := eval?_awaiting awaits ran
      rw [kept]
      rfl
    · rfl

theorem react?_eq (style : Style) (clock : Nat → Float) (s : State) (input : Input) :
    react? style clock s input =
      ((heed s.pending input).1.perform? style clock s.session).map fun done =>
        ⟨done.1, (heed s.pending input).2.map fun pending => ⟨done.2, pending⟩, done.2⟩ := by
  obtain ⟨session, pending⟩ := s
  cases input with
  | interrupt => cases pending <;> rfl
  | eof => rfl
  | broken => rfl
  | line line =>
    cases pending with
    | nil =>
      simp only [react?, react, heed, List.isEmpty_nil, if_true, true_and, List.isEmpty_iff]
      split
      · rfl
      · split
        · rfl
        · split
          · rfl
          · refine (evaluate?_eq style clock ⟨session, []⟩ line).trans ?_
            split <;> rfl
    | cons b pending =>
      simp only [react?, react, heed, List.isEmpty_cons, Bool.false_eq_true, if_false, reduceCtorEq, false_and]
      refine (evaluate?_eq style clock ⟨session, b :: pending⟩ line).trans ?_
      split <;> rfl

theorem shown_reading (reading : Reading) (talk : Option Transcript) :
    (talk.bind fun t => some { t with readings := reading :: t.readings }).map
        (fun t => (t.shown, t.session)) =
      (talk.map fun t => (t.shown, t.session)).map fun told => (reading.before :: told.1, told.2) := by
  cases talk <;> rfl

theorem converse?_eq (style : Style) (clock : Nat → Float) (s : State) (before : Shown)
    (inputs : List Input) :
    (converse? style clock s before inputs).map (fun t => (t.shown, t.session)) =
      (perform? style clock s.session (plan s.pending inputs)).map
        fun done => (before :: done.1, done.2) := by
  induction inputs generalizing s before with
  | nil => rfl
  | cons input rest ih =>
    unfold converse? plan
    rw [react?_eq]
    cases heed s.pending input with
    | mk act pending =>
      cases performed : act.perform? style clock s.session with
      | none => cases pending <;> simp [perform?, performed]
      | some done =>
        cases pending with
        | none => simp [perform?, performed, Transcript.shown]
        | some pending =>
          simp only [Option.map_some, Option.bind_eq_bind, Option.bind_some, perform?, performed]
          refine (shown_reading _ _).trans ?_
          rw [ih]
          cases perform? style clock done.2 (plan pending rest) <;> rfl

end Repl

open Repl in
theorem chunks_run_once (style : Style) (clock : Nat → Float) (s : State) (before : Shown)
    (inputs : List Input) :
    (converse? style clock s before inputs).map (fun t => (t.shown, t.session)) =
      (perform? style clock s.session (plan s.pending inputs)).map
        (fun done => (before :: done.1, done.2)) ∧
    ∀ (session : Session) (source : Bytes) (reply : Session.Reply),
      session.eval? clock source = some reply →
        judgedIncomplete reply.evaluation = awaitsMore source ∧
        (awaitsMore source = true → reply.session = session ∧ reply.evaluation.output = []) :=
  ⟨converse?_eq style clock s before inputs, fun _ _ _ ran =>
    ⟨judgedIncomplete_eq ran, fun awaits => eval?_awaiting awaits ran⟩⟩

-- A chunk that is given up, a chunk of two lines, and one that is cut off by the end of the input.
def halting : List Repl.Input :=
  [.line (text "var x = \"lost"), .interrupt, .line (text "\x7b var x = \"a"), .line (text "b\"; print x; \x7d"),
   .line (text ":env"), .line (text "print (")]

open Repl in
theorem chunks_run_once_halting :
    (converse? ⟨[], false⟩ (fun _ => 0) ⟨.new ⟨0, 64⟩ 0, []⟩ .nothing halting).map
        (fun t => (t.shown, t.session)) =
      (perform? ⟨[], false⟩ (fun _ => 0) (.new ⟨0, 64⟩ 0) [.nothing, .nothing, .nothing,
        .chunk (text "\x7b var x = \"a\nb\"; print x; \x7d\n"), .listing, .nothing, .farewell]).map
          (fun done => (.nothing :: done.1, done.2)) ∧
    ∃ reply, (Session.new ⟨0, 64⟩ 0).eval? (fun _ => 0) (text "print (\n") = some reply ∧
      judgedIncomplete reply.evaluation = true ∧ reply.session = .new ⟨0, 64⟩ 0 := by
  have planned : plan [] halting = [.nothing, .nothing, .nothing,
      .chunk (text "\x7b var x = \"a\nb\"; print x; \x7d\n"), .listing, .nothing, .farewell] := by
    decide +kernel
  have awaits : awaitsMore (text "print (\n") = true := by decide +kernel
  have tried : ((Session.new ⟨0, 64⟩ 0).eval? (fun _ => 0) (text "print (\n")).isSome = true := by
    decide +kernel
  obtain ⟨reply, ran⟩ := Option.isSome_iff_exists.1 tried
  obtain ⟨same, once⟩ :=
    chunks_run_once ⟨[], false⟩ (fun _ => 0) ⟨.new ⟨0, 64⟩ 0, []⟩ .nothing halting
  obtain ⟨judged, kept⟩ := once _ _ reply ran
  rw [planned] at same
  exact ⟨same, reply, ran, judged.trans awaits, (kept awaits).1⟩

end TinyScript
