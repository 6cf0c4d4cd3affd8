import TinyScript.Proofs.Run.Relocation
import TinyScript.Proofs.Token.Lossless
import TinyScript.Proofs.Tree.Relocation
import TinyScript.Session

namespace TinyScript

open Scan Parse

def Token.spelling (t : Token) : Kind × Bytes := (t.kind, t.lexeme)

def Diagnostic.bare (d : Diagnostic) : Diagnostic := { d with span := .unknown }

def Report.bare (r : Report) : Report := { r with line := 0, column := 0 }

def Evaluation.bare (e : Evaluation) : Evaluation := { e with reports := e.reports.map Report.bare }

def Session.steps? (s : Session) (clock : Nat → Float) (source : Bytes) : Option Nat :=
  (s.interpreter.execute? clock (analyse source).program s.heap s.readings).map (·.machine.steps)

-- Trees without spans are trees moved to one place.

def nowhere : Position → Position := fun _ => ⟨0, 0, 0⟩

mutual

theorem Expr.relocate_nowhere : (e : Expr) → e.relocate nowhere = e.bare
  | .literal _ _ | .name _ _ => by simp only [Expr.relocate, Expr.bare]; rfl
  | .grouping _ e | .unary _ _ e | .assign _ _ e => by
    simp only [Expr.relocate, Expr.bare, Expr.relocate_nowhere e]
    rfl
  | .binary _ _ l r | .logical _ _ l r => by
    simp only [Expr.relocate, Expr.bare, Expr.relocate_nowhere l, Expr.relocate_nowhere r]
    rfl
  | .call _ f es => by
    simp only [Expr.relocate, Expr.bare, Expr.relocate_nowhere f, Expr.relocateAll_nowhere es]
    rfl
  | .lambda _ _ body => by
    simp only [Expr.relocate, Expr.bare, Block.relocate_nowhere body]
    rfl

theorem Expr.relocateAll_nowhere : (es : List Expr) → Expr.relocateAll nowhere es = Expr.bareAll es
  | [] => rfl
  | e :: es => by
    simp only [Expr.relocateAll, Expr.bareAll, Expr.relocate_nowhere e, Expr.relocateAll_nowhere es]

theorem Stmt.relocate_nowhere : (s : Stmt) → s.relocate nowhere = s.bare
  | .expr _ e | .print _ e | .declare _ _ (some e) | .giveBack _ (some e) => by
    simp only [Stmt.relocate, Stmt.bare, Expr.relocate_nowhere e]
    rfl
  | .declare _ _ none | .giveBack _ none => by simp only [Stmt.relocate, Stmt.bare]; rfl
  | .block body => by simp only [Stmt.relocate, Stmt.bare, Block.relocate_nowhere body]
  | .branch _ c yes none => by
    simp only [Stmt.relocate, Stmt.bare, Expr.relocate_nowhere c, Stmt.relocate_nowhere yes]
    rfl
  | .branch _ c yes (some no) => by
    simp only [Stmt.relocate, Stmt.bare, Expr.relocate_nowhere c, Stmt.relocate_nowhere yes,
      Stmt.relocate_nowhere no]
    rfl
  | .loop _ c body => by
    simp only [Stmt.relocate, Stmt.bare, Expr.relocate_nowhere c, Stmt.relocate_nowhere body]
    rfl
  | .function _ _ _ body => by
    simp only [Stmt.relocate, Stmt.bare, Block.relocate_nowhere body]
    rfl

theorem Stmt.relocateAll_nowhere : (ss : List Stmt) → Stmt.relocateAll nowhere ss = Stmt.bareAll ss
  | [] => rfl
  | s :: ss => by
    simp only [Stmt.relocateAll, Stmt.bareAll, Stmt.relocate_nowhere s, Stmt.relocateAll_nowhere ss]

theorem Block.relocate_nowhere : (b : Block) → b.relocate nowhere = b.bare
  | .absent => rfl
  | .braces _ stmts => by
    simp only [Block.relocate, Block.bare, Stmt.relocateAll_nowhere stmts]
    rfl

end

-- A scanned token is known by its kind and its lexeme, but for its place.

def Token.ofSpelling (spelling : Kind × Bytes) : Token :=
  ⟨spelling.1, spelling.2, Scan.literal spelling.1 spelling.2, .unknown⟩

theorem scan_nowhere (s : Bytes) :
    (scan s).map (Token.relocate nowhere) = ((scan s).map Token.spelling).map Token.ofSpelling := by
  rw [List.map_map]
  apply List.map_congr_left
  intro t mem
  obtain ⟨kind, lexeme, literal, span⟩ := t
  have known : literal = Scan.literal kind lexeme := scan_literal s _ mem
  rw [known]
  rfl

def Outcome.result? : Outcome Unit → Option (Option RuntimeFault × Bytes × Nat)
  | .done _ m => some (none, m.output, m.steps)
  | .failed e m => some (some e.error.fault, m.output, m.steps)
  | .unfinished => none

def placeless : Transfer := ⟨nowhere, 0, []⟩

theorem Outcome.result?_placeless (o : Outcome Unit) : (o.transfer placeless).result? = o.result? := by
  have printed (m : Machine) : (m.transfer placeless).output = m.output :=
    congrArg (fun lines => (List.reverse lines).flatMap fun s => s ++ Bytes.newline) (List.append_nil m.printed)
  cases o with
  | done _ m => exact congrArg (fun output => some (none, output, m.steps)) (printed m)
  | failed e m =>
    have same : (e.relocate nowhere).error.fault = e.error.fault := by cases e <;> rfl
    show some (some (e.relocate nowhere).error.fault, (m.transfer placeless).output, m.steps) = _
    rw [same, printed]
    rfl
  | unfinished => rfl

theorem Report.map_bare (ds : List Diagnostic) :
    (ds.map .ofDiagnostic).map Report.bare = (ds.map Diagnostic.bare).map .ofDiagnostic := by
  simp only [List.map_map]
  rfl

theorem Report.incomplete_bare (rs : List Report) : incomplete (rs.map Report.bare) = incomplete rs := by
  unfold incomplete
  rw [List.isEmpty_map, List.any_map, List.all_map]
  rfl

theorem Session.eval?_bare (s : Session) (clock : Nat → Float) (source : Bytes) :
    (s.eval? clock source).map (·.evaluation.bare) =
      let faults := (analyse source).diagnostics.map Diagnostic.bare
      let reports := faults.map .ofDiagnostic
      if Diagnostic.anyError faults then some ⟨[], reports, false⟩
      else (s.interpreter.run clock (analyse source).program s.heap s.readings).result?.map fun result =>
        match result.1 with
        | none => ⟨printedLines result.2.1, reports, true⟩
        | some fault => ⟨printedLines result.2.1,
            reports ++ [.ofDiagnostic (RuntimeError.diagnostic ⟨fault, .unknown⟩)], false⟩ := by
  have judged : Diagnostic.anyError ((analyse source).diagnostics.map Diagnostic.bare) =
      Diagnostic.anyError (analyse source).diagnostics := List.any_map
  dsimp only
  rw [judged, ← Report.map_bare]
  unfold eval? eval
  dsimp only
  split
  · rfl
  · unfold Interpreter.execute?
    cases s.interpreter.run clock (analyse source).program s.heap s.readings with
    | done _ m => rfl
    | failed e m =>
      show some (Evaluation.mk _ (List.map _ (_ ++ _)) _) = _
      rw [List.map_append]
      rfl
    | unfinished => rfl

theorem Session.steps?_eq (s : Session) (clock : Nat → Float) (source : Bytes) :
    s.steps? clock source =
      (s.interpreter.run clock (analyse source).program s.heap s.readings).result?.map (·.2.2) := by
  unfold steps? Interpreter.execute?
  cases s.interpreter.run clock (analyse source).program s.heap s.readings <;> rfl

section

variable {a b : Bytes} (same : (scan a).map Token.spelling = (scan b).map Token.spelling)
include same

theorem analyse_alike :
    (analyse a).program.map (Stmt.relocate nowhere) = (analyse b).program.map (Stmt.relocate nowhere) ∧
    (analyse a).diagnostics.map Diagnostic.bare = (analyse b).diagnostics.map Diagnostic.bare := by
  have tokens : (scan a).map (Token.relocate nowhere) = (scan b).map (Token.relocate nowhere) := by
    rw [scan_nowhere, scan_nowhere, same]
  have read (s : Bytes) : parse ((scan s).map (Token.relocate nowhere)) =
      ((parse (scan s)).1.map (Stmt.relocate nowhere),
        (parse (scan s)).2.map (Diagnostic.relocate nowhere)) := by
    obtain ⟨body, stop, shape, inner⟩ : ∃ body stop, scan s = body ++ [.ending stop] ∧
      ∀ t ∈ body, t.kind ≠ .eof := tokensFrom_shape .start s
    rw [shape]
    exact parse_relocate nowhere rfl inner
  have parsed := (read a).symm.trans ((congrArg parse tokens).trans (read b))
  obtain ⟨programs, faults⟩ := Prod.mk.inj parsed
  refine ⟨programs, ?_⟩
  show (scanDiagnostics _ ++ _).map (Diagnostic.relocate nowhere) =
    (scanDiagnostics _ ++ _).map (Diagnostic.relocate nowhere)
  rw [List.map_append, List.map_append, ← scanDiagnostics_relocate, ← scanDiagnostics_relocate, tokens]
  exact congrArg _ faults

theorem Interpreter.run_alike (i : Interpreter) (clock : Nat → Float) (heap : Heap) (readings : Nat) :
    (i.run clock (analyse a).program heap readings).result? =
      (i.run clock (analyse b).program heap readings).result? := by
  have transferred := Interpret.hostAt_transfers (k := placeless) i.limits clock
    (Interpret.rounds i.limits i.patience) (.inr rfl) i.limits.maxDepth
  have moved (p : List Stmt) := transferred.execProgram p ⟨heap, i.globals, 0, 0, readings, []⟩
  have first := moved (analyse a).program
  rw [show (analyse a).program.map (Stmt.relocate placeless.place) = _ from (analyse_alike same).1] at first
  have results := congrArg Outcome.result? (first.symm.trans (moved (analyse b).program))
  rw [Outcome.result?_placeless, Outcome.result?_placeless] at results
  exact results

theorem Session.eval?_alike (s : Session) (clock : Nat → Float) :
    (s.eval? clock a).map (·.evaluation.bare) = (s.eval? clock b).map (·.evaluation.bare) := by
  rw [eval?_bare, eval?_bare, (analyse_alike same).2, Interpreter.run_alike same]

theorem Session.incomplete_alike (s : Session) (clock : Nat → Float) :
    (s.eval? clock a).map (fun reply => Report.incomplete reply.evaluation.reports) =
      (s.eval? clock b).map fun reply => Report.incomplete reply.evaluation.reports := by
  have judged (source : Bytes) :
      (s.eval? clock source).map (fun reply => Report.incomplete reply.evaluation.reports) =
        ((s.eval? clock source).map (·.evaluation.bare)).map fun e => Report.incomplete e.reports := by
    rw [Option.map_map]
    exact congrArg (Option.map · _) (funext fun reply => (Report.incomplete_bare _).symm)
  rw [judged, judged, eval?_alike same]

theorem Session.steps?_alike (s : Session) (clock : Nat → Float) :
    s.steps? clock a = s.steps? clock b := by
  rw [steps?_eq, steps?_eq, Interpreter.run_alike same]

end

theorem layout_never_matters (a b : Bytes)
    (same : (scan a).map Token.spelling = (scan b).map Token.spelling) :
    Stmt.bareAll (analyse a).program = Stmt.bareAll (analyse b).program ∧
    (analyse a).diagnostics.map Diagnostic.bare = (analyse b).diagnostics.map Diagnostic.bare ∧
    Report.incomplete ((analyse a).diagnostics.map .ofDiagnostic) =
      Report.incomplete ((analyse b).diagnostics.map .ofDiagnostic) ∧
    ∀ limits patience clock,
      (run? limits patience clock a).map (·.evaluation.bare) =
        (run? limits patience clock b).map (·.evaluation.bare) ∧
      (run? limits patience clock a).map (fun reply => Report.incomplete reply.evaluation.reports) =
        (run? limits patience clock b).map (fun reply => Report.incomplete reply.evaluation.reports) ∧
      (Session.new limits patience).steps? clock a = (Session.new limits patience).steps? clock b := by
  obtain ⟨programs, faults⟩ := analyse_alike same
  refine ⟨?_, faults, ?_, fun limits patience clock => ⟨?_, ?_, ?_⟩⟩
  · rw [← Stmt.relocateAll_nowhere, ← Stmt.relocateAll_nowhere, Stmt.relocateAll_eq_map,
      Stmt.relocateAll_eq_map, programs]
  · rw [← Report.incomplete_bare (List.map _ (analyse a).diagnostics), Report.map_bare, faults,
      ← Report.map_bare, Report.incomplete_bare]
  · exact Session.eval?_alike same (Session.new limits patience) clock
  · exact Session.incomplete_alike same (Session.new limits patience) clock
  · exact Session.steps?_alike same (Session.new limits patience) clock

-- One program twice, with a call that fails, on one line and over several lines with remarks.
def crampedText : Bytes := text "fun f(x)\x7bprint x;y;\x7dwhile(true)f(\"a\");"

def roomyText : Bytes :=
  text "// f fails\nfun f ( x ) \x7b\n  print x; // printed \"first\"\n\ty;\n\x7d\n\nwhile (true)\n  f(\"a\"); //"

theorem layout_never_matters_failing :
    (run? ⟨3, 8⟩ 1 (fun _ => 0) crampedText).map (·.evaluation.bare) =
      (run? ⟨3, 8⟩ 1 (fun _ => 0) roomyText).map (·.evaluation.bare) ∧
    (run? ⟨3, 8⟩ 1 (fun _ => 0) crampedText).map (fun reply => reply.evaluation.reports.map (·.line)) =
      some [1] ∧
    (run? ⟨3, 8⟩ 1 (fun _ => 0) roomyText).map (fun reply => reply.evaluation.reports.map (·.line)) =
      some [4] := by
  have same : (scan crampedText).map Token.spelling = (scan roomyText).map Token.spelling := by
    decide +kernel
  refine ⟨((layout_never_matters crampedText roomyText same).2.2.2 ⟨3, 8⟩ 1 _).1, ?_, ?_⟩ <;> decide +kernel

end TinyScript
