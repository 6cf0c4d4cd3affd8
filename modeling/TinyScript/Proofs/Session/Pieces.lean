import TinyScript.Proofs.Run.Relocation
import TinyScript.Proofs.Run.Scopes
import TinyScript.Proofs.Tree.Concatenation
import TinyScript.Proofs.Tree.Relocation
import TinyScript.Session

namespace TinyScript

open Scan Parse

theorem analyse_clean {source : Bytes} : (analyse source).diagnostics = [] ↔
    (∀ t ∈ scan source, t.kind ≠ .illegal) ∧ (parse (scan source)).2 = [] := by
  rw [← scanDiagnostics_eq_nil]
  exact List.append_eq_nil_iff

theorem analyse_append (a b : Bytes) (clean : (analyse a).diagnostics = [])
    (clean' : (analyse b).diagnostics = []) :
    (analyse (a ++ Bytes.newline ++ b)).diagnostics = [] ∧
      (analyse (a ++ Bytes.newline ++ b)).program =
        (analyse a).program ++ (analyse b).program.map (Stmt.relocate (behindLines a)) := by
  obtain ⟨legal, parsed⟩ := analyse_clean.1 clean
  obtain ⟨legal', parsed'⟩ := analyse_clean.1 clean'
  obtain ⟨body, stop, first, inner, whole⟩ := scan_lines a b fun t mem isOpen => legal t mem isOpen.1
  obtain ⟨body', stop', second, inner'⟩ : ∃ body stop, scan b = body ++ [.ending stop] ∧
    ∀ t ∈ body, t.kind ≠ .eof := tokensFrom_shape .start b
  show (analyse _).diagnostics = [] ∧ (parse _).1 = (parse _).1 ++ (parse _).1.map _
  generalize behindLines a = g at whole ⊢
  have everywhere (p : Kind → Prop) (one : ∀ t ∈ body, p t.kind) (two : ∀ t ∈ body', p t.kind) :
      ∀ t ∈ body ++ body'.map (Token.relocate g), p t.kind := by
    rw [List.forall_mem_append, List.forall_mem_map]
    exact ⟨one, two⟩
  have lawful := everywhere (· ≠ .illegal) (fun t mem => legal t (first ▸ List.mem_append_left _ mem))
    fun t mem => legal' t (second ▸ List.mem_append_left _ mem)
  have moved : parse (body'.map (Token.relocate g) ++ [(Token.ending stop').relocate g]) =
      ((parse (scan b)).1.map (Stmt.relocate g), []) := by
    have relocated := parse_relocate g (show (Token.ending stop').kind = .eof from rfl) inner'
    rw [← second, parsed', second, List.map_append] at relocated
    rw [second]
    exact relocated
  have ended : (Token.ending stop).kind = .eof := rfl
  have ended' : ((Token.ending stop').relocate g).kind = .eof := rfl
  have joined := parse_append ended ended'
    (everywhere (· ≠ .eof) inner inner') lawful (first ▸ parsed) (congrArg Prod.snd moved)
  rw [← first, moved] at joined
  rw [analyse_clean, whole, second, List.map_append, List.map_singleton, ← List.append_assoc, joined]
  refine ⟨⟨?_, rfl⟩, ?_⟩
  · rw [List.forall_mem_append]
    exact ⟨lawful, by simp [Token.relocate, Token.ending]⟩
  · rw [second]

def Heap.shown (h : Heap) (id : ScopeId) : List (Bytes × ValueType × Bytes) :=
  (h.listing id).map fun entry => (entry.1, entry.2.type, entry.2.render)

structure Seen where
  printed : Bytes
  ok : Bool
  faults : List (Code × Bytes)
  globals : List (Bytes × ValueType × Bytes)
  deriving DecidableEq

def Session.seen? (s : Session) (clock : Nat → Float) (source : Bytes) : Option Seen := do
  let execution ← s.interpreter.execute? clock (analyse source).program s.heap s.readings
  let reply ← s.eval? clock source
  return ⟨execution.machine.output, reply.evaluation.ok,
    reply.evaluation.reports.map fun r => (r.code, r.message),
    reply.session.heap.shown reply.session.interpreter.globals⟩

def Outcome.seen? (globals : ScopeId) : Outcome Unit → Option Seen
  | .done _ m => some ⟨m.output, true, [], m.heap.shown globals⟩
  | .failed e m => some ⟨m.output, false, [(e.error.fault.code, e.error.fault.message)], m.heap.shown globals⟩
  | .unfinished => none

theorem Session.seen?_eq (s : Session) (clock : Nat → Float) (clean : (analyse source).diagnostics = []) :
    s.seen? clock source =
      (s.interpreter.run clock (analyse source).program s.heap s.readings).seen? s.interpreter.globals := by
  unfold seen? eval? eval Interpreter.execute?
  simp only [clean, Diagnostic.anyError, List.any_nil, Bool.false_eq_true, if_false, List.map_nil,
    List.nil_append]
  cases s.interpreter.run clock (analyse source).program s.heap s.readings <;> rfl

theorem Heap.shown_relocate (h : Heap) (id : ScopeId) (g : Position → Position) :
    (h.relocate g).shown id = h.shown id := by
  have same (v : Value) := v.like_relocate (g := g)
  unfold shown
  rw [listing_relocate, List.map_map]
  exact List.map_congr_left fun entry _ => by
    simp only [Function.comp_apply, ← (same entry.2).type, ← (same entry.2).render]

theorem Session.run_of_ok {s : Session} (clean : (analyse source).diagnostics = [])
    (ran : s.eval? clock source = some reply) (ok : reply.evaluation.ok = true) :
    ∃ m, s.interpreter.run clock (analyse source).program s.heap s.readings = .done () m ∧
      reply.session = { s with heap := m.heap, readings := m.readings } := by
  unfold eval? eval Interpreter.execute? at ran
  simp only [clean, Diagnostic.anyError, List.any_nil, Bool.false_eq_true, if_false, List.map_nil,
    List.nil_append] at ran
  cases outcome : s.interpreter.run clock (analyse source).program s.heap s.readings with
  | done a m =>
    rw [outcome] at ran
    cases ran
    exact ⟨m, rfl, rfl⟩
  | failed e m =>
    rw [outcome] at ran
    cases ran
    cases ok
  | unfinished =>
    rw [outcome] at ran
    cases ran

theorem Outcome.seen?_transfer (globals : ScopeId) (k : Transfer) (o : Outcome Unit) :
    (o.transfer k).seen? globals = (o.seen? globals).map fun seen =>
      { seen with printed := (k.printed.reverse.flatMap fun s => s ++ Bytes.newline) ++ seen.printed } := by
  have printed (m : Machine) : (m.transfer k).output =
      (k.printed.reverse.flatMap fun s => s ++ Bytes.newline) ++ m.output := by
    unfold Machine.output Machine.transfer
    rw [List.reverse_append, List.flatMap_append]
  cases o with
  | done a m =>
    show some (Seen.mk _ _ _ ((m.heap.relocate k.place).shown globals)) = _
    rw [printed, Heap.shown_relocate]
    rfl
  | failed e m =>
    show some (Seen.mk _ _ _ ((m.heap.relocate k.place).shown globals)) = _
    rw [printed, Heap.shown_relocate]
    cases e <;> rfl
  | unfinished => rfl

namespace Interpret

theorem execProgram_append {host : Host} {p : List Stmt} (ran : execProgram host p m = .done () after)
    (q : List Stmt) : execProgram host (p ++ q) m = execProgram host q after := by
  induction p generalizing m with
  | nil =>
    cases ran
    rfl
  | cons s ss ih =>
    obtain ⟨signal, middle, first, rest⟩ := Step.of_bind_done ran
    show (Evaluate.exec host.steps s >>= fun _ => execProgram host (ss ++ q)) m = _
    rw [Step.bind_done first]
    exact ih rest

end Interpret

open Interpret in
-- An interpreter goes on where it stopped: it has its global scope again, no call is under way, and
-- what it printed and the steps it took make no difference.
theorem Interpreter.run_append {i : Interpreter} (free : i.limits.maxSteps = 0)
    (ran : i.run clock p heap readings = .done () m) (q : List Stmt) (g : Position → Position)
    (scope : ScopeId) :
    (i.run clock (p ++ q.map (Stmt.relocate g)) heap readings).seen? scope =
      ((i.run clock q m.heap m.readings).seen? scope).map fun second =>
        { second with printed := m.output ++ second.printed } := by
  -- the two machines before the second program, without places
  let nowhere : Position → Position := fun _ => .start
  let past : Transfer := ⟨nowhere, m.steps, m.printed⟩
  let noPast : Transfer := ⟨nowhere, 0, []⟩
  let host := hostAt i.limits clock (rounds i.limits i.patience) i.limits.maxDepth
  have ran : execProgram host p ⟨heap, i.globals, 0, 0, readings, []⟩ = .done () m := ran
  have kept : Machine.Keeps .own _ m :=
    keeps_execProgram (keeps_invoke i.limits clock (rounds i.limits i.patience) i.limits.maxDepth) p _ m
      (show (execProgram host p _).machine? = _ by rw [ran]; rfl)
  have same : m.transfer noPast = (Machine.mk m.heap i.globals 0 0 m.readings []).transfer past := by
    obtain ⟨heap', scope', depth, steps, readings', printed⟩ := m
    obtain rfl : scope' = i.globals := kept.scope
    obtain rfl : depth = 0 := kept.depth
    simp [Machine.transfer, past, noPast]
  have moved : (q.map (Stmt.relocate g)).map (Stmt.relocate nowhere) = q.map (Stmt.relocate nowhere) := by
    rw [List.map_map]
    exact List.map_congr_left fun s _ => s.relocate_relocate g nowhere
  have transferred (k : Transfer) := hostAt_transfers (k := k) i.limits clock
    (rounds i.limits i.patience) (.inl free) i.limits.maxDepth
  have whole := (transferred noPast).execProgram (q.map (Stmt.relocate g)) m
  have alone := (transferred past).execProgram q ⟨m.heap, i.globals, 0, 0, m.readings, []⟩
  rw [moved, same] at whole
  have seen := congrArg (Outcome.seen? scope) (whole.symm.trans alone)
  rw [Outcome.seen?_transfer, Outcome.seen?_transfer] at seen
  show (execProgram host _ _).seen? scope = _
  rw [execProgram_append ran]
  exact Option.map_id'.symm.trans seen

theorem pieces_equal_whole (a b : Bytes) (clean : (analyse a).diagnostics = [])
    (clean' : (analyse b).diagnostics = []) :
    ((analyse (a ++ Bytes.newline ++ b)).diagnostics = [] ∧
      (analyse (a ++ Bytes.newline ++ b)).program = (analyse a).program ++
        (analyse b).program.map (Stmt.relocate (.moved (a.length + 1) (a.count (byte '\n') + 1)))) ∧
    ∀ limits patience clock reply, limits.maxSteps = 0 →
      (Session.new limits patience).eval? clock a = some reply → reply.evaluation.ok = true →
      ∃ first, (Session.new limits patience).seen? clock a = some first ∧
        (Session.new limits patience).seen? clock (a ++ Bytes.newline ++ b) =
          (reply.session.seen? clock b).map fun second =>
            { second with printed := first.printed ++ second.printed } := by
  obtain ⟨cleanWhole, program⟩ := analyse_append a b clean clean'
  refine ⟨⟨cleanWhole, program⟩, fun limits patience clock reply free ran ok => ?_⟩
  obtain ⟨m, first, later⟩ := Session.run_of_ok clean ran ok
  have seen := Session.seen?_eq (Session.new limits patience) clock clean
  rw [first] at seen
  refine ⟨_, seen, ?_⟩
  rw [Session.seen?_eq _ clock cleanWhole, Session.seen?_eq _ clock clean', program, later]
  exact Interpreter.run_append free first _ _ _

-- A text that ends in a comment, with a function that fails when the second text calls it.
def firstPiece : Bytes := text "fun f(x) \x7b print x; y; \x7d print \"a\"; // f"

def secondPiece : Bytes := text "var y; // not here\nprint f; \x7b fun y() \x7b f(\"b\"); z; \x7d y(); \x7d"

theorem pieces_equal_whole_failing : ∃ reply first second,
    (Session.new ⟨0, 8⟩ 1).eval? (fun _ => 0) firstPiece = some reply ∧
    (Session.new ⟨0, 8⟩ 1).seen? (fun _ => 0) firstPiece = some first ∧
    reply.session.seen? (fun _ => 0) secondPiece = some second ∧
    second.faults = [(Code.undefinedVariable, text "undefined variable 'z'")] ∧
    (Session.new ⟨0, 8⟩ 1).seen? (fun _ => 0) (firstPiece ++ Bytes.newline ++ secondPiece) =
      some { second with printed := first.printed ++ second.printed } := by
  have clean : (analyse firstPiece).diagnostics = [] := by decide +kernel
  have clean' : (analyse secondPiece).diagnostics = [] := by decide +kernel
  have ran : ((Session.new ⟨0, 8⟩ 1).eval? (fun _ => 0) firstPiece).map (fun reply =>
      (reply.evaluation.ok, (reply.session.seen? (fun _ => 0) secondPiece).map (·.faults))) =
      some (true, some [(Code.undefinedVariable, text "undefined variable 'z'")]) := by decide +kernel
  obtain ⟨reply, evaluated, shown⟩ := Option.map_eq_some_iff.1 ran
  obtain ⟨ok, failed⟩ := Prod.mk.injEq .. ▸ shown
  obtain ⟨second, later, faults⟩ := Option.map_eq_some_iff.1 failed
  obtain ⟨first, before, whole⟩ :=
    (pieces_equal_whole firstPiece secondPiece clean clean').2 ⟨0, 8⟩ 1 _ reply rfl evaluated ok
  rw [later] at whole
  exact ⟨reply, first, second, evaluated, before, later, faults, whole⟩

end TinyScript
