import TinyScript.Token.Scan
import TinyScript.Tree.Parse
import TinyScript.Run.Live

namespace TinyScript

inductive Event where
  | scanned (tokens faults : Nat)
  | parsed (statements faults : Nat)
  | skipped (faults : Nat)
  | stopped (code : Code) (line : Int)
  | finished (statements steps : Nat)
  | interpreted (lines : Nat) (error : Option Code)
  deriving DecidableEq, Repr

def Event.render : Event → Bytes
  | .scanned tokens faults =>
    text "scanned: " ++ numeral tokens ++ text " tokens, " ++ numeral faults ++ text " errors"
  | .parsed statements faults =>
    text "parsed: " ++ numeral statements ++ text " statements, " ++ numeral faults ++ text " errors"
  | .skipped faults => text "skipping interpretation: " ++ numeral faults ++ text " errors"
  | .stopped code line =>
    text "runtime error " ++ text code ++ text " at line " ++ signedNumeral line
  | .finished statements steps =>
    text "interpret done: " ++ numeral statements ++ text " statements, " ++ numeral steps
      ++ text " steps"
  | .interpreted lines none => text "interpreted: " ++ numeral lines ++ text " lines"
  | .interpreted lines (some code) =>
    text "interpreted: " ++ numeral lines ++ text " lines, error " ++ text code

structure Analysis where
  tokens : List Token
  program : List Stmt
  diagnostics : List Diagnostic
  events : List Event

def analyse (source : Bytes) : Analysis :=
  let tokens := scan source
  let scanned := scanDiagnostics tokens
  let (program, parsed) := parse tokens
  ⟨tokens, program, scanned ++ parsed,
    [.scanned tokens.length scanned.length, .parsed program.length parsed.length]⟩

-- An empty text, and one empty line alone, have no lines.
def printedLines (s : Bytes) : List Bytes :=
  let body := if Bytes.newline.isSuffixOf s then s.dropLast else s
  if body.isEmpty then [] else Bytes.lines body

structure Execution where
  error : Option Failure
  machine : Machine
  event : Option Event

-- Only an error that has a place is traced where it stops the run.
def Failure.event? : Failure → Option Event
  | .runtime e => some (.stopped e.fault.code e.span.start.line)
  | .builtin _ => none

def Outcome.execution? (program : List Stmt) : Outcome Unit → Option Execution
  | .done _ m => some ⟨none, m, some (.finished program.length m.steps)⟩
  | .failed e m => some ⟨some e, m, e.event?⟩
  | .unfinished => none

-- What executes programs, from given bindings and a number of earlier readings of the clock on.
abbrev Executor (W : Type → Type) : Type := Interpreter → List Stmt → Heap → Nat → W Execution

def Interpreter.execute? (i : Interpreter) (clock : Nat → Float) (program : List Stmt) (heap : Heap)
    (readings : Nat) : Option Execution :=
  (i.run clock program heap readings).execution? program

def Live.execute {W : Type → Type} [Monad W] (now : W Float) : Executor (OptionT W) :=
  fun i program heap readings => .mk do
    return (← Live.run now i program heap readings).execution? program

structure Evaluation where
  output : List Bytes
  reports : List Report
  ok : Bool

structure Session where
  interpreter : Interpreter
  heap : Heap
  readings : Nat

namespace Session

def new (limits : Limits) (patience : Nat) : Session :=
  let (globals, heap) := Heap.empty.addGlobals
  ⟨⟨globals, limits, patience⟩, heap, 0⟩

structure Reply where
  evaluation : Evaluation
  events : List Event
  session : Session

def eval {W : Type → Type} [Monad W] (execute : Executor W) (s : Session) (source : Bytes) : W Reply :=
  let analysis := analyse source
  let reports := analysis.diagnostics.map Report.ofDiagnostic
  if Diagnostic.anyError analysis.diagnostics then
    return ⟨⟨[], reports, false⟩, analysis.events ++ [.skipped reports.length], s⟩
  else do
    let e ← execute s.interpreter analysis.program s.heap s.readings
    let lines := printedLines e.machine.output
    let error := e.error.map Failure.error
    let evaluation : Evaluation :=
      match error with
      | none => ⟨lines, reports, true⟩
      | some err => ⟨lines, reports ++ [.ofDiagnostic err.diagnostic], false⟩
    let code := error.map fun err => err.fault.code
    return ⟨evaluation, analysis.events ++ e.event.toList ++ [.interpreted lines.length code],
      { s with heap := e.machine.heap, readings := e.machine.readings }⟩

def eval? (s : Session) (clock : Nat → Float) (source : Bytes) : Option Reply :=
  s.eval (fun i => i.execute? clock) source

def globals (s : Session) : List (Bytes × Value) := s.heap.listing s.interpreter.globals

end Session

def run? (limits : Limits) (patience : Nat) (clock : Nat → Float) (source : Bytes) :
    Option Session.Reply :=
  (Session.new limits patience).eval? clock source

end TinyScript
