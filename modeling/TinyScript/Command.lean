import TinyScript.Command.Json
import TinyScript.Tree.Render
import TinyScript.Settings
import TinyScript.Repl

namespace TinyScript

inductive Exit where
  | success
  -- the command could not do its work at all
  | usage
  | badSource
  | failedRun
  deriving DecidableEq, Repr

def Exit.status : Exit → Nat
  | .success => 0
  | .usage => 1
  | .badSource => 65
  | .failedRun => 70

structure Completion where
  exit : Exit
  stdout : Bytes
  stderr : Bytes
  deriving DecidableEq, Repr

namespace Completion

def failure (message : Bytes) : Completion :=
  ⟨.usage, [], text "error: " ++ message ++ Bytes.newline⟩

def after (earlier : Bytes) (c : Completion) : Completion := { c with stderr := earlier ++ c.stderr }

end Completion

inductive Command where
  | tokens | parse | ast | run
  deriving DecidableEq, Repr

namespace Command

def ofWord? (word : Bytes) : Option Command :=
  if word = text "tokens" then some .tokens
  else if word = text "parse" then some .parse
  else if word = text "ast" then some .ast
  else if word = text "run" then some .run
  else none

def asLines (lines : List Bytes) : Bytes := lines.flatMap fun line => line ++ Bytes.newline

def usage : Bytes :=
  asLines (["Usage:",
    "  cbl [-config file] [-v] tokens <file> [--json]   Tokenize and print tokens",
    "  cbl [-config file] [-v] parse  <file>            Parse and print AST (JSON)",
    "  cbl [-config file] [-v] ast    <file>            Parse and print AST (prefix form)",
    "  cbl [-config file] [-v] run    <file>            Run a source file",
    "  cbl [-config file] [-v] repl                     Start interactive REPL"].map text)

def padded (width : Nat) (s : Bytes) : Bytes :=
  s ++ List.replicate (width - glyphCount s) (byte ' ')

def tokenLine (t : Token) : Bytes :=
  padded 12 t.kind.label ++ text " " ++ padded 20 t.lexeme ++ text " " ++ t.span.start.render

def sourceExit (diagnostics : List Diagnostic) : Exit :=
  if Diagnostic.anyError diagnostics then .badSource else .success

def printJson (document : Json) (exit : Exit) : Completion :=
  match document.write with
  | .ok written => ⟨exit, written, []⟩
  | .error e => .failure (text "JSON encoding failed: " ++ e.message)

def listTokens (json : Bool) (source : Bytes) : Completion :=
  let tokens := scan source
  let diagnostics := scanDiagnostics tokens
  let exit := sourceExit diagnostics
  if json then printJson (tokensToJson tokens diagnostics) exit
  else ⟨exit, asLines (tokens.map tokenLine), asLines (diagnostics.map Diagnostic.render)⟩

def treeDocument (a : Analysis) : Completion := printJson (analysisToJson a) (sourceExit a.diagnostics)

def treeText (a : Analysis) : Completion :=
  let stdout := if a.program.isEmpty then [] else renderProgram a.program ++ Bytes.newline
  ⟨sourceExit a.diagnostics, stdout, asLines (a.diagnostics.map Diagnostic.render)⟩

-- Faults of the source come before failures of the run.
def evaluationExit (e : Evaluation) : Exit :=
  if e.ok then .success
  else if e.reports.any fun r => r.stage == Stage.scanning || r.stage == Stage.parsing then
    .badSource
  else .failedRun

def showEvaluation (json : Bool) (e : Evaluation) : Completion :=
  if json then printJson e.toJson (evaluationExit e)
  else ⟨evaluationExit e, asLines e.output, asLines (e.reports.map Report.render)⟩

def perform {W : Type → Type} [Monad W] (execute : Executor W) (patience : Nat) (limits : Limits) (json : Bool)
    (command : Command) (source : Bytes) : W (List Event × Completion) :=
  match command with
  | .tokens => return ([], listTokens json source)
  | .parse =>
    let a := analyse source
    return (a.events, treeDocument a)
  | .ast =>
    let a := analyse source
    return (a.events, treeText a)
  | .run => do
    let reply ← (Session.new limits patience).eval execute source
    return (reply.events, showEvaluation json reply.evaluation)

structure Engine where
  patience : Nat
  clock : Nat → Float

-- None if a loop outlasts the engine's patience.
def perform? (engine : Engine) (limits : Limits) (json : Bool) (command : Command)
    (source : Bytes) : Option (List Event × Completion) :=
  perform (fun i => i.execute? engine.clock) engine.patience limits json command source

end Command

structure Options where
  config : Bytes
  verbose : Bool
  json : Bool
  words : List Bytes
  deriving DecidableEq, Repr

namespace Options

def none : Options := ⟨[], false, false, []⟩

-- Options may stand anywhere.
def read? (o : Options) : List Bytes → Option Options
  | [] => some o
  | arg :: rest =>
    if arg = text "-config" ∨ arg = text "--config" then
      match rest with
      | [] => Option.none
      | path :: rest => read? { o with config := path } rest
    else if arg = text "-v" ∨ arg = text "--verbose" then read? { o with verbose := true } rest
    else if arg = text "--json" then read? { o with json := true } rest
    else read? { o with words := o.words ++ [arg] } rest

def traced (o : Options) (messages : List Bytes) : Bytes :=
  if o.verbose then Command.asLines (messages.map (text "DEBUG " ++ ·)) else []

end Options

inductive Invocation where
  | finished (c : Completion)
  | interactive (settings : Settings) (stderr : Bytes)
  | unfinished

def Settings.limits (s : Settings) : Limits := .ofSettings s.maxSteps s.maxDepth

def Settings.style (s : Settings) : Repl.Style := ⟨s.prompt, s.colorEnabled⟩

namespace Invocation

variable {W : Type → Type} [Monad W] (disk : Disk W) (execute : Executor (OptionT W)) (patience : Nat)

def onFile (o : Options) (settings : Settings) (command : Command) (path : Bytes) : W Invocation := do
  match ← disk.read path with
  | .error failure =>
    return .finished (.failure (text "cannot read file " ++ path ++ text ": " ++ failure.message))
  | .ok source =>
    match ← (command.perform execute patience settings.limits o.json source).run with
    | none => return .unfinished
    | some (events, c) => return .finished (c.after (o.traced (events.map Event.render)))

def after (earlier : Bytes) : Invocation → Invocation
  | .finished c => .finished (c.after earlier)
  | .interactive settings stderr => .interactive settings (earlier ++ stderr)
  | .unfinished => .unfinished

def onWords (o : Options) (settings : Settings) (word : Bytes) (more : List Bytes) : W Invocation :=
  if word = text "repl" then return .interactive settings []
  else match Command.ofWord? word, more with
    | none, _ =>
      let c := Completion.failure (text "unknown command '" ++ word ++ text "'")
      return .finished { c with stderr := c.stderr ++ Command.usage }
    | some _, [] => return .finished (.failure (text "missing file argument"))
    | some command, path :: _ => onFile disk execute patience o settings command path

def run (args : List Bytes) : W Invocation := do
  match Options.none.read? args with
  | none => return .finished (.failure (text "-config needs a file argument"))
  | some o =>
    match o.words with
    | [] => return .finished ⟨.usage, [], Command.usage⟩
    | word :: more =>
      match ← Settings.load disk o.config with
      | .error e => return .finished (.failure e.message)
      | .ok settings =>
        let found := if settings.path.isEmpty then [] else [text "loaded config " ++ settings.path]
        return (← onWords disk execute patience o settings word more).after (o.traced found)

end Invocation

end TinyScript
