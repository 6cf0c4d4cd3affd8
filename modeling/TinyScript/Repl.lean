import TinyScript.Session
import TinyScript.Text.Blank

namespace TinyScript.Repl

structure Style where
  prompt : Bytes
  color : Bool

namespace Style

def paint (style : Style) (color s : Bytes) : Bytes :=
  if style.color then color ++ s ++ text "\x1b[0m" else s

def red : Bytes := text "\x1b[31m"

def green : Bytes := text "\x1b[32m"

def gray : Bytes := text "\x1b[90m"

def boldCyan : Bytes := text "\x1b[1m\x1b[36m"

def banner (style : Style) : Bytes :=
  style.paint boldCyan (text "cbl REPL") ++ text " "
    ++ style.paint gray (text "(type 'exit' or Ctrl+D to quit, ':env' to list globals)")
    ++ Bytes.newline ++ Bytes.newline

end Style

inductive Input where
  | line (s : Bytes)
  | interrupt
  | eof
  -- the reader failed
  | broken
  deriving DecidableEq, Repr

structure State where
  session : Session
  -- the lines of a chunk that is not complete yet
  pending : Bytes

def State.prompt (style : Style) (s : State) : Bytes :=
  if s.pending.isEmpty then style.paint Style.green style.prompt
  else style.paint Style.gray (text "... ")

structure Shown where
  stdout : Bytes
  stderr : Bytes

def Shown.nothing : Shown := ⟨[], []⟩

def listing (s : Session) : Bytes :=
  s.globals.flatMap fun (x, v) =>
    match v with
    | .builtin _ _ => []
    | _ => x ++ text " = " ++ v.render ++ Bytes.newline

def reportLines (style : Style) (rs : List Report) : Bytes :=
  rs.flatMap fun r => style.paint Style.red r.render ++ Bytes.newline

structure Reaction where
  shown : Shown
  next : Option State
  session : Session

def stay (s : State) (shown : Shown) : Reaction := ⟨shown, some s, s.session⟩

def leave (s : State) (shown : Shown) : Reaction := ⟨shown, none, s.session⟩

section

variable {W : Type → Type} [Monad W] (execute : Executor W)

def evaluate (style : Style) (s : State) (line : Bytes) : W Reaction := do
  let chunk := s.pending ++ line ++ Bytes.newline
  let reply ← s.session.eval execute chunk
  let result := reply.evaluation
  if !result.ok && result.output.isEmpty && Report.incomplete result.reports then
    return stay ⟨reply.session, chunk⟩ .nothing
  else
    return stay ⟨reply.session, []⟩
      ⟨result.output.flatMap fun line => line ++ Bytes.newline, reportLines style result.reports⟩

def react (style : Style) (s : State) : Input → W Reaction
  | .interrupt =>
    if s.pending.isEmpty then
      let hint := style.paint Style.gray (text "(use 'exit' or Ctrl+D to quit)")
      return stay s ⟨hint ++ Bytes.newline, []⟩
    else return stay { s with pending := [] } .nothing
  | .eof => return leave s ⟨Bytes.newline, []⟩
  | .broken => return leave s .nothing
  | .line line =>
    if s.pending.isEmpty then
      let word := trimmed line
      if word.isEmpty then return stay s .nothing
      else if word = text "exit" ∨ word = text ":quit" then return leave s .nothing
      else if word = text ":env" then return stay s ⟨listing s.session, []⟩
      else evaluate execute style s line
    else evaluate execute style s line

end

-- None if an evaluation does not end.

def evaluate? (style : Style) (clock : Nat → Float) (s : State) (line : Bytes) : Option Reaction :=
  evaluate (fun i => i.execute? clock) style s line

def react? (style : Style) (clock : Nat → Float) (s : State) (input : Input) : Option Reaction :=
  react (fun i => i.execute? clock) style s input

structure Reading where
  prompt : Bytes
  before : Shown

structure Transcript where
  readings : List Reading
  last : Shown
  unread : Nat
  session : Session

def converse? (style : Style) (clock : Nat → Float) (s : State) (before : Shown) :
    List Input → Option Transcript
  | [] => do
    let r ← react? style clock s .eof
    return ⟨[⟨s.prompt style, before⟩], r.shown, 0, r.session⟩
  | input :: rest => do
    let r ← react? style clock s input
    let reading : Reading := ⟨s.prompt style, before⟩
    match r.next with
    | none => return ⟨[reading], r.shown, rest.length, r.session⟩
    | some next =>
      let t ← converse? style clock next r.shown rest
      return { t with readings := reading :: t.readings }

end TinyScript.Repl
