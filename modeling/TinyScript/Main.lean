import TinyScript.Command
import Std.Time.DateTime.Timestamp

namespace TinyScript.Main

def toString? (s : Bytes) : Option String := String.fromUTF8? ⟨s.toArray⟩

def reason : IO.Error → FileError
  | .noFileOrDirectory _ _ _ => .notFound
  | .inappropriateType _ 20 _ => .notDirectory
  | .inappropriateType _ 21 _ => .isDirectory
  | .invalidArgument _ 36 _ => .nameTooLong
  | .permissionDenied _ _ details => .other (text details)
  | e => .other (text (toString e))

def attempt (action : FileAction) (path : Bytes) (work : String → IO α) :
    IO (Except FileFailure α) := do
  match toString? path with
  | none => return .error ⟨action, path, .invalidName⟩
  | some name =>
    try
      return .ok (← work name)
    catch e =>
      return .error ⟨action, path, reason e⟩

def read (path : Bytes) : IO (Except FileFailure Bytes) := do
  match ← attempt .opening path fun name => IO.FS.Handle.mk name .read with
  | .error failure => return .error failure
  | .ok handle => attempt .reading path fun _ => return (← handle.readBinToEnd).toList

def disk : IO (Disk IO) := do
  let home := (← IO.getEnv "HOME").filter fun h => !h.isEmpty
  return {
    home := home.map text
    examine := fun path => attempt .examine path fun name => do
      let _ ← IO.FS.realPath name
    read := read }

-- More than anyone waits for.
def patience : Nat := Nat.pow 10 18

-- In seconds.
def now : IO Float := do
  let ns := (← Std.Time.Timestamp.now).toNanosecondsSinceUnixEpoch.val
  return Float.ofInt ns / 1e9

def write (stream : IO.FS.Stream) (s : Bytes) : IO Unit := do
  stream.write ⟨s.toArray⟩
  stream.flush

def present (shown : Repl.Shown) : IO Unit := do
  write (← IO.getStdout) shown.stdout
  write (← IO.getStderr) shown.stderr

def asInput (line : String) : Repl.Input :=
  if line.isEmpty then .eof
  else
    let s := text line
    .line (if Bytes.newline.isSuffixOf s then s.dropLast else s)

partial def converse (style : Repl.Style) (s : Repl.State) : IO Unit := do
  write (← IO.getStdout) (s.prompt style)
  let input ← try asInput <$> (← IO.getStdin).getLine catch _ => pure .broken
  match ← (Repl.react (Live.execute now) style s input).run with
  | none => return ()
  | some r =>
    present r.shown
    match r.next with
    | none => return ()
    | some next => converse style next

def start (args : List String) : IO UInt32 := do
  match ← Invocation.run (← disk) (Live.execute now) patience (args.map text) with
  | .finished c =>
    present ⟨c.stdout, c.stderr⟩
    return c.exit.status.toUInt32
  | .interactive settings stderr =>
    present ⟨settings.style.banner, stderr⟩
    converse settings.style ⟨Session.new settings.limits patience, []⟩
    return Exit.success.status.toUInt32
  | .unfinished => return Exit.failedRun.status.toUInt32

end TinyScript.Main

def main (args : List String) : IO UInt32 := TinyScript.Main.start args
