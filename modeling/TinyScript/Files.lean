import TinyScript.Path

namespace TinyScript

inductive FileError where
  | notFound
  | notDirectory
  | isDirectory
  | invalidName
  | nameTooLong
  | other (reason : Bytes)
  deriving DecidableEq, Repr

def FileError.reason : FileError → Bytes
  | .notFound => text "no such file or directory"
  | .notDirectory => text "not a directory"
  | .isDirectory => text "is a directory"
  | .invalidName => text "invalid argument"
  | .nameTooLong => text "file name too long"
  | .other reason => reason

inductive FileAction where
  | examine | opening | reading
  deriving DecidableEq, Repr

def FileAction.name : FileAction → String
  | .examine => "stat"
  | .opening => "open"
  | .reading => "read"

structure FileFailure where
  action : FileAction
  path : Bytes
  error : FileError
  deriving DecidableEq, Repr

def FileFailure.message (f : FileFailure) : Bytes :=
  text f.action.name ++ text " " ++ f.path ++ text ": " ++ f.error.reason

structure Disk (m : Type → Type) where
  home : Option Bytes
  examine : Bytes → m (Except FileFailure Unit)
  read : Bytes → m (Except FileFailure Bytes)

inductive FileNode where
  | file (content : Bytes)
  | directory
  deriving DecidableEq, Repr

-- Every directory on the way to an entry exists too.
structure FileTree where
  files : List (List Bytes × Bytes)
  directories : List (List Bytes)

inductive Above where
  | nothing
  | unknown
  deriving DecidableEq, Repr

namespace FileTree

def ofPaths (files : List (Bytes × Bytes)) (directories : List Bytes) : FileTree :=
  ⟨files.map fun (p, content) => (Path.parts p, content), directories.map Path.parts⟩

def node? (t : FileTree) (place : List Bytes) : Option FileNode :=
  match t.files.find? fun entry => entry.1 == place with
  | some (_, content) => some (.file content)
  | none =>
    if place.isEmpty || t.directories.any (place.isPrefixOf ·)
        || t.files.any (place.isPrefixOf ·.1) then some .directory
    else none

def nameLimit : Nat := 255

def pathLimit : Nat := 4095

-- No parts are known for a place above the tree.
def follow (t : FileTree) (above : Above) (place : Option (List Bytes)) :
    List Bytes → Except FileError FileNode
  | [] =>
    match place with
    | none => .ok .directory
    | some place => (t.node? place).elim (.error .notFound) .ok
  | part :: rest =>
    match place with
    | none =>
      if part = Path.up ∨ part = Path.here ∨ part = [] then t.follow above none rest
      else .error (if nameLimit < part.length then .nameTooLong else .notFound)
    | some place =>
      match t.node? place with
      | none => .error .notFound
      | some (.file _) => .error .notDirectory
      | some .directory =>
        if part = [] ∨ part = Path.here then t.follow above (some place) rest
        else if part = Path.up then
          t.follow above
            (if place.isEmpty && above == .unknown then none else some place.dropLast) rest
        else if nameLimit < part.length then .error .nameTooLong
        else t.follow above (some (place ++ [part])) rest

def system : FileTree :=
  ofPaths [(text "dev/null", [])]
    (["bin", "dev", "etc", "home", "lib", "mnt", "opt", "proc", "root", "run", "sbin", "srv",
      "sys", "tmp", "usr/bin", "usr/lib", "usr/local", "var/tmp"].map text)

def find (t : FileTree) (path : Bytes) : Except FileError FileNode :=
  if path.isEmpty then .error .notFound
  else if path.contains 0 then .error .invalidName
  else if pathLimit < path.length then .error .nameTooLong
  else
    let parts := Bytes.split Path.slash path
    if Path.isAbsolute path then system.follow .nothing (some []) parts
    else t.follow .unknown (some []) parts

def disk (t : FileTree) (home : Option Bytes) : Disk Id where
  home := home
  examine path := match t.find path with
    | .ok _ => .ok ()
    | .error e => .error ⟨.examine, path, e⟩
  read path := match t.find path with
    | .ok (.file content) => .ok content
    | .ok .directory => .error ⟨.reading, path, .isDirectory⟩
    | .error e => .error ⟨.opening, path, e⟩

end FileTree

end TinyScript
