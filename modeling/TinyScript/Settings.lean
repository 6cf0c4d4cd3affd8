import TinyScript.Yaml.Document
import TinyScript.Text.Quoted
import TinyScript.Files

namespace TinyScript

structure Settings where
  maxSteps : Int
  maxDepth : Int
  prompt : Bytes
  historyFile : Bytes
  color : Option Bool
  path : Bytes
  deriving DecidableEq, Repr

namespace Settings

def standard : Settings := ⟨0, 1024, text "cbl> ", text "~/.cbl_history", none, []⟩

def colorEnabled (s : Settings) : Bool := s.color.getD true

inductive Target where
  | whole | repl | int | string | bool | optionalBool
  deriving DecidableEq, Repr

def Target.name : Target → String
  | .whole => "config.Config"
  | .repl => "config.REPL"
  | .int => "int"
  | .string => "string"
  | .bool => "bool"
  | .optionalBool => "*bool"

inductive Mismatch where
  | twice (line : Nat) (key : Bytes) (first : Nat)
  | again (line : Nat) (key : Bytes) (target : Target)
  | unknown (line : Nat) (key : Bytes) (target : Target)
  | wrongType (line : Nat) (tag : Yaml.Tag) (value : Bytes) (target : Target)
  deriving DecidableEq, Repr

def excerpt (value : Bytes) : Bytes :=
  let shown := if 10 < value.length then value.take 7 ++ text "..." else value
  [byte ' ', 0x60] ++ shown ++ [0x60]

def Mismatch.message : Mismatch → Bytes
  | .twice line key first =>
    text "line " ++ numeral line ++ text ": mapping key " ++ quoted key
      ++ text " already defined at line " ++ numeral first
  | .unknown line key target =>
    text "line " ++ numeral line ++ text ": field " ++ key ++ text " not found in type "
      ++ text target.name
  | .again line key target =>
    text "line " ++ numeral line ++ text ": field " ++ key ++ text " already set in type "
      ++ text target.name
  | .wrongType line tag value target =>
    text "line " ++ numeral line ++ text ": cannot unmarshal " ++ tag.name
      ++ (if tag = .seq ∨ tag = .map then value else excerpt value)
      ++ text " into " ++ text target.name

-- A double above the largest number is refused, one below the smallest becomes the smallest.
def truncated? (bits : UInt64) : Option Int :=
  let r := Double.rank bits
  let smallest : Int := -(Nat.pow 2 63 : Nat)
  if Double.infinite < r then none
  else if r = Double.infinite then if Double.isNegative bits then some smallest else none
  else
    let units : Nat := Double.significand r * Nat.pow 2 (Double.scale r)
    let whole : Nat := units / Nat.pow 2 1074
    if Double.isNegative bits then some (max smallest (-(whole : Int)))
    else if Nat.pow 2 63 * Nat.pow 2 1074 < units then none
    else if whole = Nat.pow 2 63 then some smallest
    else some whole

structure Decoding where
  settings : Settings
  mismatches : List Mismatch
  visited : Nat
  repeated : Nat

abbrev Decode := StateT Decoding Option

namespace Decode

def fail : Decode α := fun _ => none

def report (mismatches : List Mismatch) : Decode Unit := modify fun d =>
  { d with mismatches := d.mismatches ++ mismatches }

-- More than 99 percent of repetitions, and in a large document down to ten percent.
def isExcessive (visited repeated : Nat) : Bool :=
  let share :=
    if visited ≤ 400000 then 99 * 3600000
    else if 4000000 ≤ visited then 10 * 3600000
    else 99 * 3600000 - 89 * (visited - 400000)
  100 < repeated && 1000 < visited && share * visited < 100 * 3600000 * repeated

def visit (inside : Bool) : Decode Unit := do
  let d ← get
  let visited := d.visited + 1
  let repeated := if inside then d.repeated + 1 else d.repeated
  if isExcessive visited repeated then fail
  set { d with visited := visited, repeated := repeated }

end Decode

structure Place where
  document : Yaml.Document
  inside : Bool

def enter (place : Place) (n : Yaml.Node) : Decode (Place × Yaml.Node) := do
  Decode.visit place.inside
  match n with
  | .alias _ _ target =>
    match place.document.named.find? (·.1 == target) with
    | none => Decode.fail
    | some (_, n) =>
      Decode.visit true
      return ({ place with inside := true }, n)
  | _ => return (place, n)

def repeatedKeys : List Yaml.Node → List Mismatch
  | [] => []
  | key :: keys =>
    (keys.filter fun k => k.sameShape key && k.value == key.value).map
        (fun k => .twice k.line k.value key.line)
      ++ repeatedKeys keys

def meaning (tag : Yaml.Tag) (value : Bytes) : Decode Yaml.Meaning :=
  match Yaml.Scalar.under? tag value with
  | none => Decode.fail
  | some m => pure m

inductive Outcome (α : Type) where
  | value (a : α)
  | null
  | refused

def decodeScalar (target : Yaml.Tag → Target) (accept : Yaml.Meaning → Bytes → Option α)
    (place : Place) (n : Yaml.Node) : Decode (Outcome α) := do
  let (_, n) ← enter place n
  match n with
  | .scalar line tag value =>
    match ← meaning tag value with
    | .null => return .null
    | m =>
      match accept m value with
      | some a => return .value a
      | none =>
        Decode.report [.wrongType line tag value (target tag)]
        return .refused
  | .sequence line tag _ =>
    Decode.report [.wrongType line tag [] (target tag)]
    return .refused
  | .mapping line tag entries =>
    Decode.report (match repeatedKeys (entries.map (·.1)) with
      | [] => [.wrongType line tag [] (target tag)]
      | mismatches => mismatches)
    return .refused
  | .alias _ _ _ => Decode.fail

def decodeInt : Place → Yaml.Node → Decode (Outcome Int) :=
  decodeScalar (fun _ => .int) fun m _ =>
    match m with
    | .int n => if n < Nat.pow 2 63 then some n else none
    | .float bits => truncated? bits
    | _ => none

def decodeString : Place → Yaml.Node → Decode (Outcome Bytes) :=
  decodeScalar (fun _ => .string) fun m value =>
    match m with
    | .string content => some content
    | _ => some value

-- What is tagged as null and is not null was not expected to be a truth value at all.
def decodeBool : Place → Yaml.Node → Decode (Outcome Bool) :=
  decodeScalar (fun tag => if tag = .null then .optionalBool else .bool) fun m _ =>
    match m with
    | .bool b => some b
    | .string content =>
      let isOne (words : List String) := words.any fun w => text w == content
      if isOne ["y", "Y", "yes", "Yes", "YES", "on", "On", "ON"] then some true
      else if isOne ["n", "N", "no", "No", "NO", "off", "Off", "OFF"] then some false
      else none
    | _ => none

abbrev Decoder := Place → Yaml.Node → Decode Unit

def setting (decode : Place → Yaml.Node → Decode (Outcome α))
    (put : Settings → Option α → Settings) : Decoder := fun place n => do
  match ← decode place n with
  | .value a => modify fun d => { d with settings := put d.settings (some a) }
  | .null => modify fun d => { d with settings := put d.settings none }
  | .refused => return ()

structure Group where
  target : Target
  member? : Bytes → Option Decoder

namespace Group

-- If the entries are to be taken over by another mapping, `taken` are the names that it has already.
def entries (g : Group) (place : Place) : List (Yaml.Node × Yaml.Node) → (done : List Bytes) →
    (taken : Option (List Bytes)) → Decode (Option (List Bytes))
  | [], _, taken => return taken
  | (key, value) :: rest, done, taken => do
    if key.isMergeKey then g.entries place rest done taken
    else match ← decodeString place key with
      | .null | .refused => g.entries place rest done taken
      | .value name =>
        if taken.any (·.contains name) then g.entries place rest done taken
        else
          let taken := taken.map (name :: ·)
          match g.member? name with
          | none =>
            Decode.report [.unknown key.line name g.target]
            g.entries place rest done taken
          | some decoder =>
            if done.contains name then
              Decode.report [.again key.line name g.target]
              g.entries place rest done taken
            else
              decoder place value
              g.entries place rest (name :: done) taken

def names (place : Place) : List (Yaml.Node × Yaml.Node) → Decode (List Bytes)
  | [] => return []
  | (key, _) :: rest => do
    let (_, key) ← enter place key
    let more ← names place rest
    match key with
    | .scalar _ tag value =>
      match ← meaning tag value with
      | .string content => return content :: more
      | _ => return more
    | _ => return more

def sources? : Yaml.Node → Option (List Yaml.Node)
  | .mapping line tag entries => some [.mapping line tag entries]
  | .alias line name target => some [.alias line name target]
  | .sequence _ _ items => some items
  | .scalar _ _ _ => none

mutual

def mapping (g : Group) : (fuel : Nat) → Place → List (Yaml.Node × Yaml.Node) →
    (taken : Option (List Bytes)) → Decode (Option (List Bytes))
  | 0, _, _, _ => Decode.fail
  | fuel + 1, place, own, taken => do
    match repeatedKeys (own.map (·.1)) with
    | [] =>
      let taken ← g.entries place own [] taken
      match own.find? (·.1.isMergeKey) with
      | none => return taken
      | some (_, source) =>
        match sources? source with
        | none => Decode.fail
        | some sources =>
          let known ← match taken with
            | some names => pure names
            | none => names place own
          let known ← g.merge fuel place sources known
          return taken.map fun _ => known
    | mismatches =>
      Decode.report mismatches
      return taken

def merge (g : Group) : (fuel : Nat) → Place → List Yaml.Node → (taken : List Bytes) →
    Decode (List Bytes)
  | 0, _, _, _ => Decode.fail
  | _ + 1, _, [], taken => return taken
  | fuel + 1, place, source :: sources, taken => do
    match ← enter place source with
    | (inner, .mapping _ _ own) =>
      let taken := (← g.mapping fuel inner own (some taken)).getD taken
      g.merge fuel place sources taken
    | _ => Decode.fail

end

-- A chain of mappings that take over each other and is longer than `fuel` goes in a circle.
def decode (g : Group) (fuel : Nat) : Decoder := fun place n => do
  let (place, n) ← enter place n
  match n with
  | .scalar line tag value =>
    match ← meaning tag value with
    | .null => return ()
    | _ => Decode.report [.wrongType line tag value g.target]
  | .sequence line tag _ => Decode.report [.wrongType line tag [] g.target]
  | .mapping _ _ own =>
    let _ ← g.mapping fuel place own none
  | .alias _ _ _ => Decode.fail

end Group

def repl : Group where
  target := .repl
  member? name :=
    if name = text "prompt" then
      some (setting decodeString fun s v => { s with prompt := v.getD s.prompt })
    else if name = text "history_file" then
      some (setting decodeString fun s v => { s with historyFile := v.getD s.historyFile })
    else if name = text "color" then some (setting decodeBool fun s v => { s with color := v })
    else none

def whole (fuel : Nat) : Group where
  target := .whole
  member? name :=
    if name = text "max_steps" then
      some (setting decodeInt fun s v => { s with maxSteps := v.getD s.maxSteps })
    else if name = text "max_depth" then
      some (setting decodeInt fun s v => { s with maxDepth := v.getD s.maxDepth })
    else if name = text "repl" then some (repl.decode fuel)
    else none

def ofDocument? (fuel : Nat) (document : Yaml.Document) : Option (Settings × List Mismatch) := do
  match document.root with
  | none => return (standard, [])
  | some root =>
    let start : Decoding := ⟨standard, [], 1, 0⟩
    let (_, d) ← ((whole fuel).decode fuel ⟨document, false⟩ root).run start
    return (d.settings, d.mismatches)

inductive Issue where
  | negativeSteps | noDepth
  deriving DecidableEq, Repr

def Issue.message : Issue → String
  | .negativeSteps => "max_steps must be >= 0"
  | .noDepth => "max_depth must be >= 1"

def issues (s : Settings) : List Issue :=
  (if s.maxSteps < 0 then [.negativeSteps] else []) ++ (if s.maxDepth < 1 then [.noDepth] else [])

inductive Refusal where
  | malformed
  | unreadable (failure : FileFailure)
  | mismatched (errors : List Mismatch)
  | invalid (issues : List Issue)
  deriving DecidableEq, Repr

def Refusal.message : Refusal → Bytes
  | .malformed => text "parse: yaml: malformed document"
  | .unreadable failure => text "parse: yaml: input error: " ++ failure.message
  | .mismatched errors =>
    text "parse: yaml: unmarshal errors:"
      ++ errors.flatMap fun e => text "\n  " ++ e.message
  | .invalid issues =>
    text "invalid config: " ++ Bytes.join (text "; ") (issues.map fun i => text i.message)

def expandHome (home : Option Bytes) (path : Bytes) : Bytes :=
  if path = text "~" ∨ (text "~/").isPrefixOf path then
    home.elim [] fun h => Path.join h (path.drop 1)
  else path

def withHome (home : Option Bytes) (s : Settings) : Settings :=
  { s with historyFile := expandHome home s.historyFile }

def parse (home : Option Bytes) (source : Bytes) : Except Refusal Settings :=
  match (Yaml.Document.read? source).bind (ofDocument? (2 * source.length + 2)) with
  | none => .error .malformed
  | some (s, []) =>
    match s.issues with
    | [] => .ok (s.withHome home)
    | issues => .error (.invalid issues)
  | some (_, mismatches) => .error (.mismatched mismatches)

inductive LoadError where
  | inaccessible (failure : FileFailure)
  | refused (path : Bytes) (refusal : Refusal)
  deriving DecidableEq, Repr

def LoadError.message : LoadError → Bytes
  | .inaccessible failure =>
    text "config: " ++ text failure.action.name ++ text " " ++ failure.path ++ text ": "
      ++ failure.message
  | .refused path refusal => text "config: " ++ path ++ text ": " ++ refusal.message

variable {m : Type → Type} [Monad m]

def loadFile (disk : Disk m) (path : Bytes) : m (Except LoadError Settings) := do
  match ← disk.read path with
  | .error failure =>
    if failure.action = .reading then return .error (.refused path (.unreadable failure))
    else return .error (.inaccessible failure)
  | .ok source =>
    match parse disk.home source with
    | .ok s => return .ok { s with path := path }
    | .error refusal => return .error (.refused path refusal)

def fileName : Bytes := text "cbl.yaml"

def loadFirst (disk : Disk m) : List Bytes → m (Except LoadError Settings)
  | [] => return .ok (standard.withHome disk.home)
  | path :: paths => do
    match ← disk.examine path with
    | .ok () => loadFile disk path
    | .error failure =>
      if failure.error = .notFound then loadFirst disk paths
      else return .error (.inaccessible failure)

def load (disk : Disk m) (path : Bytes) : m (Except LoadError Settings) :=
  if path.isEmpty then
    loadFirst disk (fileName :: (disk.home.map fun h => Path.join h (byte '.' :: fileName)).toList)
  else loadFile disk path

end Settings

end TinyScript
