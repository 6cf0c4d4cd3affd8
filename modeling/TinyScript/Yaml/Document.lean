import TinyScript.Yaml.Node
import TinyScript.Yaml.Scalar
import TinyScript.Yaml.Token.Stream

namespace TinyScript.Yaml

structure Document where
  root : Option Node
  named : List (Nat × Node)

structure Composition where
  handles : List (String × Bytes)
  names : List (String × Nat)
  count : Nat
  named : List (Nat × Node)

abbrev Composer := StateT Composition Reader

namespace Composer

def refuse : Composer α := fun _ => malformed

def next : Composer Token := Reader.next

def take : Composer Unit := Reader.take

def expand (handle : String) (suffix : Bytes) : Composer Bytes := do
  if handle.isEmpty then return suffix
  match (← get).handles.find? (·.1 == handle) with
  | none => refuse
  | some (_, expansion) => return expansion ++ suffix

structure Properties where
  name : Option String
  tag : Option Bytes

def properties : Composer Properties := do
  match (← next).kind with
  | .anchor name =>
    take
    match (← next).kind with
    | .tag handle suffix =>
      take
      return ⟨some name, some (← expand handle suffix)⟩
    | _ => return ⟨some name, none⟩
  | .tag handle suffix =>
    take
    match (← next).kind with
    | .anchor name =>
      take
      return ⟨some name, some (← expand handle suffix)⟩
    | _ => return ⟨none, some (← expand handle suffix)⟩
  | _ => return ⟨none, none⟩

def Properties.tag? (p : Properties) : Option Tag :=
  match p.tag with
  | none => none
  | some written => if written.isEmpty || written == text "!" then none else some (.ofName written)

def scalarTag (style : ScalarStyle) (value : Bytes) : Tag :=
  if style ≠ .plain then .str
  else if value = text "<<" then .merge
  else (Scalar.meaning value).tag

def naming (name : Option String) (compose : Composer Node) : Composer Node := do
  match name with
  | none => compose
  | some name =>
    let number := (← get).count
    modify fun c => { c with count := number + 1, names := (name, number) :: c.names }
    let node ← compose
    modify fun c => { c with named := (number, node) :: c.named }
    return node

def aliasOf (line : Nat) (name : String) : Composer Node := do
  match (← get).names.find? (·.1 == name) with
  | none => refuse
  | some (_, number) => return .alias line (text name) number

def lineOf (token : Token) : Nat := token.mark.line + 1

mutual

-- A sequence without indentation stands only in a mapping.
def node (block unindented : Bool) : (fuel : Nat) → Composer Node
  | 0 => refuse
  | fuel + 1 => do
    let first ← next
    let line := lineOf first
    match first.kind with
    | .alias name =>
      take
      aliasOf line name
    | _ =>
      let p ← properties
      let sequence (items : Composer (List Node)) : Composer Node :=
        naming p.name do return .sequence line (p.tag?.getD .seq) (← items)
      let mapping (entries : Composer (List (Node × Node))) : Composer Node :=
        naming p.name do return .mapping line (p.tag?.getD .map) (← entries)
      match (← next).kind with
      | .scalar style content =>
        take
        naming p.name (pure (.scalar line (p.tag?.getD (scalarTag style (text content)))
          (text content)))
      | .flowSequenceStart =>
        take
        sequence (flowItems true fuel)
      | .flowMappingStart =>
        take
        mapping (flowEntries true fuel)
      | .blockSequenceStart =>
        if !block then refuse
        take
        sequence (blockItems fuel)
      | .blockMappingStart =>
        if !block then refuse
        take
        mapping (blockEntries fuel)
      | kind =>
        if unindented && kind == .blockEntry then sequence (unindentedItems fuel)
        else if p.name.isSome || p.tag.isSome then
          naming p.name (pure (.scalar line (p.tag?.getD .null) []))
        else refuse

def blockNode (line : Nat) (unindented : Bool) (without : List TokenKind) :
    (fuel : Nat) → Composer Node
  | 0 => refuse
  | fuel + 1 => do
    if without.contains (← next).kind then return .missing line
    else node true unindented fuel

def flowNode (without : List TokenKind) : (fuel : Nat) → Composer Node
  | 0 => refuse
  | fuel + 1 => do
    let token ← next
    if without.contains token.kind then return .missing (lineOf token)
    else node false false fuel

def blockItems : (fuel : Nat) → Composer (List Node)
  | 0 => refuse
  | fuel + 1 => do
    let token ← next
    take
    match token.kind with
    | .blockEntry =>
      let item ← blockNode (token.endLine + 1) false [.blockEntry, .blockEnd] fuel
      return item :: (← blockItems fuel)
    | .blockEnd => return []
    | _ => refuse

def unindentedItems : (fuel : Nat) → Composer (List Node)
  | 0 => refuse
  | fuel + 1 => do
    let token ← next
    match token.kind with
    | .blockEntry =>
      take
      let item ← blockNode (token.endLine + 1) false [.blockEntry, .key, .value, .blockEnd] fuel
      return item :: (← unindentedItems fuel)
    | _ => return []

def blockEntries : (fuel : Nat) → Composer (List (Node × Node))
  | 0 => refuse
  | fuel + 1 => do
    let token ← next
    take
    match token.kind with
    | .key =>
      let key ← blockNode (token.endLine + 1) true [.key, .value, .blockEnd] fuel
      let divider ← next
      let value ←
        if divider.kind == .value then do
          take
          blockNode (divider.endLine + 1) true [.key, .value, .blockEnd] fuel
        else pure (.missing (lineOf divider))
      return (key, value) :: (← blockEntries fuel)
    | .blockEnd => return []
    | _ => refuse

def flowItems (first : Bool) : (fuel : Nat) → Composer (List Node)
  | 0 => refuse
  | fuel + 1 => do
    if !first && (← next).kind != .flowSequenceEnd then
      if (← next).kind != .flowEntry then refuse
      take
    let token ← next
    match token.kind with
    | .flowSequenceEnd =>
      take
      return []
    | .key =>
      take
      let entry ← flowPair fuel
      return .mapping (lineOf token) .map [entry] :: (← flowItems false fuel)
    | _ =>
      let item ← node false false fuel
      return item :: (← flowItems false fuel)

-- The token behind a key that was left out goes with it, whatever it is.
def flowPair : (fuel : Nat) → Composer (Node × Node)
  | 0 => refuse
  | fuel + 1 => do
    let token ← next
    let key ←
      if [.value, .flowEntry, .flowSequenceEnd].contains token.kind then do
        take
        pure (.missing (token.endLine + 1))
      else node false false fuel
    let divider ← next
    if divider.kind == .value then
      take
      return (key, ← flowNode [.flowEntry, .flowSequenceEnd] fuel)
    else return (key, .missing (lineOf divider))

def flowEntries (first : Bool) : (fuel : Nat) → Composer (List (Node × Node))
  | 0 => refuse
  | fuel + 1 => do
    if !first && (← next).kind != .flowMappingEnd then
      if (← next).kind != .flowEntry then refuse
      take
    match (← next).kind with
    | .flowMappingEnd =>
      take
      return []
    | .key =>
      take
      let key ← flowNode [.value, .flowEntry, .flowMappingEnd] fuel
      let divider ← next
      let value ←
        if divider.kind == .value then do
          take
          flowNode [.flowEntry, .flowMappingEnd] fuel
        else pure (.missing (lineOf divider))
      return (key, value) :: (← flowEntries false fuel)
    | _ =>
      let key ← node false false fuel
      let value := .missing (lineOf (← next))
      return (key, value) :: (← flowEntries false fuel)

end

def usualHandles : List (String × Bytes) := [("!", text "!"), ("!!", Tag.languagePart)]

def directives : (fuel : Nat) → (versioned : Bool) → List (String × Bytes) →
    Composer (List (String × Bytes))
  | 0, _, _ => refuse
  | fuel + 1, versioned, handles => do
    match (← next).kind with
    | .version major minor =>
      if versioned || major ≠ 1 || minor ≠ 1 then refuse
      take
      directives fuel true handles
    | .tagDirective handle expansion =>
      if handles.any (·.1 == handle) then refuse
      take
      directives fuel versioned ((handle, expansion) :: handles)
    | _ => return handles

def marked (fuel : Nat) : Composer Node := do
  let handles ← directives fuel false []
  if (← next).kind != .documentStart then refuse
  take
  modify fun c => { c with handles := handles ++ usualHandles }
  let token ← next
  match token.kind with
  | .version _ _ | .tagDirective _ _ | .documentStart | .documentEnd | .streamEnd =>
    return .missing (lineOf token)
  | _ => node true false fuel

-- The token behind the first document has to be readable too.
def root (fuel : Nat) : Composer (Option Node) := do
  let _ ← next
  take
  match (← next).kind with
  | .streamEnd => return none
  | .version _ _ | .tagDirective _ _ | .documentStart =>
    let found ← marked fuel
    let _ ← next
    return some found
  | _ =>
    let found ← node true false fuel
    let _ ← next
    return some found

end Composer

def Document.read? (source : Bytes) : Option Document := do
  let start := ReaderState.new (Source.read source)
  let fuel := 12 * source.length + 32
  let ((root, c), _) ← Composer.root fuel |>.run ⟨Composer.usualHandles, [], 0, []⟩ |>.run start
  return ⟨root, c.named⟩

end TinyScript.Yaml
