import TinyScript.Yaml.Source
import TinyScript.Yaml.Token

namespace TinyScript.Yaml

structure PossibleKey where
  number : Nat
  mark : Mark
  required : Bool
  deriving DecidableEq, Repr

structure ReaderState where
  rest : List Char
  ends : Nat
  later : List (List Char)
  broken : Bool
  markInFront : Bool
  mark : Mark
  atLineStart : Bool
  -- of each flow collection around the place, the innermost first, then of the block around them all
  keys : List (Option PossibleKey)
  keyAllowed : Bool
  -- outside of all blocks it is -1
  indent : Int
  indents : List Int
  waiting : List Token
  taken : Nat
  -- no loop over the characters of the text takes longer
  bound : Nat

namespace ReaderState

def new (source : Source) : ReaderState where
  rest := []
  ends := 0
  later := source.portions
  broken := source.broken
  markInFront := false
  mark := ⟨0, 0, 0⟩
  atLineStart := false
  keys := [none]
  keyAllowed := true
  indent := -1
  indents := []
  waiting := [⟨.streamStart, ⟨0, 0, 0⟩, 0⟩]
  taken := 0
  bound := source.portions.foldl (fun n portion => n + portion.length) 8

def flowLevel (s : ReaderState) : Nat := s.keys.length - 1

def inFlow (s : ReaderState) : Bool :=
  match s.keys with
  | _ :: _ :: _ => true
  | _ => false

end ReaderState

abbrev Reader := StateT ReaderState Option

def malformed : Reader α := fun _ => none

def doubleQuote : Char := Char.ofNat 0x22

def singleQuote : Char := Char.ofNat 0x27

def escapeMark : Char := Char.ofNat 0x5C

def openBrace : Char := Char.ofNat 0x7B

def closeBrace : Char := Char.ofNat 0x7D

def backquote : Char := Char.ofNat 0x60

def orderMark : Char := Char.ofNat 0xFEFF

def isBlank (c : Char) : Bool := c == ' ' || c == '\t'

def isBreak (c : Char) : Bool :=
  c == '\n' || c == '\r' || c.toNat == 0x85 || c.toNat == 0x2028 || c.toNat == 0x2029

def isWord (c : Char) : Bool := c.isAlphanum || c == '_' || c == '-'

def blankAt : Option Char → Bool
  | none => false
  | some c => isBlank c

def breakAt : Option Char → Bool
  | none => false
  | some c => isBreak c

def lineEndsAt : Option Char → Bool
  | none => true
  | some c => isBreak c

def wordEndsAt : Option Char → Bool
  | none => true
  | some c => isBlank c || isBreak c

namespace Reader

def widen (count : Nat) : (later : List (List Char)) → ReaderState → Option ReaderState
  | [], s => if s.broken then none else some { s with later := [], ends := s.ends + 1 }
  | portion :: later, s =>
    let rest := s.rest ++ portion
    if rest.length < count then widen count later { s with rest := rest }
    else some { s with rest := rest, later := later }

def need (count : Nat) : Reader Unit := do
  let s ← get
  if (s.rest.drop (count - 1)).isEmpty && s.rest.length + s.ends < count then
    match widen count s.later s with
    | none => malformed
    | some s => set { s with markInFront := s.rest.head? == some orderMark }

def peek (distance : Nat) : Reader (Option Char) := return (← get).rest[distance]?

def here : Reader (Option Char) := peek 0

def sees (c : Char) : Reader Bool := return (← here) == some c

def skip : Reader Unit := modify fun s =>
  match s.rest with
  | [] => s
  | c :: rest =>
    { s with
      rest := rest
      mark := { s.mark with index := s.mark.index + 1, column := s.mark.column + 1 }
      atLineStart := s.atLineStart && isBlank c }

def skipBy : Nat → Reader Unit
  | 0 => pure ()
  | count + 1 => do
    skip
    skipBy count

def readBreak : Reader String := do
  let s ← get
  let (rest, count, shown) :=
    match s.rest with
    | [] => ([], 0, "")
    | '\r' :: '\n' :: rest => (rest, 2, "\n")
    | c :: rest =>
      if c.toNat == 0x2028 || c.toNat == 0x2029 then (rest, 1, String.singleton c)
      else if isBreak c then (rest, 1, "\n")
      else (c :: rest, 0, "")
  if count = 0 then return ""
  set { s with
    rest := rest
    mark := ⟨s.mark.index + count, s.mark.line + 1, 0⟩
    atLineStart := true }
  return shown

def skipBreak : Reader Unit := do
  let _ ← readBreak

def readRun (p : Char → Bool) : (bound : Nat) → String → Reader String
  | 0, _ => malformed
  | bound + 1, run => do
    need 1
    match ← here with
    | none => return run
    | some c =>
      if p c then
        skip
        readRun p bound (run.push c)
      else return run

def takeWhile (p : Char → Bool) : Reader String := do readRun p (← get).bound ""

def skipWhile (p : Char → Bool) : Reader Unit := do
  let _ ← takeWhile p

def atMark (c : Char) : Reader Bool := do
  let s ← get
  return s.mark.column == 0 && [c, c, c].isPrefixOf s.rest && wordEndsAt s.rest[3]?

def atDivision : Reader Bool := return (← atMark '-') || (← atMark '.')

def push (kind : TokenKind) (mark : Mark) : Reader Unit := modify fun s =>
  { s with waiting := s.waiting ++ [⟨kind, mark, s.mark.line⟩] }

def insert (number : Nat) (kind : TokenKind) (mark : Mark) : Reader Unit := modify fun s =>
  { s with
    waiting := s.waiting.take (number - s.taken) ++ ⟨kind, mark, mark.line⟩
      :: s.waiting.drop (number - s.taken) }

def commentSight : Nat := 512

def lineComment? : (bound distance : Nat) → Reader (Option Nat)
  | 0, _ => return none
  | bound + 1, distance => do
    need (distance + 1)
    match ← peek distance with
    | none => return none
    | some c =>
      if isBlank c then lineComment? bound (distance + 1)
      else return if c == '#' then some distance else none

-- A line end other than the usual ones hides what follows.
def furtherComment? : (bound distance : Nat) → Reader (Option Nat)
  | 0, _ => return none
  | bound + 1, distance => do
    need (distance + 1)
    match ← peek distance with
    | none => return none
    | some c =>
      if isBlank c || c == '\n' || c == '\r' then furtherComment? bound (distance + 1)
      else if c == '#' then return some distance
      else
        if isBreak c && 0 < bound then need (distance + 2)
        return none

def skipComment : Reader Unit := skipWhile fun c => !isBreak c

def skipTo (index : Nat) : (bound : Nat) → Reader Unit
  | 0 => pure ()
  | bound + 1 => do
    need 1
    if (← get).mark.index < index then
      if breakAt (← here) then
        need 2
        skipBreak
      else skip
      skipTo index bound

def skipLineComment : Reader Unit := do
  unless (← get).atLineStart do
    match ← lineComment? commentSight 0 with
    | none => return ()
    | some distance =>
      skipBy distance
      skipComment

def skipComments : (bound : Nat) → Reader Unit
  | 0 => malformed
  | bound + 1 => do
    skipComment
    match ← here with
    | none => need 2
    | some c =>
      if c == '\n' || c == '\r' then
        match ← furtherComment? (commentSight - 1) 1 with
        | none => return ()
        | some distance =>
          skipTo ((← get).mark.index + distance) (distance + 1)
          skipComments bound
      else need 2

end Reader

end TinyScript.Yaml
