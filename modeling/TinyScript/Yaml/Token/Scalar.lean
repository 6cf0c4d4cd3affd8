import TinyScript.Yaml.Token.Reader

namespace TinyScript.Yaml

structure Gap where
  blanks : String
  first : Option String
  further : String

namespace Gap

def empty : Gap := ⟨"", none, ""⟩

def joined : Gap := ⟨"", some "", ""⟩

def hasBreak (g : Gap) : Bool := g.first.isSome

def fold (g : Gap) : String :=
  match g.first with
  | none => g.blanks
  | some first =>
    if first.startsWith "\n" then if g.further.isEmpty then " " else g.further
    else first ++ g.further

end Gap

namespace Reader

-- `indent` is the column that tabs must not stand in front of.
def readGap (indent : Option Int) : (bound : Nat) → Gap → Reader Gap
  | 0, _ => malformed
  | bound + 1, gap => do
    need 1
    match ← here with
    | none => return gap
    | some c =>
      if isBlank c then
        let column := (← get).mark.column
        if gap.hasBreak && c == '\t' && indent.any (fun i => (column : Int) < i) then malformed
        skip
        readGap indent bound
          (if gap.hasBreak then gap else { gap with blanks := gap.blanks.push c })
      else if isBreak c then
        need 2
        let shown ← readBreak
        readGap indent bound
          (if gap.hasBreak then { gap with further := gap.further ++ shown }
            else ⟨"", some shown, ""⟩)
      else
        return gap

def endsPlainInFlow (c : Char) : Bool :=
  c == ',' || c == '?' || c == '[' || c == ']' || c == openBrace || c == closeBrace

def readPlainWord : (bound : Nat) → String → Reader String
  | 0, _ => malformed
  | bound + 1, word => do
    match ← here with
    | none => return word
    | some c =>
      if isBlank c || isBreak c then return word
      else if c == ':' && wordEndsAt (← peek 1) then return word
      else if (← get).inFlow && endsPlainInFlow c then return word
      else
        skip
        need 2
        readPlainWord bound (word.push c)

def readPlain (indent : Int) : (bound : Nat) → (content : String) → Gap → Reader (String × Bool)
  | 0, _, _ => malformed
  | bound + 1, content, gap => do
    need 4
    if ← atDivision then return (content, gap.hasBreak)
    if ← sees '#' then return (content, gap.hasBreak)
    let size := (← get).bound
    let word ← readPlainWord size ""
    let (content, gap) := if word.isEmpty then (content, gap) else (content ++ gap.fold ++ word, .empty)
    let next ← here
    if !(blankAt next || breakAt next) then return (content, gap.hasBreak)
    let gap ← readGap (some indent) size gap
    let s ← get
    if !s.inFlow && (s.mark.column : Int) < indent then return (content, gap.hasBreak)
    readPlain indent bound content gap

def hexValue? (c : Char) : Option Nat :=
  if c.isDigit then some (c.toNat - '0'.toNat)
  else if 'a' ≤ c && c ≤ 'f' then some (c.toNat - 'a'.toNat + 10)
  else if 'A' ≤ c && c ≤ 'F' then some (c.toNat - 'A'.toNat + 10)
  else none

def escaped? (c : Char) : Option Char :=
  match c with
  | '0' => some (Char.ofNat 0x00)
  | 'a' => some (Char.ofNat 0x07)
  | 'b' => some (Char.ofNat 0x08)
  | 't' | '\t' => some (Char.ofNat 0x09)
  | 'n' => some (Char.ofNat 0x0A)
  | 'v' => some (Char.ofNat 0x0B)
  | 'f' => some (Char.ofNat 0x0C)
  | 'r' => some (Char.ofNat 0x0D)
  | 'e' => some (Char.ofNat 0x1B)
  | 'N' => some (Char.ofNat 0x85)
  | '_' => some (Char.ofNat 0xA0)
  | 'L' => some (Char.ofNat 0x2028)
  | 'P' => some (Char.ofNat 0x2029)
  | ' ' => some c
  | _ => if c == doubleQuote || c == singleQuote || c == escapeMark then some c else none

def digitsBehind? : Char → Option Nat
  | 'x' => some 2
  | 'u' => some 4
  | 'U' => some 8
  | _ => none

def readNumbered (count : Nat) : Reader Char := do
  need count
  let digits := (← get).rest.take count
  match digits.mapM hexValue? with
  | none => malformed
  | some values =>
    let code := values.foldl (fun n d => 16 * n + d) 0
    if values.length < count || (0xD800 ≤ code && code ≤ 0xDFFF) || 0x10FFFF < code then malformed
    else
      skipBy count
      return Char.ofNat code

def readEscape : Reader Char := do
  match ← peek 1 with
  | none => malformed
  | some c =>
    match escaped? c, digitsBehind? c with
    | some shown, _ =>
      skipBy 2
      return shown
    | none, some count =>
      skipBy 2
      readNumbered count
    | none, none => malformed

def readQuotedWord (quote : Char) : (bound : Nat) → String → Reader (String × Bool)
  | 0, _ => malformed
  | bound + 1, word => do
    match ← here with
    | none => return (word, false)
    | some c =>
      if isBlank c || isBreak c then return (word, false)
      else if c == quote then
        if quote == singleQuote && (← peek 1) == some quote then
          skipBy 2
          need 2
          readQuotedWord quote bound (word.push quote)
        else return (word, false)
      else if quote == doubleQuote && c == escapeMark then
        if breakAt (← peek 1) then
          need 3
          skip
          skipBreak
          return (word, true)
        else
          let shown ← readEscape
          need 2
          readQuotedWord quote bound (word.push shown)
      else
        skip
        need 2
        readQuotedWord quote bound (word.push c)

def readQuoted (quote : Char) : (bound : Nat) → String → Reader String
  | 0, _ => malformed
  | bound + 1, content => do
    need 4
    if ← atDivision then malformed
    if (← here).isNone then malformed
    let size := (← get).bound
    let (word, joined) ← readQuotedWord quote size ""
    need 1
    if ← sees quote then
      skip
      return content ++ word
    else
      let gap ← readGap none size (if joined then .joined else .empty)
      readQuoted quote bound (content ++ word ++ gap.fold)

inductive Chomping where
  | strip | clip | keep
  deriving DecidableEq, Repr

def chomping? : Option Char → Option Chomping
  | some '+' => some .keep
  | some '-' => some .strip
  | _ => none

def readIncrement : Reader (Option Nat) := do
  match ← here with
  | none => return none
  | some c =>
    if !c.isDigit then return none
    else if c == '0' then malformed
    else
      skip
      return some (c.toNat - '0'.toNat)

def readChomping : Reader (Option Chomping) := do
  match chomping? (← here) with
  | none => return none
  | some found =>
    skip
    return some found

def readBlockMarks : Reader (Chomping × Option Nat) := do
  need 1
  match ← readChomping with
  | some found =>
    need 1
    return (found, ← readIncrement)
  | none =>
    match ← readIncrement with
    | none => return (.clip, none)
    | some increment =>
      need 1
      return ((← readChomping).getD .clip, some increment)

def skipLineEnd (comment : Reader Unit) : Reader Unit := do
  need 1
  skipWhile isBlank
  if ← sees '#' then
    comment
    skipComment
  let next ← here
  if !lineEndsAt next then malformed
  if breakAt next then
    need 2
    skipBreak

def skipIndent (column : Option Nat) : (bound : Nat) → Reader Unit
  | 0 => malformed
  | bound + 1 => do
    need 1
    if column.all ((← get).mark.column < ·) && (← sees ' ') then
      skip
      skipIndent column bound

def readEmptyLines (column : Option Nat) : (bound : Nat) → (deepest : Nat) → String →
    Reader (Nat × String)
  | 0, _, _ => malformed
  | bound + 1, deepest, ends => do
    skipIndent column bound
    let place := (← get).mark.column
    let deepest := max deepest place
    if column.all (place < ·) && (← sees '\t') then malformed
    if !breakAt (← here) then return (deepest, ends)
    need 2
    readEmptyLines column bound deepest (ends ++ (← readBreak))

-- `ended` is the end of the line before, `between` are the empty lines since, `wasBlank` says whether that line
-- began with a blank.
def readBlockLines (folding : Bool) (column : Nat) : (bound : Nat) →
    (content ended between : String) → (wasBlank : Bool) → Reader (String × String × String)
  | 0, _, _, _, _ => malformed
  | bound + 1, content, ended, between, wasBlank => do
    let s ← get
    if s.mark.column ≠ column || s.rest.isEmpty then return (content, ended, between)
    let isBlank := blankAt s.rest.head?
    let joint :=
      if folding && !wasBlank && !isBlank && ended.startsWith "\n" then
        if between.isEmpty then " " else ""
      else ended
    let line ← takeWhile fun c => !isBreak c
    need 2
    let next ← readBreak
    let (_, empty) ← readEmptyLines (some column) (bound + 1) 0 ""
    readBlockLines folding column bound (content ++ joint ++ between ++ line) next empty isBlank

def readBlock (folding : Bool) : Reader String := do
  let size := (← get).bound
  let (chomping, increment) ← readBlockMarks
  skipLineEnd skipLineComment
  let outer := (← get).indent
  let given := increment.map fun n => if 0 ≤ outer then outer.toNat + n else n
  let (deepest, empty) ← readEmptyLines given size 0 ""
  let column := given.getD (max (max deepest (outer + 1).toNat) 1)
  need 1
  let (content, ended, between) ← readBlockLines folding column size "" "" empty false
  return match chomping with
    | .strip => content
    | .clip => content ++ ended
    | .keep => content ++ ended ++ between

end Reader

end TinyScript.Yaml
