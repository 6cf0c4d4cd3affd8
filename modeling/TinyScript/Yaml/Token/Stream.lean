import TinyScript.Yaml.Token.Scalar

namespace TinyScript.Yaml

namespace PossibleKey

def reach : Nat := 1024

def isStale (k : PossibleKey) (place : Mark) : Bool :=
  k.mark.line < place.line || k.mark.index + reach < place.index

end PossibleKey

namespace Reader

def setKey (k : Option PossibleKey) : Reader Unit := modify fun s =>
  { s with keys := k :: s.keys.drop 1 }

def currentKey : Reader (Option PossibleKey) := return (← get).keys.head?.join

def dropKey : Reader Unit := do
  match ← currentKey with
  | none => return ()
  | some k => if k.required then malformed else setKey none

def noteKey : Reader Unit := do
  let s ← get
  if s.keyAllowed then
    dropKey
    setKey (some ⟨s.taken + s.waiting.length, s.mark,
      !s.inFlow && s.indent == (s.mark.column : Int)⟩)

def freshKey? : Reader (Option PossibleKey) := do
  match ← currentKey with
  | none => return none
  | some k =>
    if k.isStale (← get).mark then
      if k.required then malformed
      setKey none
      return none
    else return some k

def allowKey (allowed : Bool) : Reader Unit := modify fun s => { s with keyAllowed := allowed }

def deepest : Nat := 10000

def openBlock (column : Nat) (number : Option Nat) (kind : TokenKind) (mark : Mark) :
    Reader Unit := do
  let s ← get
  if !s.inFlow && s.indent < (column : Int) then
    set { s with indent := column, indents := s.indent :: s.indents }
    if deepest < s.indents.length + 1 then malformed
    match number with
    | some n => insert n kind mark
    | none => push kind mark

def closeBlocks (column : Int) (mark : Mark) : (indents : List Int) → Reader Unit
  | [] => pure ()
  | outer :: more => do
    let s ← get
    if !s.inFlow && column < s.indent then
      set { s with indent := outer, indents := more }
      push .blockEnd mark
      closeBlocks column mark more

def closeTo (column : Int) : Reader Unit := do
  let s ← get
  closeBlocks column s.mark s.indents

-- A tab is no blank where a key may stand in a block. As long as the view is one that began with a byte order mark,
-- the first character of a line is passed over.
def skipGap : (bound : Nat) → Reader Unit
  | 0 => malformed
  | bound + 1 => do
    need 1
    if (← get).mark.column == 0 && (← get).markInFront then skip
    let s ← get
    skipWhile fun c => c == ' ' || (c == '\t' && (s.inFlow || !s.keyAllowed))
    if ← sees '#' then skipComments s.bound
    if breakAt (← here) then
      need 2
      skipBreak
      unless s.inFlow do allowKey true
      skipGap bound

def readName : Reader String := do
  skip
  let name ← takeWhile isWord
  let endsHere := match ← here with
    | none => true
    | some c => isBlank c || isBreak c
      || ['?', ':', ',', ']', closeBrace, '%', '@', backquote].contains c
  if name.isEmpty || !endsHere then malformed
  return name

def readHandle (inDirective : Bool) : Reader String := do
  need 1
  if !(← sees '!') then malformed
  skip
  let word ← takeWhile isWord
  if ← sees '!' then
    skip
    return "!" ++ word ++ "!"
  else if inDirective && !word.isEmpty then malformed
  else return "!" ++ word

def isTagChar (c : Char) : Bool :=
  isWord c || c == singleQuote || ";/?:@&=+$,.!~*()[]".toList.contains c

def readOctets : (bound : Nat) → (left : Option Nat) → Reader Bytes
  | 0, _ => malformed
  | bound + 1, left => do
    if left == some 0 then return []
    need 3
    match (← get).rest with
    | '%' :: a :: b :: _ =>
      match hexValue? a, hexValue? b with
      | some high, some low =>
        let octet := (16 * high + low).toUInt8
        let left ← match left with
          | none => match Source.announced? octet with
            | none => malformed
            | some width => pure (width - 1)
          | some n => if Utf8.isTail octet then pure (n - 1) else malformed
        skipBy 3
        return octet :: (← readOctets bound (some left))
      | _, _ => malformed
    | _ => malformed

def readTagText : (bound : Nat) → Reader Bytes
  | 0 => malformed
  | bound + 1 => do
    need 1
    match ← here with
    | none => return []
    | some c =>
      if c == '%' then
        let octets ← readOctets 5 none
        return octets ++ (← readTagText bound)
      else if isTagChar c then
        skip
        return text (String.singleton c) ++ (← readTagText bound)
      else return []

def readTag : Reader TokenKind := do
  need 2
  let size := (← get).bound
  let found ←
    if (← peek 1) == some '<' then do
      skipBy 2
      let name ← readTagText size
      if name.isEmpty || !(← sees '>') then malformed
      skip
      pure (TokenKind.tag "" name)
    else do
      let handle ← readHandle false
      let suffix ← readTagText size
      if 1 < handle.length && handle.endsWith "!" then
        if suffix.isEmpty then malformed
        pure (TokenKind.tag handle suffix)
      else
        let whole := text (handle.toList.drop 1 |> String.ofList) ++ suffix
        pure (if whole.isEmpty then .tag "" (text "!") else .tag "!" whole)
  need 1
  if !wordEndsAt (← here) then malformed
  return found

def readVersionNumber : Reader Nat := do
  let digits ← takeWhile Char.isDigit
  if digits.isEmpty || 2 < digits.length then malformed
  return readNumeral (text digits)

def readVersion : Reader TokenKind := do
  skipWhile isBlank
  let major ← readVersionNumber
  if !(← sees '.') then malformed
  skip
  return .version major (← readVersionNumber)

def readTagDirective : Reader TokenKind := do
  skipWhile isBlank
  let handle ← readHandle true
  need 1
  if !blankAt (← here) then malformed
  skipWhile isBlank
  let expansion ← readTagText (← get).bound
  if expansion.isEmpty || !wordEndsAt (← here) then malformed
  return .tagDirective handle expansion

def readDirective : Reader TokenKind := do
  skip
  let name ← takeWhile isWord
  if name.isEmpty || !wordEndsAt (← here) then malformed
  let found ←
    if name == "YAML" then readVersion
    else if name == "TAG" then readTagDirective
    else malformed
  skipLineEnd (pure ())
  return found

def leaveBlocks : Reader Unit := do
  closeTo (-1)
  dropKey
  allowKey false

def fetchEnd : Reader Unit := do
  modify fun s =>
    if s.mark.column == 0 then s
    else { s with mark := { s.mark with line := s.mark.line + 1, column := 0 } }
  leaveBlocks
  push .streamEnd (← get).mark

def fetchDirective : Reader Unit := do
  leaveBlocks
  let mark := (← get).mark
  push (← readDirective) mark

def fetchDivision (kind : TokenKind) : Reader Unit := do
  leaveBlocks
  let mark := (← get).mark
  skipBy 3
  push kind mark

def fetchMark (kind : TokenKind) : Reader Unit := do
  let mark := (← get).mark
  skip
  push kind mark

def fetchFlowStart (kind : TokenKind) : Reader Unit := do
  noteKey
  modify fun s => { s with keys := none :: s.keys }
  if deepest < (← get).flowLevel then malformed
  allowKey true
  fetchMark kind

def fetchFlowEnd (kind : TokenKind) : Reader Unit := do
  dropKey
  modify fun s => if s.inFlow then { s with keys := s.keys.drop 1 } else s
  allowKey false
  fetchMark kind

def fetchFlowEntry : Reader Unit := do
  dropKey
  allowKey true
  fetchMark .flowEntry

def fetchBlockEntry : Reader Unit := do
  let s ← get
  unless s.inFlow do
    if !s.keyAllowed then malformed
    openBlock s.mark.column none .blockSequenceStart s.mark
  dropKey
  allowKey true
  fetchMark .blockEntry

def fetchKey : Reader Unit := do
  let s ← get
  unless s.inFlow do
    if !s.keyAllowed then malformed
    openBlock s.mark.column none .blockMappingStart s.mark
  dropKey
  allowKey (!s.inFlow)
  fetchMark .key

def fetchValue : Reader Unit := do
  match ← freshKey? with
  | some k =>
    insert k.number .key k.mark
    openBlock k.mark.column (some k.number) .blockMappingStart k.mark
    setKey none
    allowKey false
  | none =>
    let s ← get
    unless s.inFlow do
      if !s.keyAllowed then malformed
      openBlock s.mark.column none .blockMappingStart s.mark
    allowKey (!s.inFlow)
  fetchMark .value

def fetchContent (read : Reader TokenKind) : Reader Unit := do
  noteKey
  allowKey false
  let mark := (← get).mark
  push (← read) mark

def fetchQuoted (quote : Char) (style : ScalarStyle) : Reader Unit :=
  fetchContent do
    skip
    return .scalar style (← readQuoted quote (← get).bound "")

def fetchPlain : Reader Unit :=
  fetchContent do
    let s ← get
    let (content, lineEnded) ← readPlain (s.indent + 1) s.bound "" .empty
    if lineEnded then allowKey true
    return .scalar .plain content

def fetchBlock (folding : Bool) : Reader Unit := do
  dropKey
  allowKey true
  let mark := (← get).mark
  skip
  push (.scalar (if folding then .folded else .literal) (← readBlock folding)) mark

def isIndicator (c : Char) : Bool :=
  "-?:,[]#&*!|>%@".toList.contains c || c == openBrace || c == closeBrace || c == singleQuote
    || c == doubleQuote || c == backquote

def beginsPlain (inFlow : Bool) (c : Char) (next : Option Char) : Bool :=
  !(isBlank c || isBreak c || isIndicator c) || (c == '-' && !blankAt next)
    || (!inFlow && (c == '?' || c == ':') && !wordEndsAt next)

def fetchAt (c : Char) : Reader Unit := do
  let inFlow := (← get).inFlow
  let next ← peek 1
  if c == '[' then fetchFlowStart .flowSequenceStart
  else if c == openBrace then fetchFlowStart .flowMappingStart
  else if c == ']' then fetchFlowEnd .flowSequenceEnd
  else if c == closeBrace then fetchFlowEnd .flowMappingEnd
  else if c == ',' then fetchFlowEntry
  else if c == '-' && wordEndsAt next then fetchBlockEntry
  else if c == '?' && (inFlow || wordEndsAt next) then fetchKey
  else if c == ':' && (inFlow || wordEndsAt next) then fetchValue
  else if c == '*' then fetchContent (TokenKind.alias <$> readName)
  else if c == '&' then fetchContent (TokenKind.anchor <$> readName)
  else if c == '!' then fetchContent readTag
  else if c == '|' && !inFlow then fetchBlock false
  else if c == '>' && !inFlow then fetchBlock true
  else if c == singleQuote then fetchQuoted singleQuote .singleQuoted
  else if c == doubleQuote then fetchQuoted doubleQuote .doubleQuoted
  else if beginsPlain inFlow c next then fetchPlain
  else malformed
  if !(c == '-' && wordEndsAt next) then skipLineComment

def fetch : Reader Unit := do
  need 1
  skipGap (← get).bound
  closeTo (← get).mark.column
  need 4
  match ← here with
  | none => fetchEnd
  | some c =>
    if (← get).mark.column == 0 && c == '%' then fetchDirective
    else if ← atMark '-' then fetchDivision .documentStart
    else if ← atMark '.' then fetchDivision .documentEnd
    else fetchAt c

-- The numbers of the keys fall from the innermost one outwards.
def keyNumbered? (number : Nat) : List (Option PossibleKey) → Option PossibleKey
  | [] => none
  | none :: outer => keyNumbered? number outer
  | some k :: outer =>
    if number < k.number then keyNumbered? number outer
    else if k.number = number then some k
    else none

-- A required key that has become stale is noticed here.
def headIsOpen : Reader Bool := do
  let s ← get
  match keyNumbered? s.taken s.keys with
  | none => return false
  | some k =>
    if k.isStale s.mark then if k.required then malformed else return false
    else return true

def settle : (bound : Nat) → Reader Unit
  | 0 => malformed
  | bound + 1 => do
    if 2 < (← get).waiting.length then
      if !(← headIsOpen) then return ()
    fetch
    settle bound

def next : Reader Token := do
  settle (← get).bound
  match (← get).waiting with
  | [] => malformed
  | token :: _ => return token

def take : Reader Unit := modify fun s =>
  { s with waiting := s.waiting.drop 1, taken := s.taken + 1 }

end Reader

end TinyScript.Yaml
