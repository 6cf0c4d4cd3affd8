import TinyScript.Token
import TinyScript.Diagnostic

namespace TinyScript

namespace Scan

def isBlank (b : UInt8) : Bool :=
  b == byte ' ' || b == byte '\t' || b == byte '\r' || b == byte '\n'

def isWordByte (b : UInt8) : Bool := Bytes.isLetter b || Bytes.isDigit b

-- The flag says whether a comment is open.
def layout : (inComment : Bool) → Bytes → Nat
  | _, [] => 0
  | true, b :: rest => layout (b != byte '\n') rest + 1
  | false, b :: rest =>
    if isBlank b then layout false rest + 1
    else if b == byte '/' && rest.head? == some (byte '/') then layout true rest + 1
    else 0

-- A point counts only if a digit follows it.
def numberLength (s : Bytes) : Nat :=
  let whole := (s.takeWhile Bytes.isDigit).length
  match s.drop whole with
  | point :: digit :: rest =>
    if point == byte '.' && Bytes.isDigit digit then
      whole + 1 + ((digit :: rest).takeWhile Bytes.isDigit).length
    else whole
  | _ => whole

def mark? (b : UInt8) : Option Kind :=
  if b = byte '(' then some .leftParen
  else if b = byte ')' then some .rightParen
  else if b = 0x7B then some .leftBrace
  else if b = 0x7D then some .rightBrace
  else if b = byte ',' then some .comma
  else if b = byte '.' then some .dot
  else if b = byte '-' then some .minus
  else if b = byte '+' then some .plus
  else if b = byte ';' then some .semicolon
  else if b = byte '*' then some .star
  else if b = byte '/' then some .slash
  else none

def comparison? (b : UInt8) : Option (Kind × Kind) :=
  if b = byte '!' then some (.bang, .bangEqual)
  else if b = byte '=' then some (.equal, .equalEqual)
  else if b = byte '<' then some (.less, .lessEqual)
  else if b = byte '>' then some (.greater, .greaterEqual)
  else none

def munch (b : UInt8) (rest : Bytes) : Kind × Nat :=
  if b = quoteMark then
    let inside := (rest.takeWhile (· != quoteMark)).length
    if inside < rest.length then (.string, inside + 2) else (.illegal, inside + 1)
  else if Bytes.isDigit b then (.number, numberLength (b :: rest))
  else if Bytes.isLetter b then
    let word := (b :: rest).takeWhile isWordByte
    (.ofWord word, word.length)
  else match mark? b, comparison? b with
    | some kind, _ => (kind, 1)
    | none, some (short, long) =>
      if rest.head? == some (byte '=') then (long, 2) else (short, 1)
    | none, none => (.illegal, Utf8.width (b :: rest))

def literal (kind : Kind) (lexeme : Bytes) : Literal :=
  match kind with
  | .string => .string (lexeme.drop 1).dropLast
  | .number =>
    let whole := lexeme.takeWhile Bytes.isDigit
    .number (Double.read whole (lexeme.drop (whole.length + 1)))
  | _ => .nil

theorem numberLength_pos (b : UInt8) (rest : Bytes) (digit : Bytes.isDigit b = true) :
    0 < numberLength (b :: rest) := by
  have whole : 0 < ((b :: rest).takeWhile Bytes.isDigit).length := by
    simp [digit]
  simp only [numberLength]
  split
  · split <;> omega
  · exact whole

theorem munch_pos (b : UInt8) (rest : Bytes) : 0 < (munch b rest).2 := by
  unfold munch
  split
  · dsimp only; split <;> simp
  · split
    · rename_i digit
      exact numberLength_pos b rest digit
    · split
      · rename_i letter
        simp [isWordByte, letter]
      · split
        · simp
        · split <;> simp
        · exact Utf8.width_pos (b :: rest)

def tokensFrom (place : Position) (s : Bytes) : List Token :=
  let skipped := layout false s
  let start := place.after (s.take skipped)
  match _rest : s.drop skipped with
  | [] => [.ending start]
  | b :: more =>
    let found := munch b more
    let lexeme := (b :: more).take found.2
    let stop := start.after lexeme
    ⟨found.1, lexeme, literal found.1 lexeme, ⟨start, stop⟩⟩
      :: tokensFrom stop ((b :: more).drop found.2)
termination_by s.length
decreasing_by
  have positive := munch_pos b more
  have length : (s.drop skipped).length = (b :: more).length := by rw [_rest]
  simp only [List.length_drop, List.length_cons] at length ⊢
  omega

end Scan

def scan (source : Bytes) : List Token := Scan.tokensFrom .start source

namespace Token

def fault (lexeme : Bytes) : Code × Bytes × Bytes :=
  match lexeme with
  | b :: _ =>
    if b = quoteMark then (Code.unterminatedString, text "unterminated string", [])
    else
      let hint :=
        if b = byte '&' then text "did you mean 'and'?"
        else if b = byte '|' then text "did you mean 'or'?"
        else []
      (Code.unexpectedCharacter, text "unexpected character: " ++ quotedFront lexeme, hint)
  | [] => (Code.unexpectedCharacter, text "unexpected character: " ++ quotedFront lexeme, [])

def diagnostic? (t : Token) : Option Diagnostic :=
  if t.kind = .illegal then
    let (code, message, hint) := fault t.lexeme
    some ⟨code, .error, Stage.scanning, message, t.span, hint⟩
  else none

end Token

def scanDiagnostics (tokens : List Token) : List Diagnostic := tokens.filterMap Token.diagnostic?

end TinyScript
