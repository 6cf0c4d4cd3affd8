import TinyScript.Text

namespace TinyScript.Path

def slash : UInt8 := byte '/'

def isAbsolute (p : Bytes) : Bool := p.head? == some slash

def here : Bytes := text "."

def up : Bytes := text ".."

def parts (p : Bytes) : List Bytes :=
  (Bytes.split slash p).filter fun part => !part.isEmpty && part != here

-- A step up cancels the part before it; at the root it goes nowhere.
def walk (absolute : Bool) (walked : List Bytes) (part : Bytes) : List Bytes :=
  if part = up then
    match walked with
    | [] => if absolute then [] else [up]
    | last :: before => if last = up then up :: walked else before
  else part :: walked

def clean (p : Bytes) : Bytes :=
  let absolute := isAbsolute p
  let body := Bytes.join [slash] ((parts p).foldl (walk absolute) []).reverse
  if absolute then slash :: body
  else if body.isEmpty then here
  else body

def join (p q : Bytes) : Bytes :=
  match (([p, q]).filter fun part => !part.isEmpty) with
  | [] => []
  | given => clean (Bytes.join [slash] given)

end TinyScript.Path
