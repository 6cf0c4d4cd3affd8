import TinyScript.Text

namespace TinyScript

structure Position where
  offset : Int
  line : Int
  column : Int
  deriving DecidableEq, Repr

namespace Position

def start : Position := ⟨0, 1, 1⟩

def next (p : Position) (b : UInt8) : Position :=
  if b = byte '\n' then ⟨p.offset + 1, p.line + 1, 1⟩ else ⟨p.offset + 1, p.line, p.column + 1⟩

def after (p : Position) (s : Bytes) : Position := s.foldl next p

def render (p : Position) : Bytes := signedNumeral p.line ++ text ":" ++ signedNumeral p.column

end Position

structure Span where
  start : Position
  stop : Position
  deriving DecidableEq, Repr

namespace Span

-- The span of a node that was given none.
def unknown : Span := ⟨⟨0, 0, 0⟩, ⟨0, 0, 0⟩⟩

def upTo (s t : Span) : Span := ⟨s.start, t.stop⟩

def point (p : Position) : Span := ⟨p, p⟩

def render (s : Span) : Bytes := s.start.render ++ text ".." ++ s.stop.render

end Span

end TinyScript
