import FormulaLex.Fault
import FormulaLex.Stream.Basic

/-!
Text streams over a text in memory, which may be read from any position and may grow.
-/
namespace FormulaLex

structure MemoryStream where
  content : Array Char
  position : Nat := 0
  closed : Bool := false

namespace MemoryStream

def ofString (s : String) : MemoryStream := { content := s.toList.toArray }

/-- Guards an operation that a closed stream refuses. -/
def whenOpen {α : Type} (s : MemoryStream) (result : Except Fault α × MemoryStream) :
    Except Fault α × MemoryStream :=
  if s.closed then (.error .closedMemory, s) else result

/-- Up to `amount` characters, or all that are left; nothing beyond the end. -/
def read (s : MemoryStream) (amount : Option Nat) : Except Fault String × MemoryStream :=
  let stop := match amount with
    | some n => s.position + n
    | none => s.content.size
  let taken := s.content.extract s.position stop
  s.whenOpen (.ok (String.ofList taken.toList), { s with position := s.position + taken.size })

def tell (s : MemoryStream) : Except Fault Nat × MemoryStream := s.whenOpen (.ok s.position, s)

/-- Moves to a position, which may lie beyond the end. -/
def seek (s : MemoryStream) (position : Int) : Except Fault Nat × MemoryStream :=
  if !isIndex position then (.error .hugePosition, s)
  else s.whenOpen <|
    if position < 0 then (.error (.negativeSeek position), s)
    else (.ok position.toNat, { s with position := position.toNat })

/-- Adds to the content and keeps the position. -/
def append (s : MemoryStream) (more : String) : Except Fault Unit × MemoryStream :=
  s.whenOpen (.ok (), { s with content := s.content ++ more.toList })

def close (s : MemoryStream) : MemoryStream := { s with closed := true }

def stream : TextStream MemoryStream Fault where
  readOne s := s.read (some 1)
  close s := (.ok (), s.close)
  size s := s.content.size - s.position

end MemoryStream

end FormulaLex
