import FormulaLex.Location

/-!
The text of the token being built, piece by piece, with the place of its first piece.
-/
namespace FormulaLex

structure Lexeme where
  /-- The pieces, the newest first. -/
  reversed : List String := []
  start : Position := .nowhere
  deriving DecidableEq, Repr

namespace Lexeme

def empty : Lexeme := {}

def isEmpty (l : Lexeme) : Bool := l.reversed.isEmpty

/-- The number of pieces. -/
def size (l : Lexeme) : Nat := l.reversed.length

/-- The first piece fixes where the lexeme starts. -/
def push (l : Lexeme) (piece : String) (here : Position) : Lexeme :=
  ⟨piece :: l.reversed, if l.isEmpty then here else l.start⟩

def text (l : Lexeme) : String := String.join l.reversed.reverse

@[simp] theorem text_empty : empty.text = "" := rfl

@[simp] theorem text_push (l : Lexeme) (piece : String) (here : Position) :
    (l.push piece here).text = l.text ++ piece := by
  simp [push, text, String.join]

@[simp] theorem size_push (l : Lexeme) (piece : String) (here : Position) :
    (l.push piece here).size = l.size + 1 := rfl

theorem start_push (l : Lexeme) (piece : String) (here : Position) :
    (l.push piece here).start = if l.isEmpty then here else l.start := rfl

end Lexeme

end FormulaLex
