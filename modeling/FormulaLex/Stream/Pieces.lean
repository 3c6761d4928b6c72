import FormulaLex.Fault
import FormulaLex.Stream.Basic

/-!
Streams that can only be read: each reading gives the next of some prepared pieces, whatever its
length, and nothing closes them.
-/
namespace FormulaLex

structure PieceStream where
  pieces : List String

namespace PieceStream

def typeName : String := "Reader"

def read (s : PieceStream) : String × PieceStream :=
  match s.pieces with
  | [] => ("", s)
  | piece :: rest => (piece, ⟨rest⟩)

def stream : TextStream PieceStream Fault where
  readOne s := (.ok s.read.1, s.read.2)
  close s := (.error (.missing typeName "close"), s)
  size s := s.pieces.length

end PieceStream

end FormulaLex
