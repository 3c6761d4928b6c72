import FormulaLex.Source.Basic

/-!
Character sources over a text.
-/
namespace FormulaLex

structure TextSource where
  rest : List Char
  closed : Bool := false
  deriving DecidableEq, Repr

namespace TextSource

def label : String := "StringSource"

def ofString (s : String) : TextSource := ⟨s.toList, false⟩

def peek (s : TextSource) : String :=
  match s.rest with
  | [] => ""
  | c :: _ => String.singleton c

def read (s : TextSource) : String × TextSource :=
  match s.rest with
  | [] => ("", s)
  | c :: rest => (String.singleton c, { s with rest })

/-- A closed source is at its end. -/
def close (_ : TextSource) : TextSource := ⟨[], true⟩

def source {ε : Type} : CharSource TextSource ε where
  label := label
  peek s := (.ok s.peek, s)
  read s := (.ok s.read.1, s.read.2)
  close s := (.ok (), s.close)
  size s := s.rest.length

end TextSource

end FormulaLex
