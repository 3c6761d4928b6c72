/-!
Places in the scanned input: a line and a column, both counted from one, and the name of the input
where one is known.
-/
namespace FormulaLex

structure Position where
  line : Int
  column : Int
  deriving DecidableEq, Repr

namespace Position

/-- The first character of an input. -/
def start : Position := ⟨1, 1⟩

/-- The place of nothing: where a lexeme without characters starts. -/
def nowhere : Position := ⟨0, 0⟩

/-- The place after one consumed character; a newline opens a line if newlines are counted. -/
def after (p : Position) (countNewlines : Bool) (consumed : String) : Position :=
  if consumed == "\n" && countNewlines then ⟨p.line + 1, 1⟩ else ⟨p.line, p.column + 1⟩

def text (p : Position) : String := toString p.line ++ ":" ++ toString p.column

end Position

/-- The name of an input counts as unknown when it is empty. -/
def knownName (name : Option String) : Option String := name.filter (· != "")

structure Location where
  position : Position
  sourceName : Option String := none
  deriving DecidableEq, Repr

/-- A known name stands in front of the place. -/
def Location.text (l : Location) : String :=
  match knownName l.sourceName with
  | some name => name ++ ":" ++ l.position.text
  | none => l.position.text

end FormulaLex
