import FormulaLex.Location
import FormulaLex.Text.Quoted

/-!
Lexical errors and their wording.
-/
namespace FormulaLex

/-- An error about the input; its place may be unknown, in part or as a whole. -/
structure LexicalError where
  message : String
  line : Option Int := none
  column : Option Int := none
  sourceName : Option String := none

namespace LexicalError

/-- A known name of the input stands in front of the message. -/
def text (e : LexicalError) : String :=
  match knownName e.sourceName with
  | some name => name ++ ": " ++ e.message
  | none => e.message

def location? (e : LexicalError) : Option Location :=
  match e.line, e.column with
  | some line, some column => some ⟨⟨line, column⟩, e.sourceName⟩
  | _, _ => none

end LexicalError

/-- A character with which no token starts. -/
structure InvalidCharacter where
  character : String
  position : Position
  sourceName : Option String := none

namespace InvalidCharacter

def message (e : InvalidCharacter) : String :=
  "Invalid character '" ++ Text.display e.character ++ "' at line " ++ toString e.position.line ++
    " column " ++ toString e.position.column

def toLexicalError (e : InvalidCharacter) : LexicalError :=
  ⟨e.message, some e.position.line, some e.position.column, e.sourceName⟩

def text (e : InvalidCharacter) : String := e.toLexicalError.text

end InvalidCharacter

end FormulaLex
