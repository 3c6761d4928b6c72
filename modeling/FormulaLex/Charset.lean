/-!
Character classes of the arithmetic language. All of them are ASCII: no letter or digit of another
script belongs to any.
-/
namespace FormulaLex.Charset

def isLetter (c : Char) : Bool := c.isAlpha

def isDigit (c : Char) : Bool := c.isDigit

/-- Letters and digits continue an identifier. -/
def isAlphanumeric (c : Char) : Bool := isLetter c || isDigit c

/-- Space, tab, newline, carriage return, form feed and vertical tab. -/
def blanks : List Char := [' ', '\t', '\n', '\r', '\x0c', '\x0b']

def isBlank (c : Char) : Bool := blanks.contains c

def decimalPoint : Char := '.'

def newline : Char := '\n'

/-- The members of an ASCII class in ascending order. -/
def members (p : Char → Bool) : String :=
  String.ofList (((List.range 0x80).map Char.ofNat).filter p)

/-- A text belongs to a class when it is a single character of it. -/
def holds (p : Char → Bool) (s : String) : Bool :=
  match s.toList with
  | [c] => p c
  | _ => false

end FormulaLex.Charset
