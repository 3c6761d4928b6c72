import FormulaLex.Text.Printable

/-!
Texts in quotes, with escapes for the delimiter, the backslash and what is not printable; and the
form in which an offending character is shown in a message.
-/
namespace FormulaLex.Text

def apostrophe : Char := '\x27'

def doubleQuote : Char := '\x22'

def backslash : Char := '\x5c'

/-- A text is quoted by apostrophes unless it holds one and no double quote. -/
def delimiter (s : List Char) : Char :=
  if s.contains apostrophe && !s.contains doubleQuote then doubleQuote else apostrophe

/-- The lower-case hexadecimal digit of a number below sixteen. -/
def hexDigit (n : Nat) : Char := Char.ofNat (if n < 10 then 48 + n else 87 + n)

/-- The last `width` hexadecimal digits of a number. -/
def hex : (width : Nat) → Nat → List Char
  | 0, _ => []
  | width + 1, n => hex width (n / 16) ++ [hexDigit (n % 16)]

/-- An unprintable character is written by its code point, in two, four or eight digits. -/
def escapeCode (n : Nat) : List Char :=
  if n < 0x100 then backslash :: 'x' :: hex 2 n
  else if n < 0x10000 then backslash :: 'u' :: hex 4 n
  else backslash :: 'U' :: hex 8 n

def escapeChar (delim c : Char) : List Char :=
  if c == delim || c == backslash then [backslash, c]
  else if c == '\t' then [backslash, 't']
  else if c == '\n' then [backslash, 'n']
  else if c == '\r' then [backslash, 'r']
  else if isPrintable c then [c]
  else escapeCode c.toNat

/-- The text between the delimiters of its quoted form. -/
def escape (s : List Char) : List Char := s.flatMap (escapeChar (delimiter s))

def quote (s : String) : String :=
  let delim := delimiter s.toList
  String.ofList (delim :: (escape s.toList ++ [delim]))

/-- A printable text is shown as it is, any other one escaped. -/
def display (s : String) : String :=
  if allPrintable s.toList then s else String.ofList (escape s.toList)

end FormulaLex.Text
