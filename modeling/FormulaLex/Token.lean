import FormulaLex.Location
import FormulaLex.Text.Quoted

/-!
Tokens: a kind, the exact text, and the place of the first character. Tokens are the leaves of the
trees that a parser builds, so each has a list of children, empty when it comes from the lexer.
-/
namespace FormulaLex

inductive Kind where
  | identifier
  | real
  | whitespace
  | leftParen
  | rightParen
  | equals
  | plus
  | minus
  | star
  | exponent
  | slash
  deriving DecidableEq, Repr

namespace Kind

def all : List Kind :=
  [identifier, real, whitespace, leftParen, rightParen, equals, plus, minus, star, exponent, slash]

def name : Kind → String
  | identifier => "IDENTIFIER"
  | real => "REAL"
  | whitespace => "WHITESPACE"
  | leftParen => "LPAREN"
  | rightParen => "RPAREN"
  | equals => "EQUALS"
  | plus => "PLUS"
  | minus => "MINUS"
  | star => "STAR"
  | exponent => "EXPONENT_OP"
  | slash => "SLASH"

def ofName? (s : String) : Option Kind := all.find? (·.name == s)

end Kind

structure Token where
  kind : Kind
  text : String
  position : Position
  sourceName : Option String := none
  children : List Token := []

namespace Token

def location (t : Token) : Location := ⟨t.position, t.sourceName⟩

def isLeaf (t : Token) : Bool := t.children.isEmpty

mutual

/-- Equality of tokens, children included; the name of the input is not compared. -/
def agrees : Token → Token → Bool
  | ⟨k, s, p, _, cs⟩, ⟨k', s', p', _, cs'⟩ => k == k' && s == s' && p == p' && allAgree cs cs'

def allAgree : List Token → List Token → Bool
  | [], [] => true
  | t :: ts, u :: us => agrees t u && allAgree ts us
  | _, _ => false

end

/-- A text of more than twenty characters is cut to seventeen and three dots. -/
def abbreviate (s : String) : String :=
  if s.length > 20 then String.ofList (s.toList.take 17) ++ "..." else s

/-- The token in one short phrase. -/
def summary (t : Token) : String :=
  "Token(" ++ t.kind.name ++ ", " ++ Text.quote (abbreviate t.text) ++ ", " ++
    t.position.text ++ ")"

end Token

end FormulaLex
