/-!
Text streams as the lexer sees them: reading one character, and closing. An operation gives its
result or a fault, and the state of the stream in either case.
-/
namespace FormulaLex

/-- The operations of a text stream with states in `τ` and faults in `ε`. -/
structure TextStream (τ ε : Type) where
  /-- The next character; the empty text at the end. -/
  readOne : τ → Except ε String × τ
  close : τ → Except ε Unit × τ
  /-- A bound on the number of characters still to come. -/
  size : τ → Nat

/-- Whether a number can be a position or an amount: it has 64 bits and a sign among them. -/
def isIndex (n : Int) : Bool := -0x8000000000000000 ≤ n && n < 0x8000000000000000

end FormulaLex
