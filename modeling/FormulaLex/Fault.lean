/-!
What can go wrong in the input under the lexer, and its wording.
-/
namespace FormulaLex

inductive Fault where
  /-- The owner of a source made it fail. -/
  | raised (message : String)
  /-- The input is no text, for a decoder's reason. -/
  | undecodable (reason : String) (start : Nat)
  | closedMemory
  | closedBytes
  | negativeSeek (position : Int)
  /-- An amount of more than 64 bits. -/
  | hugeAmount
  /-- A position of more than 64 bits. -/
  | hugePosition
  /-- Something that reads one character at a time was asked for an amount. -/
  | noAmount (typeName : String)
  /-- The object under a source lacks an operation. -/
  | missing (typeName operation : String)
  deriving DecidableEq, Repr

def Fault.message : Fault → String
  | raised message => message
  | undecodable reason start => reason ++ " at byte " ++ toString start
  | closedMemory => "I/O operation on closed file"
  | closedBytes => "I/O operation on closed file."
  | negativeSeek position => "Negative seek position " ++ toString position
  | hugeAmount => "cannot fit 'int' into an index-sized integer"
  | hugePosition => "Python int too large to convert to C ssize_t"
  | noAmount typeName => typeName ++ ".read() takes 1 positional argument but 2 were given"
  | missing typeName operation =>
    "'" ++ typeName ++ "' object has no attribute '" ++ operation ++ "'"

end FormulaLex
