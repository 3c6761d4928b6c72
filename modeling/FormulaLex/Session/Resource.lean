import FormulaLex.Source.Buffered
import FormulaLex.Source.Feed
import FormulaLex.Source.Offer
import FormulaLex.Source.Text
import FormulaLex.Stream.Bytes
import FormulaLex.Stream.Memory
import FormulaLex.Stream.Pieces

/-!
The resources of a session: streams and sources of every sort, and the numbers by which resources
refer to one another.
-/
namespace FormulaLex.Session

/-- A resource of a session, by its number among those of its sort. -/
inductive Resource where
  | stream (n : Nat)
  | source (n : Nat)
  | lexer (n : Nat)
  | lexeme (n : Nat)
  deriving DecidableEq, Repr

inductive AnyStream where
  | memory (s : MemoryStream)
  | bytes (s : ByteStream)
  | pieces (s : PieceStream)

namespace AnyStream

def typeName : AnyStream → String
  | memory _ => "StringIO"
  | bytes _ => "TextIOWrapper"
  | pieces _ => PieceStream.typeName

def offer : AnyStream → Offer
  | pieces _ => { typeName := PieceStream.typeName, canRead := true }
  | s => { typeName := s.typeName, isStream := true, canRead := true, canClose := true }

/-- Reads so many characters of a stream, or all that are left for a negative amount. -/
def readAmount {τ : Type} (amount : Int) (read : τ → Option Nat → Except Fault String × τ) (s : τ) :
    Except Fault String × τ :=
  if !isIndex amount then (.error .hugeAmount, s)
  else read s (if amount < 0 then none else some amount.toNat)

/-- Prepared pieces come as they are, whatever the amount. -/
def read (amount : Int) : AnyStream → Except Fault String × AnyStream
  | memory s => (readAmount amount MemoryStream.read s).map id memory
  | bytes s => (readAmount amount ByteStream.read s).map id bytes
  | pieces s => (.ok s.read.1, pieces s.read.2)

def close : AnyStream → Except Fault Unit × AnyStream
  | memory s => (MemoryStream.stream.close s).map id memory
  | bytes s => (ByteStream.stream.close s).map id bytes
  | pieces s => (PieceStream.stream.close s).map id pieces

def closed : AnyStream → Except Fault Bool
  | memory s => .ok s.closed
  | bytes s => .ok s.closed
  | pieces _ => .error (.missing PieceStream.typeName "closed")

def size : AnyStream → Nat
  | memory s => MemoryStream.stream.size s
  | bytes s => ByteStream.stream.size s
  | pieces s => PieceStream.stream.size s

end AnyStream

/-- A source. One that buffers holds the number of what it takes for its stream, which may be any
resource. -/
inductive AnySource where
  | text (s : TextSource)
  | buffered (b : Buffered Resource)
  | feed (f : Feed)

def AnySource.typeName : AnySource → String
  | text _ => TextSource.label
  | buffered _ => Buffered.label
  | feed _ => Feed.label

def AnySource.offer (s : AnySource) : Offer :=
  { typeName := s.typeName, canPeek := true, canRead := true, canClose := true }

end FormulaLex.Session
