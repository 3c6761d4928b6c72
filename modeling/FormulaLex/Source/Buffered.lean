import FormulaLex.Source.Basic
import FormulaLex.Stream.Basic

/-!
Character sources over a text stream. One character of lookahead is kept at most, so that the stream
is never read further than the lookahead demands.
-/
namespace FormulaLex

structure Buffered (τ : Type) where
  stream : τ
  /-- Nothing looked at yet, the character ahead, or the empty text once the end was seen. -/
  lookahead : Option String := none
  closed : Bool := false
  /-- Closing the source closes the stream. -/
  ownsStream : Bool := true

namespace Buffered

variable {τ ε : Type}

def label : String := "StreamSource"

def peek (str : TextStream τ ε) (b : Buffered τ) : Except ε String × Buffered τ :=
  match b.lookahead with
  | some ahead => (.ok ahead, b)
  | none =>
    match str.readOne b.stream with
    | (.error e, stream) => (.error e, { b with stream })
    | (.ok ahead, stream) => (.ok ahead, { b with stream, lookahead := some ahead })

/-- The end stays ahead: only a character is consumed. -/
def read (str : TextStream τ ε) (b : Buffered τ) : Except ε String × Buffered τ :=
  match b.peek str with
  | (.error e, b) => (.error e, b)
  | (.ok ahead, b) => (.ok ahead, if ahead == "" then b else { b with lookahead := none })

/-- The first closing puts the source at its end, before it closes a stream of its own. -/
def close (str : TextStream τ ε) (b : Buffered τ) : Except ε Unit × Buffered τ :=
  if b.closed then (.ok (), b)
  else
    let b := { b with closed := true, lookahead := some "" }
    if b.ownsStream then
      let (result, stream) := str.close b.stream
      (result, { b with stream })
    else (.ok (), b)

def size (str : TextStream τ ε) (b : Buffered τ) : Nat := str.size b.stream + 1

def source (str : TextStream τ ε) : CharSource (Buffered τ) ε where
  label := label
  peek := peek str
  read := read str
  close := close str
  size := size str

theorem close_of_closed (str : TextStream τ ε) {b : Buffered τ} (hb : b.closed = true) :
    b.close str = (.ok (), b) := by
  simp only [close, hb, ↓reduceIte]

end Buffered

end FormulaLex
