import FormulaLex.Source.Buffered
import FormulaLex.Source.Text

/-!
What may be scanned: texts, text streams, and character sources as they are.
-/
namespace FormulaLex

/-- What an object offers to a lexer that is asked to scan it. -/
structure Offer where
  typeName : String
  isText : Bool := false
  isBinaryStream : Bool := false
  isStream : Bool := false
  canPeek : Bool := false
  canRead : Bool := false
  canClose : Bool := false

inductive Adaptation where
  | text
  | stream
  | asIs
  deriving DecidableEq, Repr

inductive AdaptError where
  | binaryStream
  | unscannable (typeName : String)
  deriving DecidableEq, Repr

def AdaptError.message : AdaptError → String
  | binaryStream => "Binary streams must be wrapped in a text stream (io.TextIOWrapper)"
  | unscannable typeName => "Cannot scan object of type " ++ typeName

namespace Offer

/-- A character source that is no stream is scanned as it is; a stream needs a reading operation. -/
def adapt (o : Offer) : Except AdaptError Adaptation :=
  if o.isText then .ok .text
  else if o.isBinaryStream then .error .binaryStream
  else if o.isStream || !(o.canPeek && o.canRead && o.canClose) then
    if o.canRead then .ok .stream else .error (.unscannable o.typeName)
  else .ok .asIs

/-- The type under which the adapted object is scanned. -/
def scannedAs (o : Offer) : Adaptation → String
  | .text => TextSource.label
  | .stream => Buffered.label
  | .asIs => o.typeName

end Offer

end FormulaLex
