/-!
Strict UTF-8, decoded byte by byte. A text may end inside a sequence; whether that is a defect is
for the caller to say, who knows if more bytes are to come.
-/
namespace FormulaLex.Utf8

inductive Defect where
  | invalidStart
  | invalidContinuation
  | unexpectedEnd
  deriving DecidableEq, Repr

def Defect.reason : Defect → String
  | invalidStart => "invalid start byte"
  | invalidContinuation => "invalid continuation byte"
  | unexpectedEnd => "unexpected end of data"

/-- An open sequence: its bytes so far, the newest first, how many are to follow, the range of the
next one, and the bits gathered. -/
structure Sequence where
  seen : List UInt8
  following : Nat
  low : UInt8 := 0x80
  high : UInt8 := 0xBF
  code : Nat
  deriving DecidableEq, Repr

/-- The sequence that a first byte opens. The range of the second byte shuts out overlong forms and
numbers above the last code point. -/
def Sequence.ofLead? (b : UInt8) : Option Sequence :=
  if b < 0x80 then some { seen := [b], following := 0, code := b.toNat }
  else if b < 0xC2 then none
  else if b < 0xE0 then some { seen := [b], following := 1, code := b.toNat - 0xC0 }
  else if b < 0xF0 then
    some { seen := [b], following := 2, code := b.toNat - 0xE0
           low := if b = 0xE0 then 0xA0 else 0x80 }
  else if b < 0xF5 then
    some { seen := [b], following := 3, code := b.toNat - 0xF0
           low := if b = 0xF0 then 0x90 else 0x80
           high := if b = 0xF4 then 0x8F else 0xBF }
  else none

/-- Two bytes that only a surrogate starts with. -/
def startsSurrogate (seen : List UInt8) : Bool :=
  match seen with
  | [second, first] => first == 0xED && 0xA0 ≤ second
  | _ => false

/-- The sequence with one more byte, if the byte is allowed there. No third byte is allowed in a
surrogate. -/
def Sequence.push? (s : Sequence) (b : UInt8) : Option Sequence :=
  if s.low ≤ b && b ≤ s.high && !startsSurrogate s.seen then
    some { seen := b :: s.seen, following := s.following - 1
           code := s.code * 64 + (b.toNat - 0x80) }
  else none

/-- One more byte: the first of a new sequence, or the next of the open one. -/
def Sequence.advance (opened : Option Sequence) (b : UInt8) : Except Defect Sequence :=
  match opened with
  | none =>
    match Sequence.ofLead? b with
    | some s => .ok s
    | none => .error .invalidStart
  | some s =>
    match s.push? b with
    | some s => .ok s
    | none => .error .invalidContinuation

/-- The bytes of an open sequence in their order. -/
def Sequence.bytes (opened : Option Sequence) : List UInt8 :=
  match opened with
  | none => []
  | some s => s.seen.reverse

/-- How a text ends: between characters, inside a sequence, or at a defect of the sequence that
starts at the given offset. -/
inductive Ending where
  | complete
  | cut (tail : List UInt8)
  | defect (d : Defect) (start : Nat)
  deriving DecidableEq, Repr

/-- The characters of the bytes that follow an open sequence, where `offset` is the number of the
next byte. A sequence that lacks nothing is a character. -/
def decodeFrom : (opened : Option Sequence) → (offset : Nat) → List UInt8 → List Char × Ending
  | none, _, [] => ([], .complete)
  | some s, _, [] => ([], .cut (Sequence.bytes (some s)))
  | opened, offset, b :: rest =>
    match Sequence.advance opened b with
    | .error d => ([], .defect d (offset - (Sequence.bytes opened).length))
    | .ok s =>
      if s.following = 0 then
        let (chars, ending) := decodeFrom none (offset + 1) rest
        (Char.ofNat s.code :: chars, ending)
      else decodeFrom (some s) (offset + 1) rest

/-- The defect of a sequence that the end of the data leaves open. -/
def defectAtEnd (tail : List UInt8) : Defect :=
  if startsSurrogate tail.reverse then .invalidContinuation else .unexpectedEnd

/-- Decodes one portion: its characters, and the bytes of a sequence that it leaves open. In the
final portion an open sequence is a defect. -/
def decode (final : Bool) (bytes : List UInt8) : Except (Defect × Nat) (List Char × List UInt8) :=
  match decodeFrom none 0 bytes with
  | (chars, .complete) => .ok (chars, [])
  | (chars, .cut tail) =>
    if final then .error (defectAtEnd tail, bytes.length - tail.length) else .ok (chars, tail)
  | (_, .defect d start) => .error (d, start)

/-- The bytes of a text. -/
def encode (s : String) : List UInt8 := s.toUTF8.toList

end FormulaLex.Utf8
