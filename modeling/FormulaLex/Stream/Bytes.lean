import FormulaLex.Fault
import FormulaLex.Stream.Basic
import FormulaLex.Stream.Chunk
import FormulaLex.Text.Newline
import FormulaLex.Text.Utf8

/-!
Text streams over bytes. Bytes are fetched in chunks, and a chunk is decoded as a whole before any
of its characters is delivered; a chunk that does not decode is lost.
-/
namespace FormulaLex

structure ByteStream where
  /-- The bytes not fetched yet. -/
  bytes : List UInt8
  /-- The bytes of a sequence that the last chunk left open. -/
  kept : List UInt8 := []
  /-- A carriage return waits for the next chunk. -/
  held : Bool := false
  /-- Decoded characters not delivered yet. -/
  ready : List Char := []
  /-- The bytes per character of the last chunk decoded. -/
  density : Rat := 1
  closed : Bool := false

namespace ByteStream

/-- Decodes a chunk behind the kept bytes; the characters become those that are ready. -/
def decodeChunk (s : ByteStream) (final : Bool) (chunk : List UInt8) :
    Except Fault (List Char) × ByteStream :=
  match Utf8.decode final (s.kept ++ chunk) with
  | .error (defect, start) => (.error (.undecodable defect.reason start), s)
  | .ok (chars, kept) =>
    let (chars, held) := Newline.translate s.held final chars
    (.ok chars, { s with kept, held })

/-- Fetches one chunk for the wanted characters when nothing is ready. An empty chunk is the final
one; the answer is whether the stream has come to its end. -/
def fetch (s : ByteStream) (wanted : Nat) : Except Fault Bool × ByteStream :=
  let size := Chunk.size s.density wanted
  let chunk := s.bytes.take size
  let final := chunk.isEmpty
  match { s with bytes := s.bytes.drop size }.decodeChunk final chunk with
  | (.error e, s) => (.error e, s)
  | (.ok chars, s) =>
    let density := Chunk.density chunk.length chars.length
    (.ok (final && chars.isEmpty), { s with ready := chars, density })

/-- Delivers `n` characters, or all there are if fewer. Characters taken before a chunk fails are
lost with it. -/
def readMany : (fuel : Nat) → (n : Nat) → ByteStream → Except Fault (List Char) × ByteStream
  | 0, _, s => (.ok [], s)
  | fuel + 1, n, s =>
    let taken := s.ready.take n
    let s := { s with ready := s.ready.drop n }
    if taken.length = n then (.ok taken, s)
    else match s.fetch (n - taken.length) with
      | (.error e, s) => (.error e, s)
      | (.ok true, s) => (.ok taken, s)
      | (.ok false, s) =>
        match readMany fuel (n - taken.length) s with
        | (.error e, s) => (.error e, s)
        | (.ok more, s) => (.ok (taken ++ more), s)

/-- Decodes all that is left at once. -/
def readRest (s : ByteStream) : Except Fault (List Char) × ByteStream :=
  match { s with bytes := [] }.decodeChunk true s.bytes with
  | (.error e, s) => (.error e, s)
  | (.ok chars, s) => (.ok (s.ready ++ chars), { s with ready := [] })

/-- Up to `amount` characters, or all that are left; what is ready comes first. -/
def read (s : ByteStream) (amount : Option Nat) : Except Fault String × ByteStream :=
  if s.closed then (.error .closedBytes, s)
  else
    let (result, s) := match amount with
      | none => s.readRest
      | some n =>
        let taken := s.ready.take n
        if taken.length = n then (.ok taken, { s with ready := s.ready.drop n })
        else s.readMany (s.bytes.length + 3) n
    (result.map String.ofList, s)

def close (s : ByteStream) : ByteStream := { s with closed := true }

def stream : TextStream ByteStream Fault where
  readOne s := s.read (some 1)
  close s := (.ok (), s.close)
  size s := s.bytes.length + s.kept.length + s.ready.length + 1

end ByteStream

end FormulaLex
