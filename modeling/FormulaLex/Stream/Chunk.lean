/-!
How many bytes a stream fetches at once. Chunks have a least size; when many characters are wanted,
a chunk is as large as they would need at the density of the last chunk. Densities are estimates,
kept to 53 binary digits.
-/
namespace FormulaLex.Chunk

def leastSize : Nat := 8192

/-- The nearest whole number; a half goes to the even neighbour. -/
def nearest (x : Rat) : Int :=
  let low := x.floor
  let rest := x - low
  if rest < 1 / 2 || rest = 1 / 2 && low % 2 = 0 then low else low + 1

/-- A number that is one at least, to 53 significant binary digits. -/
def rounded (x : Rat) : Rat :=
  let unit : Rat := 2 ^ x.floor.toNat.log2 / 0x10000000000000
  nearest (x / unit) * unit

/-- The bytes per character of a chunk. They are one at least, also when there was no character. -/
def density (bytes chars : Nat) : Rat :=
  if chars = 0 || bytes ≤ chars then 1 else rounded (bytes / chars)

/-- The size of a chunk for the wanted characters. An estimate of more than 63 bits is ignored. -/
def size (density : Rat) (wanted : Nat) : Nat :=
  let estimate := (rounded (density * rounded wanted)).floor.toNat
  if estimate < 0x8000000000000000 then max leastSize estimate else leastSize

end FormulaLex.Chunk
