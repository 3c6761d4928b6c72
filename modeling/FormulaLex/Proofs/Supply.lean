import FormulaLex.Proofs.Buffering
import FormulaLex.Proofs.ChunkSize
import FormulaLex.Proofs.Decoding
import FormulaLex.Stream.Bytes

/-!
What a byte stream has to deliver, read character by character: the text of its portions, up to the
first one that does not decode.
-/
namespace FormulaLex

namespace Newline

theorem length_normalize_le (chars : List Char) : (normalize chars).length ≤ chars.length := by
  fun_induction normalize chars with
  | case1 => exact Nat.le_refl 0
  | case2 rest ih =>
    simp only [List.length_cons]
    omega
  | case3 c rest hne ih => exact Nat.succ_le_succ ih

theorem length_translate_le (held final : Bool) (portion : List Char) :
    (translate held final portion).1.length + (translate held final portion).2.toNat ≤
      portion.length + held.toNat := by
  have hwhole : (if held then '\r' :: portion else portion).length =
      portion.length + held.toNat := by
    cases held <;> rfl
  unfold translate
  dsimp only
  split
  · exact Nat.add_le_add_right (Nat.zero_le _) _
  · generalize (if held then '\r' :: portion else portion) = whole at hwhole ⊢
    rw [← hwhole]
    split
    next hlast =>
      have hne : whole ≠ [] := by
        intro hnil
        simp [hnil] at hlast
      have hpos := List.length_pos_of_ne_nil hne
      have hle := length_normalize_le whole.dropLast
      rw [List.length_dropLast] at hle
      dsimp only [Bool.toNat_true]
      omega
    next => exact length_normalize_le whole

theorem held_final (held : Bool) (portion : List Char) :
    (translate held true portion).2 = false := by
  simp [translate]

end Newline

namespace ByteStream

/-- The chunks in which bytes are fetched for one character at a time. -/
def portions (bytes : List UInt8) : List (List UInt8) :=
  if bytes = [] then [] else bytes.take Chunk.leastSize :: portions (bytes.drop Chunk.leastSize)
termination_by bytes.length
decreasing_by
  have hpos := List.length_pos_of_ne_nil ‹_›
  rw [List.length_drop, Chunk.leastSize]
  omega

theorem portions_nil : portions [] = [] := by
  rw [portions, if_pos rfl]

theorem portions_of_ne_nil {bytes : List UInt8} (h : bytes ≠ []) :
    portions bytes =
      bytes.take Chunk.leastSize :: portions (bytes.drop Chunk.leastSize) := by
  rw [portions, if_neg h]

/-- The text of portions, behind kept bytes and perhaps a carriage return; and the defect for which
one of them, or what is kept in the end, does not decode. -/
def supply (kept : List UInt8) (held : Bool) :
    List (List UInt8) → List Char × Option (Utf8.Defect × Nat)
  | [] =>
    match Utf8.decode true kept with
    | .error defect => ([], some defect)
    | .ok (chars, _) => ((Newline.translate held true chars).1, none)
  | chunk :: chunks =>
    match Utf8.decode false (kept ++ chunk) with
    | .error defect => ([], some defect)
    | .ok (chars, kept) =>
      let (ready, held) := Newline.translate held false chars
      let (later, stop) := supply kept held chunks
      (ready ++ later, stop)

/-- The stream has the characters `w` to deliver; then it ends, or a portion does not decode. -/
structure Offers (s : ByteStream) (w : List Char) (stop : Option (Utf8.Defect × Nat)) : Prop where
  going : s.closed = false
  density : s.density ≤ Chunk.leastSize
  supply : ∃ later, w = s.ready ++ later ∧
    ByteStream.supply s.kept s.held (portions s.bytes) = (later, stop)

theorem offers_new (bytes : List UInt8) :
    Offers { bytes } (supply [] false (portions bytes)).1 (supply [] false (portions bytes)).2 where
  going := rfl
  density := by
    change (1 : Rat) ≤ Chunk.leastSize
    norm_num [Chunk.leastSize]
  supply := ⟨_, rfl, rfl⟩

variable {s : ByteStream} {w : List Char} {stop : Option (Utf8.Defect × Nat)}

theorem decode_final {kept rest : List UInt8} {chars : List Char}
    (h : Utf8.decode true kept = .ok (chars, rest)) : rest = [] := by
  unfold Utf8.decode at h
  split at h
  · cases h
    rfl
  · cases h
  · cases h

/-- What a fetching for one character comes to, when nothing is ready. -/
inductive Fetched (s : ByteStream) : (w : List Char) → (stop : Option (Utf8.Defect × Nat)) →
    Except Fault Bool × ByteStream → Prop
  | broken {defect : Utf8.Defect} {start : Nat} {s' : ByteStream} :
      Fetched s [] (some (defect, start)) (.error (.undecodable defect.reason start), s')
  | ended {s' : ByteStream} (h : Offers s' [] none) : Fetched s [] none (.ok true, s')
  | more {w : List Char} {stop : Option (Utf8.Defect × Nat)} {s' : ByteStream}
      (h : Offers s' w stop) (hless : s'.ready ≠ [] ∨ s'.bytes.length < s.bytes.length) :
      Fetched s w stop (.ok false, s')

theorem Offers.fetch (h : Offers s w stop) (hready : s.ready = []) :
    Fetched s w stop (s.fetch 1) := by
  obtain ⟨later, hw, hsupply⟩ := h.supply
  rw [hready, List.nil_append] at hw
  subst hw
  have hsize := Chunk.size_one h.density
  by_cases hbytes : s.bytes = []
  · rw [hbytes, portions_nil, ByteStream.supply] at hsupply
    simp only [ByteStream.fetch, hbytes, List.take_nil, List.drop_nil, List.isEmpty_nil,
      decodeChunk, List.append_nil, List.length_nil]
    cases hdecode : Utf8.decode true s.kept with
    | error defect =>
      rw [hdecode] at hsupply
      cases hsupply
      exact .broken
    | ok result =>
      obtain ⟨chars, rest⟩ := result
      cases decode_final hdecode
      have hheld := Newline.held_final s.held chars
      rw [hdecode] at hsupply
      cases hsupply
      rcases htranslate : Newline.translate s.held true chars with ⟨ready, held⟩
      rw [htranslate] at hheld
      cases hheld
      simp only [htranslate]
      have hoffers (density : Rat) (hdensity : density ≤ Chunk.leastSize) :
          Offers { s with bytes := [], kept := [], held := false, ready, density } ready none :=
        ⟨h.going, hdensity, [], (List.append_nil ready).symm, by rw [portions_nil]; rfl⟩
      have hdensity := Chunk.density_le (Nat.zero_le Chunk.leastSize) ready.length
      cases ready with
      | nil => exact .ended (hoffers _ hdensity)
      | cons c ready => exact .more (hoffers _ hdensity) (.inl (List.cons_ne_nil c ready))
  · rw [portions_of_ne_nil hbytes, ByteStream.supply] at hsupply
    have hchunk : (s.bytes.take Chunk.leastSize).isEmpty = false := by
      simpa [Chunk.leastSize] using hbytes
    simp only [ByteStream.fetch, hsize, hchunk, decodeChunk]
    cases hdecode : Utf8.decode false (s.kept ++ s.bytes.take Chunk.leastSize) with
    | error defect =>
      rw [hdecode] at hsupply
      cases hsupply
      exact .broken
    | ok result =>
      obtain ⟨chars, kept⟩ := result
      rw [hdecode] at hsupply
      rcases htranslate : Newline.translate s.held false chars with ⟨ready, held⟩
      simp only [htranslate] at hsupply ⊢
      cases hsupply
      refine .more ⟨h.going, ?_, _, rfl, rfl⟩ (.inr ?_)
      · exact Chunk.density_le (List.length_take_le _ _) _
      · have hpos := List.length_pos_of_ne_nil hbytes
        rw [List.length_drop, Chunk.leastSize]
        omega

theorem Offers.pop {c : Char} {rest : List Char} (h : Offers s w stop)
    (hready : s.ready = c :: rest) :
    ∃ w', w = c :: w' ∧ Offers { s with ready := rest } w' stop := by
  obtain ⟨later, hw, hsupply⟩ := h.supply
  rw [hready, List.cons_append] at hw
  exact ⟨rest ++ later, hw, h.going, h.density, later, rfl, hsupply⟩

/-- What a reading of one character comes to. -/
inductive Delivered : (w : List Char) → (stop : Option (Utf8.Defect × Nat)) →
    Except Fault (List Char) × ByteStream → Prop
  | char {c : Char} {w : List Char} {stop : Option (Utf8.Defect × Nat)} {s' : ByteStream}
      (h : Offers s' w stop) : Delivered (c :: w) stop (.ok [c], s')
  | ended {s' : ByteStream} (h : Offers s' [] none) : Delivered [] none (.ok [], s')
  | broken {defect : Utf8.Defect} {start : Nat} {s' : ByteStream} :
      Delivered [] (some (defect, start)) (.error (.undecodable defect.reason start), s')

theorem Offers.readMany (h : Offers s w stop) {fuel : Nat}
    (hfuel : s.ready ≠ [] ∧ 0 < fuel ∨ s.bytes.length + 1 < fuel) :
    Delivered w stop (s.readMany fuel 1) := by
  induction fuel generalizing s w stop with
  | zero => omega
  | succ fuel ih =>
    cases hready : s.ready with
    | cons c rest =>
      obtain ⟨w', rfl, h'⟩ := h.pop hready
      simp only [ByteStream.readMany, hready]
      exact .char h'
    | nil =>
      have hfetched := h.fetch hready
      have hsame : { s with ready := [] } = s := by
        rw [← hready]
      simp only [ByteStream.readMany, hready, List.take_nil, List.drop_nil, hsame, List.length_nil,
        Nat.sub_zero, List.nil_append]
      have hbytes : s.bytes.length < fuel := by simpa [hready] using hfuel
      generalize s.fetch 1 = fetched at hfetched
      cases hfetched with
      | broken => exact .broken
      | ended h' => exact .ended h'
      | @more w stop s' h' hless =>
        have hfuel' : s'.ready ≠ [] ∧ 0 < fuel ∨ s'.bytes.length + 1 < fuel := by
          rcases hless with hne | hlt
          · exact .inl ⟨hne, by omega⟩
          · exact .inr (by omega)
        have hdelivered := ih h' hfuel'
        rcases hread : s'.readMany fuel 1 with ⟨result, s''⟩
        rw [hread] at hdelivered
        cases hdelivered with
        | char h'' =>
          simp only [hread]
          exact .char h''
        | ended h'' =>
          simp only [hread]
          exact .ended h''
        | broken =>
          simp only [hread]
          exact .broken

theorem Offers.read (h : Offers s w stop) :
    ∃ result s', stream.readOne s = (result.map String.ofList, s') ∧
      Delivered w stop (result, s') := by
  cases hready : s.ready with
  | cons c rest =>
    obtain ⟨w', rfl, h'⟩ := h.pop hready
    refine ⟨.ok [c], _, ?_, .char h'⟩
    simp [stream, ByteStream.read, h.going, hready]
  | nil =>
    have hdelivered : Delivered w stop (s.readMany (s.bytes.length + 3) 1) :=
      h.readMany (.inr (by omega))
    rcases hread : s.readMany (s.bytes.length + 3) 1 with ⟨result, s'⟩
    rw [hread] at hdelivered
    refine ⟨result, s', ?_, hdelivered⟩
    simp [stream, ByteStream.read, h.going, hready, hread]

theorem flatten_portions (bytes : List UInt8) : (portions bytes).flatten = bytes := by
  fun_induction portions bytes with
  | case1 => rfl
  | case2 bytes hne ih => rw [List.flatten_cons, ih, List.take_append_drop]

theorem length_supply_le (kept : List UInt8) (held : Bool) (chunks : List (List UInt8)) :
    (supply kept held chunks).1.length ≤ kept.length + chunks.flatten.length + held.toNat := by
  induction chunks generalizing kept held with
  | nil =>
    rw [supply]
    cases hdecode : Utf8.decode true kept with
    | error defect => exact Nat.zero_le _
    | ok result =>
      have hchars := Utf8.length_le_of_decode hdecode
      have htranslate := Newline.length_translate_le held true result.1
      simp only [List.flatten_nil, List.length_nil]
      omega
  | cons chunk chunks ih =>
    rw [supply]
    cases hdecode : Utf8.decode false (kept ++ chunk) with
    | error defect => exact Nat.zero_le _
    | ok result =>
      obtain ⟨chars, kept'⟩ := result
      have hchars := Utf8.length_le_of_decode hdecode
      have htranslate := Newline.length_translate_le held false chars
      have hlater := ih kept' (Newline.translate held false chars).2
      simp only [List.length_append, List.flatten_cons] at hchars ⊢
      omega

theorem Offers.length_le (h : Offers s w stop) : w.length ≤ stream.size s := by
  obtain ⟨later, rfl, hsupply⟩ := h.supply
  have hle := length_supply_le s.kept s.held (portions s.bytes)
  have hheld := Bool.toNat_le s.held
  rw [hsupply, flatten_portions] at hle
  simp only [stream, List.length_append] at hle ⊢
  omega

theorem hands (stop : Option (Utf8.Defect × Nat)) : stream.Hands fun s w => Offers s w stop where
  readOne_cons h := by
    obtain ⟨result, s', hread, hdelivered⟩ := h.read
    cases hdelivered with
    | char h' => exact ⟨s', hread, h'⟩
  close_ok s := ⟨s.close, rfl⟩
  length_le_size h := h.length_le

/-- A source over a byte stream hands out what the stream offers. -/
theorem Offers.exists_serves (h : Offers s w stop) (owns : Bool) :
    ∃ Holds, (Buffered.source stream).Serves Holds
        (stop.map fun defect => .undecodable defect.1.reason defect.2) ∧
      Holds { stream := s, ownsStream := owns } w := by
  cases stop with
  | none =>
    refine ⟨_, Buffered.delivers (hands none) ?_, .before (.unread h)⟩
    intro s' h'
    obtain ⟨result, s'', hread, hdelivered⟩ := h'.read
    cases hdelivered with
    | ended => exact ⟨s'', hread⟩
  | some defect =>
    refine ⟨_, Buffered.breaks (hands (some defect)) ?_, .unread h⟩
    intro s' h'
    obtain ⟨result, s'', hread, hdelivered⟩ := h'.read
    cases hdelivered with
    | broken => exact ⟨s'', hread⟩

end ByteStream

end FormulaLex
