import FormulaLex.Proofs.Supply

/-!
Bytes of a text that arrive in portions, of whatever sizes: however they are cut, inside a character
or between a carriage return and its newline, the portions give the text with all its line ends as
newlines.
-/
namespace FormulaLex

namespace Newline

/-- What a carriage return that was held back is put in front of. -/
def behindHeld (held : Bool) (chars : List Char) : List Char :=
  if held then '\r' :: chars else chars

/-- Texts may be cut anywhere but between a carriage return and its newline. -/
theorem normalize_append {front : List Char} (back : List Char)
    (h : front.getLast? ≠ some '\r' ∨ back.head? ≠ some '\n') :
    normalize (front ++ back) = normalize front ++ normalize back := by
  fun_induction normalize front with
  | case1 => rfl
  | case2 rest ih =>
    simp only [List.cons_append, normalize]
    rw [ih]
    cases rest with
    | nil => exact .inl nofun
    | cons c rest => simpa using h
  | case3 c rest hne ih =>
    have hne' : ∀ rest', c = '\r' → rest ++ back = '\n' :: rest' → False := by
      rintro rest' rfl happend
      cases rest with
      | nil =>
        rw [List.nil_append] at happend
        simp [happend] at h
      | cons d rest =>
        obtain ⟨rfl, -⟩ := List.cons.inj happend
        exact hne rest rfl rfl
    rw [List.cons_append, normalize]
    · rw [ih, List.cons_append]
      cases rest with
      | nil => exact .inl nofun
      | cons d rest => simpa using h
    · exact hne'

theorem translate_cons (held : Bool) (c : Char) (portion : List Char) :
    translate held false (c :: portion) =
      if (behindHeld held (c :: portion)).getLast? == some '\r' then
        (normalize (behindHeld held (c :: portion)).dropLast, true)
      else (normalize (behindHeld held (c :: portion)), false) :=
  rfl

/-- A portion in normal form, and what follows it behind what was held back. -/
theorem translate_append (held : Bool) (portion back : List Char) :
    (translate held false portion).1 ++
        normalize (behindHeld (translate held false portion).2 back) =
      normalize (behindHeld held (portion ++ back)) := by
  cases portion with
  | nil => rfl
  | cons c portion =>
    have hwhole : behindHeld held (c :: portion ++ back) =
        behindHeld held (c :: portion) ++ back := by
      cases held
      · rfl
      · rfl
    rw [hwhole, translate_cons]
    generalize behindHeld held (c :: portion) = whole
    split
    next hlast =>
      have hsplit : whole ++ back = whole.dropLast ++ '\r' :: back := by
        rw [← List.singleton_append, ← List.append_assoc,
          List.dropLast_append_getLast? _ (eq_of_beq hlast)]
      rw [hsplit, normalize_append]
      · rfl
      · exact .inr (by simp)
    next hlast => exact (normalize_append back (.inl (by simpa using hlast))).symm

end Newline

namespace ByteStream

/-- However the bytes of a text are cut, the portions give the text in normal form. -/
theorem supply_of_decode {kept rest : List UInt8} (held : Bool) {chunks : List (List UInt8)}
    {chars : List Char} (h : Utf8.decode true (kept ++ chunks.flatten) = .ok (chars, rest)) :
    supply kept held chunks = (Newline.normalize (Newline.behindHeld held chars), none) := by
  induction chunks generalizing kept held chars with
  | nil =>
    rw [List.flatten_nil, List.append_nil] at h
    simp [supply, h, Newline.translate, Newline.behindHeld]
  | cons chunk chunks ih =>
    rw [List.flatten_cons, ← List.append_assoc] at h
    cases hdecode : Utf8.decode false (kept ++ chunk) with
    | error e =>
      rw [Utf8.decode_append_of_error hdecode] at h
      cases h
    | ok result =>
      obtain ⟨front, kept'⟩ := result
      obtain ⟨bytes, -, happend⟩ := Utf8.decode_append hdecode
      rw [happend] at h
      cases hlater : Utf8.decode true (kept' ++ chunks.flatten) with
      | error e =>
        rw [hlater] at h
        cases h
      | ok later =>
        obtain ⟨back, rest'⟩ := later
        rw [hlater] at h
        cases h
        rw [supply, hdecode, ← Newline.translate_append]
        simp only [ih _ hlater]

end ByteStream

theorem ByteStream.decodeChunk_of_ok {decoder : ByteStream} {final : Bool}
    {chunk kept : List UInt8} {chars : List Char}
    (h : Utf8.decode final (decoder.kept ++ chunk) = .ok (chars, kept)) :
    decoder.decodeChunk final chunk = (.ok (Newline.translate decoder.held final chars).1,
      { decoder with kept, held := (Newline.translate decoder.held final chars).2 }) := by
  simp only [decodeChunk, h]

/-- A text stream over bytes that arrive in portions. Its decoder keeps the bytes of an open
sequence and the characters that are ready. -/
structure PortionStream where
  portions : List (List UInt8)
  decoder : ByteStream := { bytes := [] }

namespace PortionStream

/-- Decodes portions as long as no character is ready, and behind the last of them what was kept. -/
def refill (decoder : ByteStream) (portions : List (List UInt8)) :
    Except Fault Unit × PortionStream :=
  if decoder.ready ≠ [] then (.ok (), ⟨portions, decoder⟩)
  else match portions with
    | [] =>
      match decoder.decodeChunk true [] with
      | (.error e, decoder) => (.error e, ⟨[], decoder⟩)
      | (.ok ready, decoder) => (.ok (), ⟨[], { decoder with ready }⟩)
    | portion :: portions =>
      match decoder.decodeChunk false portion with
      | (.error e, decoder) => (.error e, ⟨portions, decoder⟩)
      | (.ok ready, decoder) => refill { decoder with ready } portions

/-- The next character that is ready, if one is. -/
def pop (s : PortionStream) : String × PortionStream :=
  let { portions, decoder } := s
  (String.ofList decoder.ready.head?.toList,
    ⟨portions, { decoder with ready := decoder.ready.tail }⟩)

def stream : TextStream PortionStream Fault where
  readOne s :=
    if s.decoder.closed then (.error .closedBytes, s)
    else match refill s.decoder s.portions with
      | (.error e, s) => (.error e, s)
      | (.ok _, s) => (.ok s.pop.1, s.pop.2)
  close s := (.ok (), { s with decoder := s.decoder.close })
  size s := s.portions.flatten.length + s.decoder.kept.length + s.decoder.ready.length + 1

/-- The stream has the characters `w` to deliver, and then it ends. -/
structure Offers (s : PortionStream) (w : List Char) : Prop where
  going : s.decoder.closed = false
  supply : ∃ later, w = s.decoder.ready ++ later ∧
    ByteStream.supply s.decoder.kept s.decoder.held s.portions = (later, none)

variable {decoder : ByteStream} {portions : List (List UInt8)} {s : PortionStream} {w : List Char}

theorem refill_of_ready (h : decoder.ready ≠ []) :
    refill decoder portions = (.ok (), ⟨portions, decoder⟩) := by
  rw [refill.eq_def, if_pos h]

theorem Offers.refill (h : Offers ⟨portions, decoder⟩ w) :
    ∃ s, PortionStream.refill decoder portions = (.ok (), s) ∧ s.Offers w ∧
      (s.decoder.ready = [] → w = []) := by
  induction portions generalizing decoder with
  | nil =>
    by_cases hready : decoder.ready = []
    · obtain ⟨hgoing, later, hw, hsupply⟩ := h
      dsimp only at hw hsupply
      rw [hready, List.nil_append] at hw
      cases hdecode : Utf8.decode true decoder.kept with
      | error e => simp [ByteStream.supply, hdecode] at hsupply
      | ok result =>
        obtain ⟨chars, kept⟩ := result
        cases ByteStream.decode_final hdecode
        have hheld := Newline.held_final decoder.held chars
        rcases htranslate : Newline.translate decoder.held true chars with ⟨ready, held⟩
        simp only [ByteStream.supply, hdecode, htranslate] at hheld hsupply
        cases hsupply
        subst hheld hw
        rw [← List.append_nil decoder.kept] at hdecode
        rw [PortionStream.refill, if_neg (not_not_intro hready),
          ByteStream.decodeChunk_of_ok hdecode, htranslate]
        exact ⟨_, rfl, ⟨hgoing, [], (List.append_nil w).symm, rfl⟩, id⟩
    · exact ⟨_, refill_of_ready hready, h, fun hnil => absurd hnil hready⟩
  | cons portion portions ih =>
    by_cases hready : decoder.ready = []
    · obtain ⟨hgoing, later, hw, hsupply⟩ := h
      dsimp only at hw hsupply
      rw [hready, List.nil_append] at hw
      cases hdecode : Utf8.decode false (decoder.kept ++ portion) with
      | error e => simp [ByteStream.supply, hdecode] at hsupply
      | ok result =>
        obtain ⟨chars, kept⟩ := result
        rcases htranslate : Newline.translate decoder.held false chars with ⟨ready, held⟩
        rcases hlater : ByteStream.supply kept held portions with ⟨more, stop⟩
        simp only [ByteStream.supply, hdecode, htranslate, hlater] at hsupply
        cases hsupply
        rw [PortionStream.refill, if_neg (not_not_intro hready),
          ByteStream.decodeChunk_of_ok hdecode, htranslate]
        exact ih ⟨hgoing, more, hw, hlater⟩
    · exact ⟨_, refill_of_ready hready, h, fun hnil => absurd hnil hready⟩

theorem Offers.pop (h : s.Offers w) (hend : s.decoder.ready = [] → w = []) :
    s.pop.1 = String.ofList w.head?.toList ∧ s.pop.2.Offers w.tail := by
  obtain ⟨hgoing, later, rfl, hsupply⟩ := h
  cases hready : s.decoder.ready with
  | nil =>
    have hlater : later = [] := by simpa [hready] using hend
    subst hlater
    refine ⟨by simp [PortionStream.pop, hready], hgoing, [], ?_, hsupply⟩
    simp [PortionStream.pop, hready]
  | cons c ready =>
    refine ⟨by simp [PortionStream.pop, hready], hgoing, later, ?_, hsupply⟩
    simp [PortionStream.pop, hready]

theorem Offers.read (h : s.Offers w) :
    ∃ s', stream.readOne s = (.ok (String.ofList w.head?.toList), s') ∧ s'.Offers w.tail := by
  obtain ⟨s', hrefill, hoffers, hend⟩ := h.refill
  obtain ⟨hchar, hrest⟩ := hoffers.pop hend
  exact ⟨_, by simp [stream, h.going, hrefill, hchar], hrest⟩

theorem hands : stream.Hands Offers where
  readOne_cons h := by
    obtain ⟨s', hread, h'⟩ := h.read
    exact ⟨s', hread, h'⟩
  close_ok s := ⟨_, rfl⟩
  length_le_size {s _} h := by
    obtain ⟨later, rfl, hsupply⟩ := h.supply
    have hle := ByteStream.length_supply_le s.decoder.kept s.decoder.held s.portions
    have hheld := Bool.toNat_le s.decoder.held
    rw [hsupply] at hle
    simp only [stream, List.length_append] at hle ⊢
    omega

theorem delivers : (Buffered.source stream).Delivers (Buffered.AwaitsEnd Offers) := by
  apply Buffered.delivers hands
  intro s h
  obtain ⟨s', hread, -⟩ := h.read
  exact ⟨s', hread⟩

end PortionStream

end FormulaLex
