import FormulaLex.Text.Utf8

/-!
Decoding in portions. The bytes of a sequence that a portion leaves open are kept and decoded again
in front of the next one, so that portions give the characters that all the bytes give at once; but
the start of a defect is counted from the kept bytes on.
-/
namespace FormulaLex.Utf8

/-- The sequence that is open behind some bytes, none of which are behind its start. -/
inductive Opens : Option Sequence → List UInt8 → Prop
  | nil : Opens none []
  | push {opened : Option Sequence} {bs : List UInt8} {b : UInt8} {s : Sequence}
      (h : Opens opened bs) (hb : Sequence.advance opened b = .ok s) (hs : s.following ≠ 0) :
      Opens (some s) (bs ++ [b])

theorem Sequence.bytes_advance {opened : Option Sequence} {b : UInt8} {s : Sequence}
    (h : Sequence.advance opened b = .ok s) :
    Sequence.bytes (some s) = Sequence.bytes opened ++ [b] := by
  cases opened with
  | none =>
    simp only [advance] at h
    split at h
    · next s' hs' =>
      cases h
      unfold ofLead? at hs'
      grind [Sequence.bytes]
    · cases h
  | some t =>
    simp only [advance] at h
    split at h
    · next s' hs' =>
      cases h
      unfold push? at hs'
      grind [Sequence.bytes]
    · cases h

theorem Opens.bytes_eq {opened : Option Sequence} {bs : List UInt8} (h : Opens opened bs) :
    Sequence.bytes opened = bs := by
  induction h with
  | nil => rfl
  | push h hb hs ih => rw [Sequence.bytes_advance hb, ih]

theorem Opens.ne_nil {s : Sequence} {bs : List UInt8} (h : Opens (some s) bs) : bs ≠ [] := by
  cases h
  simp

section Equations

variable {opened : Option Sequence} {offset : Nat} {b : UInt8} {rest : List UInt8} {s : Sequence}

theorem decodeFrom_of_defect {d : Defect} (h : Sequence.advance opened b = .error d) :
    decodeFrom opened offset (b :: rest) =
      ([], .defect d (offset - (Sequence.bytes opened).length)) := by
  cases opened <;> simp only [decodeFrom, h]

theorem decodeFrom_of_full (h : Sequence.advance opened b = .ok s) (hs : s.following = 0) :
    decodeFrom opened offset (b :: rest) =
      (Char.ofNat s.code :: (decodeFrom none (offset + 1) rest).1,
        (decodeFrom none (offset + 1) rest).2) := by
  cases opened <;> simp only [decodeFrom, h, hs, ↓reduceIte]

theorem decodeFrom_of_open (h : Sequence.advance opened b = .ok s) (hs : s.following ≠ 0) :
    decodeFrom opened offset (b :: rest) = decodeFrom (some s) (offset + 1) rest := by
  cases opened <;> simp only [decodeFrom, h, hs, ↓reduceIte]

end Equations

/-- Bytes that open a sequence need not be decoded again. -/
theorem Opens.decodeFrom_append {opened : Option Sequence} {bs : List UInt8} (h : Opens opened bs)
    (offset : Nat) (rest : List UInt8) :
    decodeFrom none offset (bs ++ rest) = decodeFrom opened (offset + bs.length) rest := by
  induction h generalizing rest with
  | nil => rfl
  | push h hb hs ih =>
    rw [List.append_assoc, ih, List.singleton_append, decodeFrom_of_open hb hs,
      List.length_append, List.length_singleton, Nat.add_assoc]

/-- The same ending, with the start of a defect counted from further in front. -/
def Ending.shift (n : Nat) : Ending → Ending
  | .defect d start => .defect d (n + start)
  | ending => ending

theorem decodeFrom_shift {opened : Option Sequence} {bs : List UInt8} (h : Opens opened bs)
    (offset n : Nat) (hle : bs.length ≤ offset) (rest : List UInt8) :
    decodeFrom opened (n + offset) rest =
      ((decodeFrom opened offset rest).1, (decodeFrom opened offset rest).2.shift n) := by
  induction rest generalizing opened bs offset with
  | nil => cases opened <;> rfl
  | cons b rest ih =>
    cases hb : Sequence.advance opened b with
    | error d =>
      rw [decodeFrom_of_defect hb, decodeFrom_of_defect hb, h.bytes_eq]
      simp only [Ending.shift, Prod.mk.injEq, Ending.defect.injEq, true_and]
      omega
    | ok s =>
      by_cases hs : s.following = 0
      · rw [decodeFrom_of_full hb hs, decodeFrom_of_full hb hs, Nat.add_assoc,
          ih .nil _ (Nat.zero_le _)]
      · rw [decodeFrom_of_open hb hs, decodeFrom_of_open hb hs, Nat.add_assoc]
        apply ih (h.push hb hs)
        rw [List.length_append, List.length_singleton]
        omega

theorem decodeFrom_append_of_complete {opened : Option Sequence} {offset : Nat} {xs : List UInt8}
    {chars : List Char} (h : decodeFrom opened offset xs = (chars, .complete)) (ys : List UInt8) :
    decodeFrom opened offset (xs ++ ys) =
      (chars ++ (decodeFrom none (offset + xs.length) ys).1,
        (decodeFrom none (offset + xs.length) ys).2) := by
  induction xs generalizing opened offset chars with
  | nil =>
    cases opened with
    | none =>
      cases h
      rfl
    | some s => cases h
  | cons b xs ih =>
    cases hb : Sequence.advance opened b with
    | error d =>
      rw [decodeFrom_of_defect hb] at h
      cases h
    | ok s =>
      rw [List.cons_append, List.length_cons, Nat.add_comm xs.length 1, ← Nat.add_assoc]
      by_cases hs : s.following = 0
      · rw [decodeFrom_of_full hb hs] at h ⊢
        obtain ⟨hchars, hending⟩ := Prod.mk.inj h
        rw [← hchars, ih (Prod.ext rfl hending), List.cons_append]
      · rw [decodeFrom_of_open hb hs] at h ⊢
        exact ih h

theorem decodeFrom_append_of_defect {opened : Option Sequence} {offset : Nat} {xs : List UInt8}
    {chars : List Char} {d : Defect} {start : Nat}
    (h : decodeFrom opened offset xs = (chars, .defect d start)) (ys : List UInt8) :
    decodeFrom opened offset (xs ++ ys) = (chars, .defect d start) := by
  induction xs generalizing opened offset chars with
  | nil => cases opened <;> cases h
  | cons b xs ih =>
    rw [List.cons_append]
    cases hb : Sequence.advance opened b with
    | error d =>
      rw [decodeFrom_of_defect hb] at h ⊢
      exact h
    | ok s =>
      by_cases hs : s.following = 0
      · rw [decodeFrom_of_full hb hs] at h ⊢
        obtain ⟨hchars, hending⟩ := Prod.mk.inj h
        rw [← hchars, ih (Prod.ext rfl hending)]
      · rw [decodeFrom_of_open hb hs] at h ⊢
        exact ih h

/-- What is cut off at the end is an open sequence; the bytes in front of it are complete. -/
theorem decodeFrom_of_cut {opened : Option Sequence} {bs xs tail : List UInt8} {offset : Nat}
    {chars : List Char} (h : Opens opened bs)
    (hcut : decodeFrom opened offset xs = (chars, .cut tail)) :
    ∃ front last, bs ++ xs = front ++ tail ∧ Opens (some last) tail ∧
      ∀ start, decodeFrom none start front = (chars, .complete) := by
  induction xs generalizing opened bs offset chars with
  | nil =>
    cases opened with
    | none => cases hcut
    | some s =>
      cases hcut
      rw [h.bytes_eq]
      exact ⟨[], s, List.append_nil bs, h, fun _ => rfl⟩
  | cons b xs ih =>
    cases hb : Sequence.advance opened b with
    | error d =>
      rw [decodeFrom_of_defect hb] at hcut
      cases hcut
    | ok s =>
      by_cases hs : s.following = 0
      · rw [decodeFrom_of_full hb hs] at hcut
        obtain ⟨hchars, hending⟩ := Prod.mk.inj hcut
        obtain ⟨front, last, hfront, htail, hcomplete⟩ := ih .nil (Prod.ext rfl hending)
        refine ⟨bs ++ b :: front, last, ?_, htail, ?_⟩
        · rw [List.append_assoc, List.cons_append, ← hfront, List.nil_append]
        · intro start
          rw [h.decodeFrom_append, decodeFrom_of_full hb hs, hcomplete, hchars]
      · rw [decodeFrom_of_open hb hs] at hcut
        obtain ⟨front, last, hfront, htail, hcomplete⟩ := ih (h.push hb hs) hcut
        rw [List.append_assoc, List.singleton_append] at hfront
        exact ⟨front, last, hfront, htail, hcomplete⟩

/-- A defect is one of the sequence that starts behind the complete bytes. -/
theorem decodeFrom_of_stopped {opened : Option Sequence} {bs xs : List UInt8} {offset : Nat}
    {chars : List Char} {d : Defect} {start : Nat} (h : Opens opened bs) (hle : bs.length ≤ offset)
    (hstopped : decodeFrom opened offset xs = (chars, .defect d start)) :
    ∃ front rest, bs ++ xs = front ++ rest ∧ start + bs.length = offset + front.length ∧
      (∀ k, decodeFrom none k front = (chars, .complete)) ∧
      decodeFrom none 0 rest = ([], .defect d 0) := by
  induction xs generalizing opened bs offset chars with
  | nil => cases opened <;> cases hstopped
  | cons b xs ih =>
    cases hb : Sequence.advance opened b with
    | error d' =>
      rw [decodeFrom_of_defect hb, h.bytes_eq] at hstopped
      cases hstopped
      refine ⟨[], bs ++ b :: xs, rfl, ?_, fun _ => rfl, ?_⟩
      · rw [List.length_nil]
        omega
      · rw [h.decodeFrom_append, decodeFrom_of_defect hb, h.bytes_eq, Nat.zero_add, Nat.sub_self]
    | ok s =>
      by_cases hs : s.following = 0
      · rw [decodeFrom_of_full hb hs] at hstopped
        obtain ⟨hchars, hending⟩ := Prod.mk.inj hstopped
        obtain ⟨front, rest, hsplit, hstart, hcomplete, hrest⟩ :=
          ih .nil (Nat.zero_le _) (Prod.ext rfl hending)
        refine ⟨bs ++ b :: front, rest, ?_, ?_, ?_, hrest⟩
        · rw [List.append_assoc, List.cons_append, ← hsplit, List.nil_append]
        · rw [List.length_append, List.length_cons]
          rw [List.length_nil] at hstart
          omega
        · intro k
          rw [h.decodeFrom_append, decodeFrom_of_full hb hs, hcomplete, hchars]
      · rw [decodeFrom_of_open hb hs] at hstopped
        have hle' : (bs ++ [b]).length ≤ offset + 1 := by
          rw [List.length_append, List.length_singleton]
          omega
        obtain ⟨front, rest, hsplit, hstart, hcomplete, hrest⟩ := ih (h.push hb hs) hle' hstopped
        rw [List.append_assoc, List.singleton_append] at hsplit
        rw [List.length_append, List.length_singleton] at hstart
        exact ⟨front, rest, hsplit, by omega, hcomplete, hrest⟩

/-- The result behind `n` more bytes that gave the characters `chars`. -/
def behind (chars : List Char) (n : Nat) :
    Except (Defect × Nat) (List Char × List UInt8) → Except (Defect × Nat) (List Char × List UInt8)
  | .ok (more, kept) => .ok (chars ++ more, kept)
  | .error (d, start) => .error (d, n + start)

theorem decode_append_of_complete {front : List UInt8} {chars : List Char}
    (h : decodeFrom none 0 front = (chars, .complete)) (final : Bool) (bytes : List UInt8) :
    decode final (front ++ bytes) = behind chars front.length (decode final bytes) := by
  have hshift := decodeFrom_shift .nil 0 front.length (Nat.le_refl 0) bytes
  have happend := decodeFrom_append_of_complete h bytes
  rw [Nat.zero_add, ← Nat.add_zero front.length, hshift] at happend
  rcases hbytes : decodeFrom none 0 bytes with ⟨more, ending⟩
  rw [hbytes] at happend
  cases ending with
  | complete => simp only [decode, happend, hbytes, Ending.shift, behind]
  | defect d start => simp only [decode, happend, hbytes, Ending.shift, behind]
  | cut tail =>
    simp only [decode, happend, hbytes, Ending.shift]
    cases final with
    | false => rfl
    | true =>
      -- The open sequence lies in the bytes behind the front.
      obtain ⟨rest, last, htail, -, -⟩ := decodeFrom_of_cut .nil hbytes
      have hlength : bytes.length = rest.length + tail.length := by
        rw [← List.length_append, ← htail, List.nil_append]
      simp only [↓reduceIte, behind, List.length_append, Except.error.injEq, Prod.mk.injEq,
        true_and]
      omega

/-- What a portion leaves open is decoded again in front of what comes next. -/
theorem decode_append {bytes kept : List UInt8} {chars : List Char}
    (h : decode false bytes = .ok (chars, kept)) :
    ∃ front, bytes = front ++ kept ∧ ∀ final more, decode final (bytes ++ more) =
      behind chars front.length (decode final (kept ++ more)) := by
  rcases hbytes : decodeFrom none 0 bytes with ⟨chars', ending⟩
  cases ending with
  | complete =>
    simp only [decode, hbytes] at h
    cases h
    refine ⟨bytes, (List.append_nil bytes).symm, ?_⟩
    intro final more
    rw [decode_append_of_complete hbytes, List.nil_append]
  | defect d start =>
    simp only [decode, hbytes] at h
    cases h
  | cut tail =>
    simp only [decode, hbytes, Bool.false_eq_true, ↓reduceIte] at h
    cases h
    obtain ⟨front, last, hfront, -, hcomplete⟩ := decodeFrom_of_cut .nil hbytes
    rw [List.nil_append] at hfront
    refine ⟨front, hfront, ?_⟩
    intro final more
    rw [hfront, List.append_assoc, decode_append_of_complete (hcomplete 0)]

/-- A portion that does not decode is as bad with anything behind it. -/
theorem decode_append_of_error {bytes : List UInt8} {e : Defect × Nat}
    (h : decode false bytes = .error e) (final : Bool) (more : List UInt8) :
    decode final (bytes ++ more) = .error e := by
  rcases hbytes : decodeFrom none 0 bytes with ⟨chars, ending⟩
  cases ending with
  | complete =>
    simp only [decode, hbytes] at h
    cases h
  | cut tail =>
    simp only [decode, hbytes, Bool.false_eq_true, ↓reduceIte] at h
    cases h
  | defect d start =>
    simp only [decode, hbytes] at h
    simp only [decode, decodeFrom_append_of_defect hbytes]
    exact h

/-- The bytes of an open sequence have no characters. -/
theorem decode_kept {bytes kept : List UInt8} {chars : List Char}
    (h : decode false bytes = .ok (chars, kept)) : decode false kept = .ok ([], kept) := by
  obtain ⟨front, hfront, happend⟩ := decode_append h
  have hagain := happend false []
  rw [List.append_nil, List.append_nil, h] at hagain
  cases hkept : decode false kept with
  | error e =>
    rw [hkept] at hagain
    cases hagain
  | ok result =>
    obtain ⟨more, kept'⟩ := result
    rw [hkept] at hagain
    obtain ⟨hchars, rfl⟩ := Prod.mk.inj (Except.ok.inj hagain)
    rw [List.self_eq_append_right.1 hchars]

theorem length_decodeFrom_le (opened : Option Sequence) (offset : Nat) (bytes : List UInt8) :
    (decodeFrom opened offset bytes).1.length ≤ bytes.length := by
  induction bytes generalizing opened offset with
  | nil => cases opened <;> exact Nat.le_refl 0
  | cons b bytes ih =>
    rw [List.length_cons]
    cases hb : Sequence.advance opened b with
    | error d =>
      rw [decodeFrom_of_defect hb]
      exact Nat.zero_le _
    | ok s =>
      by_cases hs : s.following = 0
      · rw [decodeFrom_of_full hb hs]
        exact Nat.succ_le_succ (ih none _)
      · rw [decodeFrom_of_open hb hs]
        exact Nat.le_succ_of_le (ih (some s) _)

theorem length_le_of_decode {final : Bool} {bytes kept : List UInt8} {chars : List Char}
    (h : decode final bytes = .ok (chars, kept)) : chars.length + kept.length ≤ bytes.length := by
  rcases hbytes : decodeFrom none 0 bytes with ⟨chars', ending⟩
  cases ending with
  | complete =>
    simp only [decode, hbytes] at h
    cases h
    have hle := length_decodeFrom_le none 0 bytes
    rw [hbytes] at hle
    exact hle
  | defect d start =>
    simp only [decode, hbytes] at h
    cases h
  | cut tail =>
    simp only [decode, hbytes] at h
    split at h
    · cases h
    · cases h
      obtain ⟨front, last, hfront, -, hcomplete⟩ := decodeFrom_of_cut .nil hbytes
      have hle := length_decodeFrom_le none 0 front
      rw [hcomplete 0] at hle
      rw [List.nil_append] at hfront
      rw [hfront, List.length_append]
      exact Nat.add_le_add_right hle _

end FormulaLex.Utf8
