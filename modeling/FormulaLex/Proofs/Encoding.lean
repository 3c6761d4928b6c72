import FormulaLex.Proofs.Decoding

/-!
Strict decoding against the encoding of characters: the sequences that decode are the encodings of
characters and no others, and a defect starts where no encoding does.
-/
namespace FormulaLex.Utf8

open String (utf8EncodeChar)

namespace Sequence

/-- A first byte opens a sequence of one to four, and bounds the second byte. -/
theorem ofLead?_cases {b : UInt8} {s : Sequence} (h : ofLead? b = some s) :
    s.seen = [b] ∧
      (b.toNat < 0x80 ∧ s.following = 0 ∧ s.code = b.toNat ∨
      0xC2 ≤ b.toNat ∧ b.toNat < 0xE0 ∧ s.following = 1 ∧ s.code = b.toNat - 0xC0 ∧
        s.low.toNat = 0x80 ∧ s.high.toNat = 0xBF ∨
      0xE0 ≤ b.toNat ∧ b.toNat < 0xF0 ∧ s.following = 2 ∧ s.code = b.toNat - 0xE0 ∧
        (b.toNat = 0xE0 ∧ s.low.toNat = 0xA0 ∨ b.toNat ≠ 0xE0 ∧ s.low.toNat = 0x80) ∧
        s.high.toNat = 0xBF ∨
      0xF0 ≤ b.toNat ∧ b.toNat < 0xF5 ∧ s.following = 3 ∧ s.code = b.toNat - 0xF0 ∧
        (b.toNat = 0xF0 ∧ s.low.toNat = 0x90 ∨ b.toNat ≠ 0xF0 ∧ s.low.toNat = 0x80) ∧
        (b.toNat = 0xF4 ∧ s.high.toNat = 0x8F ∨ b.toNat ≠ 0xF4 ∧ s.high.toNat = 0xBF)) := by
  have hnumbers : UInt8.toNat 0x80 = 0x80 ∧ UInt8.toNat 0xC2 = 0xC2 ∧ UInt8.toNat 0xE0 = 0xE0 ∧
      UInt8.toNat 0xF0 = 0xF0 ∧ UInt8.toNat 0xF4 = 0xF4 ∧ UInt8.toNat 0xF5 = 0xF5 :=
    ⟨rfl, rfl, rfl, rfl, rfl, rfl⟩
  simp only [ofLead?, UInt8.lt_iff_toNat_lt, ← UInt8.toNat_inj, hnumbers] at h
  split at h
  · cases h
    exact ⟨rfl, .inl ⟨‹_›, rfl, rfl⟩⟩
  split at h
  · cases h
  split at h
  · cases h
    exact ⟨rfl, .inr (.inl ⟨by omega, by omega, rfl, rfl, rfl, rfl⟩)⟩
  split at h
  · cases h
    refine ⟨rfl, .inr (.inr (.inl ⟨by omega, by omega, rfl, rfl, ?_, rfl⟩))⟩
    dsimp only
    split
    · exact .inl ⟨‹_›, rfl⟩
    · exact .inr ⟨‹_›, rfl⟩
  split at h
  · cases h
    refine ⟨rfl, .inr (.inr (.inr ⟨by omega, by omega, rfl, rfl, ?_, ?_⟩))⟩
    · dsimp only
      split
      · exact .inl ⟨‹_›, rfl⟩
      · exact .inr ⟨‹_›, rfl⟩
    · dsimp only
      split
      · exact .inl ⟨‹_›, rfl⟩
      · exact .inr ⟨‹_›, rfl⟩
  · cases h

theorem exists_ofLead? {b : UInt8}
    (h : b.toNat < 0x80 ∨ 0xC2 ≤ b.toNat ∧ b.toNat < 0xF5) : ∃ s, ofLead? b = some s := by
  have hnumbers : UInt8.toNat 0x80 = 0x80 ∧ UInt8.toNat 0xC2 = 0xC2 ∧ UInt8.toNat 0xF5 = 0xF5 :=
    ⟨rfl, rfl, rfl⟩
  simp only [ofLead?, UInt8.lt_iff_toNat_lt, hnumbers]
  split
  · exact ⟨_, rfl⟩
  split
  · omega
  split
  · exact ⟨_, rfl⟩
  split
  · exact ⟨_, rfl⟩
  split
  · exact ⟨_, rfl⟩
  · omega

/-- The sequence with one more byte, allowed or not. -/
def pushed (s : Sequence) (b : UInt8) : Sequence :=
  { seen := b :: s.seen, following := s.following - 1, code := s.code * 64 + (b.toNat - 0x80) }

theorem push?_eq_some_iff {s s' : Sequence} {b : UInt8} : s.push? b = some s' ↔
    (s.low.toNat ≤ b.toNat ∧ b.toNat ≤ s.high.toNat ∧ startsSurrogate s.seen = false) ∧
      s.pushed b = s' := by
  have hallowed : (s.low ≤ b && b ≤ s.high && !startsSurrogate s.seen) = true ↔
      s.low.toNat ≤ b.toNat ∧ b.toNat ≤ s.high.toNat ∧ startsSurrogate s.seen = false := by
    simp [UInt8.le_iff_toNat_le, and_assoc]
  unfold push?
  split
  next hb => simp only [hallowed.1 hb, true_and, Option.some.injEq, pushed]
  next hb => simp only [← hallowed, hb, Bool.false_eq_true, false_and, reduceCtorEq]

theorem push?_of_lead {b₀ b : UInt8} {s : Sequence} (hb₀ : ofLead? b₀ = some s)
    (hlow : s.low.toNat ≤ b.toNat) (hhigh : b.toNat ≤ s.high.toNat) :
    s.push? b = some (s.pushed b) := by
  have hseen := (ofLead?_cases hb₀).1
  exact push?_eq_some_iff.2 ⟨⟨hlow, hhigh, by rw [hseen]; rfl⟩, rfl⟩

theorem not_startsSurrogate_iff {b₀ b₁ : UInt8} :
    startsSurrogate [b₁, b₀] = false ↔ ¬ (b₀.toNat = 0xED ∧ 0xA0 ≤ b₁.toNat) := by
  have hnumbers : UInt8.toNat 0xED = 0xED ∧ UInt8.toNat 0xA0 = 0xA0 := ⟨rfl, rfl⟩
  simp [startsSurrogate, ← UInt8.toNat_inj, UInt8.le_iff_toNat_le, hnumbers]

end Sequence

theorem toNat_ofNat_of_valid {n : Nat} (h : n.isValidChar) : (Char.ofNat n).val.toNat = n := by
  rw [Char.ofNat, dif_pos h]
  rfl

theorem ofNat_eq {n : Nat} {b : UInt8} (h : n = b.toNat) : UInt8.ofNat n = b := by
  rw [h, UInt8.ofNat_toNat]

section Full

variable {b₀ b₁ b₂ b₃ : UInt8} {s₀ s₁ s₂ s : Sequence} (hb₀ : Sequence.ofLead? b₀ = some s₀)
  (hb₁ : s₀.push? b₁ = some s₁) (hb₂ : s₁.push? b₂ = some s₂) (hb₃ : s₂.push? b₃ = some s)

include hb₀ in
theorem encode_one (hs : s₀.following = 0) : utf8EncodeChar (Char.ofNat s₀.code) = [b₀] := by
  obtain ⟨-, hlead⟩ := Sequence.ofLead?_cases hb₀
  have hvalid : s₀.code.isValidChar := .inl (by omega)
  rw [utf8EncodeChar, toNat_ofNat_of_valid hvalid]
  rw [if_pos (by omega), ofNat_eq (b := b₀) (by omega)]

include hb₀ hb₁ in
theorem encode_two (hs₀ : s₀.following ≠ 0) (hs : s₁.following = 0) :
    utf8EncodeChar (Char.ofNat s₁.code) = [b₀, b₁] := by
  obtain ⟨-, hlead⟩ := Sequence.ofLead?_cases hb₀
  obtain ⟨⟨hlow, hhigh, -⟩, rfl⟩ := Sequence.push?_eq_some_iff.1 hb₁
  dsimp only [Sequence.pushed] at hs ⊢
  generalize hv : s₀.code * 64 + (b₁.toNat - 0x80) = v
  have hvalid : v.isValidChar := .inl (by omega)
  rw [utf8EncodeChar, toNat_ofNat_of_valid hvalid]
  rw [if_neg (by omega), if_pos (by omega), ofNat_eq (b := b₀) (by omega),
    ofNat_eq (b := b₁) (by omega)]

include hb₀ hb₁ hb₂ in
theorem encode_three (hs₁ : s₁.following ≠ 0) (hs : s₂.following = 0) :
    utf8EncodeChar (Char.ofNat s₂.code) = [b₀, b₁, b₂] := by
  obtain ⟨hseen, hlead⟩ := Sequence.ofLead?_cases hb₀
  obtain ⟨⟨hlow₁, hhigh₁, -⟩, rfl⟩ := Sequence.push?_eq_some_iff.1 hb₁
  obtain ⟨⟨hlow₂, hhigh₂, hsurrogate⟩, rfl⟩ := Sequence.push?_eq_some_iff.1 hb₂
  have hrange : UInt8.toNat 0x80 = 0x80 ∧ UInt8.toNat 0xBF = 0xBF := ⟨rfl, rfl⟩
  dsimp only [Sequence.pushed] at hs hs₁ hlow₂ hhigh₂ hsurrogate ⊢
  rw [hseen, Sequence.not_startsSurrogate_iff] at hsurrogate
  generalize hv : (s₀.code * 64 + (b₁.toNat - 0x80)) * 64 + (b₂.toNat - 0x80) = v
  have hbounds : 0x800 ≤ v ∧ v < 0x10000 ∧ (v < 0xD800 ∨ 0xDFFF < v) := by omega
  have hvalid : v.isValidChar := by
    unfold Nat.isValidChar
    omega
  rw [utf8EncodeChar, toNat_ofNat_of_valid hvalid]
  rw [if_neg (by omega), if_neg (by omega), if_pos (by omega), ofNat_eq (b := b₀) (by omega),
    ofNat_eq (b := b₁) (by omega), ofNat_eq (b := b₂) (by omega)]

include hb₀ hb₁ hb₂ hb₃ in
theorem encode_four (hs₂ : s₂.following ≠ 0) (hs : s.following = 0) :
    utf8EncodeChar (Char.ofNat s.code) = [b₀, b₁, b₂, b₃] := by
  obtain ⟨-, hlead⟩ := Sequence.ofLead?_cases hb₀
  obtain ⟨⟨hlow₁, hhigh₁, -⟩, rfl⟩ := Sequence.push?_eq_some_iff.1 hb₁
  obtain ⟨⟨hlow₂, hhigh₂, -⟩, rfl⟩ := Sequence.push?_eq_some_iff.1 hb₂
  obtain ⟨⟨hlow₃, hhigh₃, -⟩, rfl⟩ := Sequence.push?_eq_some_iff.1 hb₃
  have hrange : UInt8.toNat 0x80 = 0x80 ∧ UInt8.toNat 0xBF = 0xBF := ⟨rfl, rfl⟩
  dsimp only [Sequence.pushed] at hs hs₂ hlow₂ hhigh₂ hlow₃ hhigh₃ ⊢
  generalize hv : ((s₀.code * 64 + (b₁.toNat - 0x80)) * 64 + (b₂.toNat - 0x80)) * 64 +
    (b₃.toNat - 0x80) = v
  have hbounds : 0x10000 ≤ v ∧ v < 0x110000 := by omega
  have hvalid : v.isValidChar := .inr (by omega)
  rw [utf8EncodeChar, toNat_ofNat_of_valid hvalid]
  rw [if_neg (by omega), if_neg (by omega), if_neg (by omega), ofNat_eq (b := b₀) (by omega),
    ofNat_eq (b := b₁) (by omega), ofNat_eq (b := b₂) (by omega), ofNat_eq (b := b₃) (by omega)]

end Full

theorem advance_none_iff {b : UInt8} {s : Sequence} :
    Sequence.advance none b = .ok s ↔ Sequence.ofLead? b = some s := by
  simp only [Sequence.advance]
  cases Sequence.ofLead? b <;> simp

theorem advance_some_iff {b : UInt8} {s s' : Sequence} :
    Sequence.advance (some s) b = .ok s' ↔ s.push? b = some s' := by
  simp only [Sequence.advance]
  cases s.push? b <;> simp

theorem Opens.length_le {opened : Option Sequence} {bs : List UInt8} (h : Opens opened bs) :
    ∀ s ∈ opened, s.following + bs.length ≤ 4 := by
  induction h with
  | nil => exact nofun
  | @push opened bs b s h hb hs ih =>
    intro s' hs'
    cases hs'
    rw [List.length_append, List.length_singleton]
    cases h with
    | nil =>
      obtain ⟨-, hlead⟩ := Sequence.ofLead?_cases (advance_none_iff.1 hb)
      rw [List.length_nil]
      omega
    | push h hb' hs₀ =>
      have hle := ih _ rfl
      obtain ⟨-, rfl⟩ := Sequence.push?_eq_some_iff.1 (advance_some_iff.1 hb)
      dsimp only [Sequence.pushed]
      omega

/-- A sequence that lacks nothing is the encoding of its character. -/
theorem Opens.encode {opened : Option Sequence} {bs : List UInt8} (h : Opens opened bs) {b : UInt8}
    {s : Sequence} (hb : Sequence.advance opened b = .ok s) (hs : s.following = 0) :
    utf8EncodeChar (Char.ofNat s.code) = bs ++ [b] := by
  cases h with
  | nil => exact encode_one (advance_none_iff.1 hb) hs
  | push h hb₀ hs₀ =>
    rw [advance_some_iff] at hb
    cases h with
    | nil => exact encode_two (advance_none_iff.1 hb₀) hb hs₀ hs
    | push h hb₁ hs₁ =>
      rw [advance_some_iff] at hb₀
      cases h with
      | nil => exact encode_three (advance_none_iff.1 hb₁) hb₀ hb hs₀ hs
      | push h hb₂ hs₂ =>
        rw [advance_some_iff] at hb₁
        cases h with
        | nil => exact encode_four (advance_none_iff.1 hb₂) hb₁ hb₀ hb hs₀ hs
        | push h hb₃ hs₃ =>
          -- A fifth byte never comes.
          have hle := (h.push hb₃ hs₃).length_le _ rfl
          obtain ⟨-, rfl⟩ := Sequence.push?_eq_some_iff.1 (advance_some_iff.1 hb₂)
          obtain ⟨-, rfl⟩ := Sequence.push?_eq_some_iff.1 hb₁
          obtain ⟨-, rfl⟩ := Sequence.push?_eq_some_iff.1 hb₀
          simp only [List.length_append, List.length_singleton] at hle
          dsimp only [Sequence.pushed] at hs₀
          omega

theorem encode_of_complete {opened : Option Sequence} {bs xs : List UInt8} {offset : Nat}
    {chars : List Char} (h : Opens opened bs)
    (hcomplete : decodeFrom opened offset xs = (chars, .complete)) :
    bs ++ xs = chars.flatMap utf8EncodeChar := by
  induction xs generalizing opened bs offset chars with
  | nil =>
    cases h with
    | nil =>
      cases hcomplete
      rfl
    | push h hb hs => cases hcomplete
  | cons b xs ih =>
    cases hb : Sequence.advance opened b with
    | error d =>
      rw [decodeFrom_of_defect hb] at hcomplete
      cases hcomplete
    | ok s =>
      by_cases hs : s.following = 0
      · rw [decodeFrom_of_full hb hs] at hcomplete
        obtain ⟨hchars, hending⟩ := Prod.mk.inj hcomplete
        have hrest := ih .nil (Prod.ext rfl hending)
        rw [List.nil_append] at hrest
        rw [← hchars, List.flatMap_cons, ← hrest, h.encode hb hs, List.append_assoc,
          List.singleton_append]
      · rw [decodeFrom_of_open hb hs] at hcomplete
        rw [← ih (h.push hb hs) hcomplete, List.append_assoc, List.singleton_append]

/-- With the byte `b` behind the bytes `bs`, a sequence of the given code is whole. -/
def Closes (bs : List UInt8) (b : UInt8) (code : Nat) : Prop :=
  ∃ opened s, Opens opened bs ∧ Sequence.advance opened b = .ok s ∧ s.following = 0 ∧ s.code = code

section Pushed

variable {b : UInt8} {bs : List UInt8} {s : Sequence}

theorem Opens.lead (hb : Sequence.ofLead? b = some s) (hs : s.following ≠ 0) :
    Opens (some s) [b] :=
  Opens.nil.push (advance_none_iff.2 hb) hs

theorem Opens.pushed (h : Opens (some s) bs) (hb : s.push? b = some (s.pushed b))
    (hs : 1 < s.following) : Opens (some (s.pushed b)) (bs ++ [b]) := by
  refine h.push (advance_some_iff.2 hb) ?_
  dsimp only [Sequence.pushed]
  omega

theorem Opens.closes (h : Opens (some s) bs) (hb : s.push? b = some (s.pushed b))
    (hs : s.following = 1) : Closes bs b (s.pushed b).code := by
  refine ⟨some s, s.pushed b, h, advance_some_iff.2 hb, ?_, rfl⟩
  dsimp only [Sequence.pushed]
  omega

end Pushed

section Closes

variable {b₀ b₁ b₂ b₃ : UInt8}

theorem closes_one (h₀ : b₀.toNat < 0x80) {code : Nat} (hcode : code = b₀.toNat) :
    Closes [] b₀ code := by
  obtain ⟨s₀, hb₀⟩ := Sequence.exists_ofLead? (.inl h₀)
  obtain ⟨-, hlead⟩ := Sequence.ofLead?_cases hb₀
  exact ⟨none, s₀, .nil, advance_none_iff.2 hb₀, by omega, by omega⟩

variable (h₁ : 0x80 ≤ b₁.toNat ∧ b₁.toNat ≤ 0xBF) (h₂ : 0x80 ≤ b₂.toNat ∧ b₂.toNat ≤ 0xBF)
  (h₃ : 0x80 ≤ b₃.toNat ∧ b₃.toNat ≤ 0xBF)

include h₁ in
theorem closes_two (h₀ : 0xC2 ≤ b₀.toNat ∧ b₀.toNat < 0xE0) {code : Nat}
    (hcode : code = (b₀.toNat - 0xC0) * 64 + (b₁.toNat - 0x80)) : Closes [b₀] b₁ code := by
  obtain ⟨s₀, hb₀⟩ := Sequence.exists_ofLead? (b := b₀) (.inr (by omega))
  obtain ⟨-, hlead⟩ := Sequence.ofLead?_cases hb₀
  have hb₁ : s₀.push? b₁ = some (s₀.pushed b₁) :=
    Sequence.push?_of_lead hb₀ (by omega) (by omega)
  have hcode₁ : (s₀.pushed b₁).code = code := by
    dsimp only [Sequence.pushed]
    omega
  rw [← hcode₁]
  exact (Opens.lead hb₀ (by omega)).closes hb₁ (by omega)

include h₁ h₂ in
theorem closes_three (h₀ : 0xE0 ≤ b₀.toNat ∧ b₀.toNat < 0xF0)
    (hoverlong : b₀.toNat = 0xE0 → 0xA0 ≤ b₁.toNat)
    (hsurrogate : ¬ (b₀.toNat = 0xED ∧ 0xA0 ≤ b₁.toNat)) {code : Nat}
    (hcode : code = ((b₀.toNat - 0xE0) * 64 + (b₁.toNat - 0x80)) * 64 + (b₂.toNat - 0x80)) :
    Closes [b₀, b₁] b₂ code := by
  obtain ⟨s₀, hb₀⟩ := Sequence.exists_ofLead? (b := b₀) (.inr (by omega))
  obtain ⟨hseen, hlead⟩ := Sequence.ofLead?_cases hb₀
  have hb₁ : s₀.push? b₁ = some (s₀.pushed b₁) :=
    Sequence.push?_of_lead hb₀ (by omega) (by omega)
  have hseen₁ : startsSurrogate (s₀.pushed b₁).seen = false := by
    rw [Sequence.pushed, hseen]
    exact Sequence.not_startsSurrogate_iff.2 hsurrogate
  have hb₂ : (s₀.pushed b₁).push? b₂ = some ((s₀.pushed b₁).pushed b₂) :=
    Sequence.push?_eq_some_iff.2 ⟨⟨h₂.1, h₂.2, hseen₁⟩, rfl⟩
  have hopens : Opens (some (s₀.pushed b₁)) [b₀, b₁] :=
    (Opens.lead hb₀ (by omega)).pushed hb₁ (by omega)
  have hcode₂ : ((s₀.pushed b₁).pushed b₂).code = code := by
    dsimp only [Sequence.pushed]
    omega
  have hfollowing : (s₀.pushed b₁).following = 1 := by
    dsimp only [Sequence.pushed]
    omega
  rw [← hcode₂]
  exact hopens.closes hb₂ hfollowing

include h₁ h₂ h₃ in
theorem closes_four (h₀ : 0xF0 ≤ b₀.toNat ∧ b₀.toNat < 0xF5)
    (hoverlong : b₀.toNat = 0xF0 → 0x90 ≤ b₁.toNat) (hlast : b₀.toNat = 0xF4 → b₁.toNat ≤ 0x8F)
    {code : Nat} (hcode : code = (((b₀.toNat - 0xF0) * 64 + (b₁.toNat - 0x80)) * 64 +
      (b₂.toNat - 0x80)) * 64 + (b₃.toNat - 0x80)) : Closes [b₀, b₁, b₂] b₃ code := by
  obtain ⟨s₀, hb₀⟩ := Sequence.exists_ofLead? (b := b₀) (.inr (by omega))
  obtain ⟨hseen, hlead⟩ := Sequence.ofLead?_cases hb₀
  have hb₁ : s₀.push? b₁ = some (s₀.pushed b₁) :=
    Sequence.push?_of_lead hb₀ (by omega) (by omega)
  have hseen₁ : startsSurrogate (s₀.pushed b₁).seen = false := by
    rw [Sequence.pushed, hseen]
    exact Sequence.not_startsSurrogate_iff.2 (by omega)
  have hb₂ : (s₀.pushed b₁).push? b₂ = some ((s₀.pushed b₁).pushed b₂) :=
    Sequence.push?_eq_some_iff.2 ⟨⟨h₂.1, h₂.2, hseen₁⟩, rfl⟩
  have hseen₂ : startsSurrogate ((s₀.pushed b₁).pushed b₂).seen = false := by
    rw [Sequence.pushed, Sequence.pushed, hseen]
    rfl
  have hb₃ : ((s₀.pushed b₁).pushed b₂).push? b₃ = some (((s₀.pushed b₁).pushed b₂).pushed b₃) :=
    Sequence.push?_eq_some_iff.2 ⟨⟨h₃.1, h₃.2, hseen₂⟩, rfl⟩
  have hfollowing₁ : (s₀.pushed b₁).following = 2 := by
    dsimp only [Sequence.pushed]
    omega
  have hfollowing₂ : ((s₀.pushed b₁).pushed b₂).following = 1 := by
    dsimp only [Sequence.pushed] at hfollowing₁ ⊢
    omega
  have hopens : Opens (some ((s₀.pushed b₁).pushed b₂)) [b₀, b₁, b₂] :=
    ((Opens.lead hb₀ (by omega)).pushed hb₁ (by omega)).pushed hb₂ (by omega)
  have hcode₃ : (((s₀.pushed b₁).pushed b₂).pushed b₃).code = code := by
    dsimp only [Sequence.pushed]
    omega
  rw [← hcode₃]
  exact hopens.closes hb₃ hfollowing₂

end Closes

theorem closes_encodeChar (c : Char) :
    ∃ bs b, utf8EncodeChar c = bs ++ [b] ∧ Closes bs b c.val.toNat := by
  have hvalid : c.val.toNat.isValidChar := c.valid
  have hbyte (n : Nat) : (UInt8.ofNat n).toNat = n % 256 := UInt8.toNat_ofNat'
  unfold Nat.isValidChar at hvalid
  unfold utf8EncodeChar
  generalize c.val.toNat = v at hvalid ⊢
  dsimp only
  split
  · have h₀ := hbyte v
    generalize UInt8.ofNat v = b₀ at h₀ ⊢
    exact ⟨[], b₀, rfl, closes_one (by omega) (by omega)⟩
  split
  · have h₀ := hbyte (v / 64 % 32 + 192)
    have h₁ := hbyte (v % 64 + 128)
    generalize UInt8.ofNat (v / 64 % 32 + 192) = b₀ at h₀ ⊢
    generalize UInt8.ofNat (v % 64 + 128) = b₁ at h₁ ⊢
    exact ⟨[b₀], b₁, rfl, closes_two (by omega) (by omega) (by omega)⟩
  split
  · have h₀ := hbyte (v / 4096 % 16 + 224)
    have h₁ := hbyte (v / 64 % 64 + 128)
    have h₂ := hbyte (v % 64 + 128)
    generalize UInt8.ofNat (v / 4096 % 16 + 224) = b₀ at h₀ ⊢
    generalize UInt8.ofNat (v / 64 % 64 + 128) = b₁ at h₁ ⊢
    generalize UInt8.ofNat (v % 64 + 128) = b₂ at h₂ ⊢
    exact ⟨[b₀, b₁], b₂, rfl,
      closes_three (by omega) (by omega) (by omega) (by omega) (by omega) (by omega)⟩
  · have h₀ := hbyte (v / 262144 % 8 + 240)
    have h₁ := hbyte (v / 4096 % 64 + 128)
    have h₂ := hbyte (v / 64 % 64 + 128)
    have h₃ := hbyte (v % 64 + 128)
    generalize UInt8.ofNat (v / 262144 % 8 + 240) = b₀ at h₀ ⊢
    generalize UInt8.ofNat (v / 4096 % 64 + 128) = b₁ at h₁ ⊢
    generalize UInt8.ofNat (v / 64 % 64 + 128) = b₂ at h₂ ⊢
    generalize UInt8.ofNat (v % 64 + 128) = b₃ at h₃ ⊢
    exact ⟨[b₀, b₁, b₂], b₃, rfl,
      closes_four (by omega) (by omega) (by omega) (by omega) (by omega) (by omega) (by omega)⟩

theorem decodeFrom_encodeChar (c : Char) (offset : Nat) (rest : List UInt8) :
    decodeFrom none offset (utf8EncodeChar c ++ rest) =
      (c :: (decodeFrom none (offset + (utf8EncodeChar c).length) rest).1,
        (decodeFrom none (offset + (utf8EncodeChar c).length) rest).2) := by
  obtain ⟨bs, b, hencode, opened, s, hopens, hb, hs, hcode⟩ := closes_encodeChar c
  have hchar : Char.ofNat s.code = c := by
    rw [hcode]
    exact Char.ofNat_toNat c
  rw [hencode, List.append_assoc, hopens.decodeFrom_append, List.singleton_append,
    decodeFrom_of_full hb hs, hchar, List.length_append, List.length_singleton, Nat.add_assoc]

theorem decodeFrom_encode (chars : List Char) (offset : Nat) :
    decodeFrom none offset (chars.flatMap utf8EncodeChar) = (chars, .complete) := by
  induction chars generalizing offset with
  | nil => rfl
  | cons c chars ih => rw [List.flatMap_cons, decodeFrom_encodeChar, ih]

theorem encode_of_decode {final : Bool} {bytes kept : List UInt8} {chars : List Char}
    (h : decode final bytes = .ok (chars, kept)) :
    bytes = chars.flatMap utf8EncodeChar ++ kept := by
  rcases hbytes : decodeFrom none 0 bytes with ⟨chars', ending⟩
  cases ending with
  | complete =>
    simp only [decode, hbytes] at h
    cases h
    rw [List.append_nil]
    exact encode_of_complete .nil hbytes
  | cut tail =>
    simp only [decode, hbytes] at h
    split at h
    · cases h
    · cases h
      obtain ⟨front, last, hsplit, -, hcomplete⟩ := decodeFrom_of_cut .nil hbytes
      rw [List.nil_append] at hsplit
      rw [hsplit, ← encode_of_complete .nil (hcomplete 0), List.nil_append]
  | defect d start =>
    simp only [decode, hbytes] at h
    cases h

/-- What decodes is the encoding of the text. -/
theorem decode_eq_ok_iff {bytes : List UInt8} {chars : List Char} :
    decode true bytes = .ok (chars, []) ↔ bytes = chars.flatMap utf8EncodeChar := by
  constructor
  · intro h
    rw [encode_of_decode h, List.append_nil]
  · intro h
    rw [h, decode, decodeFrom_encode]

/-- The first bytes that encode no character, whole or cut off, start at `n`. -/
structure FirstDefect (bytes : List UInt8) (n : Nat) : Prop where
  front : ∃ chars : List Char, bytes.take n = chars.flatMap utf8EncodeChar
  lt : n < bytes.length
  stuck (c : Char) : ¬ utf8EncodeChar c <+: bytes.drop n

theorem not_encodeChar_isPrefix {rest : List UInt8} {ending : Ending}
    (h : decodeFrom none 0 rest = ([], ending)) (c : Char) : ¬ utf8EncodeChar c <+: rest := by
  rintro ⟨more, rfl⟩
  rw [decodeFrom_encodeChar] at h
  cases h

theorem FirstDefect.of_split {front rest : List UInt8} {chars : List Char} {ending : Ending}
    (hfront : decodeFrom none 0 front = (chars, .complete)) (hne : rest ≠ [])
    (hrest : decodeFrom none 0 rest = ([], ending)) :
    FirstDefect (front ++ rest) front.length where
  front := ⟨chars, by rw [List.take_left']; exact encode_of_complete .nil hfront; rfl⟩
  lt := by
    have hpos := List.length_pos_iff.2 hne
    rw [List.length_append]
    omega
  stuck c := by
    rw [List.drop_left]
    exact not_encodeChar_isPrefix hrest c

theorem FirstDefect.le {bytes : List UInt8} {n m : Nat} (h : FirstDefect bytes n)
    (h' : FirstDefect bytes m) : m ≤ n := by
  obtain ⟨chars, hchars⟩ := h.front
  obtain ⟨chars', hchars'⟩ := h'.front
  refine Nat.le_of_not_lt fun hlt => ?_
  -- The characters up to `m` go on behind `n`, where there is none.
  have hfront : decodeFrom none 0 (bytes.take n) = (chars, .complete) := by
    rw [hchars, decodeFrom_encode]
  have hsplit : bytes.take m = bytes.take n ++ (bytes.drop n).take (m - n) := by
    rw [← List.take_add, Nat.add_sub_cancel' (Nat.le_of_lt hlt)]
  have hwhole := decodeFrom_append_of_complete hfront ((bytes.drop n).take (m - n))
  rw [← hsplit, hchars', decodeFrom_encode, Nat.zero_add] at hwhole
  rcases hrest : decodeFrom none (bytes.take n).length ((bytes.drop n).take (m - n)) with
    ⟨more, ending⟩
  rw [hrest] at hwhole
  obtain ⟨-, hending⟩ := Prod.mk.inj hwhole
  subst hending
  have hbehind := encode_of_complete .nil hrest
  rw [List.nil_append] at hbehind
  cases more with
  | nil =>
    have hlength := congrArg List.length hbehind
    have hm := h'.lt
    rw [List.length_take, List.length_drop, List.flatMap_nil, List.length_nil] at hlength
    omega
  | cons c more =>
    rw [List.flatMap_cons] at hbehind
    apply h.stuck c
    exact List.IsPrefix.trans ⟨_, hbehind.symm⟩ (List.take_prefix _ _)

theorem FirstDefect.unique {bytes : List UInt8} {n m : Nat} (h : FirstDefect bytes n)
    (h' : FirstDefect bytes m) : n = m :=
  Nat.le_antisymm (h'.le h) (h.le h')

/-- Where bytes do not decode is where the first of them start that encode no character. -/
theorem firstDefect_of_decode {bytes : List UInt8} {d : Defect} {start : Nat}
    (h : decode true bytes = .error (d, start)) : FirstDefect bytes start := by
  rcases hbytes : decodeFrom none 0 bytes with ⟨chars, ending⟩
  cases ending with
  | complete =>
    simp only [decode, hbytes] at h
    cases h
  | cut tail =>
    simp only [decode, hbytes, ↓reduceIte] at h
    cases h
    obtain ⟨front, last, hsplit, hopens, hcomplete⟩ := decodeFrom_of_cut .nil hbytes
    have htail := hopens.decodeFrom_append 0 []
    rw [List.append_nil] at htail
    rw [List.nil_append] at hsplit
    subst hsplit
    rw [List.length_append, Nat.add_sub_cancel]
    exact .of_split (hcomplete 0) hopens.ne_nil htail
  | defect d' start' =>
    simp only [decode, hbytes] at h
    cases h
    obtain ⟨front, rest, hsplit, hstart, hcomplete, hrest⟩ :=
      decodeFrom_of_stopped .nil (Nat.le_refl 0) hbytes
    have hne : rest ≠ [] := by
      intro hnil
      rw [hnil] at hrest
      cases hrest
    rw [List.length_nil, Nat.add_zero, Nat.zero_add] at hstart
    rw [List.nil_append] at hsplit
    subst hsplit hstart
    exact .of_split (hcomplete 0) hne hrest

end FormulaLex.Utf8
