import FormulaLex.State
import Mathlib.Data.List.Induction

/-!
The lexical grammar: a class of texts for each kind of token, and the texts that the automaton takes
into one token. Every state but the first accepts, so the two agree.
-/
namespace FormulaLex

/-- Digits, and maybe a decimal point with or without digits behind them. -/
def IsNumeral (w : List Char) : Prop :=
  ∃ whole, whole ≠ [] ∧ whole.all Charset.isDigit ∧
    (w = whole ∨ ∃ fraction, fraction.all Charset.isDigit ∧
      w = whole ++ Charset.decimalPoint :: fraction)

/-- The lexical class of a kind. -/
def Kind.Contains : Kind → List Char → Prop
  | identifier, w => ∃ c rest, w = c :: rest ∧ Charset.isLetter c ∧ rest.all Charset.isAlphanumeric
  | real, w => IsNumeral w
  | whitespace, w => ∃ c, w = [c] ∧ Charset.isBlank c
  | leftParen, w => w = ['(']
  | rightParen, w => w = [')']
  | equals, w => w = ['=']
  | plus, w => w = ['+']
  | minus, w => w = ['-']
  | star, w => w = ['*']
  | exponent, w => w = ['*', '*']
  | slash, w => w = ['/']

namespace Charset

theorem ne_of_mem {p : Char → Bool} {c d : Char} (hc : p c = true) (hd : p d = false) : c ≠ d := by
  rintro rfl
  simp [hc] at hd

theorem not_isBlank {p : Char → Bool} (hp : blanks.all fun d => !p d) {c : Char}
    (hc : p c = true) : isBlank c = false := by
  rw [← Bool.not_eq_true]
  intro hblank
  have hmem : c ∈ blanks := by simpa [isBlank] using hblank
  have hno := List.all_eq_true.1 hp c hmem
  rw [hc] at hno
  cases hno

theorem all_concat_iff {p : Char → Bool} {w : List Char} {c : Char} :
    (w ++ [c]).all p ↔ w.all p ∧ p c := by
  simp

theorem not_isLetter_of_isDigit {c : Char} (hc : isDigit c) : isLetter c = false := by
  change (c.val ≥ 48 && c.val ≤ 57) = true at hc
  change (decide (c.val ≥ 65 ∧ c.val ≤ 90) || (c.val ≥ 97 && c.val ≤ 122)) = false
  grind

theorem not_isDigit_of_isLetter {c : Char} (hc : isLetter c) : isDigit c = false := by
  cases hd : isDigit c with
  | false => rfl
  | true => simp [not_isLetter_of_isDigit hd] at hc

end Charset

namespace State

/-- The texts with which a token gets to a state. The two states of a numeral share its class. -/
def Spells : State → List Char → Prop
  | start, w => w = []
  | realInt, w => w ≠ [] ∧ w.all Charset.isDigit
  | realFrac, w => ∃ whole fraction, whole ≠ [] ∧ whole.all Charset.isDigit ∧
      fraction.all Charset.isDigit ∧ w = whole ++ Charset.decimalPoint :: fraction
  | q, w => ∃ k, q.kind? = some k ∧ k.Contains w

/-- The state after a character that is taken into the token. -/
def grow? (q : State) (c : Char) : Option State :=
  match q.step? c with
  | some (.extend q') => some q'
  | _ => none

/-- The state after a character, whether it is taken into the token or starts the next one. -/
def after? (q : State) (c : Char) : Option State := (q.grow? c).or (ofFirst? c)

/-- The state after characters that are all taken into one token. -/
def run? (q : State) (w : List Char) : Option State := w.foldlM grow? q

@[simp] theorem run?_nil (q : State) : q.run? [] = some q := rfl

theorem run?_append (q : State) (u v : List Char) :
    q.run? (u ++ v) = (q.run? u).bind (·.run? v) := by
  simp only [run?, List.foldlM_append]
  rfl

theorem run?_concat (q : State) (w : List Char) (c : Char) :
    q.run? (w ++ [c]) = (q.run? w).bind (·.grow? c) := by
  rw [run?_append]
  congr 1
  funext q'
  simp [run?]

@[simp] theorem grow?_start (c : Char) : start.grow? c = ofFirst? c := by
  simp only [grow?, step?, ↓reduceIte]
  cases ofFirst? c <;> rfl

theorem grow?_of_ne_start {q : State} (hq : q ≠ start) (c : Char) : q.grow? c = q.extend? c := by
  simp only [grow?, step?, if_neg hq]
  cases q.extend? c <;> rfl

theorem grow?_eq_some_iff {q q' : State} {c : Char} :
    q.grow? c = some q' ↔ q.step? c = some (.extend q') := by
  unfold grow?
  grind

theorem operators_lookup_eq_none {p : Char → Bool} (hp : ∀ o ∈ operators, p o.1 = false)
    {c : Char} (hc : p c = true) : operators.lookup c = none := by
  rw [List.lookup_eq_none_iff]
  intro o ho
  have hno := hp o ho
  rw [bne_iff_ne]
  rintro rfl
  simp [hc] at hno

theorem ofFirst?_letter {c : Char} (hc : Charset.isLetter c) : ofFirst? c = some identifier := by
  have hl := operators_lookup_eq_none (p := Charset.isLetter) (by decide) hc
  simp only [ofFirst?, hl, hc, ↓reduceIte]

theorem ofFirst?_digit {c : Char} (hc : Charset.isDigit c) : ofFirst? c = some realInt := by
  have hl := operators_lookup_eq_none (p := Charset.isDigit) (by decide) hc
  simp only [ofFirst?, hl, hc, Charset.not_isLetter_of_isDigit hc, Bool.false_eq_true, ↓reduceIte]

theorem ofFirst?_blank {c : Char} (hc : Charset.isBlank c) : ofFirst? c = some whitespace := by
  have hblanks : Charset.blanks.all (fun d => ofFirst? d = some whitespace) := by decide
  have hmem : c ∈ Charset.blanks := by simpa [Charset.isBlank] using hc
  exact of_decide_eq_true (List.all_eq_true.1 hblanks c hmem)

theorem ofFirst?_eq_some_iff {q : State} {c : Char} : ofFirst? c = some q ↔ q.Spells [c] := by
  constructor
  · intro h
    unfold ofFirst? at h
    split at h
    next q' hl =>
      cases h
      have ho : ∀ o ∈ operators, o.2.Spells [o.1] := by
        simp [operators, Spells, kind?, Kind.Contains]
      obtain ⟨before, after, he, -⟩ := List.lookup_eq_some_iff.1 hl
      exact ho (c, q) (by simp [he])
    next =>
      split at h
      next hc => cases h; exact ⟨.identifier, rfl, c, [], rfl, hc, rfl⟩
      next =>
        split at h
        next hc => cases h; simp [Spells, hc]
        next =>
          split at h
          next hc => cases h; simp [Spells, kind?, Kind.Contains, hc]
          next => cases h
  · intro h
    cases q with
    | start => cases h
    | realInt => exact ofFirst?_digit (by simpa [Spells] using h)
    | realFrac =>
      obtain ⟨whole, fraction, hw, -, -, he⟩ := h
      cases whole <;> simp_all
    | identifier =>
      obtain ⟨k, hk, hw⟩ := h
      cases hk
      obtain ⟨d, rest, he, hd, -⟩ := hw
      cases he
      exact ofFirst?_letter hd
    | whitespace => exact ofFirst?_blank (by simpa [Spells, kind?, Kind.Contains] using h)
    | exponent => simp [Spells, kind?, Kind.Contains] at h
    | _ =>
      simp only [Spells, kind?, Kind.Contains, Option.some.injEq, List.cons.injEq, and_true,
        exists_eq_left'] at h
      subst h
      decide

theorem extend?_realInt_eq_some_iff {q : State} {c : Char} : realInt.extend? c = some q ↔
    (Charset.isDigit c ∧ q = realInt) ∨ (c = Charset.decimalPoint ∧ q = realFrac) := by
  have hp : Charset.isDigit Charset.decimalPoint = false := by decide
  simp only [extend?]
  grind

theorem Spells.contains {q : State} {k : Kind} {w : List Char} (h : q.Spells w)
    (hk : q.kind? = some k) : k.Contains w := by
  cases q with
  | start => cases hk
  | realInt => cases hk; exact ⟨w, h.1, h.2, .inl rfl⟩
  | realFrac =>
    cases hk
    obtain ⟨whole, fraction, hne, hwhole, hfraction, rfl⟩ := h
    exact ⟨whole, hne, hwhole, .inr ⟨fraction, hfraction, rfl⟩⟩
  | _ =>
    obtain ⟨k', hk', hw⟩ := h
    cases hk
    cases hk'
    exact hw

/-- A character taken into a token leads from a state that its text spells to the next one. -/
theorem Spells.grow {q q' : State} {w : List Char} {c : Char} (h : q.Spells w)
    (hc : q.grow? c = some q') : q'.Spells (w ++ [c]) := by
  by_cases hq : q = start
  · subst hq
    cases h
    exact ofFirst?_eq_some_iff.1 ((grow?_start c).symm.trans hc)
  rw [grow?_of_ne_start hq] at hc
  cases q with
  | start => exact absurd rfl hq
  | realInt =>
    rcases extend?_realInt_eq_some_iff.1 hc with ⟨hd, rfl⟩ | ⟨rfl, rfl⟩
    · exact ⟨by simp, Charset.all_concat_iff.2 ⟨h.2, hd⟩⟩
    · exact ⟨w, [], h.1, h.2, rfl, rfl⟩
  | realFrac =>
    obtain ⟨whole, fraction, hne, hwhole, hfraction, rfl⟩ := h
    simp only [extend?, Option.ite_none_right_eq_some, Option.some.injEq] at hc
    obtain ⟨hd, rfl⟩ := hc
    have hfraction' := Charset.all_concat_iff.2 ⟨hfraction, hd⟩
    exact ⟨whole, fraction ++ [c], hne, hwhole, hfraction', by simp⟩
  | identifier =>
    obtain ⟨d, rest, rfl, hd, hrest⟩ := h.contains rfl
    simp only [extend?, Option.ite_none_right_eq_some, Option.some.injEq] at hc
    obtain ⟨hc, rfl⟩ := hc
    have hrest' := Charset.all_concat_iff.2 ⟨hrest, hc⟩
    exact ⟨.identifier, rfl, d, rest ++ [c], rfl, hd, hrest'⟩
  | star =>
    cases h.contains rfl
    simp only [extend?, beq_iff_eq, Option.ite_none_right_eq_some, Option.some.injEq] at hc
    obtain ⟨rfl, rfl⟩ := hc
    exact ⟨.exponent, rfl, rfl⟩
  | _ => cases hc

theorem Spells.front {q : State} {w : List Char} {c : Char} (h : q.Spells (w ++ [c]))
    (hw : w ≠ []) : ∃ q' : State, q'.Spells w ∧ q'.grow? c = some q := by
  cases q with
  | start => simp [Spells] at h
  | realInt =>
    obtain ⟨hfront, hc⟩ := Charset.all_concat_iff.1 h.2
    exact ⟨realInt, ⟨hw, hfront⟩, by simp [grow?_of_ne_start, extend?, hc]⟩
  | realFrac =>
    obtain ⟨whole, fraction, hne, hwhole, hfraction, he⟩ := h
    cases fraction using List.reverseRecOn with
    | nil =>
      obtain ⟨rfl, hc⟩ := List.append_inj' he rfl
      cases hc
      exact ⟨realInt, ⟨hne, hwhole⟩, by decide⟩
    | append_singleton front d =>
      rw [← List.cons_append, ← List.append_assoc] at he
      obtain ⟨rfl, hc⟩ := List.append_inj' he rfl
      cases hc
      obtain ⟨hfront, hd⟩ := Charset.all_concat_iff.1 hfraction
      exact ⟨realFrac, ⟨whole, front, hne, hwhole, hfront, rfl⟩,
        by simp [grow?_of_ne_start, extend?, hd]⟩
  | identifier =>
    obtain ⟨d, rest, he, hd, hrest⟩ := h.contains rfl
    cases w with
    | nil => exact absurd rfl hw
    | cons e front =>
      rw [List.cons_append, List.cons.injEq] at he
      obtain ⟨rfl, rfl⟩ := he
      obtain ⟨hfront, hc⟩ := Charset.all_concat_iff.1 hrest
      exact ⟨identifier, ⟨.identifier, rfl, e, front, rfl, hd, hfront⟩,
        by simp [grow?_of_ne_start, extend?, hc]⟩
  | exponent =>
    have he : w ++ [c] = ['*'] ++ ['*'] := h.contains rfl
    obtain ⟨rfl, hc⟩ := List.append_inj' he rfl
    cases hc
    exact ⟨star, ⟨.star, rfl, rfl⟩, by decide⟩
  | _ => simp [Spells, kind?, Kind.Contains, List.append_eq_singleton_iff, hw] at h

/-- The automaton takes a text from the start to the state that the text spells. -/
theorem run?_start_eq_some_iff {q : State} {w : List Char} :
    start.run? w = some q ↔ q.Spells w := by
  -- From the right, since a token grows at its end.
  induction w using List.reverseRecOn generalizing q with
  | nil => cases q <;> simp [Spells, kind?, Kind.Contains]
  | append_singleton w c ih =>
    rw [run?_concat, Option.bind_eq_some_iff]
    simp only [ih]
    constructor
    · rintro ⟨q', hq', hc⟩
      exact hq'.grow hc
    · intro h
      by_cases hw : w = []
      · subst hw
        exact ⟨start, rfl, (grow?_start c).trans (ofFirst?_eq_some_iff.2 h)⟩
      · exact h.front hw

theorem run?_start_eq_start_iff {w : List Char} : start.run? w = some start ↔ w = [] :=
  run?_start_eq_some_iff

theorem exists_run?_of_isPrefix {q q' : State} {u w : List Char} (h : q.run? w = some q')
    (hu : u <+: w) : ∃ q'', q.run? u = some q'' := by
  obtain ⟨v, rfl⟩ := hu
  rw [run?_append, Option.bind_eq_some_iff] at h
  obtain ⟨q'', hq, -⟩ := h
  exact ⟨q'', hq⟩

end State

namespace Kind

/-- The members of a class are the texts that the automaton takes to a state of that kind. -/
theorem contains_iff {k : Kind} {w : List Char} :
    k.Contains w ↔ ∃ q, State.start.run? w = some q ∧ q.kind? = some k := by
  simp only [State.run?_start_eq_some_iff]
  constructor
  · intro h
    cases k with
    | real =>
      obtain ⟨whole, hne, hwhole, rfl | ⟨fraction, hfraction, rfl⟩⟩ := h
      · exact ⟨.realInt, ⟨hne, hwhole⟩, rfl⟩
      · exact ⟨.realFrac, ⟨whole, fraction, hne, hwhole, hfraction, rfl⟩, rfl⟩
    | identifier => exact ⟨.identifier, ⟨_, rfl, h⟩, rfl⟩
    | whitespace => exact ⟨.whitespace, ⟨_, rfl, h⟩, rfl⟩
    | leftParen => exact ⟨.leftParen, ⟨_, rfl, h⟩, rfl⟩
    | rightParen => exact ⟨.rightParen, ⟨_, rfl, h⟩, rfl⟩
    | equals => exact ⟨.equals, ⟨_, rfl, h⟩, rfl⟩
    | plus => exact ⟨.plus, ⟨_, rfl, h⟩, rfl⟩
    | minus => exact ⟨.minus, ⟨_, rfl, h⟩, rfl⟩
    | star => exact ⟨.star, ⟨_, rfl, h⟩, rfl⟩
    | exponent => exact ⟨.exponent, ⟨_, rfl, h⟩, rfl⟩
    | slash => exact ⟨.slash, ⟨_, rfl, h⟩, rfl⟩
  · rintro ⟨q, hq, hk⟩
    exact hq.contains hk

instance (k : Kind) (w : List Char) : Decidable (k.Contains w) :=
  decidable_of_iff (((State.start.run? w).bind State.kind?) = some k) (by
    rw [contains_iff, Option.bind_eq_some_iff])

theorem Contains.unique {k k' : Kind} {w : List Char} (h : k.Contains w) (h' : k'.Contains w) :
    k = k' := by
  obtain ⟨q, hq, hk⟩ := contains_iff.1 h
  obtain ⟨q', hq', hk'⟩ := contains_iff.1 h'
  cases hq.symm.trans hq'
  exact Option.some.inj (hk.symm.trans hk')

theorem Contains.ne_nil {k : Kind} {w : List Char} (h : k.Contains w) : w ≠ [] := by
  rintro rfl
  obtain ⟨q, hq, hk⟩ := contains_iff.1 h
  cases hq
  cases hk

/-- Blanks stand in no other tokens than their own. -/
theorem Contains.not_isBlank {k : Kind} {w : List Char} (h : k.Contains w) (hk : k ≠ .whitespace) :
    w.all fun c => !Charset.isBlank c := by
  have hclass {p : Char → Bool} {c : Char} (hp : Charset.blanks.all fun d => !p d) (hc : p c) :
      (!Charset.isBlank c) = true := by
    rw [Charset.not_isBlank hp hc, Bool.not_false]
  have hdigits {w : List Char} (hw : w.all Charset.isDigit) : w.all fun c => !Charset.isBlank c :=
    List.all_eq_true.2 fun c hc => hclass (by decide) (List.all_eq_true.1 hw c hc)
  cases k with
  | whitespace => exact absurd rfl hk
  | identifier =>
    obtain ⟨c, rest, rfl, hc, hrest⟩ := h
    rw [List.all_cons, Bool.and_eq_true]
    refine ⟨hclass (by decide) hc, List.all_eq_true.2 ?_⟩
    intro d hd
    exact hclass (by decide) (List.all_eq_true.1 hrest d hd)
  | real =>
    obtain ⟨whole, -, hwhole, rfl | ⟨fraction, hfraction, rfl⟩⟩ := h
    · exact hdigits hwhole
    · rw [List.all_append, List.all_cons, hdigits hwhole, hdigits hfraction]
      decide
  | _ =>
    cases h
    decide

end Kind

end FormulaLex
