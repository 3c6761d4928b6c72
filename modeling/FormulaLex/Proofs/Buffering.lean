import FormulaLex.Proofs.Breakage
import FormulaLex.Source.Buffered

/-!
Sources over streams that hand out a text and then end or fault: the source hands out the same, one
character ahead.
-/
namespace FormulaLex

variable {τ ε : Type} {str : TextStream τ ε} {Holds : τ → List Char → Prop}

/-- The stream has the characters `w` to hand out; what comes behind them is left open. -/
structure TextStream.Hands (str : TextStream τ ε) (Holds : τ → List Char → Prop) : Prop where
  readOne_cons {t : τ} {c : Char} {w : List Char} (h : Holds t (c :: w)) :
    ∃ t', str.readOne t = (.ok (String.singleton c), t') ∧ Holds t' w
  close_ok (t : τ) : ∃ t', str.close t = (.ok (), t')
  length_le_size {t : τ} {w : List Char} (h : Holds t w) : w.length ≤ str.size t

namespace Buffered

/-- The source has the characters `w` to hand out, and may have looked at the first of them. -/
inductive Awaits (Holds : τ → List Char → Prop) : Buffered τ → List Char → Prop
  | unread {t : τ} {w : List Char} {closed owns : Bool} (h : Holds t w) :
      Awaits Holds ⟨t, none, closed, owns⟩ w
  | ahead {t : τ} {c : Char} {w : List Char} {closed owns : Bool} (h : Holds t w) :
      Awaits Holds ⟨t, some (String.singleton c), closed, owns⟩ (c :: w)

/-- Or it has seen the end. -/
inductive AwaitsEnd (Holds : τ → List Char → Prop) : Buffered τ → List Char → Prop
  | before {b : Buffered τ} {w : List Char} (h : Awaits Holds b w) : AwaitsEnd Holds b w
  | seen {t : τ} {closed owns : Bool} : AwaitsEnd Holds ⟨t, some "", closed, owns⟩ []

theorem close_ok (hstr : str.Hands Holds) (b : Buffered τ) :
    ∃ b', b.close str = (.ok (), b') ∧ b'.closed = true := by
  obtain ⟨t', hclose⟩ := hstr.close_ok b.stream
  unfold close
  split
  · exact ⟨b, rfl, ‹_›⟩
  · dsimp only
    split
    · simp only [hclose]
      exact ⟨_, rfl, rfl⟩
    · exact ⟨_, rfl, rfl⟩

theorem Awaits.peek_cons (hstr : str.Hands Holds) {b : Buffered τ} {c : Char} {w : List Char}
    (h : Awaits Holds b (c :: w)) :
    ∃ b', b.peek str = (.ok (String.singleton c), b') ∧ Awaits Holds b' (c :: w) := by
  cases h with
  | unread h =>
    obtain ⟨t', hread, h'⟩ := hstr.readOne_cons h
    simp only [peek, hread]
    exact ⟨_, rfl, .ahead h'⟩
  | ahead h => exact ⟨_, rfl, .ahead h⟩

theorem Awaits.read_cons (hstr : str.Hands Holds) {b : Buffered τ} {c : Char} {w : List Char}
    (h : Awaits Holds b (c :: w)) :
    ∃ b', b.read str = (.ok (String.singleton c), b') ∧ Awaits Holds b' w := by
  cases h with
  | unread h =>
    obtain ⟨t', hread, h'⟩ := hstr.readOne_cons h
    simp only [read, peek, hread]
    exact ⟨_, rfl, by simpa [Lexer.singleton_ne_empty] using .unread h'⟩
  | ahead h => exact ⟨_, rfl, by simpa [Lexer.singleton_ne_empty] using .unread h⟩

theorem Awaits.length_le (hstr : str.Hands Holds) {b : Buffered τ} {w : List Char}
    (h : Awaits Holds b w) : w.length ≤ (source str).size b := by
  cases h with
  | unread h => exact Nat.le_succ_of_le (hstr.length_le_size h)
  | ahead h => exact Nat.succ_le_succ (hstr.length_le_size h)

theorem breaks (hstr : str.Hands Holds) {fault : ε}
    (hnil : ∀ t, Holds t [] → ∃ t', str.readOne t = (.error fault, t')) :
    (source str).Breaks (Awaits Holds) fault where
  peek_cons h := h.peek_cons hstr
  read_cons h := h.read_cons hstr
  close_ok {b _} _ := by
    obtain ⟨b', hclose, -⟩ := close_ok hstr b
    exact ⟨b', hclose⟩
  length_le_size h := h.length_le hstr
  peek_nil {b} h := by
    cases h with
    | unread h =>
      obtain ⟨t', hread⟩ := hnil _ h
      simp only [source, peek, hread]
      exact ⟨_, rfl⟩

theorem delivers (hstr : str.Hands Holds)
    (hnil : ∀ t, Holds t [] → ∃ t', str.readOne t = (.ok "", t')) :
    (source str).Delivers (AwaitsEnd Holds) where
  peek_cons h := by
    cases h with
    | before h =>
      obtain ⟨b', hpeek, h'⟩ := h.peek_cons hstr
      exact ⟨b', hpeek, .before h'⟩
  read_cons h := by
    cases h with
    | before h =>
      obtain ⟨b', hread, h'⟩ := h.read_cons hstr
      exact ⟨b', hread, .before h'⟩
  close_ok {b _} _ := by
    obtain ⟨b', hclose, -⟩ := close_ok hstr b
    exact ⟨b', hclose⟩
  length_le_size h := by
    cases h with
    | before h => exact h.length_le hstr
    | seen => exact Nat.zero_le _
  peek_nil {b} h := by
    cases h with
    | seen => exact ⟨_, rfl, .seen⟩
    | before h =>
      cases h with
      | unread h =>
        obtain ⟨t', hread⟩ := hnil _ h
        simp only [source, peek, hread]
        exact ⟨_, rfl, .seen⟩

end Buffered

end FormulaLex
