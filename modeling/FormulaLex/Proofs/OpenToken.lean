import FormulaLex.Lexer
import FormulaLex.Proofs.Grammar

/-!
The token that a lexer has open: what it would be if it were finalized now, and how far the
automaton is with it.
-/
namespace FormulaLex.Lexer

variable {lx : Lexer} {t : Token} {p : List Char} {c : Char}

/-- No token is open. -/
def cleared (lx : Lexer) : Lexer := { lx with lexeme := .empty, state := .start }

@[simp] theorem cleared_state (lx : Lexer) : lx.cleared.state = .start := rfl

@[simp] theorem cleared_position (lx : Lexer) : lx.cleared.position = lx.position := rfl

@[simp] theorem cleared_sourceName (lx : Lexer) : lx.cleared.sourceName = lx.sourceName := rfl

@[simp] theorem cleared_shows (lx : Lexer) : lx.cleared.shows = lx.shows := rfl

@[simp] theorem consume_config (lx : Lexer) (ahead : String) (q : State) :
    (lx.consume ahead q).config = lx.config := rfl

@[simp] theorem consume_sourceName (lx : Lexer) (ahead : String) (q : State) :
    (lx.consume ahead q).sourceName = lx.sourceName := rfl

/-- Where no token starts, nothing is left to be cleared but the lexeme. -/
theorem cleared_of_stuck {ahead : String} (hq : lx.state.stepOn? ahead = none) :
    { lx with lexeme := .empty } = lx.cleared := by
  rw [cleared, ← State.eq_start_of_stepOn?_eq_none hq]

/-- The open token, if there is one, as it is so far. -/
def open? (lx : Lexer) : Option Token := lx.finalize?.map Prod.fst

theorem open?_eq_some_iff : lx.open? = some t ↔
    ∃ k, lx.state.kind? = some k ∧ t = ⟨k, lx.lexeme.text, lx.lexeme.start, lx.sourceName, []⟩ := by
  cases hk : lx.state.kind? with
  | none => simp [open?, finalize?, hk]
  | some k => simp [open?, finalize?, hk, eq_comm]

@[simp] theorem open?_of_start (hq : lx.state = .start) : lx.open? = none := by
  simp only [open?, finalize?, hq, State.kind?, Option.map_none]

@[simp] theorem open?_cleared (lx : Lexer) : lx.cleared.open? = none := rfl

theorem exists_open? (hq : lx.state ≠ .start) : ∃ t, lx.open? = some t := by
  cases hk : lx.state.kind? with
  | none => exact absurd (State.kind?_eq_none_iff.1 hk) hq
  | some k => exact ⟨_, open?_eq_some_iff.2 ⟨k, hk, rfl⟩⟩

theorem ne_start_of_open? (ht : lx.open? = some t) : lx.state ≠ .start := by
  intro hq
  rw [open?_of_start hq] at ht
  cases ht

theorem finalize?_of_open? (ht : lx.open? = some t) :
    lx.finalize? = some (t, { lx with lexeme := .empty }) := by
  obtain ⟨k, hk, rfl⟩ := open?_eq_some_iff.1 ht
  simp only [finalize?, hk, Option.map_some]

theorem done_of_finalize? {lx' : Lexer} (h : lx.finalize? = some (t, lx')) :
    lx'.done = lx.done := by
  obtain ⟨k, -, hlexer⟩ := Option.map_eq_some_iff.1 h
  cases hlexer
  rfl

theorem text_of_open? (ht : lx.open? = some t) : t.text = lx.lexeme.text := by
  obtain ⟨k, -, rfl⟩ := open?_eq_some_iff.1 ht
  rfl

/-- The open token has the text `p`, and the state is where the automaton gets with it. -/
structure Pending (lx : Lexer) (p : List Char) : Prop where
  text : lx.lexeme.text.toList = p
  size : lx.lexeme.size = p.length
  run : State.start.run? p = some lx.state

theorem pending_cleared (lx : Lexer) : lx.cleared.Pending [] := ⟨by simp [cleared], rfl, rfl⟩

theorem Pending.state_eq_start_iff (h : lx.Pending p) : lx.state = .start ↔ p = [] := by
  rw [← State.run?_start_eq_start_iff, h.run, Option.some.injEq]

theorem Pending.isEmpty_iff (h : lx.Pending p) : lx.lexeme.isEmpty ↔ p = [] := by
  rw [← List.length_eq_zero_iff, ← h.size, Lexeme.isEmpty, List.isEmpty_iff, Lexeme.size,
    List.length_eq_zero_iff]

theorem Pending.consume (h : lx.Pending p) {q : State} (hc : lx.state.grow? c = some q) :
    (lx.consume (String.singleton c) q).Pending (p ++ [c]) where
  text := by simp [Lexer.consume, h.text]
  size := by simp [Lexer.consume, h.size]
  run := by
    rw [State.run?_concat, h.run]
    exact hc

theorem Pending.contains (h : lx.Pending p) (ht : lx.open? = some t) :
    t.kind.Contains t.text.toList := by
  obtain ⟨k, hk, rfl⟩ := open?_eq_some_iff.1 ht
  refine Kind.contains_iff.2 ⟨lx.state, ?_, hk⟩
  change State.start.run? lx.lexeme.text.toList = some lx.state
  rw [h.text]
  exact h.run

theorem Pending.open? (h : lx.Pending p) (hp : p ≠ []) :
    ∃ t, lx.open? = some t ∧ t.text.toList = p ∧ lx.state.kind? = some t.kind := by
  have hq : lx.state ≠ .start := by
    intro hq
    exact hp (h.state_eq_start_iff.1 hq)
  obtain ⟨t, ht⟩ := exists_open? hq
  obtain ⟨k, hk, rfl⟩ := open?_eq_some_iff.1 ht
  exact ⟨_, ht, h.text, hk⟩

end FormulaLex.Lexer
