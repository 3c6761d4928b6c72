import FormulaLex.Proofs.Place
import FormulaLex.Proofs.Turn
import FormulaLex.Source.Feed

/-!
Nothing that is consumed is lost, doubled or misplaced: between pulls, and also after a fault of the
source in the middle of a token, the finalized tokens and the open one are what was consumed.
-/
namespace FormulaLex

variable {σ ε : Type}

/-- `Consumed s w` says that the source got to the state `s` by the consumption of just the
characters `w`. To look ahead consumes nothing, also where it fails; what was seen is consumed
next. -/
structure CharSource.Accounts (src : CharSource σ ε) (Consumed : σ → List Char → Prop) : Prop where
  peek_keeps {s : σ} {w : List Char} (h : Consumed s w) : Consumed (src.peek s).2 w
  read_peeked {s s' : σ} {w : List Char} {ahead : String} (h : Consumed s w)
    (hp : src.peek s = (.ok ahead, s')) (hne : ahead ≠ "") :
    ∃ c s'', ahead = String.singleton c ∧ src.read s' = (.ok ahead, s'') ∧ Consumed s'' (w ++ [c])

namespace Lexer

/-- The characters of the tokens, one token behind the other. -/
def spelled (ts : List Token) : List Char := ts.flatMap (·.text.toList)

/-- The invariant of a run, as long as it is not at its end. -/
structure Balanced (Consumed : σ → List Char → Prop) (finalized : List Token) (lx : Lexer) (s : σ) :
    Prop where
  consumed : Consumed s (spelled finalized ++ lx.lexeme.text.toList)
  pending : lx.Pending lx.lexeme.text.toList
  position : lx.position =
    .behind lx.config.countsNewlines (spelled finalized ++ lx.lexeme.text.toList)
  start : lx.lexeme.start = if lx.lexeme.isEmpty then .nowhere
    else .behind lx.config.countsNewlines (spelled finalized)

variable {src : CharSource σ ε} {Consumed : σ → List Char → Prop} {finalized : List Token}
  {lx : Lexer} {s s' : σ}

theorem spelled_concat (ts : List Token) (t : Token) :
    spelled (ts ++ [t]) = spelled ts ++ t.text.toList := by
  simp [spelled]

theorem Balanced.new (h : Consumed s []) (label : String) (sourceName : Option String)
    (config : Config) : Balanced Consumed [] (create label sourceName config).1 s where
  consumed := h
  pending := pending_cleared (create label sourceName config).1
  position := (Position.behind_nil config.countsNewlines).symm
  start := rfl

theorem Balanced.move (h : Balanced Consumed finalized lx s)
    (hs : Consumed s' (spelled finalized ++ lx.lexeme.text.toList)) :
    Balanced Consumed finalized lx s' :=
  { h with consumed := hs }

theorem Balanced.consume {c : Char} {q : State} (h : Balanced Consumed finalized lx s)
    (hq : lx.state.step? c = some (.extend q))
    (hs : Consumed s' (spelled finalized ++ lx.lexeme.text.toList ++ [c])) :
    Balanced Consumed finalized (lx.consume (String.singleton c) q) s' := by
  have htext : (lx.consume (String.singleton c) q).lexeme.text.toList =
      lx.lexeme.text.toList ++ [c] := by
    simp [Lexer.consume]
  have hpending := h.pending.consume (State.grow?_eq_some_iff.2 hq)
  have hposition : (lx.consume (String.singleton c) q).position =
      .behind lx.config.countsNewlines (spelled finalized ++ lx.lexeme.text.toList ++ [c]) := by
    rw [Position.behind_concat, ← h.position]
    rfl
  have hstart : (lx.lexeme.push (String.singleton c) lx.position).start =
      .behind lx.config.countsNewlines (spelled finalized) := by
    rw [Lexeme.start_push]
    split
    next hempty => rw [h.position, h.pending.isEmpty_iff.1 hempty, List.append_nil]
    next hempty => rw [h.start, if_neg hempty]
  rw [List.append_assoc, ← htext] at hs hposition
  rw [← htext] at hpending
  exact ⟨hs, hpending, hposition, hstart⟩

theorem Balanced.finalize {t : Token} (h : Balanced Consumed finalized lx s)
    (ht : lx.open? = some t) : Balanced Consumed (finalized ++ [t]) lx.cleared s := by
  have hspelled : spelled (finalized ++ [t]) ++ lx.cleared.lexeme.text.toList =
      spelled finalized ++ lx.lexeme.text.toList := by
    rw [spelled_concat, text_of_open? ht]
    simp [cleared]
  have hconsumed : Consumed s (spelled (finalized ++ [t]) ++ lx.cleared.lexeme.text.toList) := by
    rw [hspelled]
    exact h.consumed
  have hposition : lx.position = .behind lx.config.countsNewlines
      (spelled (finalized ++ [t]) ++ lx.cleared.lexeme.text.toList) := by
    rw [hspelled]
    exact h.position
  exact ⟨hconsumed, pending_cleared lx, hposition, rfl⟩

/-- The open token starts behind the finalized ones. -/
theorem Balanced.position_of_open? {t : Token} (h : Balanced Consumed finalized lx s)
    (ht : lx.open? = some t) : t.position = .behind lx.config.countsNewlines (spelled finalized) := by
  have hnonempty : lx.lexeme.isEmpty = false := by
    rw [← Bool.not_eq_true, h.pending.isEmpty_iff, ← text_of_open? ht]
    exact (h.pending.contains ht).ne_nil
  obtain ⟨k, hk, rfl⟩ := open?_eq_some_iff.1 ht
  change lx.lexeme.start = _
  rw [h.start, hnonempty]
  rfl

/-- A pull keeps the invariant, and emits what is shown of the tokens it finalizes. -/
structure Pull.Keeps (Consumed : σ → List Char → Prop) (lx : Lexer) (before ts : List Token)
    (pull : Pull σ ε) : Prop where
  balanced : Balanced Consumed (before ++ ts) pull.lexer pull.source
  emitted : ts.filter lx.shows = pull.emitted
  config : pull.lexer.config = lx.config

/-- The same of a turn, unless it brings the sequence to its end. -/
def Turn.Keeps (Consumed : σ → List Char → Prop) (lx : Lexer) (before ts : List Token) :
    Turn σ ε → Prop
  | .again lx' s' =>
    Balanced Consumed (before ++ ts) lx' s' ∧ ts.filter lx.shows = [] ∧ lx'.config = lx.config
  | .stop pull => pull.lexer.done = false → pull.Keeps Consumed lx before ts

theorem Balanced.turn (hsrc : src.Accounts Consumed) (h : Balanced Consumed finalized lx s) :
    (lx.turn src s).Keeps Consumed lx finalized (lx.turnFinalizes src s) := by
  have hturned := turn_turned src lx s
  generalize lx.turn src s = turn at hturned
  generalize lx.turnFinalizes src s = ts at hturned
  have hpeek := hsrc.peek_keeps h.consumed
  cases hturned with
  | peekFault hp =>
    intro _
    rw [hp] at hpeek
    constructor
    · rw [List.append_nil]
      exact h.move hpeek
    · rfl
    · rfl
  | readFault hp hne hq hr =>
    obtain ⟨c, s'', -, hread, -⟩ := hsrc.read_peeked h.consumed hp hne
    cases hr.symm.trans hread
  | consumed hp hne hq hr =>
    obtain ⟨c, s'', rfl, hread, hs⟩ := hsrc.read_peeked h.consumed hp hne
    cases hr.symm.trans hread
    rw [State.stepOn?_singleton] at hq
    refine ⟨?_, rfl, rfl⟩
    rw [List.append_nil]
    exact h.consume hq hs
  | emitted hp ht hshow =>
    intro _
    rw [hp] at hpeek
    constructor
    · exact (h.move hpeek).finalize ht
    · exact List.filter_cons_of_pos hshow
    · rfl
  | hidden hp ht hshow =>
    rw [hp] at hpeek
    refine ⟨(h.move hpeek).finalize ht, ?_, rfl⟩
    simp [hshow]
  | hiddenAtEnd hp ht hshow =>
    intro hd
    cases (conclude_done src _ _ _ _).symm.trans hd
  | ended hp =>
    intro hd
    cases (conclude_done src _ _ _ _).symm.trans hd
  | failed hp hne hq =>
    intro hd
    cases (conclude_done src _ _ _ _).symm.trans hd

theorem shows_eq {lx lx' : Lexer} (h : lx'.config = lx.config) : lx'.shows = lx.shows := by
  funext t
  simp only [shows, h]

theorem Balanced.scan (hsrc : src.Accounts Consumed) {fuel : Nat}
    (h : Balanced Consumed finalized lx s) (hd : (lx.scan src fuel s).lexer.done = false) :
    (lx.scan src fuel s).Keeps Consumed lx finalized (lx.scanFinalizes src fuel s) := by
  induction fuel generalizing finalized lx s with
  | zero =>
    constructor
    · rw [scanFinalizes, List.append_nil]
      exact h
    · rfl
    · rfl
  | succ fuel ih =>
    have hturn := h.turn hsrc
    rw [scanFinalizes]
    cases ht : lx.turn src s with
    | stop pull =>
      rw [ht] at hturn
      rw [scan_of_stop ht] at hd ⊢
      rw [List.append_nil]
      exact hturn hd
    | again lx' s' =>
      rw [ht] at hturn
      rw [scan_of_again ht] at hd ⊢
      obtain ⟨hbalanced, hshows, hconfig⟩ := hturn
      have hkeeps := ih hbalanced hd
      constructor
      · rw [← List.append_assoc]
        exact hkeeps.balanced
      · rw [List.filter_append, hshows, List.nil_append, ← shows_eq hconfig]
        exact hkeeps.emitted
      · exact hkeeps.config.trans hconfig

theorem Balanced.advance (hsrc : src.Accounts Consumed) (h : Balanced Consumed finalized lx s)
    {fuel : Nat} (hd : (lx.advance src fuel s).lexer.done = false) :
    (lx.advance src fuel s).Keeps Consumed lx finalized (lx.finalizes src fuel s) := by
  rw [Lexer.advance] at hd ⊢
  rw [finalizes]
  cases hdone : lx.done with
  | true =>
    simp only [hdone, ↓reduceIte] at hd
    cases hd
  | false =>
    simp only [hdone, Bool.false_eq_true, ↓reduceIte] at hd ⊢
    exact h.scan hsrc hd

theorem advance_of_done (src : CharSource σ ε) {fuel : Nat} (hd : lx.done = true) (s : σ) :
    (lx.advance src fuel s).lexer.done = true := by
  simp only [Lexer.advance, hd, ↓reduceIte]

theorem Reached.keeps (hsrc : src.Accounts Consumed) {lx₀ : Lexer} {s₀ : σ}
    (h₀ : Balanced Consumed [] lx₀ s₀) {emitted : List Token}
    (h : Reached src lx₀ s₀ finalized emitted lx s) (hd : lx.done = false) :
    Balanced Consumed finalized lx s ∧ finalized.filter lx₀.shows = emitted ∧
      lx.config = lx₀.config := by
  induction h with
  | new => exact ⟨h₀, rfl, rfl⟩
  | @pull finalized emitted lx s fuel h ih =>
    -- The end is for good, so no pull before this one came to it.
    have hgoing : lx.done = false := by
      cases hdone : lx.done with
      | true => cases (advance_of_done src hdone s).symm.trans hd
      | false => rfl
    obtain ⟨hbalanced, hemitted, hconfig⟩ := ih hgoing
    have hkeeps := hbalanced.advance hsrc hd
    refine ⟨hkeeps.balanced, ?_, hkeeps.config.trans hconfig⟩
    rw [List.filter_append, hemitted, ← shows_eq hconfig, hkeeps.emitted]

/-- Whatever pulls are made by a new lexer and whatever faults they meet, as long as it is not at its
end: the tokens finalized, of which those that are shown were emitted, and the open one are what was
consumed; the state is the one that the automaton gets to with the open one; and the places are
those behind the tokens and behind all that was consumed. -/
theorem Reached.conserves (hsrc : src.Accounts Consumed) {s₀ : σ} (hs₀ : Consumed s₀ [])
    (sourceName : Option String) (config : Config) {emitted : List Token}
    (h : Reached src (create src.label sourceName config).1 s₀ finalized emitted lx s)
    (hd : lx.done = false) :
    let pending := lx.lexeme.text.toList
    Consumed s (spelled finalized ++ pending) ∧
      finalized.filter (fun t => config.keepsWhitespace || t.kind != .whitespace) = emitted ∧
      State.start.run? pending = some lx.state ∧ (lx.state = .start ↔ lx.lexeme.isEmpty) ∧
      lx.position = .behind config.countsNewlines (spelled finalized ++ pending) ∧
      lx.lexeme.start = if lx.lexeme.isEmpty then .nowhere
        else .behind config.countsNewlines (spelled finalized) := by
  intro pending
  obtain ⟨hbalanced, hemitted, hconfig⟩ := h.keeps hsrc (.new hs₀ src.label sourceName config) hd
  have hcounts : lx.config.countsNewlines = config.countsNewlines := by rw [hconfig]; rfl
  refine ⟨hbalanced.consumed, hemitted, hbalanced.pending.run, ?_, ?_, ?_⟩
  · rw [hbalanced.pending.state_eq_start_iff, hbalanced.pending.isEmpty_iff]
  · rw [← hcounts]
    exact hbalanced.position
  · rw [← hcounts]
    exact hbalanced.start

end Lexer

namespace Feed

/-- The characters of an item; a fault has none. -/
def itemChars : FeedItem → List Char
  | .text s => s.toList
  | .fail _ => []

theorem eq_singleton_of_length_le_one {s : String} (h : s.length ≤ 1) (hne : s ≠ "") :
    ∃ c, s = String.singleton c := by
  rw [← String.length_toList] at h
  cases hs : s.toList with
  | nil => exact absurd (String.toList_eq_nil_iff.1 hs) hne
  | cons c rest =>
    rw [hs, List.length_cons] at h
    have hrest : rest = [] := List.length_eq_zero_iff.1 (by omega)
    exact ⟨c, by rw [← String.toList_inj, hs, hrest]; simp⟩

/-- A feed of single characters, with faults and ends among them, has behind it what it had and has
no longer. -/
theorem accounts (items : List FeedItem) (hsingle : ∀ s, .text s ∈ items → s.length ≤ 1) :
    source.Accounts fun f w => ∃ past, past ++ f.items = items ∧ past.flatMap itemChars = w where
  peek_keeps := by
    rintro f w ⟨past, hitems, hchars⟩
    rcases f with ⟨_ | ⟨item, rest⟩, fault, closings⟩
    · exact ⟨past, hitems, hchars⟩
    · cases item with
      | fail message =>
        refine ⟨past ++ [.fail message], ?_, ?_⟩
        · simpa [source, peek] using hitems
        · simpa [itemChars] using hchars
      | text s =>
        by_cases hs : s = ""
        · subst hs
          refine ⟨past ++ [.text ""], ?_, ?_⟩
          · simpa [source, peek] using hitems
          · simpa [itemChars] using hchars
        · refine ⟨past, ?_, hchars⟩
          simpa [source, peek, hs] using hitems
  read_peeked := by
    rintro f f' w ahead ⟨past, hitems, hchars⟩ hp hne
    rcases f with ⟨_ | ⟨item, rest⟩, fault, closings⟩
    · cases hp
      exact absurd rfl hne
    · cases item with
      | fail message => cases hp
      | text s =>
        simp only [source, peek, Prod.mk.injEq, Except.ok.injEq] at hp
        obtain ⟨rfl, hf'⟩ := hp
        rw [if_neg (by simpa using hne)] at hf'
        subst hf'
        obtain ⟨c, rfl⟩ := eq_singleton_of_length_le_one (hsingle s (by simp [← hitems])) hne
        refine ⟨c, ⟨rest, fault, closings⟩, rfl, ?_, past ++ [.text (String.singleton c)], ?_, ?_⟩
        · simp [source, read, peek, hne]
        · simpa using hitems
        · simp [hchars, itemChars]

end Feed

namespace Lexer

theorem fault_inside_numeral_conserves :
    let items : List FeedItem := [.text "1", .fail "broken", .text "2"]
    let pull := (create Feed.label none {}).1.advance Feed.source 8 ⟨items, none, 0⟩
    (∀ s, .text s ∈ items → s.length ≤ 1) ∧ pull.lexer.done = false ∧
      pull.source.items = [.text "2"] ∧ pull.lexer.state = .realInt ∧
      (∃ past, past ++ pull.source.items = items ∧ past.flatMap Feed.itemChars = ['1']) ∧
      State.start.run? ['1'] = some pull.lexer.state ∧ pull.lexer.position = ⟨1, 2⟩ ∧
      pull.lexer.lexeme.start = ⟨1, 1⟩ := by
  intro items pull
  have hsingle : ∀ s, .text s ∈ items → s.length ≤ 1 := by
    intro s hs
    simp only [items, List.mem_cons, FeedItem.text.injEq, reduceCtorEq, List.not_mem_nil, or_false,
      false_or] at hs
    rcases hs with rfl | rfl <;> decide
  have hreached : Reached Feed.source (create Feed.label none {}).1 ⟨items, none, 0⟩ _ _
    pull.lexer pull.source := .pull 8 .new
  obtain ⟨hconsumed, -, hrun, -, hposition, hstart⟩ := Reached.conserves
    (Feed.accounts items hsingle) ⟨[], rfl, rfl⟩ none {} hreached rfl
  have hpending : pull.lexer.lexeme.text.toList = ['1'] := by decide
  rw [hpending] at hconsumed hrun hposition
  exact ⟨hsingle, rfl, rfl, rfl, hconsumed, hrun, hposition, hstart⟩

end Lexer

end FormulaLex
