import FormulaLex.Proofs.Delivery

/-!
The engine on a text, seen between any two of its turns: it has read some front part of the text, or
it has also finalized the token in front of the next character, or nothing is left to it.
-/
namespace FormulaLex.Lexer

variable {ε : Type} {lx₀ lx : Lexer} {text : List Char} {s : TextSource}

inductive Tracks (lx₀ : Lexer) (text : List Char) (lx : Lexer) (s : TextSource) : Prop
  | reading {w : List Char} {ts : List Token} (h : Reads lx₀ w ts lx) (ht : w ++ s.rest = text)
  | between {w rest : List Char} {ts : List Token} {lx' : Lexer} {c : Char}
      (h : Reads lx₀ w ts lx') (hlx : lx = lx'.cleared) (hc : lx'.state.step? c = some .finalize)
      (hs : s.rest = c :: rest) (ht : w ++ c :: rest = text)
  | ended (hq : lx.state = .start) (hs : s.rest = [])

def Pull.Tracks (lx₀ : Lexer) (text : List Char) (pull : Pull TextSource ε) : Prop :=
  Lexer.Tracks lx₀ text pull.lexer pull.source

theorem exhaust_tracks (lx : Lexer) (s : TextSource) :
    (lx.exhaust (TextSource.source (ε := ε)) s).Tracks lx₀ text :=
  .ended rfl rfl

theorem finish_tracks (lx : Lexer) (hs : s.rest = []) :
    (lx.finish (TextSource.source (ε := ε)) s).Tracks lx₀ text := by
  by_cases hq : lx.state = .start
  · rw [finish_of_start _ hq]
    exact exhaust_tracks lx s
  · obtain ⟨t, ht⟩ := exists_open? hq
    rw [finish_of_open? _ ht]
    split
    · split
      · exact .ended rfl hs
      · exact exhaust_tracks lx.cleared s
    · exact exhaust_tracks lx s

theorem Tracks.turn (h : Tracks lx₀ text lx s) (hd : lx.done = false) :
    (lx.turn (TextSource.source (ε := ε)) s).Leads
      (fun lx s => lx.done = false ∧ Tracks lx₀ text lx s) (Pull.Tracks lx₀ text) := by
  have hsrc := TextSource.delivers (ε := ε)
  have hend : s.rest = [] → (lx.turn (TextSource.source (ε := ε)) s).Leads
      (fun lx s => lx.done = false ∧ Tracks lx₀ text lx s) (Pull.Tracks lx₀ text) := by
    intro hs
    obtain ⟨s', hturn, hs'⟩ := turn_nil hsrc lx hs
    rw [hturn]
    exact finish_tracks lx hs'
  cases h with
  | ended hq hs => exact hend hs
  | @reading w ts h ht =>
    cases hs : s.rest with
    | nil => exact hend hs
    | cons c rest =>
      rw [hs] at ht
      cases hc : lx.state.step? c with
      | none =>
        obtain ⟨s', hturn, -⟩ := turn_stuck hsrc.hands hs hc
        rw [hturn]
        exact .ended (State.step?_eq_none_iff.1 hc).1 rfl
      | some step =>
        cases step with
        | extend q =>
          obtain ⟨s', hturn, hs'⟩ := turn_extend hsrc.hands hs hc
          have hreads := h.concat (feed?_of_extend hc)
          have ht' : w ++ [c] ++ s'.rest = text := by
            rw [hs', ← ht, List.append_assoc]
            rfl
          rw [hturn]
          exact ⟨hd, .reading hreads ht'⟩
        | finalize =>
          obtain ⟨t, s', -, hs', hturn⟩ := turn_finalize hsrc.hands hs hc
          have hbetween : Lexer.Tracks lx₀ text lx.cleared s' := .between h rfl hc hs' ht
          rw [hturn]
          split
          · exact hbetween
          · exact ⟨hd, hbetween⟩
  | @between w rest ts lx' c h hlx hc hs ht =>
    subst hlx
    -- The token is finalized already; the character starts the next one, or none does.
    have hstart : lx'.cleared.state.step? c = (State.ofFirst? c).map .extend := rfl
    have hfeed := feed?_of_finalize hc
    cases hfirst : State.ofFirst? c with
    | none =>
      rw [hfirst] at hstart
      obtain ⟨s', hturn, -⟩ := turn_stuck hsrc.hands hs hstart
      rw [hturn]
      exact .ended rfl rfl
    | some q =>
      rw [hfirst] at hstart hfeed
      obtain ⟨s', hturn, hs'⟩ := turn_extend hsrc.hands hs hstart
      have ht' : w ++ [c] ++ s'.rest = text := by
        rw [hs', ← ht, List.append_assoc]
        rfl
      rw [hturn]
      exact ⟨hd, .reading (h.concat hfeed) ht'⟩

theorem Tracks.advance (h : Tracks lx₀ text lx s) (fuel : Nat) :
    (lx.advance (TextSource.source (ε := ε)) fuel s).Tracks lx₀ text := by
  cases hd : lx.done with
  | true =>
    rw [advance_eq_finished _ hd]
    exact h
  | false =>
    rw [advance_eq_scan _ hd]
    refine scan_leads (I := fun lx s => lx.done = false ∧ Tracks lx₀ text lx s) ?_ ?_ fuel ⟨hd, h⟩
    · rintro lx s ⟨hd, h⟩
      exact h.turn hd
    · rintro lx s ⟨-, h⟩
      exact h

theorem Reached.tracks {finalized emitted : List Token} {s₀ : TextSource}
    (h : Reached (TextSource.source (ε := ε)) lx₀ s₀ finalized emitted lx s) :
    Tracks lx₀ s₀.rest lx s := by
  induction h with
  | new => exact .reading .nil rfl
  | pull fuel h ih => exact ih.advance fuel

/-- With all of the text behind it and a token open, the engine is where a reading of the text
ends. -/
theorem Reached.reads {finalized emitted : List Token} {s₀ : TextSource}
    (h : Reached (TextSource.source (ε := ε)) lx₀ s₀ finalized emitted lx s) (hs : s.rest = [])
    (hq : lx.state ≠ .start) : ∃ ts, Reads lx₀ s₀.rest ts lx := by
  cases h.tracks with
  | reading h ht =>
    rw [hs, List.append_nil] at ht
    rw [← ht]
    exact ⟨_, h⟩
  | between h hlx hc hs' ht => cases hs.symm.trans hs'
  | ended hstart => exact absurd hstart hq

theorem Reached.turn {σ : Type} {src : CharSource σ ε} {finalized emitted : List Token} {s₀ s : σ}
    (h : Reached src lx₀ s₀ finalized emitted lx s) (hd : lx.done = false) :
    ∃ finalized' emitted',
      Reached src lx₀ s₀ finalized' emitted' (lx.turn src s).lexer (lx.turn src s).source := by
  -- A pull of a single turn leaves what the turn leaves, also if it is cut short behind it.
  have hpull := h.pull 1
  rw [advance_eq_scan src hd] at hpull
  cases ht : lx.turn src s with
  | again lx' s' =>
    rw [scan_of_again ht] at hpull
    exact ⟨_, _, hpull⟩
  | stop stopped =>
    rw [scan_of_stop ht] at hpull
    exact ⟨_, _, hpull⟩

theorem Reached.extend {finalized emitted : List Token} {s₀ : TextSource}
    (h : Reached (TextSource.source (ε := ε)) lx₀ s₀ finalized emitted lx s) (hd : lx.done = false)
    {c : Char} {rest : List Char} (hs : s.rest = c :: rest) {q : State}
    (hq : lx.state.step? c = some (.extend q)) : ∃ finalized' emitted' s',
      Reached (TextSource.source (ε := ε)) lx₀ s₀ finalized' emitted'
        (lx.consume (String.singleton c) q) s' ∧ s'.rest = rest := by
  obtain ⟨s', hturn, hs'⟩ := turn_extend (TextSource.delivers (ε := ε)).hands hs hq
  obtain ⟨finalized', emitted', hreached⟩ := h.turn hd
  rw [hturn] at hreached
  exact ⟨finalized', emitted', s', hreached, hs'⟩

/-- The engine gets to every reading of a front part of the text. -/
theorem Reads.reached {w : List Char} {ts : List Token} (h : Reads lx₀ w ts lx)
    (hd : lx₀.done = false) {s₀ : TextSource} {rest : List Char} (hs₀ : s₀.rest = w ++ rest) :
    ∃ finalized emitted s,
      Reached (TextSource.source (ε := ε)) lx₀ s₀ finalized emitted lx s ∧ s.rest = rest := by
  induction h generalizing rest with
  | nil => exact ⟨[], [], s₀, .new, hs₀⟩
  | @concat w ts us lx lx' c h hc ih =>
    rw [List.append_assoc] at hs₀
    obtain ⟨finalized, emitted, s, hreached, hs⟩ := ih hs₀
    have hgoing : lx.done = false := h.done.trans hd
    cases hq : lx.state.step? c with
    | none =>
      rw [feed?_of_stuck hq] at hc
      cases hc
    | some step =>
      cases step with
      | extend q =>
        rw [feed?_of_extend hq] at hc
        cases hc
        exact hreached.extend hgoing hs hq
      | finalize =>
        rw [feed?_of_finalize hq] at hc
        obtain ⟨q, hfirst, hfed⟩ := Option.map_eq_some_iff.1 hc
        cases hfed
        have hstart : lx.cleared.state.step? c = some (.extend q) := by
          change (State.ofFirst? c).map Step.extend = _
          rw [hfirst]
          rfl
        -- One turn finalizes the open token, shown or not, and the next one takes the character.
        obtain ⟨t, s', -, hs', hturn⟩ := turn_finalize (TextSource.delivers (ε := ε)).hands hs hq
        obtain ⟨finalized', emitted', hreached'⟩ := hreached.turn hgoing
        rw [hturn] at hreached'
        split at hreached'
        · exact hreached'.extend hgoing hs' hstart
        · exact hreached'.extend hgoing hs' hstart

end FormulaLex.Lexer
