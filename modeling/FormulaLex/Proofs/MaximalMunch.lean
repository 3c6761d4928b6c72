import FormulaLex.Proofs.Delivery
import FormulaLex.Proofs.Munch

/-!
The lexer munches maximally: with the last token flushed and blanks shown, a run over a text gives
the cuts of longest match, although it never looks further ahead than one character.
-/
namespace FormulaLex

/-- A token without its place. -/
def Token.cut (t : Token) : Kind × List Char := (t.kind, t.text.toList)

namespace Lexer

variable {lx : Lexer} {p : List Char}

/-- An open token that does not go on is a longest match. -/
theorem Pending.munched (h : lx.Pending p) {rest : List Char} {cuts : List (Kind × List Char)}
    {stop : Option Char} (hstop : ∀ c ∈ rest.head?, p ≠ [] → lx.state.grow? c = none)
    (hrest : Munched rest cuts stop) :
    Munched (p ++ rest) (lx.open?.toList.map Token.cut ++ cuts) stop := by
  by_cases hp : p = []
  · subst hp
    simpa [h.state_eq_start_iff.2 rfl] using hrest
  · obtain ⟨t, ht, htext, hkind⟩ := h.open? hp
    simp only [ht, Option.toList_some, List.map_cons, List.map_nil, List.cons_append,
      List.nil_append, Token.cut, htext]
    exact .token (isLongest_iff.2 ⟨_, h.run, hkind, fun c hc => hstop c hc hp⟩) hrest

/-- The invariant of the run: what was taken since the last cut is the open token. -/
theorem Pending.sweep_munched (h : lx.Pending p) (w : List Char) :
    Munched (p ++ w) (((lx.sweep w).tokens ++ (lx.sweep w).lexer.open?.toList).map Token.cut)
      (lx.sweep w).rest.head? := by
  induction w generalizing lx p with
  | nil =>
    have hmunched : Munched (p ++ []) _ none := h.munched (by simp) .finished
    simpa using hmunched
  | cons c w ih =>
    cases hc : lx.state.step? c with
    | none =>
      obtain ⟨hq, hfirst⟩ := State.step?_eq_none_iff.1 hc
      rw [sweep_of_feed?_eq_none (feed?_of_stuck hc), h.state_eq_start_iff.1 hq]
      simpa [hq] using Munched.failed (no_contains_iff.2 hfirst)
    | some step =>
      cases step with
      | extend q =>
        rw [sweep_of_feed?_eq_some (feed?_of_extend hc)]
        have hp := h.consume (State.grow?_eq_some_iff.2 hc)
        simpa using ih hp
      | finalize =>
        obtain ⟨hq, hgrow⟩ := State.step?_eq_finalize_iff.1 hc
        rw [← State.grow?_of_ne_start hq] at hgrow
        have hfeed := feed?_of_finalize hc
        cases hfirst : State.ofFirst? c with
        | none =>
          rw [hfirst] at hfeed
          rw [sweep_of_feed?_eq_none hfeed]
          have hmunched : Munched (p ++ c :: w) _ (some c) :=
            h.munched (by simp [hgrow]) (.failed (no_contains_iff.2 hfirst))
          simpa using hmunched
        | some q =>
          rw [hfirst] at hfeed
          rw [sweep_of_feed?_eq_some hfeed]
          have hp := (pending_cleared lx).consume ((State.grow?_start c).trans hfirst)
          have hmunched : Munched (p ++ c :: w) _ _ := h.munched (by simp [hgrow]) (ih hp)
          simpa using hmunched

/-- Whether a run ended in front of the given character, or at the end of the text. -/
def Ending.StopsAt {ε : Type} : Ending ε → Option Char → Prop
  | .finished, none => True
  | .failed e, some c => e.character = String.singleton c
  | _, _ => False

theorem digest_stopsAt_iff {ε : Type} {w : List Char} {stop : Option Char} :
    ((lx.digest w).ending : Ending ε).StopsAt stop ↔ (lx.sweep w).rest.head? = stop := by
  cases hrest : (lx.sweep w).rest with
  | nil => cases stop <;> simp [Digest.ending, digest, hrest, Ending.StopsAt]
  | cons c rest =>
    cases stop <;> simp [Digest.ending, digest, hrest, Ending.StopsAt]

theorem digest_tokens {w : List Char} (hflush : lx.config.flushes = true)
    (hkeep : lx.config.keepsWhitespace = true) :
    (lx.digest w).tokens = (lx.sweep w).tokens ++ (lx.sweep w).lexer.open?.toList := by
  have hshows : ∀ t ∈ (lx.sweep w).tokens ++ (lx.sweep w).lexer.open?.toList, lx.shows t := by
    simp [shows, hkeep]
  simp only [digest, hflush, Bool.true_eq_false, and_false, ↓reduceIte]
  exact List.filter_eq_self.2 hshows

end Lexer

theorem TextSource.tokenize_munched {ε : Type} (sourceName : Option String) {config : Config}
    (hflush : config.flushes = true) (hkeep : config.keepsWhitespace = true) (s : String) :
    let harvest := (source : CharSource TextSource ε).tokenize sourceName config (ofString s)
    ∃ ending stop, harvest.ending = some ending ∧ (∀ stop', ending.StopsAt stop' ↔ stop = stop') ∧
      Munched s.toList (harvest.tokens.map Token.cut) stop := by
  intro harvest
  obtain ⟨htokens, hending⟩ := tokenize_eq (ε := ε) sourceName config s
  have hmunched := (pending_lexer sourceName config).sweep_munched s.toList
  rw [List.nil_append, ← Lexer.digest_tokens hflush hkeep, ← htokens] at hmunched
  exact ⟨_, _, hending, fun _ => Lexer.digest_stopsAt_iff, hmunched⟩

/-- A run over a text with the last token flushed and blanks shown comes to an end. Its tokens are
the cuts of longest match, and it ends where they end; there are no others. -/
theorem tokenize_munches {ε : Type} (sourceName : Option String) (config : Config)
    (hflush : config.flushes = true) (hkeep : config.keepsWhitespace = true) (s : String) :
    let harvest := (TextSource.source : CharSource TextSource ε).tokenize sourceName config
      (.ofString s)
    ∃ ending stop, harvest.ending = some ending ∧ ending.StopsAt stop ∧
      ∀ cuts stop', Munched s.toList cuts stop' ↔
        harvest.tokens.map Token.cut = cuts ∧ stop = stop' := by
  intro harvest
  obtain ⟨ending, stop, hending, hstops, hmunched⟩ :=
    TextSource.tokenize_munched (ε := ε) sourceName hflush hkeep s
  refine ⟨ending, stop, hending, (hstops stop).2 rfl, ?_⟩
  intro cuts stop'
  constructor
  · intro h
    exact hmunched.unique h
  · intro h
    obtain ⟨rfl, rfl⟩ := h
    exact hmunched

theorem munched_up_to_stray_point :
    let config : Config := { keepWhitespace := .bool true }
    config.flushes = true ∧ config.keepsWhitespace = true ∧
      Munched "12.x**.".toList
        [(.real, ['1', '2', '.']), (.identifier, ['x']), (.exponent, ['*', '*'])] (some '.') := by
  refine ⟨rfl, rfl, ?_⟩
  obtain ⟨ending, stop, hending, hstop, hmunched⟩ :=
    tokenize_munches (ε := Empty) none { keepWhitespace := .bool true } rfl rfl "12.x**."
  have hfailed : ending = .failed ⟨".", ⟨1, 7⟩, none⟩ := (Option.some.inj hending).symm
  subst hfailed
  have hstop' : stop = some '.' := by
    cases stop with
    | none => cases hstop
    | some c =>
      have hc : "." = String.singleton c := hstop
      rw [← String.toList_inj] at hc
      simpa using hc.symm
  apply (hmunched _ _).2
  exact ⟨by decide, hstop'⟩

end FormulaLex
