import FormulaLex.Proofs.Options

/-!
What was made of a text when more follows. All that can change is the token with which the text
ends: what was finalized in front of a character stays, and so does a failure.
-/
namespace FormulaLex

namespace Lexer

variable {lx lx' : Lexer} {w : List Char} {ts : List Token}

theorem Reads.made_false (h : Reads lx w ts lx') : lx.made false w = ts := by
  simp [made, h.sweep_eq]

/-- A token that was finalized in front of a character is not taken back. -/
theorem Reads.isPrefix_made_append (h : Reads lx w ts lx') (flushes : Bool) (v : List Char) :
    ts <+: lx.made flushes (w ++ v) := by
  simp only [made, h.sweep_append, List.append_assoc]
  exact List.prefix_append _ _

theorem made_false_isPrefix (hfail : (lx.digest w).failure = none) (flushes : Bool)
    (v : List Char) : lx.made false w <+: lx.made flushes (w ++ v) := by
  obtain ⟨ts, lx', hreads⟩ := reads_of_failure_eq_none hfail
  rw [hreads.made_false]
  exact hreads.isPrefix_made_append flushes v

theorem exists_made_eq_append (hfail : (lx.digest w).failure = none) (flushes : Bool) :
    ∃ last : Option Token, lx.made flushes w = lx.made false w ++ last.toList := by
  obtain ⟨ts, lx', hreads⟩ := reads_of_failure_eq_none hfail
  rw [hreads.made_false]
  cases flushes with
  | false => exact ⟨none, by rw [hreads.made_false, Option.toList_none, List.append_nil]⟩
  | true => exact ⟨lx'.open?, by simp [made, hreads.sweep_eq]⟩

end Lexer

/-- A run that fails is not changed by what follows the text. A run that comes through goes on with
the tokens that it has without a flush, whatever follows and whatever the options say of the flush;
the flush itself is of one token at most. -/
theorem tokenize_append_stable {ε : Type} (sourceName : Option String) (config : Config)
    (drop : Value) (hdrop : drop.isTruthy = false) (s t : String) :
    let run (config : Config) (text : String) :=
      (TextSource.source : CharSource TextSource ε).tokenize sourceName config (.ofString text)
    let settled := (run { config with flushAtEnd := drop } s).tokens
    ((∃ e, (run config s).ending = some (.failed e)) →
        (run config (s ++ t)).tokens = (run config s).tokens ∧
        (run config (s ++ t)).ending = (run config s).ending ∧
        (run config (s ++ t)).lexer = (run config s).lexer ∧
        (run config (s ++ t)).events = (run config s).events) ∧
      ((run config s).ending = some .finished →
        settled <+: (run config (s ++ t)).tokens ∧
        ∃ last : Option Token, (run config s).tokens = settled ++ last.toList) ∧
      ((run config s).ending = some .finished ∨ ∃ e, (run config s).ending = some (.failed e)) := by
  intro run settled
  let base := TextSource.lexer sourceName config
  let flushes := config.flushAtEnd.isTruthy
  let shows := config.keepWhitespace.keeps
  have hrun (text : String) :=
    TextSource.tokenize_options (ε := ε) sourceName config config.flushAtEnd config.keepWhitespace
      text
  have htokens (text : String) :
      (run config text).tokens = (base.made flushes text.toList).filter shows := (hrun text).1
  have hending (text : String) :
      (run config text).ending = some (base.digest text.toList).ending := (hrun text).2.1
  have hsettled : settled = (base.made false s.toList).filter shows := by
    have hdropped := TextSource.tokenize_options (ε := ε) sourceName config drop
      config.keepWhitespace s
    rw [← hdrop]
    exact hdropped.1
  refine ⟨?_, ?_, TextSource.tokenize_settled sourceName config s⟩
  · rintro ⟨e, he⟩
    have hfail : (base.digest s.toList).failure ≠ none := by
      intro hnone
      rw [hending, Lexer.Digest.ending_eq_finished_iff.2 hnone] at he
      cases he
    have hdigest : base.digest (s ++ t).toList = base.digest s.toList := by
      rw [String.toList_append, Lexer.digest_append_of_failure hfail]
    obtain ⟨-, -, hlexer, hevents⟩ := hrun s
    obtain ⟨-, -, hlexer', hevents'⟩ := hrun (s ++ t)
    refine ⟨?_, ?_, ?_, ?_⟩
    · rw [htokens, htokens, String.toList_append, Lexer.made_append_of_failure hfail]
    · rw [hending, hending, hdigest]
    · exact hlexer'.trans ((congrArg (·.lexer.withConfig config) hdigest).trans hlexer.symm)
    · exact hevents'.trans
        ((congrArg (fun digest => [_, Lexer.Digest.event digest]) hdigest).trans hevents.symm)
  · intro hfinished
    rw [hending, Option.some.injEq, Lexer.Digest.ending_eq_finished_iff] at hfinished
    obtain ⟨last, hlast⟩ := Lexer.exists_made_eq_append hfinished flushes
    constructor
    · rw [hsettled, htokens, String.toList_append]
      exact (Lexer.made_false_isPrefix hfinished flushes t.toList).filter shows
    · refine ⟨last.filter shows, ?_⟩
      rw [hsettled, htokens, hlast, List.filter_append, Option.toList_filter]

/-- A star that is still open may become another token; a stray point stays where it is. -/
theorem open_star_grows_and_stray_point_stays :
    let run (config : Config) (text : String) :=
      (TextSource.source : CharSource TextSource Empty).tokenize none config (.ofString text)
    let texts (config : Config) (text : String) := (run config text).tokens.map Token.text
    Value.null.isTruthy = false ∧ (run {} "a*").ending = some .finished ∧
      texts { flushAtEnd := .null } "a*" = ["a"] ∧ texts {} "a*" = ["a", "*"] ∧
      texts {} ("a*" ++ "*2") = ["a", "**", "2"] ∧
      (run { flushAtEnd := .null } "a*").tokens <+: (run {} ("a*" ++ "*2")).tokens ∧
      (∃ last : Option Token, (run {} "a*").tokens =
        (run { flushAtEnd := .null } "a*").tokens ++ last.toList) ∧
      (run {} "a.").ending = some (.failed ⟨".", ⟨1, 2⟩, none⟩) ∧
      (run {} ("a." ++ "5")).tokens = (run {} "a.").tokens ∧
      (run {} ("a." ++ "5")).ending = some (.failed ⟨".", ⟨1, 2⟩, none⟩) := by
  intro run texts
  have hfinished : (run {} "a*").ending = some .finished := rfl
  have hfailed : (run {} "a.").ending = some (.failed ⟨".", ⟨1, 2⟩, none⟩) := rfl
  obtain ⟨-, hgrows, -⟩ := tokenize_append_stable (ε := Empty) none {} .null rfl "a*" "*2"
  obtain ⟨hstays, -, -⟩ := tokenize_append_stable (ε := Empty) none {} .null rfl "a." "5"
  obtain ⟨hfront, hlast⟩ := hgrows hfinished
  obtain ⟨htokens, hending, -, -⟩ := hstays ⟨_, hfailed⟩
  exact ⟨rfl, hfinished, by decide, by decide, by decide, hfront, hlast, hfailed, htokens,
    hending.trans hfailed⟩

end FormulaLex
