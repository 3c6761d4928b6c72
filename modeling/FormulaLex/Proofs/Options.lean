import FormulaLex.Proofs.Delivery

/-!
What the options have to do with a run over a text. Its tokens, its places and the character it fails
on hang on none of them but the count of newlines: the others choose among the tokens that are
there, which are shown and whether the last one is, if the text ends behind it.
-/
namespace FormulaLex

theorem State.mem_all (q : State) : q ∈ all := by
  cases q <;> decide

theorem State.extend?_blank {c : Char} (hc : Charset.isBlank c) (q : State) :
    q.extend? c = none := by
  have hblanks : all.all fun q => Charset.blanks.all fun c => (q.extend? c).isNone := by decide
  have hmem : c ∈ Charset.blanks := by simpa [Charset.isBlank] using hc
  have hq := List.all_eq_true.1 hblanks q q.mem_all
  exact Option.isNone_iff_eq_none.1 (List.all_eq_true.1 hq c hmem)

namespace Lexer

variable {lx lx' : Lexer} {config : Config} {c : Char} {w : List Char} {ts : List Token}

def withConfig (lx : Lexer) (config : Config) : Lexer := { lx with config }

@[simp] theorem open?_withConfig (lx : Lexer) (config : Config) :
    (lx.withConfig config).open? = lx.open? := by
  simp only [open?, finalize?, Option.map_map]
  rfl

section Sweep

variable (hcount : config.countsNewlines = lx.config.countsNewlines)
include hcount

theorem consume_withConfig (ahead : String) (q : State) :
    (lx.withConfig config).consume ahead q = (lx.consume ahead q).withConfig config := by
  simp only [consume, withConfig, hcount]

theorem feed?_withConfig (c : Char) : (lx.withConfig config).feed? c =
    (lx.feed? c).map fun fed => (fed.1, fed.2.withConfig config) := by
  have hstate : (lx.withConfig config).state = lx.state := rfl
  have hcleared : (lx.withConfig config).cleared = lx.cleared.withConfig config := rfl
  simp only [feed?, open?_withConfig, hstate, hcleared]
  cases lx.state.grow? c with
  | some q => exact congrArg (fun lx => some ([], lx)) (consume_withConfig hcount _ q)
  | none =>
    cases State.ofFirst? c with
    | none => rfl
    | some q =>
      have hcount' : config.countsNewlines = lx.cleared.config.countsNewlines := hcount
      exact congrArg (fun lx' => some (lx.open?.toList, lx')) (consume_withConfig hcount' _ q)

theorem sweep_withConfig (w : List Char) : (lx.withConfig config).sweep w =
    ⟨(lx.sweep w).tokens, (lx.sweep w).lexer.withConfig config, (lx.sweep w).rest⟩ := by
  induction w generalizing lx with
  | nil => rfl
  | cons c w ih =>
    have hfeed := feed?_withConfig hcount c
    cases hc : lx.feed? c with
    | none =>
      rw [hc] at hfeed
      rw [sweep_of_feed?_eq_none hc, sweep_of_feed?_eq_none hfeed]
    | some fed =>
      obtain ⟨ts, lx'⟩ := fed
      have hconfig : lx'.config = lx.config := (Reads.nil.concat hc).config
      rw [hc] at hfeed
      rw [sweep_of_feed?_eq_some hc, sweep_of_feed?_eq_some hfeed, ih (by rw [hconfig, hcount])]

end Sweep

theorem Reads.withConfig {lx₀ : Lexer} (h : Reads lx₀ w ts lx) (options : Config)
    (hcount : options.countsNewlines = lx₀.config.countsNewlines) :
    Reads (lx₀.withConfig options) w ts (lx.withConfig options) := by
  induction h with
  | nil => exact .nil
  | concat h hc ih =>
    have hcount' := hcount.trans (congrArg Config.countsNewlines h.config.symm)
    apply ih.concat
    rw [feed?_withConfig hcount', hc]
    rfl

/-- The tokens of a text, shown or not. One that is still open at the end of the text is only among
them if it is flushed. -/
def made (lx : Lexer) (flushes : Bool) (w : List Char) : List Token :=
  let swept := lx.sweep w
  swept.tokens ++ if swept.rest = [] ∧ flushes = false then [] else swept.lexer.open?.toList

/-- The options choose among the tokens, and nothing else hangs on them. -/
theorem digest_withConfig (hcount : config.countsNewlines = lx.config.countsNewlines)
    (w : List Char) : (lx.withConfig config).digest w =
      ⟨(lx.made config.flushes w).filter (lx.withConfig config).shows, (lx.digest w).failure,
        (lx.digest w).lexer.withConfig config⟩ := by
  have hflush : (lx.withConfig config).config.flushes = config.flushes := rfl
  simp only [digest, made, sweep_withConfig hcount, open?_withConfig, hflush]
  rfl

theorem failure_eq_none_iff : (lx.digest w).failure = none ↔ (lx.sweep w).rest = [] := by
  simp [digest]

theorem made_of_failure (hfail : (lx.digest w).failure ≠ none) (flushes : Bool) :
    lx.made flushes w = lx.made true w := by
  rw [ne_eq, failure_eq_none_iff] at hfail
  simp only [made, hfail, false_and, ↓reduceIte]

/-- A text that is read to its end ends with a token that is still open. -/
theorem exists_made_eq_concat (h₀ : lx.Pending []) (hw : w ≠ [])
    (hfail : (lx.digest w).failure = none) :
    ∃ last, lx.made true w = lx.made false w ++ [last] := by
  obtain ⟨ts, lx', hreads⟩ := reads_of_failure_eq_none hfail
  obtain ⟨last, hlast⟩ := exists_open? ((hreads.ne_start_iff h₀).2 hw)
  refine ⟨last, ?_⟩
  simp [made, hreads.sweep_eq, hlast]

/-- What follows the character on which a run fails is not looked at. -/
theorem sweep_append_of_failure (hfail : (lx.digest w).failure ≠ none) (v : List Char) :
    lx.sweep (w ++ v) = { lx.sweep w with rest := (lx.sweep w).rest ++ v } := by
  obtain ⟨front, hsplit, hreads, hstop⟩ := lx.sweep_reads w
  rw [ne_eq, failure_eq_none_iff] at hfail
  cases hrest : (lx.sweep w).rest with
  | nil => exact absurd hrest hfail
  | cons c rest =>
    rw [hrest] at hsplit hstop
    have hfeed := hstop c rfl
    have hwhole := hreads.sweep_append (c :: rest ++ v)
    rw [← List.append_assoc, ← hsplit, List.cons_append, sweep_of_feed?_eq_none hfeed] at hwhole
    rw [hwhole]
    simp only [List.append_nil, List.cons_append]

theorem made_append_of_failure (hfail : (lx.digest w).failure ≠ none) (flushes : Bool)
    (v : List Char) : lx.made flushes (w ++ v) = lx.made flushes w := by
  have hsweep := sweep_append_of_failure hfail v
  rw [ne_eq, failure_eq_none_iff] at hfail
  simp only [made, hsweep, List.append_eq_nil_iff, hfail, false_and]

theorem digest_append_of_failure (hfail : (lx.digest w).failure ≠ none) (v : List Char) :
    lx.digest (w ++ v) = lx.digest w := by
  have hsweep := sweep_append_of_failure hfail v
  rw [ne_eq, failure_eq_none_iff] at hfail
  obtain ⟨d, rest, hrest⟩ := List.exists_cons_of_ne_nil hfail
  simp [digest, hsweep, hrest]

theorem exists_feed?_blank (hc : Charset.isBlank c) (lx : Lexer) :
    ∃ lx', lx.feed? c = some (lx.open?.toList, lx') := by
  have hfirst := State.ofFirst?_blank hc
  by_cases hq : lx.state = .start
  · have hstep : lx.state.step? c = some (.extend .whitespace) := by
      rw [← State.grow?_eq_some_iff, hq, State.grow?_start, hfirst]
    rw [feed?_of_extend hstep, open?_of_start hq]
    exact ⟨_, rfl⟩
  · have hstep : lx.state.step? c = some .finalize :=
      State.step?_eq_finalize_iff.2 ⟨hq, State.extend?_blank hc _⟩
    rw [feed?_of_finalize hstep, hfirst]
    exact ⟨_, rfl⟩

/-- A blank behind a text takes the place of the flush: it ends the last token, and is dropped. -/
theorem made_append_blank (hc : Charset.isBlank c) (w : List Char) :
    lx.made false (w ++ [c]) = lx.made true w ∧
      (lx.digest (w ++ [c])).failure = (lx.digest w).failure := by
  by_cases hfail : (lx.digest w).failure = none
  · obtain ⟨ts, lx', hreads⟩ := reads_of_failure_eq_none hfail
    obtain ⟨lx'', hfeed⟩ := exists_feed?_blank hc lx'
    have hwhole := (hreads.concat hfeed).sweep_eq
    constructor
    · simp [made, hwhole, hreads.sweep_eq]
    · rw [hfail, failure_eq_none_iff, hwhole]
  · rw [made_append_of_failure hfail, made_of_failure hfail, digest_append_of_failure hfail]
    exact ⟨rfl, rfl⟩

theorem Digest.ending_congr {ε : Type} {d d' : Digest} (h : d.failure = d'.failure) :
    (d.ending : Ending ε) = d'.ending := by
  simp only [ending, h]

theorem Digest.ending_eq_finished_iff {ε : Type} {d : Digest} :
    (d.ending : Ending ε) = .finished ↔ d.failure = none := by
  unfold ending
  cases d.failure <;> simp

theorem Digest.ending_settled {ε : Type} (d : Digest) :
    (d.ending : Ending ε) = .finished ∨ ∃ e, (d.ending : Ending ε) = .failed e := by
  unfold ending
  cases d.failure with
  | none => exact .inl rfl
  | some e => exact .inr ⟨e, rfl⟩

end Lexer

/-- The tokens that the option shows. -/
def Value.keeps (keep : Value) (t : Token) : Bool := keep.isTruthy || t.kind != .whitespace

theorem Value.filter_keeps {keep : Value} (hkeep : keep.isTruthy = true) (ts : List Token) :
    ts.filter keep.keeps = ts := by
  apply List.filter_eq_self.2
  intro t _
  rw [keeps, hkeep, Bool.true_or]

/-- A run over a text, as it hangs on the two options, and on nothing but them. -/
theorem TextSource.tokenize_options {ε : Type} (sourceName : Option String) (config : Config)
    (flush keep : Value) (text : String) :
    let run := (source (ε := ε)).tokenize sourceName
      { config with flushAtEnd := flush, keepWhitespace := keep } (ofString text)
    let base := lexer sourceName config
    let digest := base.digest text.toList
    run.tokens = (base.made flush.isTruthy text.toList).filter keep.keeps ∧
      run.ending = some digest.ending ∧
      run.lexer = digest.lexer.withConfig
        { config with flushAtEnd := flush, keepWhitespace := keep } ∧
      run.events = [(Lexer.create label sourceName config).2, digest.event] := by
  intro run base digest
  let config' : Config := { config with flushAtEnd := flush, keepWhitespace := keep }
  have hcount : config'.countsNewlines = base.config.countsNewlines := rfl
  obtain ⟨s', hs'⟩ := tokenize_eq_harvest (ε := ε) sourceName config' text
  have hdigest : (lexer sourceName config').digest text.toList = _ :=
    Lexer.digest_withConfig hcount text.toList
  have hrun : run = _ := hs'
  rw [hrun, hdigest]
  exact ⟨rfl, rfl, rfl, rfl⟩

theorem TextSource.tokenize_settled {ε : Type} (sourceName : Option String) (config : Config)
    (text : String) :
    let ending := ((source (ε := ε)).tokenize sourceName config (ofString text)).ending
    ending = some .finished ∨ ∃ e, ending = some (.failed e) := by
  intro ending
  have hending : ending = _ := (tokenize_eq sourceName config text).2
  rw [hending]
  rcases ((lexer sourceName config).digest text.toList).ending_settled (ε := ε) with
    hfinished | ⟨e, hfailed⟩
  · exact .inl (congrArg some hfinished)
  · exact .inr ⟨e, congrArg some hfailed⟩

/-- To hide blanks is only a filter: the tokens are those of the run that shows them, less the
blanks, with the same texts and places; both runs end alike and log the same, and they leave lexers
that differ in the option alone. -/
theorem tokenize_hidden_eq_filter {ε : Type} (sourceName : Option String) (config : Config)
    (s : String) (shown hidden : Value) (hshown : shown.isTruthy = true)
    (hhidden : hidden.isTruthy = false) :
    let run (keep : Value) := (TextSource.source : CharSource TextSource ε).tokenize sourceName
      { config with keepWhitespace := keep } (.ofString s)
    (run hidden).tokens = (run shown).tokens.filter (·.kind != .whitespace) ∧
      (run hidden).ending = (run shown).ending ∧
      ((run hidden).ending = some .finished ∨ ∃ e, (run hidden).ending = some (.failed e)) ∧
      (run hidden).lexer =
        (run shown).lexer.withConfig { config with keepWhitespace := hidden } ∧
      (run hidden).events = (run shown).events := by
  intro run
  have hrun (keep : Value) :=
    TextSource.tokenize_options (ε := ε) sourceName config config.flushAtEnd keep s
  obtain ⟨htokens, hending, hlexer, hevents⟩ := hrun hidden
  obtain ⟨htokens', hending', hlexer', hevents'⟩ := hrun shown
  have hkeeps : hidden.keeps = fun t => t.kind != .whitespace := by
    funext t
    rw [Value.keeps, hhidden, Bool.false_or]
  rw [Value.filter_keeps hshown] at htokens'
  rw [hkeeps, ← htokens'] at htokens
  have hleft : (run shown).lexer = _ := hlexer'
  refine ⟨htokens, hending.trans hending'.symm, TextSource.tokenize_settled sourceName _ s, ?_,
    hevents.trans hevents'.symm⟩
  rw [hleft]
  exact hlexer

theorem blanks_in_front_of_failure_hidden :
    let run (keep : Value) := (TextSource.source : CharSource TextSource Empty).tokenize none
      { keepWhitespace := keep } (.ofString "a \n2..")
    (Value.int 1).isTruthy = true ∧ Value.null.isTruthy = false ∧
      (run .null).tokens = (run (.int 1)).tokens.filter (·.kind != .whitespace) ∧
      (run .null).events = (run (.int 1)).events ∧ (run (.int 1)).tokens.length = 4 ∧
      (run .null).tokens.map (fun t => (t.kind, t.text, t.position)) =
        [(.identifier, "a", ⟨1, 1⟩), (.real, "2.", ⟨2, 1⟩)] := by
  intro run
  obtain ⟨htokens, -, -, -, hevents⟩ := tokenize_hidden_eq_filter (ε := Empty) none {} "a \n2.."
    (.int 1) .null rfl rfl
  exact ⟨rfl, rfl, htokens, hevents, rfl, by decide⟩

/-- What the end of the text does to its last token. If the token is not flushed, then a blank behind
the text does for it what the flush would have done; it alone is missing, also where it would be
hidden anyway; and where the run fails, it does not hang on the end. No token is open in the end. -/
theorem tokenize_flush_laws {ε : Type} (sourceName : Option String) (config : Config) (s : String)
    {c : Char} (hc : Charset.isBlank c) (flush drop shown : Value)
    (hflush : flush.isTruthy = true) (hdrop : drop.isTruthy = false)
    (hshown : shown.isTruthy = true) :
    let run (flush keep : Value) (text : String) :=
      (TextSource.source : CharSource TextSource ε).tokenize sourceName
        { config with flushAtEnd := flush, keepWhitespace := keep } (.ofString text)
    ∀ keep : Value,
      ((run drop keep (s ++ String.singleton c)).tokens = (run flush keep s).tokens ∧
        (run drop keep (s ++ String.singleton c)).ending = (run flush keep s).ending) ∧
      (run drop keep s).ending = (run flush keep s).ending ∧
      ((run flush keep s).ending = some .finished → s ≠ "" →
        ∃ front last, (run flush shown s).tokens = front ++ [last] ∧
          (run flush keep s).tokens = (front ++ [last]).filter keep.keeps ∧
          (run drop keep s).tokens = front.filter keep.keeps) ∧
      (∀ e, (run flush keep s).ending = some (.failed e) →
        (run drop keep s).tokens = (run flush keep s).tokens) ∧
      ∀ flush' text, (run flush' keep text).lexer.state = .start ∧
        (run flush' keep text).lexer.lexeme = .empty ∧
        ((run flush' keep text).ending = some .finished ∨
          ∃ e, (run flush' keep text).ending = some (.failed e)) := by
  intro run keep
  let base := TextSource.lexer sourceName config
  have hrun (flush keep : Value) (text : String) :
      (run flush keep text).tokens =
          (base.made flush.isTruthy text.toList).filter keep.keeps ∧
        (run flush keep text).ending = some (base.digest text.toList).ending := by
    obtain ⟨htokens, hending, -, -⟩ :=
      TextSource.tokenize_options (ε := ε) sourceName config flush keep text
    exact ⟨htokens, hending⟩
  have hlonger : (s ++ String.singleton c).toList = s.toList ++ [c] := by simp
  have hblank : base.made false (s.toList ++ [c]) = base.made true s.toList ∧
    (base.digest (s.toList ++ [c])).failure = (base.digest s.toList).failure :=
    Lexer.made_append_blank hc s.toList
  obtain ⟨hmade, hfailure⟩ := hblank
  simp only [hrun, hflush, hdrop, hlonger, hmade, Value.filter_keeps hshown, Option.some.injEq]
  refine ⟨⟨trivial, Lexer.Digest.ending_congr hfailure⟩, trivial, ?_, ?_, ?_⟩
  · intro hfinished hs
    have hne : s.toList ≠ [] := by simpa using hs
    obtain ⟨last, hlast⟩ := Lexer.exists_made_eq_concat (TextSource.pending_lexer sourceName config)
      hne (Lexer.Digest.ending_eq_finished_iff.1 hfinished)
    exact ⟨base.made false s.toList, last, hlast, congrArg _ hlast, rfl⟩
  · intro e hfailed
    have hfail : (base.digest s.toList).failure ≠ none := by
      intro hnone
      rw [Lexer.Digest.ending_eq_finished_iff.2 hnone] at hfailed
      cases hfailed
    rw [Lexer.made_of_failure hfail false]
  · intro flush' text
    have hlexer := (TextSource.tokenize_options (ε := ε) sourceName config flush' keep text).2.2.1
    exact ⟨congrArg Lexer.state hlexer, congrArg Lexer.lexeme hlexer,
      (base.digest text.toList).ending_settled⟩

theorem open_fraction_flushed_or_dropped :
    let run (flush keep : Value) (text : String) :=
      (TextSource.source : CharSource TextSource Empty).tokenize none
        { flushAtEnd := flush, keepWhitespace := keep } (.ofString text)
    Charset.isBlank '\t' = true ∧ (Value.int 1).isTruthy = true ∧ Value.null.isTruthy = false ∧
      (run .null .null "a 1.\t").tokens = (run (.int 1) .null "a 1.").tokens ∧
      (run (.int 1) .null "a 1.").ending = some .finished ∧
      (∃ front last, (run (.int 1) (.int 1) "a 1.").tokens = front ++ [last] ∧
        (run .null .null "a 1.").tokens = front.filter Value.null.keeps ∧ front.length = 2 ∧
        last.kind = .real ∧ last.text = "1.") ∧
      (run (.int 1) .null "a 1..").ending = some (.failed ⟨".", ⟨1, 5⟩, none⟩) ∧
      (run .null .null "a 1..").tokens = (run (.int 1) .null "a 1..").tokens := by
  intro run
  have hfinished : (run (.int 1) .null "a 1.").ending = some .finished := rfl
  have hfailed : (run (.int 1) .null "a 1..").ending = some (.failed ⟨".", ⟨1, 5⟩, none⟩) := rfl
  obtain ⟨⟨hblank, -⟩, -, hdropped, -⟩ := tokenize_flush_laws (ε := Empty) none {} "a 1."
    (c := '\t') rfl (.int 1) .null (.int 1) rfl rfl rfl .null
  obtain ⟨-, -, -, hsame, -⟩ := tokenize_flush_laws (ε := Empty) none {} "a 1.."
    (c := '\t') rfl (.int 1) .null (.int 1) rfl rfl rfl .null
  obtain ⟨front, last, hwhole, -, hfront⟩ := hdropped hfinished (by decide)
  have hlength : (run (.int 1) (.int 1) "a 1.").tokens.length = 3 := rfl
  have hlast : (run (.int 1) (.int 1) "a 1.").tokens.getLast?.map (fun t => (t.kind, t.text)) =
      some (.real, "1.") := by decide
  have hwhole' : (run (.int 1) (.int 1) "a 1.").tokens = front ++ [last] := hwhole
  rw [hwhole', List.length_append, List.length_singleton] at hlength
  rw [hwhole', List.getLast?_concat, Option.map_some, Option.some.injEq, Prod.mk.injEq] at hlast
  exact ⟨rfl, rfl, rfl, hblank, hfinished, ⟨front, last, hwhole, hfront, by omega, hlast⟩, hfailed,
    hsame _ hfailed⟩

end FormulaLex
