import FormulaLex.Proofs.MaximalMunch
import FormulaLex.Proofs.Stepwise
import FormulaLex.Proofs.Translation

/-!
Two texts in a row. Whether the tokens of the whole are those of the front and, moved behind it,
those of the back, hangs on one step: that of the automaton, as the front leaves it, on the first
character of the back.
-/
namespace FormulaLex

theorem State.kind?_eq_whitespace_iff {q : State} :
    q.kind? = some .whitespace ↔ q = .whitespace := by
  cases q <;> simp [kind?]

theorem State.extend?_ne_whitespace {q q' : State} {c : Char} (h : q.extend? c = some q') :
    q ≠ .whitespace ∧ q' ≠ .whitespace := by
  unfold extend? at h
  grind

namespace Lexer

variable {lx₀ lx : Lexer} {w p : List Char} {ts : List Token} {c : Char}

theorem step?_extend_ne_whitespace (hq : lx.state ≠ .start) {q : State}
    (h : lx.state.step? c = some (.extend q)) : lx.state ≠ .whitespace ∧ q ≠ .whitespace := by
  apply State.extend?_ne_whitespace (c := c)
  rw [← State.grow?_of_ne_start hq, State.grow?_eq_some_iff]
  exact h

theorem shows_open? {t : Token} (ht : lx.open? = some t) (hq : lx.state ≠ .whitespace) :
    lx.shows t = true := by
  obtain ⟨k, hk, rfl⟩ := open?_eq_some_iff.1 ht
  have hne : k ≠ .whitespace := by
    intro he
    rw [he, State.kind?_eq_whitespace_iff] at hk
    exact hq hk
  simp [shows, hne]

/-- A run over two texts in a row goes on with the second one from where a reading of the first one
leaves the lexer. -/
theorem Reads.digest_append (h : Reads lx₀ w ts lx) (v : List Char) : lx₀.digest (w ++ v) =
    { lx.digest v with tokens := ts.filter lx₀.shows ++ (lx.digest v).tokens } := by
  simp only [digest, h.sweep_append v, h.config, h.sourceName, h.shows, List.append_assoc,
    List.filter_append]

/-- The token that is open is the first one to come, with what is taken into it before its end. -/
theorem Pending.digest_eq_cons (h : lx.Pending p) (hp : p ≠ []) (hq : lx.state ≠ .whitespace)
    (hflush : lx.config.flushes = true) (w : List Char) :
    ∃ t ts u, (lx.digest w).tokens = t :: ts ∧ t.text.toList = p ++ u := by
  induction w generalizing lx p with
  | nil =>
    obtain ⟨t, ht, htext, -⟩ := h.open? hp
    have hshow := shows_open? ht hq
    refine ⟨t, [], [], ?_, by rw [htext, List.append_nil]⟩
    simp [digest_nil, hflush, ht, hshow]
  | cons c w ih =>
    obtain ⟨t, ht, htext, -⟩ := h.open? hp
    have hopen := ne_start_of_open? ht
    have hshow := shows_open? ht hq
    cases hc : lx.state.step? c with
    | none => exact absurd (State.step?_eq_none_iff.1 hc).1 hopen
    | some step =>
      cases step with
      | finalize =>
        refine ⟨t, (lx.cleared.digest (c :: w)).tokens, [], ?_, by rw [htext, List.append_nil]⟩
        simp [digest_of_finalize hc ht, hshow]
      | extend q =>
        have hne := (step?_extend_ne_whitespace hopen hc).2
        have hgrown := h.consume (State.grow?_eq_some_iff.2 hc)
        obtain ⟨t', ts, u, htokens, htext'⟩ := ih hgrown (by simp) hne hflush
        refine ⟨t', ts, c :: u, ?_, ?_⟩
        · rw [digest_of_extend hc, htokens]
        · rw [htext', List.append_assoc]
          rfl

theorem moved_digest {ε : Type} (origin : Position) (h : lx.WellPlaced) (hd : lx.done = false)
    (w : List Char) :
    ((lx.moved origin).digest w).tokens = (lx.digest w).tokens.map (·.moved origin) ∧
      ((lx.moved origin).digest w).ending = (lx.digest w).ending.moved (ε := ε) origin := by
  have hsrc := TextSource.delivers (ε := ε)
  have hd' : (lx.moved origin).done = false := hd
  obtain ⟨s, hs⟩ := collect_eq (s := ⟨w, false⟩) hsrc rfl hd
  obtain ⟨s', hs'⟩ := collect_eq (s := ⟨w, false⟩) hsrc rfl hd'
  have hmoved := moved_collect origin (TextSource.source (ε := ε)) h ⟨w, false⟩
  rw [hs, hs'] at hmoved
  exact ⟨congrArg Harvest.tokens hmoved, Option.some.inj (congrArg Harvest.ending hmoved)⟩

section Boundary

variable (h : Reads lx₀ w ts lx) (hflush : lx₀.config.flushes = true)
include h hflush

theorem Reads.digest_tokens :
    (lx₀.digest w).tokens = ts.filter lx₀.shows ++ lx.open?.toList.filter lx.shows := by
  have happend := h.digest_append []
  rw [List.append_nil] at happend
  rw [happend, digest_nil, h.config, hflush]
  rfl

theorem Reads.digest_append_of_finalize (hc : lx.state.step? c = some .finalize) (v : List Char) :
    lx₀.digest (w ++ c :: v) =
      { lx.cleared.digest (c :: v) with
        tokens := (lx₀.digest w).tokens ++ (lx.cleared.digest (c :: v)).tokens } := by
  obtain ⟨t, ht⟩ := exists_open? (State.step?_eq_finalize_iff.1 hc).1
  rw [h.digest_append, digest_of_finalize hc ht, h.digest_tokens hflush, ht, List.append_assoc]
  rfl

/-- Where the open token goes on, the last token of the front is not one of the whole. -/
theorem Reads.not_digest_isPrefix (h₀ : lx₀.Pending []) (hw : w ≠ []) {q : State}
    (hc : lx.state.step? c = some (.extend q)) (v : List Char) :
    ¬ (lx₀.digest w).tokens <+: (lx₀.digest (w ++ c :: v)).tokens := by
  obtain ⟨p, hp, hnil⟩ := h.pending h₀
  have hne : p ≠ [] := hnil.not.2 hw
  obtain ⟨t, ht, htext, -⟩ := hp.open? hne
  have hkinds := step?_extend_ne_whitespace (ne_start_of_open? ht) hc
  have hgrown := hp.consume (State.grow?_eq_some_iff.2 hc)
  have hflush' : lx.config.flushes = true := by rw [h.config, hflush]
  obtain ⟨t', ts', u, htokens, htext'⟩ := hgrown.digest_eq_cons (by simp) hkinds.2 hflush' v
  have hshow := shows_open? ht hkinds.1
  have hfront : (lx₀.digest w).tokens = ts.filter lx₀.shows ++ [t] := by
    rw [h.digest_tokens hflush, ht]
    simp [hshow]
  have hwhole : (lx₀.digest (w ++ c :: v)).tokens = ts.filter lx₀.shows ++ t' :: ts' := by
    rw [h.digest_append, digest_of_extend hc, htokens]
  -- The token with which the front ends would be the longer one, too.
  rw [hfront, hwhole, List.prefix_append_right_inj, List.cons_prefix_cons]
  rintro ⟨rfl, -⟩
  have hlength := congrArg List.length (htext.symm.trans htext')
  simp only [List.length_append, List.length_cons] at hlength
  omega

end Boundary

/-- All of the text is behind the lexer, with the last token of it still open. -/
def Consumed {ε : Type} (src : CharSource TextSource ε) (lx₀ : Lexer) (text : String) (lx : Lexer) :
    Prop :=
  lx.state ≠ .start ∧ ∃ finalized emitted s,
    Reached src lx₀ (.ofString text) finalized emitted lx s ∧ s.rest = []

end Lexer

namespace TextSource

variable {ε : Type} {sourceName : Option String} {config : Config} {w : List Char}
  {ts : List Token} {lx : Lexer}

theorem cleared_of_reads (h : Lexer.Reads (lexer sourceName config) w ts lx) :
    lx.cleared = (lexer sourceName config).moved lx.position := by
  have hcleared : lx.cleared =
      ⟨lx.config, lx.sourceName, .start, .empty, lx.position, lx.done⟩ := rfl
  have hmoved : (lexer sourceName config).moved lx.position =
      ⟨config, sourceName, .start, .empty, Position.start.moved lx.position, false⟩ := rfl
  rw [hcleared, hmoved, h.config, h.sourceName, h.done, Position.moved_start]
  rfl

theorem exists_consumed {a : String} (ha : a ≠ "")
    (hend : ((source (ε := ε)).tokenize sourceName config (ofString a)).ending = some .finished) :
    ∃ lx, (lexer sourceName config).Consumed (source (ε := ε)) a lx := by
  rw [(tokenize_eq sourceName config a).2, Option.some.injEq] at hend
  have hfailure : ((lexer sourceName config).digest a.toList).failure = none := by
    unfold Lexer.Digest.ending at hend
    split at hend
    · assumption
    · cases hend
  obtain ⟨ts, lx, hreads⟩ := Lexer.reads_of_failure_eq_none hfailure
  have hopen : lx.state ≠ .start := by
    rw [hreads.ne_start_iff (pending_lexer sourceName config), ne_eq, String.toList_eq_nil_iff]
    exact ha
  have hwhole : (ofString a).rest = a.toList ++ [] := (List.append_nil _).symm
  obtain ⟨finalized, emitted, s, hreached, hs⟩ := hreads.reached (ε := ε) rfl hwhole
  exact ⟨lx, hopen, finalized, emitted, s, hreached, hs⟩

end TextSource

/-- The run over two texts in a row is the run over the first and, with all places moved behind it,
the run over the second, just if the first character of the second does not go into the token with
which the first ends. -/
theorem tokenize_append_iff {ε : Type} (sourceName : Option String) (config : Config)
    (hflush : config.flushes = true) {a b : String} {c : Char} (ha : a ≠ "")
    (hb : b.toList.head? = some c) :
    let src : CharSource TextSource ε := TextSource.source
    let new := TextSource.lexer sourceName config
    let run (text : String) := src.tokenize sourceName config (.ofString text)
    (run a).ending = some .finished →
      (∃ lx, new.Consumed src a lx) ∧ ∀ lx, new.Consumed src a lx →
        ((run (a ++ b)).tokens = (run a).tokens ++ (run b).tokens.map (·.moved lx.position) ∧
            (run (a ++ b)).ending = (run b).ending.map (·.moved lx.position) ↔
          ∀ q, lx.state.step? c ≠ some (.extend q)) := by
  intro src new run hend
  refine ⟨TextSource.exists_consumed ha hend, ?_⟩
  rintro lx ⟨hopen, finalized, emitted, s, hreached, hs⟩
  obtain ⟨ts, hreads⟩ := hreached.reads hs hopen
  change new.Reads a.toList ts lx at hreads
  obtain ⟨v, hv⟩ := List.head?_eq_some_iff.1 hb
  have hrun (text : String) : (run text).tokens = (new.digest text.toList).tokens ∧
      (run text).ending = some (new.digest text.toList).ending :=
    TextSource.tokenize_eq sourceName config text
  -- Behind the front, a cleared lexer is a new one that was put in there.
  have hplaced : new.WellPlaced := Lexer.wellPlaced_create _ _ _
  have hcleared : lx.cleared = new.moved lx.position := TextSource.cleared_of_reads hreads
  obtain ⟨htokens, hending⟩ := Lexer.moved_digest (ε := ε) lx.position hplaced rfl (c :: v)
  rw [← hcleared] at htokens hending
  rw [(hrun a).1, (hrun b).1, (hrun b).2, (hrun (a ++ b)).1, (hrun (a ++ b)).2,
    String.toList_append, hv]
  cases hc : lx.state.step? c with
  | none => exact absurd (State.step?_eq_none_iff.1 hc).1 hopen
  | some step =>
    cases step with
    | finalize =>
      have hwhole := hreads.digest_append_of_finalize hflush hc v
      refine iff_of_true ⟨?_, ?_⟩ (by simp)
      · rw [hwhole, htokens]
      · rw [hwhole]
        exact congrArg some hending
    | extend q =>
      have hne : a.toList ≠ [] := (hreads.ne_start_iff (TextSource.pending_lexer _ _)).1 hopen
      have hprefix := hreads.not_digest_isPrefix hflush (TextSource.pending_lexer _ _) hne hc v
      refine iff_of_false ?_ (by simp)
      rintro ⟨happend, -⟩
      apply hprefix
      rw [happend]
      exact List.prefix_append _ _

/-- Behind a star, a newline is a boundary and a second star is not. -/
theorem star_before_newline_and_star :
    let src : CharSource TextSource Empty := TextSource.source
    let new := TextSource.lexer none {}
    let run (text : String) := src.tokenize none {} (.ofString text)
    let lx : Lexer := { new with state := .star, lexeme := ⟨["*"], ⟨1, 2⟩⟩, position := ⟨1, 3⟩ }
    new.config.flushes = true ∧ (run "2*").ending = some .finished ∧ new.Consumed src "2*" lx ∧
      ((run ("2*" ++ "\n.")).tokens = (run "2*").tokens ++ (run "\n.").tokens.map (·.moved ⟨1, 3⟩) ∧
        (run ("2*" ++ "\n.")).ending = (run "\n.").ending.map (·.moved ⟨1, 3⟩)) ∧
      ¬ ((run ("2*" ++ "*3")).tokens = (run "2*").tokens ++ (run "*3").tokens.map (·.moved ⟨1, 3⟩) ∧
        (run ("2*" ++ "*3")).ending = (run "*3").ending.map (·.moved ⟨1, 3⟩)) := by
  intro src new run lx
  have hend : (run "2*").ending = some .finished := by
    unfold run src
    rfl
  have hreads : new.Reads ['2', '*'] _ lx := (Lexer.Reads.nil.concat rfl).concat rfl
  have hwhole : (TextSource.ofString "2*").rest = ['2', '*'] ++ [] := rfl
  obtain ⟨finalized, emitted, s, hreached, hs⟩ := hreads.reached (ε := Empty) rfl hwhole
  have hlx : new.Consumed src "2*" lx := ⟨nofun, finalized, emitted, s, hreached, hs⟩
  have hends : ∀ q, lx.state.step? '\n' ≠ some (.extend q) := by
    intro q hq
    cases hq
  have hnewline := (tokenize_append_iff (ε := Empty) none {} rfl (a := "2*") (b := "\n.")
    (c := '\n') (by decide) rfl hend).2 lx hlx
  have hstar := (tokenize_append_iff (ε := Empty) none {} rfl (a := "2*") (b := "*3")
    (c := '*') (by decide) rfl hend).2 lx hlx
  refine ⟨rfl, hend, hlx, hnewline.2 hends, ?_⟩
  intro happend
  exact hstar.1 happend .exponent rfl

end FormulaLex
