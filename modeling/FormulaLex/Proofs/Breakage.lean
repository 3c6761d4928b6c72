import FormulaLex.Proofs.Failure

/-!
Sources that break off: they hand out the characters that they have, and fault behind the last. Up
to there a run is the one over these characters that drops an open token.
-/
namespace FormulaLex

variable {σ ε : Type}

/-- The source has the characters `w` to hand out, and then faults. -/
structure CharSource.Breaks (src : CharSource σ ε) (Holds : σ → List Char → Prop) (fault : ε) :
    Prop extends src.Hands Holds where
  peek_nil {s : σ} (h : Holds s []) : ∃ s', src.peek s = (.error fault, s')

/-- The source hands out the characters it has, and then it ends, or faults. -/
def CharSource.Serves (src : CharSource σ ε) (Holds : σ → List Char → Prop) : Option ε → Prop
  | none => src.Delivers Holds
  | some fault => src.Breaks Holds fault

namespace Lexer

variable {src : CharSource σ ε} {Holds : σ → List Char → Prop} {fault : ε} {drop : Value}
  {lx : Lexer} {s : σ} {w : List Char}

/-- What the last pull comes to where the source breaks off behind the text of the digest. -/
def Digest.brokenOutcome (fault : ε) (d : Digest) : Except (Interrupt ε) Outcome :=
  match d.failure with
  | none => .error (.source fault)
  | some e => .ok (.failed e)

def Digest.brokenEnding (fault : ε) (d : Digest) : Ending ε :=
  match d.failure with
  | none => .interrupted (.source fault)
  | some e => .failed e

/-- What a pull comes to where the source breaks off behind `w`: the first token of the digest that
drops the open token, or its end. -/
inductive Broken (Holds : σ → List Char → Prop) (fault : ε) (drop : Value) (lx : Lexer)
    (w : List Char) : Pull σ ε → Prop
  | emitted {t : Token} {lx' : Lexer} {s' : σ} {w' : List Char} (held : Holds s' w')
      (going : lx'.done = false)
      (digest : (lx.withFlush drop).digest w = { (lx'.withFlush drop).digest w' with
        tokens := t :: ((lx'.withFlush drop).digest w').tokens })
      (shorter : w'.length ≤ w.length) (lighter : lx'.load w' < lx.load w) :
      Broken Holds fault drop lx w ⟨.ok (.emitted t), lx', s', []⟩
  | ended {pull : Pull σ ε} (tokens : ((lx.withFlush drop).digest w).tokens = [])
      (outcome : pull.outcome = ((lx.withFlush drop).digest w).brokenOutcome fault) :
      Broken Holds fault drop lx w pull

theorem Broken.mono {lx' : Lexer} {w' : List Char} {pull : Pull σ ε}
    (h : Broken Holds fault drop lx' w' pull)
    (hd : (lx.withFlush drop).digest w = (lx'.withFlush drop).digest w')
    (hlength : w'.length ≤ w.length) (hload : lx'.load w' ≤ lx.load w) :
    Broken Holds fault drop lx w pull := by
  cases h with
  | emitted held going digest shorter lighter =>
    exact .emitted held going (hd.trans digest) (Nat.le_trans shorter hlength) (by omega)
  | ended tokens outcome =>
    rw [← hd] at tokens outcome
    exact .ended tokens outcome

theorem digest_withFlush_of_finalize (drop : Value) {c : Char} {t : Token}
    (hc : lx.state.step? c = some .finalize) (ht : lx.open? = some t) (w : List Char) :
    (lx.withFlush drop).digest (c :: w) = { (lx.cleared.withFlush drop).digest (c :: w) with
      tokens := [t].filter lx.shows ++ ((lx.cleared.withFlush drop).digest (c :: w)).tokens } := by
  have hc' : (lx.withFlush drop).state.step? c = some .finalize := hc
  have ht' : (lx.withFlush drop).open? = some t := by rw [open?_withFlush, ht]
  exact digest_of_finalize hc' ht' w

theorem scan_broken (hsrc : src.Breaks Holds fault) (hdrop : drop.isTruthy = false) {fuel : Nat}
    (h : Holds s w) (hd : lx.done = false) (hf : w.length + lx.load w < fuel) :
    Broken Holds fault drop lx w (lx.scan src fuel s) := by
  apply scan_hands hsrc.toHands ?_ ?_ ?_ ?_ ?_ h hd hf
  · intro lx s h hd
    obtain ⟨s', hp⟩ := hsrc.peek_nil h
    have hturn : lx.turn src s = .stop ⟨.error (.source fault), lx, s', []⟩ := by
      simp only [turn, hp]
    have hflush : (lx.withFlush drop).config.flushes = false := hdrop
    refine ⟨_, hturn, .ended ?_ ?_⟩
    · simp [digest_nil, hflush]
    · simp [digest_nil, Digest.brokenOutcome]
  · intro lx s c w h hc
    have hc' : (lx.withFlush drop).state.step? c = none := hc
    obtain ⟨s', hclose⟩ := hsrc.close_ok h
    apply Broken.ended
    · rw [digest_of_stuck hc']
    · rw [digest_of_stuck hc', fail, conclude_eq, hclose]
      rfl
  · intro lx c q w pull hc hbroken
    have hc' : (lx.withFlush drop).state.step? c = some (.extend q) := hc
    exact hbroken.mono (digest_of_extend hc' w) (by simp) (lx.load_consume_le c q w)
  · intro lx s c w t h hd hc ht hshow
    have hdigest := digest_withFlush_of_finalize drop hc ht w
    rw [List.filter_singleton, hshow] at hdigest
    exact .emitted h hd hdigest (Nat.le_refl _) (load_cleared_lt hc)
  · intro lx c w t pull hc ht hshow hbroken
    have hdigest := digest_withFlush_of_finalize drop hc ht w
    rw [List.filter_singleton, hshow] at hdigest
    exact hbroken.mono hdigest (Nat.le_refl _) (Nat.le_of_lt (load_cleared_lt hc))

theorem advance_broken (hsrc : src.Breaks Holds fault) (hdrop : drop.isTruthy = false)
    {fuel : Nat} (h : Holds s w) (hd : lx.done = false) (hf : 2 * w.length + 2 ≤ fuel) :
    Broken Holds fault drop lx w (lx.advance src fuel s) := by
  have hload := lx.load_le w
  rw [advance_eq_scan src hd]
  exact scan_broken hsrc hdrop h hd (by omega)

theorem take_broken (hsrc : src.Breaks Holds fault) (hdrop : drop.isTruthy = false)
    {fuel count : Nat} (h : Holds s w) (hd : lx.done = false) (hf : 2 * w.length + 2 ≤ fuel)
    (hc : lx.load w < count) :
    (lx.take src fuel count s).tokens = ((lx.withFlush drop).digest w).tokens ∧
      (lx.take src fuel count s).ending =
        some (((lx.withFlush drop).digest w).brokenEnding fault) := by
  induction count generalizing lx s w with
  | zero => omega
  | succ count ih =>
    have hbroken := advance_broken hsrc hdrop h hd hf
    rw [take]
    generalize lx.advance src fuel s = pull at hbroken
    cases hbroken with
    | @emitted t lx' s' w' held going digest shorter lighter =>
      obtain ⟨htokens, hending⟩ := ih held going (by omega) (by omega)
      rw [digest]
      exact ⟨congrArg (t :: ·) htokens, hending⟩
    | ended tokens outcome =>
      rw [tokens]
      cases hfail : ((lx.withFlush drop).digest w).failure with
      | none =>
        simp only [Digest.brokenOutcome, hfail] at outcome
        simp [outcome, Digest.brokenEnding, hfail]
      | some e =>
        simp only [Digest.brokenOutcome, hfail] at outcome
        simp [outcome, Digest.brokenEnding, hfail]

theorem collect_broken (hsrc : src.Breaks Holds fault) (hdrop : drop.isTruthy = false)
    (h : Holds s w) (hd : lx.done = false) :
    (lx.collect src s).tokens = ((lx.withFlush drop).digest w).tokens ∧
      (lx.collect src s).ending = some (((lx.withFlush drop).digest w).brokenEnding fault) := by
  have hsize := hsrc.length_le_size h
  have hload := lx.load_le w
  have hturns : 2 * w.length + 2 ≤ enoughTurns src s := by
    rw [enoughTurns]
    omega
  have hcount : lx.load w < src.size s + 2 := by omega
  obtain ⟨htokens, hending⟩ := take_broken hsrc hdrop h hd hturns hcount
  exact ⟨htokens, by rw [collect, hending]; rfl⟩

end Lexer

namespace CharSource

variable {src : CharSource σ ε} {Holds : σ → List Char → Prop} {s : σ} {p : String}

theorem Delivers.tokenize_eq (hsrc : src.Delivers Holds) (hs : Holds s p.toList)
    (sourceName : Option String) (config : Config) :
    let run :=
      (TextSource.source : CharSource TextSource ε).tokenize sourceName config (.ofString p)
    (src.tokenize sourceName config s).tokens = run.tokens ∧
      (src.tokenize sourceName config s).ending = run.ending := by
  intro run
  have hcollect : ∃ s', (TextSource.lexer sourceName config).collect src s = _ :=
    Lexer.collect_eq hsrc hs rfl
  obtain ⟨s', hs'⟩ := hcollect
  obtain ⟨htokens, hending⟩ := TextSource.tokenize_eq (ε := ε) sourceName config p
  constructor
  · exact (congrArg Lexer.Harvest.tokens hs').trans htokens.symm
  · exact (congrArg Lexer.Harvest.ending hs').trans hending.symm

namespace Breaks

variable {fault : ε} (hsrc : src.Breaks Holds fault) (hs : Holds s p.toList)
  (sourceName : Option String) (config : Config)
include hsrc hs

theorem tokenize_eq {drop : Value} (hdrop : drop.isTruthy = false) :
    (src.tokenize sourceName config s).tokens =
        ((TextSource.source : CharSource TextSource ε).tokenize sourceName
          { config with flushAtEnd := drop } (.ofString p)).tokens ∧
      (src.tokenize sourceName config s).ending =
        some (((TextSource.lexer sourceName config).digest p.toList).brokenEnding fault) := by
  let base := TextSource.lexer sourceName config
  let dropping : Config := { config with flushAtEnd := drop }
  have hgoing : base.done = false := rfl
  obtain ⟨htokens, hending⟩ := Lexer.collect_broken hsrc hdrop hs hgoing
  obtain ⟨htokens', -⟩ := TextSource.tokenize_eq (ε := ε) sourceName dropping p
  have hcount : dropping.countsNewlines = base.config.countsNewlines := rfl
  have hdigest : (base.withFlush drop).digest p.toList = _ :=
    Lexer.digest_withConfig hcount p.toList
  have hbroken : ((base.withFlush drop).digest p.toList).brokenEnding fault =
      (base.digest p.toList).brokenEnding fault := by
    rw [hdigest]
    rfl
  constructor
  · exact htokens.trans htokens'.symm
  · exact hending.trans (congrArg some hbroken)

/-- A failure comes in front of the break, and the break is not noticed. -/
theorem tokenize_of_failed {e : InvalidCharacter}
    (he : ((TextSource.source : CharSource TextSource ε).tokenize sourceName config
      (.ofString p)).ending = some (.failed e)) :
    (src.tokenize sourceName config s).tokens =
        ((TextSource.source : CharSource TextSource ε).tokenize sourceName config
          (.ofString p)).tokens ∧
      (src.tokenize sourceName config s).ending = some (.failed e) := by
  let base := TextSource.lexer sourceName config
  have hrun (flush : Value) := TextSource.tokenize_options (ε := ε) sourceName config flush
    config.keepWhitespace p
  have hnull : Value.null.isTruthy = false := rfl
  obtain ⟨htokens, hending⟩ := hsrc.tokenize_eq hs sourceName config hnull
  rw [(hrun config.flushAtEnd).2.1, Option.some.injEq] at he
  cases hfail : (base.digest p.toList).failure with
  | none =>
    rw [Lexer.Digest.ending_eq_finished_iff.2 hfail] at he
    cases he
  | some e' =>
    have hne : (base.digest p.toList).failure ≠ none := by
      rw [hfail]
      exact Option.some_ne_none e'
    simp only [Lexer.Digest.ending, base, hfail] at he
    cases he
    constructor
    · have hmade : base.made Value.null.isTruthy p.toList =
          base.made config.flushAtEnd.isTruthy p.toList :=
        (Lexer.made_of_failure hne _).trans (Lexer.made_of_failure hne _).symm
      rw [htokens, (hrun .null).1, (hrun config.flushAtEnd).1]
      exact congrArg (List.filter config.keepWhitespace.keeps) hmade
    · simp only [hending, Lexer.Digest.brokenEnding, base, hfail]

/-- What comes through gives the tokens that are there without a flush, and then the fault. -/
theorem tokenize_of_finished {drop : Value} (hdrop : drop.isTruthy = false)
    (hfinished : ((TextSource.source : CharSource TextSource ε).tokenize sourceName config
      (.ofString p)).ending = some .finished) :
    (src.tokenize sourceName config s).tokens =
        ((TextSource.source : CharSource TextSource ε).tokenize sourceName
          { config with flushAtEnd := drop } (.ofString p)).tokens ∧
      (src.tokenize sourceName config s).ending = some (.interrupted (.source fault)) := by
  obtain ⟨htokens, hending⟩ := hsrc.tokenize_eq hs sourceName config hdrop
  rw [(TextSource.tokenize_eq sourceName config p).2, Option.some.injEq,
    Lexer.Digest.ending_eq_finished_iff] at hfinished
  refine ⟨htokens, ?_⟩
  simp only [hending, Lexer.Digest.brokenEnding, hfinished]

end Breaks

/-- A run is cut short by nothing but the fault with which the source breaks off. -/
theorem Serves.stop_of_interrupted {stop : Option ε} (hsrc : src.Serves Holds stop)
    (hs : Holds s p.toList) {sourceName : Option String} {config : Config} {fault : ε}
    (h : (src.tokenize sourceName config s).ending = some (.interrupted (.source fault))) :
    stop = some fault := by
  cases stop with
  | none =>
    have hending := (Delivers.tokenize_eq hsrc hs sourceName config).2
    rw [h] at hending
    obtain hfinished | ⟨e, hfailed⟩ := TextSource.tokenize_settled (ε := ε) sourceName config p
    · cases hending.trans hfinished
    · cases hending.trans hfailed
  | some fault' =>
    have hnull : Value.null.isTruthy = false := rfl
    have hending := (Breaks.tokenize_eq hsrc hs sourceName config hnull).2
    rw [h, Lexer.Digest.brokenEnding] at hending
    split at hending
    · cases hending
      rfl
    · cases hending

end CharSource

end FormulaLex
