import FormulaLex.Lexer.Call
import FormulaLex.Proofs.Turn

/-!
Sources that no lexer can tell apart. If every operation gives the same on both and leaves them
related as before, so do the turns of a lexer, its pulls, and all calls on it.
-/
namespace FormulaLex

variable {σ σ' ε : Type}

/-- From related states a look ahead and a reading give the same and lead to related states. -/
structure CharSource.Agrees (src : CharSource σ ε) (src' : CharSource σ' ε) (R : σ → σ' → Prop) :
    Prop where
  peek {s : σ} {s' : σ'} (h : R s s') :
    ∃ r t t', src.peek s = (r, t) ∧ src'.peek s' = (r, t') ∧ R t t'
  read {s : σ} {s' : σ'} (h : R s s') :
    ∃ r t t', src.read s = (r, t) ∧ src'.read s' = (r, t') ∧ R t t'

/-- So does each operation, closing among them. -/
structure CharSource.Simulates (src : CharSource σ ε) (src' : CharSource σ' ε) (R : σ → σ' → Prop) :
    Prop extends src.Agrees src' R where
  close {s : σ} {s' : σ'} (h : R s s') :
    ∃ r t t', src.close s = (r, t) ∧ src'.close s' = (r, t') ∧ R t t'

namespace Lexer

variable {R : σ → σ' → Prop} {src : CharSource σ ε} {src' : CharSource σ' ε} {lx : Lexer} {s : σ}
  {s' : σ'}

section Agreement

/-- Pulls before the end that differ in their sources alone, but for what comes of closing them. -/
inductive Pull.Agrees (src : CharSource σ ε) (src' : CharSource σ' ε) (R : σ → σ' → Prop) :
    Pull σ ε → Pull σ' ε → Prop
  | goes {outcome : Except (Interrupt ε) Outcome} {lx : Lexer} {s : σ} {s' : σ'}
      (hd : lx.done = false) (h : R s s') :
      Agrees src src' R ⟨outcome, lx, s, []⟩ ⟨outcome, lx, s', []⟩
  | concludes {lx : Lexer} {s : σ} {s' : σ'} {o : Outcome} {event : Event} (h : R s s') :
      Agrees src src' R (lx.conclude src s o event) (lx.conclude src' s' o event)

inductive Turn.Agrees (src : CharSource σ ε) (src' : CharSource σ' ε) (R : σ → σ' → Prop) :
    Turn σ ε → Turn σ' ε → Prop
  | again {lx : Lexer} {s : σ} {s' : σ'} (hd : lx.done = false) (h : R s s') :
      Agrees src src' R (.again lx s) (.again lx s')
  | stop {pull : Pull σ ε} {pull' : Pull σ' ε} (h : pull.Agrees src src' R pull') :
      Agrees src src' R (.stop pull) (.stop pull')

theorem finish_agrees (hd : lx.done = false) (h : R s s') :
    (lx.finish src s).Agrees src src' R (lx.finish src' s') := by
  unfold finish
  split
  · split
    · exact .goes hd h
    next t lx' hopen =>
      dsimp only
      split
      · exact .goes ((done_of_finalize? hopen).trans hd) h
      · exact .concludes h
  · exact .concludes h

theorem turn_agrees (hsrc : src.Agrees src' R) (hd : lx.done = false) (h : R s s') :
    (lx.turn src s).Agrees src src' R (lx.turn src' s') := by
  obtain ⟨peeked, t, t', hp, hp', ht⟩ := hsrc.peek h
  obtain ⟨taken, u, u', hr, hr', hu⟩ := hsrc.read ht
  unfold turn
  rw [hp, hp']
  cases peeked with
  | error e => exact .stop (.goes hd ht)
  | ok ahead =>
    dsimp only
    split
    · exact .stop (finish_agrees hd ht)
    · cases lx.state.stepOn? ahead with
      | none => exact .stop (.concludes ht)
      | some step =>
        cases step with
        | extend q =>
          rw [hr, hr']
          cases taken with
          | error e => exact .stop (.goes hd hu)
          | ok taken => exact .again hd hu
        | finalize =>
          dsimp only
          split
          · exact .stop (.goes hd ht)
          next t lx' hopen =>
            have hd' : lx'.restart.done = false := (done_of_finalize? hopen).trans hd
            split
            · exact .stop (.goes hd' ht)
            · exact .again hd' ht

theorem scan_agrees (hsrc : src.Agrees src' R) (fuel : Nat) (hd : lx.done = false) (h : R s s') :
    (lx.scan src fuel s).Agrees src src' R (lx.scan src' fuel s') := by
  induction fuel generalizing lx s s' with
  | zero => exact .goes hd h
  | succ fuel ih =>
    have hturn := turn_agrees hsrc hd h
    rw [scan, scan]
    generalize lx.turn src s = turn at hturn
    generalize lx.turn src' s' = turn' at hturn
    cases hturn with
    | again hd h => exact ih hd h
    | stop h => exact h

theorem advance_agrees (hsrc : src.Agrees src' R) (fuel : Nat) (hd : lx.done = false)
    (h : R s s') : (lx.advance src fuel s).Agrees src src' R (lx.advance src' fuel s') := by
  rw [advance_eq_scan src hd, advance_eq_scan src' hd]
  exact scan_agrees hsrc fuel hd h

end Agreement

/-- Pulls that differ in their sources alone. -/
structure Pull.Simulates (R : σ → σ' → Prop) (pull : Pull σ ε) (pull' : Pull σ' ε) : Prop where
  outcome : pull.outcome = pull'.outcome
  lexer : pull.lexer = pull'.lexer
  events : pull.events = pull'.events
  source : R pull.source pull'.source

theorem conclude_simulates (hsrc : src.Simulates src' R) (lx : Lexer) (h : R s s')
    (outcome : Outcome) (event : Event) :
    (lx.conclude src s outcome event).Simulates R (lx.conclude src' s' outcome event) := by
  obtain ⟨r, t, t', hc, hc', ht⟩ := hsrc.close h
  simp only [conclude, close, hc, hc']
  cases r with
  | ok => exact ⟨rfl, rfl, rfl, ht⟩
  | error => exact ⟨rfl, rfl, rfl, ht⟩

theorem advance_simulates (hsrc : src.Simulates src' R) (fuel : Nat) (lx : Lexer) (h : R s s') :
    (lx.advance src fuel s).Simulates R (lx.advance src' fuel s') := by
  cases hd : lx.done with
  | true =>
    rw [advance_eq_finished src hd, advance_eq_finished src' hd]
    exact ⟨rfl, rfl, rfl, h⟩
  | false =>
    have hpull := advance_agrees hsrc.toAgrees fuel hd h
    generalize lx.advance src fuel s = pull at hpull
    generalize lx.advance src' fuel s' = pull' at hpull
    cases hpull with
    | goes hd h => exact ⟨rfl, rfl, rfl, h⟩
    | concludes h => exact conclude_simulates hsrc _ h _ _

end Lexer

end FormulaLex
