import FormulaLex.Proofs.OpenToken

/-!
What a turn of the engine can do on any source whatever, and what pulls lead to. The tokens that are
finalized are kept account of here, also those that are not shown.
-/
namespace FormulaLex.Lexer

variable {σ ε : Type} {src : CharSource σ ε} {lx : Lexer} {t : Token} {ahead : String} {s s' : σ}

def Turn.lexer : Turn σ ε → Lexer
  | again lx _ => lx
  | stop pull => pull.lexer

def Turn.source : Turn σ ε → σ
  | again _ s => s
  | stop pull => pull.source

section Equations

theorem finish_of_start (src : CharSource σ ε) (hq : lx.state = .start) (s : σ) :
    lx.finish src s = lx.exhaust src s := by
  simp [finish, hq, State.isAccepting]

theorem finish_of_open? (src : CharSource σ ε) (ht : lx.open? = some t) (s : σ) :
    lx.finish src s =
      if lx.config.flushes then
        if lx.shows t then ⟨.ok (.emitted t), lx.cleared, s, []⟩ else lx.cleared.exhaust src s
      else lx.exhaust src s := by
  have haccept : lx.state.isAccepting = true := by
    simpa [State.isAccepting] using ne_start_of_open? ht
  simp only [finish, haccept, finalize?_of_open? ht, Bool.true_and]
  rfl

theorem conclude_eq (src : CharSource σ ε) (lx : Lexer) (s : σ) (outcome : Outcome)
    (event : Event) : lx.conclude src s outcome event =
      ⟨((src.close s).1.map fun _ => outcome).mapError .source, { lx with done := true },
        (src.close s).2, [event]⟩ := by
  rcases hclose : src.close s with ⟨_ | _, s'⟩
  · simp only [conclude, close, hclose]
    rfl
  · simp only [conclude, close, hclose]
    rfl

theorem conclude_done (src : CharSource σ ε) (lx : Lexer) (s : σ) (outcome : Outcome)
    (event : Event) : (lx.conclude src s outcome event).lexer.done = true := by
  rw [conclude_eq]

theorem outcome_of_conclude {src : CharSource σ ε} {outcome o : Outcome} {event : Event}
    (ho : (lx.conclude src s outcome event).outcome = .ok o) : o = outcome := by
  rw [conclude_eq] at ho
  cases hclose : (src.close s).1 with
  | error e =>
    rw [hclose] at ho
    cases ho
  | ok =>
    rw [hclose] at ho
    cases ho
    rfl

theorem Outcome.finished_ne_emitted (t : Token) : finished ≠ emitted t := nofun

theorem Outcome.failed_ne_emitted (e : InvalidCharacter) (t : Token) : failed e ≠ emitted t := nofun

theorem advance_eq_finished (src : CharSource σ ε) (hd : lx.done = true) (fuel : Nat) (s : σ) :
    lx.advance src fuel s = ⟨.ok .finished, lx, s, []⟩ := by
  simp only [advance, hd, ↓reduceIte]

theorem advance_eq_scan (src : CharSource σ ε) (hd : lx.done = false) (fuel : Nat) (s : σ) :
    lx.advance src fuel s = lx.scan src fuel s := by
  simp only [advance, hd, Bool.false_eq_true, ↓reduceIte]

theorem turn_of_end (lx : Lexer) (hp : src.peek s = (.ok "", s')) :
    lx.turn src s = .stop (lx.finish src s') := by
  simp only [turn, hp, beq_self_eq_true, ↓reduceIte]

theorem scan_of_stop {fuel : Nat} {pull : Pull σ ε} (ht : lx.turn src s = .stop pull) :
    lx.scan src (fuel + 1) s = pull := by
  rw [scan, ht]

theorem scan_of_again {fuel : Nat} {lx' : Lexer} (ht : lx.turn src s = .again lx' s') :
    lx.scan src (fuel + 1) s = lx'.scan src fuel s' := by
  rw [scan, ht]

variable (hp : src.peek s = (.ok ahead, s')) (hne : ahead ≠ "")
include hp hne

theorem turn_of_stuck (hq : lx.state.stepOn? ahead = none) :
    lx.turn src s = .stop (lx.fail src s' ahead) := by
  simp [turn, hp, hne, hq]

theorem turn_of_extend {q : State} {taken : String} {s'' : σ}
    (hq : lx.state.stepOn? ahead = some (.extend q)) (hr : src.read s' = (.ok taken, s'')) :
    lx.turn src s = .again (lx.consume ahead q) s'' := by
  simp [turn, hp, hne, hq, hr]

theorem turn_of_finalize (hq : lx.state.stepOn? ahead = some .finalize)
    (ht : lx.open? = some t) : lx.turn src s =
      if lx.shows t then .stop ⟨.ok (.emitted t), lx.cleared, s', []⟩ else .again lx.cleared s' := by
  simp only [turn, hp, beq_eq_false_iff_ne.2 hne, Bool.false_eq_true, ↓reduceIte, hq,
    finalize?_of_open? ht]
  rfl

end Equations

/-- A turn that goes on leads to `I`, and one that ends the pull makes it a pull with `P`. -/
def Turn.Leads (I : Lexer → σ → Prop) (P : Pull σ ε → Prop) : Turn σ ε → Prop
  | again lx s => I lx s
  | stop pull => P pull

theorem scan_leads {I : Lexer → σ → Prop} {P : Pull σ ε → Prop}
    (hturn : ∀ lx s, I lx s → (lx.turn src s).Leads I P)
    (hcut : ∀ lx s, I lx s → P ⟨.error .outOfFuel, lx, s, []⟩) (fuel : Nat) (h : I lx s) :
    P (lx.scan src fuel s) := by
  induction fuel generalizing lx s with
  | zero => exact hcut lx s h
  | succ fuel ih =>
    have hleads := hturn lx s h
    cases ht : lx.turn src s with
    | stop pull =>
      rw [ht] at hleads
      rw [scan_of_stop ht]
      exact hleads
    | again lx' s' =>
      rw [ht] at hleads
      rw [scan_of_again ht]
      exact ih hleads

/-- The token that a turn finalizes, if it does. -/
def turnFinalizes (src : CharSource σ ε) (lx : Lexer) (s : σ) : List Token :=
  match (src.peek s).1 with
  | .error _ => []
  | .ok ahead =>
    if ahead == "" then if lx.config.flushes then lx.open?.toList else []
    else if lx.state.stepOn? ahead = some .finalize then lx.open?.toList else []

/-- The turns that a lexer can take on a source, each with the token it finalizes. -/
inductive Turned (src : CharSource σ ε) (lx : Lexer) (s : σ) : List Token → Turn σ ε → Prop
  | peekFault {e : ε} {s' : σ} (hp : src.peek s = (.error e, s')) :
      Turned src lx s [] (.stop ⟨.error (.source e), lx, s', []⟩)
  | readFault {ahead : String} {q : State} {e : ε} {s' s'' : σ} (hp : src.peek s = (.ok ahead, s'))
      (hne : ahead ≠ "") (hq : lx.state.stepOn? ahead = some (.extend q))
      (hr : src.read s' = (.error e, s'')) :
      Turned src lx s [] (.stop ⟨.error (.source e), lx, s'', []⟩)
  | consumed {ahead taken : String} {q : State} {s' s'' : σ} (hp : src.peek s = (.ok ahead, s'))
      (hne : ahead ≠ "") (hq : lx.state.stepOn? ahead = some (.extend q))
      (hr : src.read s' = (.ok taken, s'')) :
      Turned src lx s [] (.again (lx.consume ahead q) s'')
  | emitted {ahead : String} {t : Token} {s' : σ} (hp : src.peek s = (.ok ahead, s'))
      (ht : lx.open? = some t) (hshow : lx.shows t = true) :
      Turned src lx s [t] (.stop ⟨.ok (.emitted t), lx.cleared, s', []⟩)
  | hidden {ahead : String} {t : Token} {s' : σ} (hp : src.peek s = (.ok ahead, s'))
      (ht : lx.open? = some t) (hshow : lx.shows t = false) :
      Turned src lx s [t] (.again lx.cleared s')
  | hiddenAtEnd {t : Token} {s' : σ} (hp : src.peek s = (.ok "", s')) (ht : lx.open? = some t)
      (hshow : lx.shows t = false) : Turned src lx s [t] (.stop (lx.cleared.exhaust src s'))
  | ended {s' : σ} (hp : src.peek s = (.ok "", s')) :
      Turned src lx s [] (.stop (lx.exhaust src s'))
  | failed {ahead : String} {s' : σ} (hp : src.peek s = (.ok ahead, s')) (hne : ahead ≠ "")
      (hq : lx.state.stepOn? ahead = none) : Turned src lx s [] (.stop (lx.fail src s' ahead))

theorem finish_turned (hp : src.peek s = (.ok "", s')) :
    Turned src lx s (if lx.config.flushes then lx.open?.toList else [])
      (.stop (lx.finish src s')) := by
  cases ht : lx.open? with
  | none =>
    have hq : lx.state = .start := by
      by_contra hq
      obtain ⟨t, ht'⟩ := exists_open? hq
      cases ht.symm.trans ht'
    rw [finish_of_start src hq]
    simpa using Turned.ended hp
  | some t =>
    rw [finish_of_open? src ht]
    cases hflush : lx.config.flushes with
    | false => exact .ended hp
    | true =>
      cases hshow : lx.shows t with
      | false => exact .hiddenAtEnd hp ht hshow
      | true => exact .emitted hp ht hshow

theorem finalize_turned (hp : src.peek s = (.ok ahead, s')) (hne : ahead ≠ "")
    (hq : lx.state.stepOn? ahead = some .finalize) :
    Turned src lx s lx.open?.toList (lx.turn src s) := by
  have hstart : lx.state ≠ .start := by
    intro h
    rw [h] at hq
    exact State.stepOn?_start_ne_finalize ahead hq
  obtain ⟨t, ht⟩ := exists_open? hstart
  rw [turn_of_finalize hp hne hq ht, ht]
  cases hshow : lx.shows t with
  | false => exact .hidden hp ht hshow
  | true => exact .emitted hp ht hshow

/-- Every turn is one of these. -/
theorem turn_turned (src : CharSource σ ε) (lx : Lexer) (s : σ) :
    Turned src lx s (lx.turnFinalizes src s) (lx.turn src s) := by
  rcases hp : src.peek s with ⟨peeked, s'⟩
  cases peeked with
  | error e =>
    simp only [turnFinalizes, turn, hp]
    exact .peekFault hp
  | ok ahead =>
    by_cases hne : ahead = ""
    · subst hne
      simp only [turnFinalizes, hp, beq_self_eq_true, ↓reduceIte, turn_of_end lx hp]
      exact finish_turned hp
    · have hfinalizes : lx.turnFinalizes src s =
          if lx.state.stepOn? ahead = some .finalize then lx.open?.toList else [] := by
        simp [turnFinalizes, hp, hne]
      rw [hfinalizes]
      cases hq : lx.state.stepOn? ahead with
      | none =>
        rw [turn_of_stuck hp hne hq]
        exact .failed hp hne hq
      | some step =>
        cases step with
        | finalize => exact finalize_turned hp hne hq
        | extend q =>
          rcases hr : src.read s' with ⟨taken, s''⟩
          cases taken with
          | error e =>
            simp only [turn, hp, beq_eq_false_iff_ne.2 hne, hq, hr]
            exact .readFault hp hne hq hr
          | ok taken =>
            rw [turn_of_extend hp hne hq hr]
            exact .consumed hp hne hq hr

/-- The tokens that turns finalize, as many turns as `fuel` allows. -/
def scanFinalizes (src : CharSource σ ε) : (fuel : Nat) → Lexer → σ → List Token
  | 0, _, _ => []
  | fuel + 1, lx, s =>
    lx.turnFinalizes src s ++
      match lx.turn src s with
      | .again lx s => scanFinalizes src fuel lx s
      | .stop _ => []

/-- The tokens that a pull finalizes. -/
def finalizes (src : CharSource σ ε) (fuel : Nat) (lx : Lexer) (s : σ) : List Token :=
  if lx.done then [] else lx.scanFinalizes src fuel s

/-- The token that a pull gives, if it gives one. -/
def Pull.emitted (pull : Pull σ ε) : List Token :=
  match pull.outcome with
  | .ok (.emitted t) => [t]
  | _ => []

/-- The lexer and the source that any number of pulls lead to, each of any number of turns, with the
tokens that were finalized on the way and those that were emitted. -/
inductive Reached (src : CharSource σ ε) (lx₀ : Lexer) (s₀ : σ) :
    List Token → List Token → Lexer → σ → Prop
  | new : Reached src lx₀ s₀ [] [] lx₀ s₀
  | pull {finalized emitted : List Token} {lx : Lexer} {s : σ} (fuel : Nat)
      (h : Reached src lx₀ s₀ finalized emitted lx s) :
      Reached src lx₀ s₀ (finalized ++ lx.finalizes src fuel s)
        (emitted ++ (lx.advance src fuel s).emitted)
        (lx.advance src fuel s).lexer (lx.advance src fuel s).source

end FormulaLex.Lexer
