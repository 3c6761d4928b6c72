import FormulaLex.Proofs.Safety

/-!
What a lexer keeps to on every source whatever: on one that shows another text each time, texts of
any length, or its end and then more, and that hands out other things than it shows. The state is the
one that the automaton gets to with the lexeme, and a lexeme starts at a place. So between tokens
nothing is finalized, and what is finalized elsewhere has a text of its kind, and a place.
-/
namespace FormulaLex

namespace Position

/-- Lines and columns count from one. -/
structure Counted (p : Position) : Prop where
  line : 1 ≤ p.line
  column : 1 ≤ p.column

theorem counted_start : start.Counted := ⟨Int.le_refl 1, Int.le_refl 1⟩

theorem Counted.after {p : Position} (h : p.Counted) (countNewlines : Bool) (consumed : String) :
    (p.after countNewlines consumed).Counted := by
  obtain ⟨hline, hcolumn⟩ := h
  unfold Position.after
  split
  · exact ⟨Int.le_add_one hline, Int.le_refl 1⟩
  · exact ⟨hline, Int.le_add_one hcolumn⟩

end Position

/-- A token with a text of its kind, at a place. -/
structure Token.WellMade (t : Token) : Prop where
  kind : t.kind.Contains t.text.toList
  position : t.position.Counted

namespace Lexer

variable {σ ε : Type} {src : CharSource σ ε} {lx : Lexer} {s : σ} {t : Token}

/-- State, lexeme and places go together. -/
structure Coherent (lx : Lexer) : Prop where
  pending : ∃ p, lx.Pending p
  position : lx.position.Counted
  start (h : lx.lexeme.isEmpty = false) : lx.lexeme.start.Counted

/-- No token is open. -/
structure AtRest (lx : Lexer) : Prop where
  state : lx.state = .start
  lexeme : lx.lexeme = .empty

theorem AtRest.coherent (h : lx.AtRest) (hposition : lx.position.Counted) : lx.Coherent where
  pending := by
    have hcleared : lx.cleared = lx := by
      rw [cleared, ← h.state, ← h.lexeme]
    have hpending := pending_cleared lx
    rw [hcleared] at hpending
    exact ⟨[], hpending⟩
  position := hposition
  start hopen := by
    rw [h.lexeme] at hopen
    cases hopen

theorem Coherent.cleared (h : lx.Coherent) : lx.cleared.Coherent :=
  AtRest.coherent ⟨rfl, rfl⟩ h.position

theorem Coherent.consume {c : Char} {q : State} (h : lx.Coherent)
    (hc : lx.state.grow? c = some q) : (lx.consume (String.singleton c) q).Coherent where
  pending := by
    obtain ⟨p, hp⟩ := h.pending
    exact ⟨p ++ [c], hp.consume hc⟩
  position := h.position.after _ _
  start _ := by
    change (lx.lexeme.push (String.singleton c) lx.position).start.Counted
    rw [Lexeme.start_push]
    split
    next => exact h.position
    next hopen =>
      apply h.start
      simpa using hopen

theorem Coherent.wellMade (h : lx.Coherent) (ht : lx.open? = some t) : t.WellMade := by
  obtain ⟨p, hp⟩ := h.pending
  have hkind := hp.contains ht
  have hopen : lx.lexeme.isEmpty = false := by
    rw [← Bool.not_eq_true, hp.isEmpty_iff, ← hp.text, ← text_of_open? ht]
    exact hkind.ne_nil
  refine ⟨hkind, ?_⟩
  obtain ⟨k, -, rfl⟩ := open?_eq_some_iff.1 ht
  exact h.start hopen

/-- A pull makes no token between tokens, what it emits is well made, and when it comes to an
outcome, no token is open. -/
structure Pull.Safe (pull : Pull σ ε) : Prop where
  coherent : pull.lexer.Coherent
  ne_startFinalized : pull.outcome ≠ .error .startFinalized
  wellMade (t : Token) (h : pull.outcome = .ok (.emitted t)) : t.WellMade
  atRest (o : Outcome) (h : pull.outcome = .ok o) : pull.lexer.AtRest

theorem conclude_safe {lx' : Lexer} (hcleared : lx' = lx.cleared) (h : lx.Coherent) {o : Outcome}
    (hquiet : ∀ t, o ≠ .emitted t) (src : CharSource σ ε) (s : σ) (event : Event) :
    (lx'.conclude src s o event).Safe := by
  subst hcleared
  have hlexer : (lx.cleared.conclude src s o event).lexer = { lx.cleared with done := true } := by
    rw [conclude_eq]
  have hrest : (lx.cleared.conclude src s o event).lexer.AtRest := by
    rw [hlexer]
    exact ⟨rfl, rfl⟩
  constructor
  · apply hrest.coherent
    rw [hlexer]
    exact h.position
  · rw [conclude_eq]
    cases (src.close s).1 with
    | error e => nofun
    | ok => nofun
  · intro t ht
    exact absurd (outcome_of_conclude ht).symm (hquiet t)
  · intro _ _
    exact hrest

theorem Coherent.turn (h : lx.Coherent) (src : CharSource σ ε) (s : σ) :
    (lx.turn src s).Leads (fun lx _ => lx.Coherent) Pull.Safe := by
  have hturned := turn_turned src lx s
  generalize lx.turn src s = turn at hturned
  generalize lx.turnFinalizes src s = ts at hturned
  cases hturned with
  | peekFault => exact ⟨h, nofun, nofun, nofun⟩
  | readFault => exact ⟨h, nofun, nofun, nofun⟩
  | consumed hp hne hq hr =>
    obtain ⟨c, rfl, hc⟩ := State.exists_of_stepOn?_eq_extend hq
    exact h.consume hc
  | emitted hp ht hshow =>
    refine ⟨h.cleared, nofun, ?_, fun _ _ => ⟨rfl, rfl⟩⟩
    intro t' ht'
    cases ht'
    exact h.wellMade ht
  | hidden => exact h.cleared
  | hiddenAtEnd => exact conclude_safe rfl h Outcome.finished_ne_emitted src _ _
  | ended => exact conclude_safe rfl h Outcome.finished_ne_emitted src _ _
  | failed hp hne hq =>
    exact conclude_safe (cleared_of_stuck hq) h (Outcome.failed_ne_emitted _) src _ _

theorem Coherent.advance (h : lx.Coherent) (hrest : lx.done = true → lx.AtRest)
    (src : CharSource σ ε) (fuel : Nat) (s : σ) : (lx.advance src fuel s).Safe := by
  cases hd : lx.done with
  | true =>
    rw [advance_eq_finished src hd]
    exact ⟨h, nofun, nofun, fun _ _ => hrest hd⟩
  | false =>
    rw [advance_eq_scan src hd]
    apply scan_leads (I := fun lx _ => lx.Coherent) ?_ ?_ fuel h
    · intro lx s h
      exact h.turn src s
    · intro lx s h
      exact ⟨h, nofun, nofun, nofun⟩

/-- A pull that was not cut short ended with its last turn, behind as many others as a smaller number
of them allows. -/
theorem exists_last_turn {fuel : Nat} (h : (lx.scan src fuel s).outcome ≠ .error .outOfFuel) :
    ∃ turns lx' s', lx.scan src turns s = ⟨.error .outOfFuel, lx', s', []⟩ ∧
      lx'.turn src s' = .stop (lx.scan src fuel s) := by
  induction fuel generalizing lx s with
  | zero => exact absurd rfl h
  | succ fuel ih =>
    cases ht : lx.turn src s with
    | stop pull =>
      rw [scan_of_stop ht]
      exact ⟨0, lx, s, rfl, ht⟩
    | again lx₁ s₁ =>
      rw [scan_of_again ht] at h ⊢
      obtain ⟨turns, lx', s', hcut, hlast⟩ := ih h
      refine ⟨turns + 1, lx', s', ?_, hlast⟩
      rw [scan_of_again ht]
      exact hcut

/-- A turn fails between tokens only. -/
theorem state_of_failed_turn {pull : Pull σ ε} {e : InvalidCharacter}
    (ht : lx.turn src s = .stop pull) (he : pull.outcome = .ok (.failed e)) :
    lx.state = .start := by
  have hturned := turn_turned src lx s
  rw [ht] at hturned
  generalize lx.turnFinalizes src s = ts at hturned
  cases hturned with
  | peekFault => cases he
  | readFault => cases he
  | emitted => cases he
  | hiddenAtEnd => cases outcome_of_conclude he
  | ended => cases outcome_of_conclude he
  | failed hp hne hq => exact State.eq_start_of_stepOn?_eq_none hq

theorem exists_failed_turn {fuel : Nat} {e : InvalidCharacter}
    (he : (lx.advance src fuel s).outcome = .ok (.failed e)) :
    ∃ turns lx' s', lx.advance src turns s = ⟨.error .outOfFuel, lx', s', []⟩ ∧
      lx'.turn src s' = .stop (lx.advance src fuel s) ∧ lx'.state = .start := by
  cases hd : lx.done with
  | true =>
    rw [advance_eq_finished src hd] at he
    cases he
  | false =>
    rw [advance_eq_scan src hd] at he ⊢
    have hreturned : (lx.scan src fuel s).outcome ≠ .error .outOfFuel := by
      rw [he]
      nofun
    obtain ⟨turns, lx', s', hcut, hlast⟩ := exists_last_turn hreturned
    refine ⟨turns, lx', s', ?_, hlast, state_of_failed_turn hlast he⟩
    rw [advance_eq_scan src hd]
    exact hcut

/-- What a lexer becomes by calls that all came to an answer. When a call is made, the source may be
in any state. -/
inductive Answered (src : CharSource σ ε) (lx₀ : Lexer) : Lexer → Prop
  | new : Answered src lx₀ lx₀
  | call {lx : Lexer} (h : Answered src lx₀ lx) (fuel : Nat) (s : σ) (c : Call)
      (ha : ∀ cause, (lx.call src fuel s c).result ≠ .error (.interrupt cause)) :
      Answered src lx₀ (lx.call src fuel s c).lexer

theorem Pull.Safe.of_respond {pull : Pull σ ε} (h : pull.Safe)
    {result : Except (Interrupt ε) Outcome → Except (Refusal ε) Answer}
    (hresult : ∀ cause, result (.error cause) = .error (.interrupt cause))
    (ha : ∀ cause, (pull.respond result).result ≠ .error (.interrupt cause)) :
    (pull.respond result).lexer.AtRest := by
  obtain ⟨outcome, lx, s, events⟩ := pull
  cases outcome with
  | error cause => exact absurd (hresult cause) (ha cause)
  | ok o => exact h.atRest o rfl

theorem Answered.rests {lx₀ : Lexer} (h₀ : lx₀.AtRest) (hposition : lx₀.position.Counted)
    (h : Answered src lx₀ lx) : lx.Coherent ∧ lx.AtRest := by
  induction h with
  | new => exact ⟨h₀.coherent hposition, h₀⟩
  | @call lx h fuel s c ha ih =>
    obtain ⟨hcoherent, hrest⟩ := ih
    have hsafe : (lx.advance src fuel s).Safe := hcoherent.advance (fun _ => hrest) src fuel s
    have hclose : (lx.call src fuel s .close).lexer = { lx with done := true } := by
      obtain ⟨result, hcall, -⟩ := lx.call_close src fuel s
      rw [hcall]
    have hclosed : (lx.call src fuel s .close).lexer.Coherent ∧
        (lx.call src fuel s .close).lexer.AtRest := by
      have hrest' : (lx.call src fuel s .close).lexer.AtRest := by
        rw [hclose]
        exact ⟨hrest.state, hrest.lexeme⟩
      refine ⟨hrest'.coherent ?_, hrest'⟩
      rw [hclose]
      exact hcoherent.position
    cases c with
    | advance => exact ⟨hsafe.coherent, hsafe.of_respond (fun _ => rfl) ha⟩
    | next => exact ⟨hsafe.coherent, hsafe.of_respond (fun _ => rfl) ha⟩
    | enter => exact ⟨hcoherent, hrest⟩
    | close => exact hclosed
    | exit => exact hclosed

/-- Whatever its source does, and whatever calls were made on a new lexer that all came to an answer:
no token is open, and a pull, of however many turns, makes no token between tokens. What it emits has
a text of its kind, at a place that counts from one. If it fails, then its last turn was taken
between tokens. And whatever the outcome, no token is open behind it. -/
theorem Answered.safe_on_any_source (sourceName : Option String) (config : Config)
    (h : Answered src (create src.label sourceName config).1 lx) (fuel : Nat) (s : σ) :
    let pull := lx.advance src fuel s
    lx.state = .start ∧ lx.lexeme = .empty ∧
      pull.outcome ≠ .error .startFinalized ∧
      (∀ t, pull.outcome = .ok (.emitted t) → t.text ≠ "" ∧ t.kind.Contains t.text.toList ∧
        1 ≤ t.position.line ∧ 1 ≤ t.position.column) ∧
      (∀ e, pull.outcome = .ok (.failed e) → ∃ turns lx' s',
        lx.advance src turns s = ⟨.error .outOfFuel, lx', s', []⟩ ∧
          lx'.turn src s' = .stop pull ∧ lx'.state = .start) ∧
      ∀ o, pull.outcome = .ok o → pull.lexer.state = .start ∧ pull.lexer.lexeme = .empty := by
  intro pull
  obtain ⟨hcoherent, hrest⟩ := h.rests ⟨rfl, rfl⟩ Position.counted_start
  have hsafe : pull.Safe := hcoherent.advance (fun _ => hrest) src fuel s
  refine ⟨hrest.state, hrest.lexeme, hsafe.ne_startFinalized, ?_, ?_, ?_⟩
  · intro t ht
    have hwell := hsafe.wellMade t ht
    refine ⟨?_, hwell.kind, hwell.position.line, hwell.position.column⟩
    intro hempty
    apply hwell.kind.ne_nil
    rw [hempty]
    rfl
  · intro e he
    exact exists_failed_turn he
  · intro o ho
    exact ⟨(hsafe.atRest o ho).state, (hsafe.atRest o ho).lexeme⟩

/-- A source that shows the next text of its script at every look, and hands out something else. -/
theorem contrary_source_safe :
    let src : CharSource (List String) Empty :=
      { label := "Script", peek := fun s => (.ok (s.headD ""), s.tail), read := fun s => (.ok "?", s),
        close := fun s => (.ok (), s), size := List.length }
    let new := (create src.label none {}).1
    let lx := (new.call src 9 ["7", "", "."] .advance).lexer
    let word := lx.advance src 9 ["x", "1", "**"]
    let stray := lx.advance src 9 [" ", "é", "12"]
    let emitted : Token := ⟨.identifier, "x1", ⟨1, 2⟩, none, []⟩
    Answered src new lx ∧ word.outcome = .ok (.emitted emitted) ∧
      emitted.kind.Contains emitted.text.toList ∧ 1 ≤ emitted.position.column ∧
      word.lexer.lexeme = .empty ∧ stray.outcome = .ok (.failed ⟨"12", ⟨1, 3⟩, none⟩) ∧
      ∃ turns lx' s', lx.advance src turns [" ", "é", "12"] = ⟨.error .outOfFuel, lx', s', []⟩ ∧
        lx'.turn src s' = .stop stray ∧ lx'.state = .start := by
  intro src new lx word stray emitted
  have hlx : Answered src new lx := .call .new 9 ["7", "", "."] .advance nofun
  have hword : word.outcome = .ok (.emitted emitted) := rfl
  have hstray : stray.outcome = .ok (.failed ⟨"12", ⟨1, 3⟩, none⟩) := rfl
  obtain ⟨-, -, -, htoken, -, hrest⟩ := hlx.safe_on_any_source none {} 9 ["x", "1", "**"]
  obtain ⟨-, hkind, -, hcolumn⟩ := htoken emitted hword
  obtain ⟨-, -, -, -, hfailed, -⟩ := hlx.safe_on_any_source none {} 9 [" ", "é", "12"]
  exact ⟨hlx, hword, hkind, hcolumn, (hrest _ hword).2, hstray, hfailed _ hstray⟩

end Lexer

end FormulaLex
