import FormulaLex.Proofs.Turn

/-!
A lexer that is put in at a place further on does what it would do at the front, on any source
whatever: all that it gives, logs and leaves is the same, with every place moved along.
-/
namespace FormulaLex

/-- The place `p` of an input that starts at `origin`. Only its first line goes on in a line that is
there already. -/
def Position.moved (p origin : Position) : Position :=
  ⟨p.line + origin.line - 1, if p.line = 1 then p.column + origin.column - 1 else p.column⟩

theorem Position.moved_start (origin : Position) : start.moved origin = origin := by
  have hline : 1 + origin.line - 1 = origin.line := by omega
  have hcolumn : 1 + origin.column - 1 = origin.column := by omega
  simp only [moved, start, ↓reduceIte, hline, hcolumn]

theorem Position.moved_after {p : Position} (hp : 1 ≤ p.line) (origin : Position)
    (countNewlines : Bool) (consumed : String) :
    (p.moved origin).after countNewlines consumed =
      (p.after countNewlines consumed).moved origin := by
  unfold after
  split
  · have hline : p.line + origin.line - 1 + 1 = p.line + 1 + origin.line - 1 := by omega
    have hbehind : p.line + 1 ≠ 1 := by omega
    simp only [moved, hline, if_neg hbehind]
  · unfold moved
    split
    · have hcolumn : p.column + origin.column - 1 + 1 = p.column + 1 + origin.column - 1 := by omega
      simp only [hcolumn]
    · rfl

theorem Position.line_le_after (p : Position) (countNewlines : Bool) (consumed : String) :
    p.line ≤ (p.after countNewlines consumed).line := by
  unfold after
  split
  · exact Int.le_add_of_nonneg_right Int.one_nonneg
  · exact Int.le_refl _

def Token.moved (t : Token) (origin : Position) : Token :=
  { t with position := t.position.moved origin }

def InvalidCharacter.moved (e : InvalidCharacter) (origin : Position) : InvalidCharacter :=
  { e with position := e.position.moved origin }

def Location.moved (l : Location) (origin : Position) : Location :=
  { l with position := l.position.moved origin }

def Event.moved (origin : Position) : Event → Event
  | finished here => .finished (here.moved origin)
  | stopped here => .stopped (here.moved origin)
  | event => event

/-- A lexeme without pieces has no place. -/
def Lexeme.moved (l : Lexeme) (origin : Position) : Lexeme :=
  { l with start := if l.isEmpty then l.start else l.start.moved origin }

theorem Lexeme.moved_push (l : Lexeme) (piece : String) (here origin : Position) :
    (l.moved origin).push piece (here.moved origin) = (l.push piece here).moved origin := by
  rcases l with ⟨_ | ⟨first, pieces⟩, start⟩
  · rfl
  · rfl

namespace Lexer

variable {σ ε : Type} {src : CharSource σ ε} {lx : Lexer} {s : σ}

def moved (lx : Lexer) (origin : Position) : Lexer :=
  { lx with lexeme := lx.lexeme.moved origin, position := lx.position.moved origin }

def Outcome.moved (origin : Position) : Outcome → Outcome
  | emitted t => .emitted (t.moved origin)
  | failed e => .failed (e.moved origin)
  | finished => .finished

def Pull.moved (origin : Position) (pull : Pull σ ε) : Pull σ ε where
  outcome := pull.outcome.map (Outcome.moved origin)
  lexer := pull.lexer.moved origin
  source := pull.source
  events := pull.events.map (Event.moved origin)

def Turn.moved (origin : Position) : Turn σ ε → Turn σ ε
  | again lx s => .again (lx.moved origin) s
  | stop pull => .stop (pull.moved origin)

/-- Lines count from one, and an open token has a place. -/
structure WellPlaced (lx : Lexer) : Prop where
  line : 1 ≤ lx.position.line
  nonempty (hq : lx.state ≠ .start) : lx.lexeme.isEmpty = false

theorem WellPlaced.consume (h : lx.WellPlaced) (ahead : String) (q : State) :
    (lx.consume ahead q).WellPlaced where
  line := Int.le_trans h.line (lx.position.line_le_after _ _)
  nonempty _ := rfl

theorem WellPlaced.of_start (h : lx.WellPlaced) {lx' : Lexer}
    (hposition : lx'.position = lx.position) (hq : lx'.state = .start) : lx'.WellPlaced where
  line := by
    rw [hposition]
    exact h.line
  nonempty hne := absurd hq hne

theorem WellPlaced.cleared (h : lx.WellPlaced) : lx.cleared.WellPlaced := h.of_start rfl rfl

theorem wellPlaced_create (label : String) (sourceName : Option String) (config : Config) :
    (create label sourceName config).1.WellPlaced where
  line := Int.le_refl 1
  nonempty hq := absurd rfl hq

section Turn

variable (origin : Position)

theorem moved_consume (h : lx.WellPlaced) (ahead : String) (q : State) :
    (lx.moved origin).consume ahead q = (lx.consume ahead q).moved origin := by
  have hlexeme := lx.lexeme.moved_push ahead lx.position origin
  have hposition := Position.moved_after h.line origin lx.config.countsNewlines ahead
  unfold consume
  simp only [moved, hlexeme, hposition]

theorem moved_open? (h : lx.WellPlaced) :
    (lx.moved origin).open? = lx.open?.map (·.moved origin) := by
  cases hk : lx.state.kind? with
  | none =>
    have hq := State.kind?_eq_none_iff.1 hk
    have hq' : (lx.moved origin).state = .start := hq
    rw [open?_of_start hq, open?_of_start hq']
    rfl
  | some k =>
    have hq : lx.state ≠ .start := by
      intro hq
      rw [State.kind?_eq_none_iff.2 hq] at hk
      cases hk
    have hstart : (lx.lexeme.moved origin).start = lx.lexeme.start.moved origin := by
      simp only [Lexeme.moved, h.nonempty hq, Bool.false_eq_true, ↓reduceIte]
    have hmoved : (lx.moved origin).open? =
        some ⟨k, lx.lexeme.text, (lx.lexeme.moved origin).start, lx.sourceName, []⟩ :=
      open?_eq_some_iff.2 ⟨k, hk, rfl⟩
    have hopen : lx.open? = some ⟨k, lx.lexeme.text, lx.lexeme.start, lx.sourceName, []⟩ :=
      open?_eq_some_iff.2 ⟨k, hk, rfl⟩
    rw [hmoved, hopen, hstart]
    rfl

theorem moved_conclude (src : CharSource σ ε) (lx : Lexer) (s : σ) (o : Outcome) (event : Event) :
    (lx.moved origin).conclude src s (o.moved origin) (event.moved origin) =
      (lx.conclude src s o event).moved origin := by
  rw [conclude_eq, conclude_eq]
  cases (src.close s).1 with
  | error => rfl
  | ok => rfl

theorem moved_exhaust (src : CharSource σ ε) (lx : Lexer) (s : σ) :
    (lx.moved origin).exhaust src s = (lx.exhaust src s).moved origin :=
  moved_conclude origin src lx.cleared s .finished (.finished lx.location)

theorem moved_fail (src : CharSource σ ε) (lx : Lexer) (s : σ) (ahead : String) :
    (lx.moved origin).fail src s ahead = (lx.fail src s ahead).moved origin :=
  moved_conclude origin src { lx with lexeme := .empty } s
    (.failed ⟨ahead, lx.position, lx.sourceName⟩) (.stopped lx.location)

theorem moved_finish (src : CharSource σ ε) (h : lx.WellPlaced) (s : σ) :
    (lx.moved origin).finish src s = (lx.finish src s).moved origin := by
  by_cases hq : lx.state = .start
  · have hq' : (lx.moved origin).state = .start := hq
    rw [finish_of_start src hq, finish_of_start src hq']
    exact moved_exhaust origin src lx s
  · obtain ⟨t, ht⟩ := exists_open? hq
    have ht' : (lx.moved origin).open? = some (t.moved origin) := by
      rw [moved_open? origin h, ht]
      rfl
    have hflush : (lx.moved origin).config.flushes = lx.config.flushes := rfl
    have hshows : (lx.moved origin).shows (t.moved origin) = lx.shows t := rfl
    rw [finish_of_open? src ht, finish_of_open? src ht', hflush, hshows]
    split
    · split
      · rfl
      · exact moved_exhaust origin src lx.cleared s
    · exact moved_exhaust origin src lx s

theorem moved_turn (src : CharSource σ ε) (h : lx.WellPlaced) (s : σ) :
    (lx.moved origin).turn src s = (lx.turn src s).moved origin := by
  have hstate : (lx.moved origin).state = lx.state := rfl
  rcases hp : src.peek s with ⟨peeked, s'⟩
  cases peeked with
  | error e =>
    simp only [turn, hp]
    rfl
  | ok ahead =>
    by_cases hne : ahead = ""
    · subst hne
      rw [turn_of_end lx hp, turn_of_end (lx.moved origin) hp, moved_finish origin src h]
      rfl
    cases hq : lx.state.stepOn? ahead with
    | none =>
      have hq' : (lx.moved origin).state.stepOn? ahead = none := hq
      rw [turn_of_stuck hp hne hq, turn_of_stuck hp hne hq', moved_fail]
      rfl
    | some step =>
      cases step with
      | extend q =>
        rcases hr : src.read s' with ⟨taken, s''⟩
        cases taken with
        | error e =>
          simp only [turn, hp, beq_eq_false_iff_ne.2 hne, hstate, hq, hr]
          rfl
        | ok taken =>
          have hq' : (lx.moved origin).state.stepOn? ahead = some (.extend q) := hq
          rw [turn_of_extend hp hne hq hr, turn_of_extend hp hne hq' hr, moved_consume origin h]
          rfl
      | finalize =>
        have hopen : lx.state ≠ .start := by
          intro hstart
          rw [hstart] at hq
          exact State.stepOn?_start_ne_finalize ahead hq
        obtain ⟨t, ht⟩ := exists_open? hopen
        have ht' : (lx.moved origin).open? = some (t.moved origin) := by
          rw [moved_open? origin h, ht]
          rfl
        have hshows : (lx.moved origin).shows (t.moved origin) = lx.shows t := rfl
        have hq' : (lx.moved origin).state.stepOn? ahead = some .finalize := hq
        rw [turn_of_finalize hp hne hq ht, turn_of_finalize hp hne hq' ht', hshows]
        split
        · rfl
        · rfl

end Turn

theorem conclude_wellPlaced (src : CharSource σ ε) {lx' : Lexer} (h : lx'.WellPlaced) (s : σ)
    (o : Outcome) (event : Event) : (lx'.conclude src s o event).lexer.WellPlaced := by
  rw [conclude_eq]
  exact ⟨h.line, h.nonempty⟩

theorem turn_wellPlaced (src : CharSource σ ε) (h : lx.WellPlaced) (s : σ) :
    (lx.turn src s).Leads (fun lx _ => lx.WellPlaced) fun pull => pull.lexer.WellPlaced := by
  have hturned := turn_turned src lx s
  generalize lx.turn src s = turn at hturned
  generalize lx.turnFinalizes src s = ts at hturned
  cases hturned with
  | peekFault => exact h
  | readFault => exact h
  | consumed => exact h.consume _ _
  | emitted => exact h.cleared
  | hidden => exact h.cleared
  | hiddenAtEnd => exact conclude_wellPlaced src h.cleared _ _ _
  | ended => exact conclude_wellPlaced src h.cleared _ _ _
  | failed hp hne hq =>
    have hstart := State.eq_start_of_stepOn?_eq_none hq
    have hclean : WellPlaced { lx with lexeme := .empty } := h.of_start rfl hstart
    exact conclude_wellPlaced src hclean _ _ _

theorem advance_wellPlaced (src : CharSource σ ε) (h : lx.WellPlaced) (fuel : Nat) (s : σ) :
    (lx.advance src fuel s).lexer.WellPlaced := by
  unfold advance
  split
  · exact h
  · exact scan_leads (fun lx s h => turn_wellPlaced src h s) (fun lx s h => h) fuel h

theorem moved_scan (origin : Position) (src : CharSource σ ε) (h : lx.WellPlaced) (fuel : Nat)
    (s : σ) : (lx.moved origin).scan src fuel s = (lx.scan src fuel s).moved origin := by
  induction fuel generalizing lx s with
  | zero => rfl
  | succ fuel ih =>
    have hplaced := turn_wellPlaced src h s
    have hturn := moved_turn origin src h s
    cases ht : lx.turn src s with
    | stop pull =>
      rw [ht] at hturn
      rw [scan_of_stop ht, scan_of_stop hturn]
    | again lx' s' =>
      rw [ht] at hturn hplaced
      rw [scan_of_again ht, scan_of_again hturn]
      exact ih hplaced s'

theorem moved_advance (origin : Position) (src : CharSource σ ε) (h : lx.WellPlaced) (fuel : Nat)
    (s : σ) : (lx.moved origin).advance src fuel s = (lx.advance src fuel s).moved origin := by
  have hdone : (lx.moved origin).done = lx.done := rfl
  unfold advance
  rw [hdone]
  split
  · rfl
  · exact moved_scan origin src h fuel s

def Ending.moved (origin : Position) : Ending ε → Ending ε
  | finished => .finished
  | failed e => .failed (e.moved origin)
  | interrupted cause => .interrupted cause

def Harvest.moved (origin : Position) (harvest : Harvest σ ε) : Harvest σ ε where
  tokens := harvest.tokens.map (·.moved origin)
  ending := harvest.ending.map (Ending.moved origin)
  lexer := harvest.lexer.moved origin
  source := harvest.source
  events := harvest.events.map (Event.moved origin)

theorem moved_take (origin : Position) (src : CharSource σ ε) (h : lx.WellPlaced)
    (fuel count : Nat) (s : σ) :
    (lx.moved origin).take src fuel count s = (lx.take src fuel count s).moved origin := by
  induction count generalizing lx s with
  | zero => rfl
  | succ count ih =>
    have hplaced := advance_wellPlaced src h fuel s
    rw [take, take, moved_advance origin src h]
    generalize lx.advance src fuel s = pull at hplaced
    have hrest := ih hplaced pull.source
    rcases pull with ⟨_ | o, lx', s', events⟩
    · rfl
    · cases o with
      | emitted t =>
        simp only [Pull.moved, Except.map, Outcome.moved, hrest, Harvest.moved, List.map_cons,
          List.map_append]
      | failed e => rfl
      | finished => rfl

/-- A whole run, from any place on. -/
theorem moved_collect (origin : Position) (src : CharSource σ ε) (h : lx.WellPlaced) (s : σ) :
    (lx.moved origin).collect src s = (lx.collect src s).moved origin := by
  rw [collect, collect, moved_take origin src h]
  generalize lx.take src (enoughTurns src s) (src.size s + 2) s = harvest
  rcases harvest with ⟨tokens, _ | ending, lx', s', events⟩
  · rfl
  · rfl

end Lexer

end FormulaLex
