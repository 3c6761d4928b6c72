import FormulaLex.Proofs.Conclusion
import FormulaLex.Proofs.Recording
import FormulaLex.Stream.Pieces
import Mathlib.Data.List.Basic

/-!
A lexer over a stream, owned or borrowed, and any calls on it: once the sequence is over nothing
happens any more, the stream included, and a stream that is owned was closed just once by then.
-/
namespace FormulaLex

variable {τ ε : Type} {str : TextStream τ ε} {owns : Bool}

namespace Buffered

variable {b b' : Buffered (Watched τ ε)}

/-- Not closed yet, and neither is the stream. What is ahead is what the stream gave last. -/
structure Open (owns : Bool) (b : Buffered (Watched τ ε)) : Prop where
  closed : b.closed = false
  owns_eq : b.ownsStream = owns
  closings : b.stream.closings = []
  ahead {ahead : String} (h : b.lookahead = some ahead) :
    b.stream.readings.getLast? = some (.ok ahead)

/-- Closed, and so is the stream if it is owned. -/
structure Shut (owns : Bool) (b : Buffered (Watched τ ε)) : Prop where
  closed : b.closed = true
  closings : b.stream.closings.length = if owns then 1 else 0

theorem Open.peek (h : b.Open owns) : (b.peek str.watched).2.Open owns := by
  rcases b with ⟨w, lookahead, closed, owns'⟩
  cases lookahead with
  | some ahead => exact h
  | none =>
    rcases hr : str.readOne w.stream with ⟨_ | ahead, t⟩
    · simp only [Buffered.peek, TextStream.watched, hr]
      refine ⟨h.closed, h.owns_eq, h.closings, ?_⟩
      intro ahead' hahead
      cases hahead
    · simp only [Buffered.peek, TextStream.watched, hr]
      refine ⟨h.closed, h.owns_eq, h.closings, ?_⟩
      intro ahead' hahead
      cases hahead
      exact List.getLast?_concat

theorem lookahead_of_peek {ahead : String} (hp : b.peek str.watched = (.ok ahead, b')) :
    b'.lookahead = some ahead := by
  rcases b with ⟨w, lookahead, closed, owns'⟩
  cases lookahead with
  | some ahead' =>
    cases hp
    rfl
  | none =>
    rcases hr : str.readOne w.stream with ⟨_ | ahead', t⟩
    · simp only [Buffered.peek, TextStream.watched, hr] at hp
      cases hp
    · simp only [Buffered.peek, TextStream.watched, hr] at hp
      cases hp
      rfl

theorem open_keeps (str : TextStream τ ε) (owns : Bool) :
    (source str.watched).Keeps (Open owns) where
  peek h := h.peek
  read {b} h := by
    have hpeek : (b.peek str.watched).2.Open owns := h.peek
    change (b.read str.watched).2.Open owns
    rcases hp : b.peek str.watched with ⟨_ | ahead, b'⟩
    · rw [hp] at hpeek
      simp only [Buffered.read, hp]
      exact hpeek
    · rw [hp] at hpeek
      simp only [Buffered.read, hp]
      split
      · exact hpeek
      · refine ⟨hpeek.closed, hpeek.owns_eq, hpeek.closings, ?_⟩
        intro ahead' hahead
        cases hahead

theorem Open.close (str : TextStream τ ε) (h : b.Open owns) :
    ∃ result b', b.close str.watched = (result, b') ∧ b'.Shut owns ∧
      b'.stream.readings = b.stream.readings ∧
      ∀ e, result = .error e ↔ b'.stream.closings = [.error e] := by
  rcases b with ⟨⟨t, readings, closings⟩, lookahead, closed, owns'⟩
  obtain ⟨hclosed, howns, hclosings, -⟩ := h
  cases hclosed
  cases hclosings
  cases owns' with
  | true =>
    subst howns
    refine ⟨(str.close t).1, _, rfl, ⟨rfl, rfl⟩, rfl, ?_⟩
    intro e
    exact List.singleton_inj.symm
  | false =>
    subst howns
    refine ⟨.ok (), _, rfl, ⟨rfl, rfl⟩, rfl, ?_⟩
    intro e
    exact ⟨nofun, nofun⟩

end Buffered

namespace Lexer

variable {lx : Lexer} {b : Buffered (Watched τ ε)}

/-- The invariant of a run. -/
structure Tended (owns : Bool) (lx : Lexer) (b : Buffered (Watched τ ε)) : Prop where
  going : lx.done = false → b.Open owns
  ended : lx.done = true → b.Shut owns

/-- A pull before the end, as the stream sees it. -/
inductive Pull.Tends (owns : Bool) : Pull (Buffered (Watched τ ε)) ε → Prop
  | goes {outcome : Except (Interrupt ε) Outcome} {lx : Lexer} {b : Buffered (Watched τ ε)}
      (hb : b.Open owns) (hd : lx.done = false) (ho : ∀ o, outcome = .ok o → ∃ t, o = .emitted t) :
      Tends owns ⟨outcome, lx, b, []⟩
  | concludes {lx : Lexer} {b : Buffered (Watched τ ε)} {ahead : String} {o : Outcome}
      {event : Event} (hb : b.Shut owns) (hd : lx.done = true)
      (hahead : b.stream.readings.getLast? = some (.ok ahead)) (h : Concludes lx ahead o event)
      (hclosed : ∀ e, b.stream.closings ≠ [.error e]) : Tends owns ⟨.ok o, lx, b, [event]⟩
  | displaced {lx : Lexer} {b : Buffered (Watched τ ε)} {ahead : String} {o : Outcome}
      {event : Event} {e : ε} (hb : b.Shut owns) (hd : lx.done = true)
      (hahead : b.stream.readings.getLast? = some (.ok ahead)) (h : Concludes lx ahead o event)
      (hclosed : b.stream.closings = [.error e]) :
      Tends owns ⟨.error (.source e), lx, b, [event]⟩

theorem Concludes.close {ahead : String} {o : Outcome} {event : Event}
    (h : Concludes lx ahead o event) : Concludes { lx with done := true } ahead o event := by
  cases h with
  | finished => exact .finished
  | failed hne => exact .failed hne

theorem advance_tends (str : TextStream τ ε) (hb : b.Open owns) (hd : lx.done = false)
    (fuel : Nat) : (lx.advance (Buffered.source str.watched) fuel b).Tends owns := by
  have hsettles := advance_settles (Buffered.open_keeps str owns) hb hd fuel
  generalize lx.advance (Buffered.source str.watched) fuel b = pull at hsettles
  cases hsettles with
  | goes hb hd ho => exact .goes hb hd ho
  | @concludes lx b b' ahead o event hb hp h =>
    -- The closing reads nothing, so the lookahead is still the last reading behind it.
    have hopen := (Buffered.open_keeps str owns).peek hb
    rw [hp] at hopen
    have hahead := hopen.ahead (Buffered.lookahead_of_peek hp)
    obtain ⟨result, b'', hclose, hshut, hreadings, hresult⟩ := hopen.close str
    have hclose' : (Buffered.source str.watched).close b' = (result, b'') := hclose
    rw [← hreadings] at hahead
    rw [conclude_eq, hclose']
    cases result with
    | ok =>
      refine .concludes hshut rfl hahead h.close ?_
      intro e he
      cases (hresult e).2 he
    | error e =>
      exact .displaced hshut rfl hahead h.close ((hresult e).1 rfl)

/-- The fault with which the stream closed took the place of the outcome of a pull. -/
def Exchange.Displaced (x : Exchange (Buffered (Watched τ ε)) ε) : Prop :=
  (x.call = .advance ∨ x.call = .next) ∧ x.before.done = false ∧
    ∃ e, x.response.result = .error (.interrupt (.source e)) ∧
      x.response.source.stream.closings = [.error e]

/-- What the log has to say of a call: a pull that concludes is recorded for what it comes to, also
where the closing of the stream displaces that. Then the last reading tells the end of the input
from a character. -/
structure Exchange.Logs (x : Exchange (Buffered (Watched τ ε)) ε) : Prop where
  stopped : (∃ here, .stopped here ∈ x.response.events) ↔
    (∃ e, x.response.outcome? = some (.failed e)) ∨
      x.Displaced ∧ x.response.source.stream.readings.getLast? ≠ some (.ok "")
  finished : (∃ here, .finished here ∈ x.response.events) ↔
    (x.before.done = false ∧ x.response.outcome? = some .finished) ∨
      x.Displaced ∧ x.response.source.stream.readings.getLast? = some (.ok "")

theorem Exchange.Logs.of_quiet {x : Exchange (Buffered (Watched τ ε)) ε}
    (hevents : x.response.events = []) (hdisplaced : ¬ x.Displaced)
    (hfailed : ∀ e, x.response.outcome? ≠ some (.failed e))
    (hfinished : x.before.done = false → x.response.outcome? ≠ some .finished) : x.Logs := by
  have hnone : ∀ event, event ∉ x.response.events := by
    rw [hevents]
    exact fun _ => List.not_mem_nil
  constructor
  · constructor
    · rintro ⟨here, hmem⟩
      exact absurd hmem (hnone _)
    · rintro (⟨e, he⟩ | ⟨hx, -⟩)
      · exact absurd he (hfailed e)
      · exact absurd hx hdisplaced
  · constructor
    · rintro ⟨here, hmem⟩
      exact absurd hmem (hnone _)
    · rintro (⟨hd, ho⟩ | ⟨hx, -⟩)
      · exact absurd ho (hfinished hd)
      · exact absurd hx hdisplaced

theorem Concludes.logs {ahead : String} {o : Outcome} {event : Event}
    (h : Concludes lx ahead o event) {x : Exchange (Buffered (Watched τ ε)) ε}
    (hd : x.before.done = false) (hevents : x.response.events = [event])
    (hahead : x.response.source.stream.readings.getLast? = some (.ok ahead))
    (hx : x.response.outcome? = some o ∧ ¬ x.Displaced ∨
      x.response.outcome? = none ∧ x.Displaced) : x.Logs := by
  have hmem {event' : Event} : event' ∈ x.response.events ↔ event' = event := by
    rw [hevents, List.mem_singleton]
  cases h with
  | finished =>
    constructor
    · constructor
      · rintro ⟨here, hhere⟩
        cases hmem.1 hhere
      · rintro (⟨e, he⟩ | ⟨-, hne⟩)
        · rcases hx with ⟨ho, -⟩ | ⟨ho, -⟩
          · cases ho.symm.trans he
          · cases ho.symm.trans he
        · exact absurd hahead hne
    · constructor
      · intro _
        rcases hx with ⟨ho, -⟩ | ⟨-, hx⟩
        · exact .inl ⟨hd, ho⟩
        · exact .inr ⟨hx, hahead⟩
      · intro _
        exact ⟨_, hmem.2 rfl⟩
  | @failed ahead e hne =>
    have hlast : x.response.source.stream.readings.getLast? ≠ some (.ok "") := by
      intro hend
      cases hahead.symm.trans hend
      exact hne rfl
    constructor
    · constructor
      · intro _
        rcases hx with ⟨ho, -⟩ | ⟨-, hx⟩
        · exact .inl ⟨e, ho⟩
        · exact .inr ⟨hx, hlast⟩
      · intro _
        exact ⟨_, hmem.2 rfl⟩
    · constructor
      · rintro ⟨here, hhere⟩
        cases hmem.1 hhere
      · rintro (⟨-, ho'⟩ | ⟨-, hend⟩)
        · rcases hx with ⟨ho, -⟩ | ⟨ho, -⟩
          · cases ho.symm.trans ho'
          · cases ho.symm.trans ho'
        · exact absurd hend hlast

theorem Pull.Tends.logs {pull : Pull (Buffered (Watched τ ε)) ε} (h : pull.Tends owns) {c : Call}
    (hc : c = .advance ∨ c = .next) (hd : lx.done = false)
    {result : Except (Interrupt ε) Outcome → Except (Refusal ε) Answer}
    (hout : (pull.respond result).outcome? = pull.outcome.toOption)
    (hcut : ∀ cause, result (.error cause) = .error (.interrupt cause)) :
    Exchange.Logs ⟨c, lx, pull.respond result⟩ := by
  cases h with
  | @goes outcome lx' b hb hd' ho =>
    have hemitted : ∀ o, outcome.toOption = some o → ∃ t, o = .emitted t := by
      intro o ho'
      cases outcome with
      | error => cases ho'
      | ok o' => exact ho o (congrArg Except.ok (Option.some.inj ho'))
    apply Exchange.Logs.of_quiet
    · rfl
    · rintro ⟨-, -, e, -, hclosings⟩
      cases hb.closings.symm.trans hclosings
    · intro e he
      obtain ⟨t, ht⟩ := hemitted _ (hout.symm.trans he)
      cases ht
    · intro _ he
      obtain ⟨t, ht⟩ := hemitted _ (hout.symm.trans he)
      cases ht
  | @concludes lx' b ahead o event hb hd' hahead h hclosed =>
    refine h.logs hd rfl hahead (.inl ⟨hout, ?_⟩)
    rintro ⟨-, -, e, -, hclosings⟩
    exact hclosed e hclosings
  | @displaced lx' b ahead o event e hb hd' hahead h hclosed =>
    exact h.logs hd rfl hahead (.inr ⟨hout, hc, hd, e, hcut _, hclosed⟩)

theorem Pull.Tends.tended {pull : Pull (Buffered (Watched τ ε)) ε} (h : pull.Tends owns) :
    Tended owns pull.lexer pull.source := by
  have hover {lx : Lexer} {b : Buffered (Watched τ ε)} (hb : b.Shut owns) (hd : lx.done = true) :
      Tended owns lx b := by
    refine ⟨?_, fun _ => hb⟩
    intro hgoing
    cases hd.symm.trans hgoing
  cases h with
  | goes hb hd ho =>
    refine ⟨fun _ => hb, ?_⟩
    intro hover
    cases hd.symm.trans hover
  | concludes hb hd => exact hover hb hd
  | displaced hb hd => exact hover hb hd

theorem call_source_of_over (hd : lx.done = true) (hb : b.closed = true) (fuel : Nat) (c : Call) :
    (lx.call (Buffered.source str.watched) fuel b c).source = b := by
  rw [call_of_closed hd (Buffered.close_of_closed str.watched hb)]

theorem Tended.call_over (h : Tended owns lx b) (hd : lx.done = true) (fuel : Nat) (c : Call) :
    let r := lx.call (Buffered.source str.watched) fuel b c
    Tended owns r.lexer r.source ∧ Exchange.Logs ⟨c, lx, r⟩ := by
  intro r
  have hidle := call_idle (Buffered.source str.watched) hd fuel b c
  have hspends := (call_spends (Buffered.source str.watched) fuel lx b c).2
  have hsource : r.source = b := call_source_of_over hd (h.ended hd).closed fuel c
  constructor
  · rw [hsource, show r.lexer = lx from hidle.lexer]
    exact h
  · apply Exchange.Logs.of_quiet
    · exact hidle.events
    · rintro ⟨-, hgoing, -⟩
      cases hd.symm.trans hgoing
    · intro e he
      rw [Exchange.failure?, he, endsLeft_of_done hd] at hspends
      change 1 + _ ≤ 0 at hspends
      omega
    · intro hgoing
      cases hd.symm.trans hgoing

theorem Tended.call_going (h : Tended owns lx b) (hd : lx.done = false) (fuel : Nat) (c : Call) :
    let r := lx.call (Buffered.source str.watched) fuel b c
    Tended owns r.lexer r.source ∧ Exchange.Logs ⟨c, lx, r⟩ := by
  intro r
  have hpull := advance_tends str (h.going hd) hd fuel
  have hquiet (c : Call) (hc : ¬ (c = .advance ∨ c = .next))
      (hout : (lx.call (Buffered.source str.watched) fuel b c).outcome? = none)
      (hevents : (lx.call (Buffered.source str.watched) fuel b c).events = []) :
      Exchange.Logs ⟨c, lx, lx.call (Buffered.source str.watched) fuel b c⟩ := by
    apply Exchange.Logs.of_quiet
    · exact hevents
    · rintro ⟨hpulls, -⟩
      exact hc hpulls
    · intro e he
      cases hout.symm.trans he
    · intro _ he
      cases hout.symm.trans he
  obtain ⟨closed, hclose, hnone⟩ := lx.call_close (Buffered.source str.watched) fuel b
  have htended : Tended owns (lx.call (Buffered.source str.watched) fuel b .close).lexer
      (lx.call (Buffered.source str.watched) fuel b .close).source := by
    obtain ⟨result, b', hb', hshut, -⟩ := (h.going hd).close str
    have hsource : ((Buffered.source str.watched).close b).2 = b' := congrArg Prod.snd hb'
    rw [hclose, hsource]
    exact ⟨nofun, fun _ => hshut⟩
  have hevents : (lx.call (Buffered.source str.watched) fuel b .close).events = [] := by
    rw [hclose]
  cases c with
  | advance => exact ⟨hpull.tended, hpull.logs (.inl rfl) hd (outcome?_report _) fun _ => rfl⟩
  | next => exact ⟨hpull.tended, hpull.logs (.inr rfl) hd (outcome?_item _) fun _ => rfl⟩
  | enter => exact ⟨h, hquiet .enter (by decide) rfl rfl⟩
  | close => exact ⟨htended, hquiet .close (by decide) hnone hevents⟩
  | exit => exact ⟨htended, hquiet .exit (by decide) hnone hevents⟩

theorem Tended.call (h : Tended owns lx b) (fuel : Nat) (c : Call) :
    let r := lx.call (Buffered.source str.watched) fuel b c
    Tended owns r.lexer r.source ∧ Exchange.Logs ⟨c, lx, r⟩ := by
  cases hd : lx.done with
  | true => exact h.call_over hd fuel c
  | false => exact h.call_going hd fuel c

theorem Tended.exchanges (h : Tended owns lx b) (calls : List (Nat × Call)) :
    ∀ x ∈ lx.exchanges (Buffered.source str.watched) calls b,
      Tended owns x.response.lexer x.response.source ∧ x.Logs :=
  exchanges_invariant (fun _ _ h => h.call) h calls

theorem exchanges_source_of_over (hd : lx.done = true) (hb : b.closed = true)
    (calls : List (Nat × Call)) :
    ∀ x ∈ lx.exchanges (Buffered.source str.watched) calls b, x.response.source = b := by
  have hcall : ∀ lx' b', lx' = lx ∧ b' = b → ∀ fuel c,
      ((lx'.call (Buffered.source str.watched) fuel b' c).lexer = lx ∧
        (lx'.call (Buffered.source str.watched) fuel b' c).source = b) ∧ True := by
    rintro lx' b' ⟨rfl, rfl⟩ fuel c
    have hidle := call_idle (Buffered.source str.watched) hd fuel b' c
    exact ⟨⟨hidle.lexer, call_source_of_over hd hb fuel c⟩, trivial⟩
  have hrun := exchanges_invariant (P := fun _ => True) hcall ⟨rfl, rfl⟩ calls
  intro x hx
  exact (hrun x hx).1.2

theorem Tended.closings_length (h : Tended owns lx b) :
    b.stream.closings.length = if owns && lx.done then 1 else 0 := by
  cases hd : lx.done with
  | true =>
    rw [Bool.and_true]
    exact (h.ended hd).closings
  | false =>
    rw [(h.going hd).closings, Bool.and_false]
    rfl

theorem Tended.new (t : τ) (owns : Bool) (label : String) (sourceName : Option String)
    (config : Config) : Tended (ε := ε) owns (create label sourceName config).1
      { stream := { stream := t }, ownsStream := owns } where
  going _ := ⟨rfl, rfl, rfl, nofun⟩
  ended := nofun

/-- Whatever calls are made on a new lexer over a stream: an outcome without a token ends the
sequence, and so does a closing. From then on the lexer and the stream are left as they are, nothing
is logged, and there are no tokens. A run has one error and one record at most, and the stream is
closed once if it is owned and the sequence is over, and else not at all. The record tells how the
pull that ended the sequence came out, or would have, had the stream closed without a fault. That
the stream is watched changes nothing. -/
theorem exchanges_release (str : TextStream τ ε) (t : τ) (owns : Bool) (sourceName : Option String)
    (config : Config) (calls : List (Nat × Call)) :
    let src := Buffered.source str.watched
    let lx := (create src.label sourceName config).1
    let b : Buffered (Watched τ ε) := { stream := { stream := t }, ownsStream := owns }
    let run := lx.exchanges src calls b
    run.map Exchange.seen =
        (lx.exchanges (Buffered.source str) calls b.unwatched).map Exchange.seen ∧
      (∀ before x after, run = before ++ x :: after →
        (x.Final → x.response.lexer.done = true) ∧
        (x.response.lexer.done = true →
          ∀ y ∈ after, y.Idle x.response.lexer ∧ y.response.source = x.response.source)) ∧
      (run.filterMap Exchange.failure?).length ≤ 1 ∧
      (run.flatMap (·.response.events)).length ≤ 1 ∧
      ∀ x ∈ run, x.Logs ∧
        x.response.source.stream.closings.length =
          if owns && x.response.lexer.done then 1 else 0 := by
  intro src lx b run
  have htended : ∀ x ∈ run, Tended owns x.response.lexer x.response.source ∧ x.Logs :=
    (Tended.new t owns src.label sourceName config).exchanges calls
  refine ⟨exchanges_simulates (Buffered.watched_simulates str) calls lx rfl, ?_, ?_, ?_, ?_⟩
  · intro before x after hrun
    have hx : x ∈ run := by
      rw [hrun]
      exact List.mem_append_right _ (List.mem_cons_self ..)
    constructor
    · exact exchanges_done src lx b calls x hx
    · intro hd
      obtain ⟨calls', rfl⟩ := exchanges_behind hrun
      have hshut := (htended x hx).1.ended hd
      intro y hy
      exact ⟨exchanges_idle hd calls' y hy, exchanges_source_of_over hd hshut.closed calls' y hy⟩
  · rw [List.filterMap_eq_flatMap_toList]
    exact exchanges_length_le (fun fuel lx s c => (call_spends src fuel lx s c).2) calls
  · exact exchanges_length_le (fun fuel lx s c => (call_spends src fuel lx s c).1) calls
  · intro x hx
    exact ⟨(htended x hx).2, (htended x hx).1.closings_length⟩

theorem unclosable_stream_released :
    let src := Buffered.source PieceStream.stream.watched
    let run := (create src.label none {}).1.exchanges src [(9, .advance), (9, .advance), (9, .next)]
      { stream := { stream := ⟨["1"]⟩ } }
    ∃ x y z, run = [x, y, z] ∧ y.response.lexer.done = true ∧
      y.response.source.stream.closings.length = 1 ∧ y.Displaced ∧
      (∃ here, .finished here ∈ y.response.events) ∧ z.response.result = .error .exhausted ∧
      z.response.source = y.response.source := by
  intro src run
  obtain ⟨-, hover, -, -, hrun⟩ := exchanges_release PieceStream.stream ⟨["1"]⟩ true none {}
    [(9, .advance), (9, .advance), (9, .next)]
  have hsplit : ∃ x y z, run = [x] ++ y :: [z] ∧ y.response.lexer.done = true ∧ y.Displaced ∧
      y.response.source.stream.readings.getLast? = some (.ok "") ∧ z.call = .next :=
    ⟨_, _, _, rfl, rfl, ⟨.inl rfl, rfl, _, rfl, rfl⟩, rfl, rfl⟩
  obtain ⟨x, y, z, hsplit, hd, hdisplaced, hlast, hnext⟩ := hsplit
  have hy : y ∈ run := by
    rw [hsplit]
    exact .tail _ (.head _)
  obtain ⟨hlogs, hclosings⟩ := hrun y hy
  obtain ⟨hidle, hsource⟩ := (hover [x] y [z] hsplit).2 hd z (.head _)
  rw [hd] at hclosings
  exact ⟨x, y, z, hsplit, hd, hclosings, hdisplaced, hlogs.finished.2 (.inr ⟨hdisplaced, hlast⟩),
    hidle.next hnext, hsource⟩

/-- A stream that cannot be closed: the end of the input is recorded, but the fault of the closing
is what the pull gives. -/
theorem finished_recorded_without_outcome :
    let run := (create Buffered.label none {}).1.exchanges (Buffered.source PieceStream.stream)
      [(1, .advance)] { stream := ⟨[]⟩ }
    ¬ ((∃ x ∈ run, ∃ here, .finished here ∈ x.response.events) ↔
      ∃ x ∈ run, x.before.done = false ∧ x.response.outcome? = some .finished) := by
  intro run h
  have hrecorded : ∃ x ∈ run, ∃ here, .finished here ∈ x.response.events :=
    ⟨_, .head _, ⟨⟨1, 1⟩, none⟩, .head _⟩
  obtain ⟨x, hx, -, ho⟩ := h.1 hrecorded
  cases List.mem_singleton.1 hx
  cases ho

end Lexer

end FormulaLex
