import FormulaLex.Proofs.Conclusion
import FormulaLex.Source.Buffered
import FormulaLex.Source.Feed
import FormulaLex.Stream.Bytes

/-!
When the source under a lexer is closed: just when the lexer is done, whatever calls are made on it.
So an iteration that stops leaves the source closed, unless it stops at a fault of the source in
looking ahead or reading; such a fault leaves both as they are, and the iteration can go on.
-/
namespace FormulaLex

variable {σ ε : Type}

/-- A source, with its faults in looking ahead and reading and with what came of closing it, the
latest last. -/
structure Overseen (σ ε : Type) where
  source : σ
  faults : List ε := []
  closings : List (Except ε Unit) := []

namespace CharSource

/-- The fault that a result is, if it is one. -/
def faultOf {α : Type} : Except ε α → List ε
  | .ok _ => []
  | .error e => [e]

def overseen (src : CharSource σ ε) : CharSource (Overseen σ ε) ε where
  label := src.label
  peek o :=
    let (result, source) := src.peek o.source
    (result, { o with source, faults := o.faults ++ faultOf result })
  read o :=
    let (result, source) := src.read o.source
    (result, { o with source, faults := o.faults ++ faultOf result })
  close o :=
    let (result, source) := src.close o.source
    (result, { o with source, closings := o.closings ++ [result] })
  size o := src.size o.source

theorem overseen_simulates (src : CharSource σ ε) :
    src.overseen.Simulates src fun o s => o.source = s where
  peek {o s} h := by
    subst h
    exact ⟨_, _, _, rfl, rfl, rfl⟩
  read {o s} h := by
    subst h
    exact ⟨_, _, _, rfl, rfl, rfl⟩
  close {o s} h := by
    subst h
    exact ⟨_, _, _, rfl, rfl, rfl⟩

theorem overseen_keeps (src : CharSource σ ε) : src.overseen.Keeps fun o => o.closings = [] where
  peek h := h
  read h := h

theorem exists_close_overseen (src : CharSource σ ε) (o : Overseen σ ε) :
    ∃ result o', src.overseen.close o = (result, o') ∧ o'.closings = o.closings ++ [result] :=
  ⟨_, _, rfl, rfl⟩

theorem getLast?_faults_of_peek {src : CharSource σ ε} {o o' : Overseen σ ε} {e : ε}
    (h : src.overseen.peek o = (.error e, o')) : o'.faults.getLast? = some e := by
  obtain ⟨hresult, rfl⟩ := Prod.mk.inj h
  rw [hresult]
  exact List.getLast?_concat

theorem getLast?_faults_of_read {src : CharSource σ ε} {o o' : Overseen σ ε} {e : ε}
    (h : src.overseen.read o = (.error e, o')) : o'.faults.getLast? = some e := by
  obtain ⟨hresult, rfl⟩ := Prod.mk.inj h
  rw [hresult]
  exact List.getLast?_concat

end CharSource

namespace Lexer

/-- The fault of the source that a call raises. -/
def Response.fault? (r : Response σ ε) : Option ε :=
  match r.result with
  | .error (.interrupt (.source e)) => some e
  | _ => none

/-- The lexer can go on, and its source was never closed. -/
structure LeftOpen (lx : Lexer) (o : Overseen σ ε) : Prop where
  going : lx.done = false
  unclosed : o.closings = []

/-- The lexer is done, and its source was closed. -/
structure ShutDown (lx : Lexer) (o : Overseen σ ε) : Prop where
  done : lx.done = true
  closed : o.closings ≠ []

/-- The invariant of a run. -/
def InCustody (lx : Lexer) (o : Overseen σ ε) : Prop := LeftOpen lx o ∨ ShutDown lx o

variable {src : CharSource σ ε} {lx : Lexer} {o : Overseen σ ε}

/-- What a pull before the end comes to. -/
inductive Pull.Parts : Pull (Overseen σ ε) ε → Prop
  | emitted {t : Token} {lx : Lexer} {o : Overseen σ ε} (h : LeftOpen lx o) :
      Parts ⟨.ok (.emitted t), lx, o, []⟩
  | cut {lx : Lexer} {o : Overseen σ ε} (h : LeftOpen lx o) :
      Parts ⟨.error .outOfFuel, lx, o, []⟩
  | faulted {e : ε} {lx : Lexer} {o : Overseen σ ε} (h : LeftOpen lx o)
      (he : o.faults.getLast? = some e) : Parts ⟨.error (.source e), lx, o, []⟩
  | concluded {outcome : Outcome} {lx : Lexer} {o : Overseen σ ε} {event : Event}
      (h : ShutDown lx o) (hquiet : ∀ t, outcome ≠ .emitted t) : Parts ⟨.ok outcome, lx, o, [event]⟩
  | unclosable {e : ε} {lx : Lexer} {o : Overseen σ ε} {event : Event} (h : ShutDown lx o)
      (he : o.closings.getLast? = some (.error e)) : Parts ⟨.error (.source e), lx, o, [event]⟩

theorem conclude_parts (src : CharSource σ ε) (lx : Lexer) (o : Overseen σ ε) {outcome : Outcome}
    (hquiet : ∀ t, outcome ≠ .emitted t) (event : Event) :
    (lx.conclude src.overseen o outcome event).Parts := by
  obtain ⟨result, o', hclose, hclosings⟩ := src.exists_close_overseen o
  have hclosed : o'.closings ≠ [] := by
    rw [hclosings]
    exact List.concat_ne_nil _ _
  rw [conclude_eq, hclose]
  cases result with
  | ok => exact .concluded ⟨rfl, hclosed⟩ hquiet
  | error e =>
    refine .unclosable ⟨rfl, hclosed⟩ ?_
    rw [hclosings]
    exact List.getLast?_concat

theorem LeftOpen.turn (h : LeftOpen lx o) (src : CharSource σ ε) :
    (lx.turn src.overseen o).Leads LeftOpen Pull.Parts := by
  obtain ⟨hd, ho⟩ := h
  have hkeeps := src.overseen_keeps
  have hturned := turn_turned src.overseen lx o
  generalize lx.turn src.overseen o = turn at hturned
  generalize lx.turnFinalizes src.overseen o = ts at hturned
  cases hturned with
  | peekFault hp =>
    exact .faulted ⟨hd, hkeeps.of_peek ho hp⟩ (CharSource.getLast?_faults_of_peek hp)
  | readFault hp hne hq hr =>
    have hread := hkeeps.of_read (hkeeps.of_peek ho hp) hr
    exact .faulted ⟨hd, hread⟩ (CharSource.getLast?_faults_of_read hr)
  | consumed hp hne hq hr => exact ⟨hd, hkeeps.of_read (hkeeps.of_peek ho hp) hr⟩
  | emitted hp ht hshow => exact .emitted ⟨hd, hkeeps.of_peek ho hp⟩
  | hidden hp ht hshow => exact ⟨hd, hkeeps.of_peek ho hp⟩
  | hiddenAtEnd => exact conclude_parts src _ _ Outcome.finished_ne_emitted _
  | ended => exact conclude_parts src _ _ Outcome.finished_ne_emitted _
  | failed => exact conclude_parts src _ _ (Outcome.failed_ne_emitted _) _

theorem LeftOpen.advance (h : LeftOpen lx o) (src : CharSource σ ε) (fuel : Nat) :
    (lx.advance src.overseen fuel o).Parts := by
  rw [advance_eq_scan src.overseen h.going]
  exact scan_leads (fun lx o h => h.turn src) (fun lx o h => .cut h) fuel h

theorem Pull.Parts.custody {pull : Pull (Overseen σ ε) ε} (h : pull.Parts) :
    InCustody pull.lexer pull.source := by
  cases h with
  | emitted h => exact .inl h
  | cut h => exact .inl h
  | faulted h he => exact .inl h
  | concluded h hquiet => exact .inr h
  | unclosable h he => exact .inr h

/-- Where an iteration stops: at the end of the sequence, of which a fault in closing the source may
take the place, or at a fault in looking ahead or reading. -/
inductive Response.Stops (r : Response (Overseen σ ε) ε) : Prop
  | ended (h : ShutDown r.lexer r.source)
      (hr : r.result = .error .exhausted ∨ (∃ e, r.result = .error (.invalid e)) ∨
        ∃ e, r.fault? = some e ∧ r.source.closings.getLast? = some (.error e))
  | faulted {e : ε} (h : LeftOpen r.lexer r.source) (hr : r.fault? = some e)
      (he : r.source.faults.getLast? = some e)

theorem Pull.Parts.stops {pull : Pull (Overseen σ ε) ε} (h : pull.Parts)
    (hfuel : (pull.respond item).result ≠ .error (.interrupt .outOfFuel))
    (hquiet : ∀ t, (pull.respond item).result ≠ .ok (.token t)) : (pull.respond item).Stops := by
  cases h with
  | @emitted t => exact absurd rfl (hquiet t)
  | cut => exact absurd rfl hfuel
  | faulted h he => exact .faulted h rfl he
  | unclosable h he => exact .ended h (.inr (.inr ⟨_, rfl, he⟩))
  | @concluded outcome lx o event h hquiet =>
    cases outcome with
    | emitted t => exact absurd rfl (hquiet t)
    | failed e => exact .ended h (.inr (.inl ⟨e, rfl⟩))
    | finished => exact .ended h (.inl rfl)

theorem InCustody.done_iff (h : InCustody lx o) : lx.done = true ↔ o.closings ≠ [] := by
  rcases h with h | h
  · simp [h.going, h.unclosed]
  · simp [h.done, h.closed]

theorem InCustody.advance (h : InCustody lx o) (src : CharSource σ ε) (fuel : Nat) :
    let pull := lx.advance src.overseen fuel o
    InCustody pull.lexer pull.source ∧
      ((pull.respond item).result ≠ .error (.interrupt .outOfFuel) →
        (∀ t, (pull.respond item).result ≠ .ok (.token t)) → (pull.respond item).Stops) := by
  intro pull
  rcases h with h | h
  · have hparts : pull.Parts := h.advance src fuel
    exact ⟨hparts.custody, hparts.stops⟩
  · have hpull : pull = ⟨.ok .finished, lx, o, []⟩ :=
      advance_eq_finished src.overseen h.done fuel o
    rw [hpull]
    exact ⟨.inr h, fun _ _ => .ended h (.inl rfl)⟩

theorem InCustody.call (h : InCustody lx o) (src : CharSource σ ε) (fuel : Nat) (c : Call) :
    let r := lx.call src.overseen fuel o c
    InCustody r.lexer r.source ∧
      (c = .next → r.result ≠ .error (.interrupt .outOfFuel) →
        (∀ t, r.result ≠ .ok (.token t)) → r.Stops) := by
  have hpull := h.advance src fuel
  have hclose : InCustody (lx.call src.overseen fuel o .close).lexer
      (lx.call src.overseen fuel o .close).source := by
    obtain ⟨answer, hcall, -⟩ := lx.call_close src.overseen fuel o
    obtain ⟨result, o', ho, hclosings⟩ := src.exists_close_overseen o
    rw [hcall, ho]
    refine .inr ⟨rfl, ?_⟩
    rw [hclosings]
    exact List.concat_ne_nil _ _
  cases c with
  | advance => exact ⟨hpull.1, nofun⟩
  | next => exact ⟨hpull.1, fun _ => hpull.2⟩
  | enter => exact ⟨h, nofun⟩
  | close => exact ⟨hclose, nofun⟩
  | exit => exact ⟨hclose, nofun⟩

/-- Whatever calls are made on a new lexer, its source is closed just when it is done. An iteration
that gives no token stops there, with one exception: a fault of the source in looking ahead or
reading goes through to the caller, and leaves the source open and the lexer not done. That the
source is overseen changes nothing. -/
theorem exchanges_custody (src : CharSource σ ε) (s : σ) (sourceName : Option String)
    (config : Config) (calls : List (Nat × Call)) :
    let lx := (create src.label sourceName config).1
    let run := lx.exchanges src.overseen calls { source := s }
    run.map Exchange.seen = (lx.exchanges src calls s).map Exchange.seen ∧
      ∀ x ∈ run, (x.response.lexer.done = true ↔ x.response.source.closings ≠ []) ∧
        (x.call = .next → x.response.result ≠ .error (.interrupt .outOfFuel) →
          (∀ t, x.response.result ≠ .ok (.token t)) → x.response.Stops) := by
  intro lx run
  refine ⟨exchanges_simulates src.overseen_simulates calls lx rfl, ?_⟩
  have hnew : InCustody lx ({ source := s } : Overseen σ ε) := .inl ⟨rfl, rfl⟩
  have hrun : ∀ x ∈ run, InCustody x.response.lexer x.response.source ∧
      (x.call = .next → x.response.result ≠ .error (.interrupt .outOfFuel) →
        (∀ t, x.response.result ≠ .ok (.token t)) → x.response.Stops) :=
    exchanges_invariant (fun _ _ h fuel c => h.call src fuel c) hnew calls
  intro x hx
  exact ⟨(hrun x hx).1.done_iff, (hrun x hx).2⟩

/-- A fault between two characters of a number stops the iteration. The next pull goes on as if
there had been none, and at the end the source is closed. -/
theorem fault_inside_number_left_open :
    let lx := (create Feed.label none {}).1
    let run := lx.exchanges Feed.source.overseen [(9, .next), (9, .next), (9, .next)]
      { source := ⟨[.text "1", .fail "broken", .text "2"], none, 0⟩ }
    ∃ x y z, run = [x, y, z] ∧ x.response.Stops ∧ x.response.fault? = some (.raised "broken") ∧
      x.response.source.closings = [] ∧ (∃ t, y.response.result = .ok (.token t) ∧ t.text = "12") ∧
      z.response.Stops ∧ z.response.source.closings ≠ [] := by
  intro lx run
  obtain ⟨-, hrun⟩ : _ ∧ ∀ x ∈ run, _ := exchanges_custody Feed.source
    ⟨[.text "1", .fail "broken", .text "2"], none, 0⟩ none {} [(9, .next), (9, .next), (9, .next)]
  have hsplit : ∃ x y z, run = [x, y, z] ∧ x.call = .next ∧
      x.response.result = .error (.interrupt (.source (.raised "broken"))) ∧
      x.response.source.closings = [] ∧ (∃ t, y.response.result = .ok (.token t) ∧ t.text = "12") ∧
      z.call = .next ∧ z.response.result = .error .exhausted ∧ z.response.lexer.done = true :=
    ⟨_, _, _, rfl, rfl, rfl, rfl, ⟨_, rfl, by decide⟩, rfl, rfl, rfl⟩
  obtain ⟨x, y, z, hsplit, hx, hfault, hopen, hy, hz, hend, hdone⟩ := hsplit
  have hmem : x ∈ run ∧ z ∈ run := by simp [hsplit]
  have hxstops : x.response.Stops := by
    apply (hrun x hmem.1).2 hx
    · rw [hfault]
      nofun
    · rw [hfault]
      nofun
  have hzstops : z.response.Stops := by
    apply (hrun z hmem.2).2 hz
    · rw [hend]
      nofun
    · rw [hend]
      nofun
  refine ⟨x, y, z, hsplit, hxstops, ?_, hopen, hy, hzstops, (hrun z hmem.2).1.1 hdone⟩
  rw [Response.fault?, hfault]

/-- An iteration over bytes that are no text raises behind the first letter, and neither is the
source closed then nor the lexer done. -/
theorem undecodable_source_left_open :
    let src := Buffered.source ByteStream.stream
    let source : Buffered ByteStream := { stream := { bytes := [0x61, 0xC3] } }
    let lx := (create src.label none {}).1
    let response := lx.call src (enoughTurns src source) source .next
    response.fault? = some (.undecodable "unexpected end of data" 0) ∧
      response.lexer.done = false ∧ response.source.closed = false ∧
      response.source.stream.closed = false := by
  decide +kernel

end Lexer

end FormulaLex
