import FormulaLex.Proofs.Simulation

/-!
What passes between a lexer and its owner: any number of calls in any order, with the response to
each.
-/
namespace FormulaLex.Lexer

variable {σ σ' ε : Type}

/-- One call, with the lexer that it found. -/
structure Exchange (σ ε : Type) where
  call : Call
  before : Lexer
  response : Response σ ε

/-- The calls are made one after the other; each comes with the turns that it is granted. -/
def exchanges (src : CharSource σ ε) : List (Nat × Call) → Lexer → σ → List (Exchange σ ε)
  | [], _, _ => []
  | (fuel, c) :: calls, lx, s =>
    let response := lx.call src fuel s c
    ⟨c, lx, response⟩ :: exchanges src calls response.lexer response.source

/-- All of an exchange that the owner of the lexer can see. -/
def Exchange.seen (x : Exchange σ ε) : Exchange Unit ε :=
  { x with response := { x.response with source := () } }

theorem exchanges_invariant {src : CharSource σ ε} {I : Lexer → σ → Prop}
    {P : Exchange σ ε → Prop}
    (hcall : ∀ lx s, I lx s → ∀ fuel c,
      I (lx.call src fuel s c).lexer (lx.call src fuel s c).source ∧ P ⟨c, lx, lx.call src fuel s c⟩)
    {lx : Lexer} {s : σ} (h : I lx s) (calls : List (Nat × Call)) :
    ∀ x ∈ lx.exchanges src calls s, I x.response.lexer x.response.source ∧ P x := by
  induction calls generalizing lx s with
  | nil =>
    intro x hx
    cases hx
  | cons fc calls ih =>
    obtain ⟨fuel, c⟩ := fc
    have hfirst := hcall lx s h fuel c
    intro x hx
    rcases List.mem_cons.1 hx with rfl | hx
    · exact hfirst
    · exact ih hfirst.1 x hx

theorem exchanges_behind {src : CharSource σ ε} {calls : List (Nat × Call)} {lx : Lexer} {s : σ}
    {before after : List (Exchange σ ε)} {x : Exchange σ ε}
    (h : lx.exchanges src calls s = before ++ x :: after) :
    ∃ calls', after = x.response.lexer.exchanges src calls' x.response.source := by
  induction calls generalizing lx s before with
  | nil => simp [exchanges] at h
  | cons fc calls ih =>
    rw [exchanges] at h
    cases before with
    | nil =>
      obtain ⟨rfl, rfl⟩ := List.cons.inj h
      exact ⟨calls, rfl⟩
    | cons y before => exact ih (List.cons.inj h).2

/-- The outcome of a pull, read off the response to the call that asked for it. -/
def Response.outcome? (r : Response σ ε) : Option Outcome :=
  match r.result with
  | .ok (.outcome o) => some o
  | .ok (.token t) => some (.emitted t)
  | .error (.invalid e) => some (.failed e)
  | .error .exhausted => some .finished
  | _ => none

@[simp] theorem outcome?_report (pull : Pull σ ε) :
    (pull.respond report).outcome? = pull.outcome.toOption := by
  rcases pull with ⟨_ | _, _, _, _⟩
  · rfl
  · rfl

@[simp] theorem outcome?_item (pull : Pull σ ε) :
    (pull.respond item).outcome? = pull.outcome.toOption := by
  rcases pull with ⟨_ | _ | _ | _, _, _, _⟩
  · rfl
  · rfl
  · rfl
  · rfl

/-- A closing ends the sequence, whatever comes of closing the source; it gives no outcome. -/
theorem call_close (src : CharSource σ ε) (fuel : Nat) (lx : Lexer) (s : σ) :
    ∃ result, lx.call src fuel s .close =
        ⟨result, { lx with done := true }, (src.close s).2, []⟩ ∧
      (lx.call src fuel s .close).outcome? = none := by
  rcases hc : src.close s with ⟨closed, s'⟩
  cases closed with
  | error e =>
    have hcall : lx.call src fuel s .close =
        ⟨.error (.interrupt (.source e)), { lx with done := true }, s', []⟩ := by
      simp only [call, close, hc]
    exact ⟨_, hcall, by rw [hcall]; rfl⟩
  | ok =>
    have hcall : lx.call src fuel s .close = ⟨.ok .nothing, { lx with done := true }, s', []⟩ := by
      simp only [call, close, hc]
    exact ⟨_, hcall, by rw [hcall]; rfl⟩

/-- What a call comes to after the end, on a source that is closed for good. -/
def Call.resultAfterEnd : Call → Except (Refusal ε) Answer
  | .advance => .ok (.outcome .finished)
  | .next => .error .exhausted
  | .enter => .ok .itself
  | .close | .exit => .ok .nothing

theorem call_of_closed {src : CharSource σ ε} {lx : Lexer} {s : σ} (hd : lx.done = true)
    (hs : src.close s = (.ok (), s)) (fuel : Nat) (c : Call) :
    lx.call src fuel s c = ⟨c.resultAfterEnd, lx, s, []⟩ := by
  have hpull := advance_eq_finished src hd fuel s
  have hclose : lx.call src fuel s .close = ⟨.ok .nothing, lx, s, []⟩ := by
    have hlexer : { lx with done := true } = lx := by
      rw [← hd]
    simp only [call, close, hs, hlexer]
  cases c with
  | advance =>
    rw [call, hpull]
    rfl
  | next =>
    rw [call, hpull]
    rfl
  | enter => rfl
  | close => exact hclose
  | exit => exact hclose

section Simulation

variable {R : σ → σ' → Prop} {src : CharSource σ ε} {src' : CharSource σ' ε} {s : σ} {s' : σ'}

/-- Responses that differ in their sources alone. -/
structure Response.Simulates (R : σ → σ' → Prop) (r : Response σ ε) (r' : Response σ' ε) :
    Prop where
  result : r.result = r'.result
  lexer : r.lexer = r'.lexer
  events : r.events = r'.events
  source : R r.source r'.source

theorem Pull.Simulates.respond {pull : Pull σ ε} {pull' : Pull σ' ε} (h : pull.Simulates R pull')
    (result : Except (Interrupt ε) Outcome → Except (Refusal ε) Answer) :
    (pull.respond result).Simulates R (pull'.respond result) where
  result := congrArg result h.outcome
  lexer := h.lexer
  events := h.events
  source := h.source

theorem call_simulates (hsrc : src.Simulates src' R) (fuel : Nat) (lx : Lexer) (h : R s s')
    (c : Call) : (lx.call src fuel s c).Simulates R (lx.call src' fuel s' c) := by
  have hpull := advance_simulates hsrc fuel lx h
  have hclose : (lx.call src fuel s .close).Simulates R (lx.call src' fuel s' .close) := by
    obtain ⟨r, t, t', hc, hc', ht⟩ := hsrc.close h
    simp only [call, close, hc, hc']
    cases r with
    | ok => exact ⟨rfl, rfl, rfl, ht⟩
    | error => exact ⟨rfl, rfl, rfl, ht⟩
  cases c with
  | advance => exact hpull.respond report
  | next => exact hpull.respond item
  | enter => exact ⟨rfl, rfl, rfl, h⟩
  | close => exact hclose
  | exit => exact hclose

/-- The owner of a lexer sees the same on both sources, whatever calls are made. -/
theorem exchanges_simulates (hsrc : src.Simulates src' R) (calls : List (Nat × Call)) (lx : Lexer)
    (h : R s s') : (exchanges src calls lx s).map Exchange.seen =
      (exchanges src' calls lx s').map Exchange.seen := by
  induction calls generalizing lx s s' with
  | nil => rfl
  | cons fc calls ih =>
    obtain ⟨fuel, c⟩ := fc
    obtain ⟨hresult, hlexer, hevents, hsource⟩ := call_simulates hsrc fuel lx h c
    have hrest := ih (lx.call src fuel s c).lexer hsource
    simp only [exchanges, List.map_cons, Exchange.seen, hresult, hlexer, hevents]
    rw [hlexer] at hrest
    exact congrArg (_ :: ·) hrest

end Simulation

end FormulaLex.Lexer
