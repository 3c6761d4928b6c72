import FormulaLex.Proofs.Exchange

/-!
How a sequence of tokens comes to its end, on any source whatever. A pull before the end gives a
token or is cut short, and logs nothing; or it concludes, which it logs, and closes the source. Then
the sequence is over for good.
-/
namespace FormulaLex

variable {σ ε : Type}

/-- To look ahead and to read lead to no state without the property `I`. -/
structure CharSource.Keeps (src : CharSource σ ε) (I : σ → Prop) : Prop where
  peek {s : σ} (h : I s) : I (src.peek s).2
  read {s : σ} (h : I s) : I (src.read s).2

theorem CharSource.Keeps.of_peek {src : CharSource σ ε} {I : σ → Prop} (hsrc : src.Keeps I)
    {s s' : σ} (h : I s) {ahead : Except ε String} (hp : src.peek s = (ahead, s')) : I s' := by
  have hkept := hsrc.peek h
  rw [hp] at hkept
  exact hkept

theorem CharSource.Keeps.of_read {src : CharSource σ ε} {I : σ → Prop} (hsrc : src.Keeps I)
    {s s' : σ} (h : I s) {taken : Except ε String} (hr : src.read s = (taken, s')) : I s' := by
  have hkept := hsrc.read h
  rw [hr] at hkept
  exact hkept

namespace Lexer

variable {src : CharSource σ ε} {I : σ → Prop} {lx : Lexer} {s : σ}

/-- The outcome and the record with which a lexer concludes in front of the lookahead given. -/
inductive Concludes (lx : Lexer) : String → Outcome → Event → Prop
  | finished : Concludes lx "" .finished (.finished lx.location)
  | failed {ahead : String} {e : InvalidCharacter} (hne : ahead ≠ "") :
      Concludes lx ahead (.failed e) (.stopped lx.location)

/-- What a pull before the end comes to. -/
inductive Pull.Settles (src : CharSource σ ε) (I : σ → Prop) : Pull σ ε → Prop
  | goes {outcome : Except (Interrupt ε) Outcome} {lx : Lexer} {s : σ} (hs : I s)
      (hd : lx.done = false) (ho : ∀ o, outcome = .ok o → ∃ t, o = .emitted t) :
      Settles src I ⟨outcome, lx, s, []⟩
  | concludes {lx : Lexer} {s s' : σ} {ahead : String} {o : Outcome} {event : Event} (hs : I s)
      (hp : src.peek s = (.ok ahead, s')) (h : Concludes lx ahead o event) :
      Settles src I (lx.conclude src s' o event)

theorem turn_settles (hsrc : src.Keeps I) (hs : I s) (hd : lx.done = false) :
    (lx.turn src s).Leads (fun lx s => I s ∧ lx.done = false) (Pull.Settles src I) := by
  have hturned := turn_turned src lx s
  generalize lx.turn src s = turn at hturned
  generalize lx.turnFinalizes src s = ts at hturned
  cases hturned with
  | peekFault hp => exact .goes (hsrc.of_peek hs hp) hd nofun
  | readFault hp hne hq hr => exact .goes (hsrc.of_read (hsrc.of_peek hs hp) hr) hd nofun
  | consumed hp hne hq hr => exact ⟨hsrc.of_read (hsrc.of_peek hs hp) hr, hd⟩
  | emitted hp ht hshow =>
    refine .goes (hsrc.of_peek hs hp) hd ?_
    intro o ho
    cases ho
    exact ⟨_, rfl⟩
  | hidden hp ht hshow => exact ⟨hsrc.of_peek hs hp, hd⟩
  | hiddenAtEnd hp ht hshow => exact .concludes hs hp .finished
  | ended hp => exact .concludes hs hp .finished
  | failed hp hne hq => exact .concludes hs hp (.failed hne)

theorem advance_settles (hsrc : src.Keeps I) (hs : I s) (hd : lx.done = false) (fuel : Nat) :
    (lx.advance src fuel s).Settles src I := by
  rw [advance_eq_scan src hd]
  refine scan_leads (I := fun lx s => I s ∧ lx.done = false) ?_ ?_ fuel ⟨hs, hd⟩
  · rintro lx s ⟨hs, hd⟩
    exact turn_settles hsrc hs hd
  · rintro lx s ⟨hs, hd⟩
    exact .goes hs hd nofun

/-- A call after the end: the lexer stays as it is, nothing is logged, and there is no token. -/
structure Exchange.Idle (lx : Lexer) (x : Exchange σ ε) : Prop where
  lexer : x.response.lexer = lx
  events : x.response.events = []
  advance (h : x.call = .advance) : x.response.result = .ok (.outcome .finished)
  next (h : x.call = .next) : x.response.result = .error .exhausted

theorem Exchange.Idle.of_not_pull {c : Call} (hc : ¬ (c = .advance ∨ c = .next)) {before : Lexer}
    {response : Response σ ε} (hlexer : response.lexer = lx) (hevents : response.events = []) :
    Exchange.Idle lx ⟨c, before, response⟩ where
  lexer := hlexer
  events := hevents
  advance h := absurd (.inl h) hc
  next h := absurd (.inr h) hc

theorem call_idle (src : CharSource σ ε) (hd : lx.done = true) (fuel : Nat) (s : σ) (c : Call) :
    Exchange.Idle lx ⟨c, lx, lx.call src fuel s c⟩ := by
  have hpull := advance_eq_finished src hd fuel s
  have hlexer : { lx with done := true } = lx := by
    rw [← hd]
  obtain ⟨result, hclose, -⟩ := lx.call_close src fuel s
  cases c with
  | advance =>
    rw [call, hpull]
    refine ⟨rfl, rfl, fun _ => rfl, ?_⟩
    intro hc
    cases hc
  | next =>
    rw [call, hpull]
    refine ⟨rfl, rfl, ?_, fun _ => rfl⟩
    intro hc
    cases hc
  | enter => exact .of_not_pull (by decide) rfl rfl
  | close =>
    rw [hclose]
    exact .of_not_pull (by decide) hlexer rfl
  | exit =>
    change Exchange.Idle lx ⟨.exit, lx, lx.call src fuel s .close⟩
    rw [hclose]
    exact .of_not_pull (by decide) hlexer rfl

theorem exchanges_idle (hd : lx.done = true) (calls : List (Nat × Call)) :
    ∀ x ∈ lx.exchanges src calls s, x.Idle lx := by
  have hcall : ∀ lx' s', lx' = lx → ∀ fuel c, (lx'.call src fuel s' c).lexer = lx ∧
      Exchange.Idle lx (⟨c, lx', lx'.call src fuel s' c⟩ : Exchange σ ε) := by
    rintro lx' s' rfl fuel c
    have hidle := call_idle src hd fuel s' c
    exact ⟨hidle.lexer, hidle⟩
  intro x hx
  exact (exchanges_invariant hcall rfl calls x hx).2

theorem advance_done (src : CharSource σ ε) (fuel : Nat) (lx : Lexer) (s : σ) {o : Outcome}
    (ho : (lx.advance src fuel s).outcome = .ok o) (hquiet : ∀ t, o ≠ .emitted t) :
    (lx.advance src fuel s).lexer.done = true := by
  cases hd : lx.done with
  | true =>
    rw [advance_eq_finished src hd]
    exact hd
  | false =>
    have hkeeps : src.Keeps fun _ => True := ⟨fun _ => trivial, fun _ => trivial⟩
    have hsettles := advance_settles (s := s) hkeeps trivial hd fuel
    generalize lx.advance src fuel s = pull at ho hsettles
    cases hsettles with
    | goes hs hd' hemitted =>
      obtain ⟨t, ht⟩ := hemitted o ho
      exact absurd ht (hquiet t)
    | concludes hs hp h => exact conclude_done src _ _ _ _

/-- An outcome without a token ends the sequence, and so does a closing. -/
def Exchange.Final (x : Exchange σ ε) : Prop :=
  (∃ o, x.response.outcome? = some o ∧ ∀ t, o ≠ .emitted t) ∨ x.call = .close ∨ x.call = .exit

theorem call_done (src : CharSource σ ε) (fuel : Nat) (lx : Lexer) (s : σ) (c : Call)
    (h : Exchange.Final ⟨c, lx, lx.call src fuel s c⟩) :
    (lx.call src fuel s c).lexer.done = true := by
  have hpull {o : Outcome} (ho : (lx.advance src fuel s).outcome.toOption = some o)
      (hquiet : ∀ t, o ≠ .emitted t) : (lx.advance src fuel s).lexer.done = true := by
    cases hout : (lx.advance src fuel s).outcome with
    | error =>
      rw [hout] at ho
      cases ho
    | ok o' =>
      rw [hout] at ho
      cases ho
      exact advance_done src fuel lx s hout hquiet
  have hclose : (lx.call src fuel s .close).lexer.done = true := by
    obtain ⟨result, hcall, -⟩ := lx.call_close src fuel s
    rw [hcall]
  rcases h with ⟨o, ho, hquiet⟩ | hc | hc
  · cases c with
    | advance => exact hpull ((outcome?_report _).symm.trans ho) hquiet
    | next => exact hpull ((outcome?_item _).symm.trans ho) hquiet
    | enter => cases ho
    | close => exact hclose
    | exit => exact hclose
  · cases hc
    exact hclose
  · cases hc
    exact hclose

theorem exchanges_done (src : CharSource σ ε) (lx : Lexer) (s : σ) (calls : List (Nat × Call)) :
    ∀ x ∈ lx.exchanges src calls s, x.Final → x.response.lexer.done = true := by
  intro x hx
  exact (exchanges_invariant (I := fun _ _ => True)
    (P := fun x => x.Final → x.response.lexer.done = true)
    (fun lx s _ fuel c => ⟨trivial, call_done src fuel lx s c⟩) trivial calls x hx).2

def Outcome.error? : Outcome → Option InvalidCharacter
  | .failed e => some e
  | _ => none

/-- The error on which a call ran, if it did. -/
def Exchange.failure? (x : Exchange σ ε) : Option InvalidCharacter :=
  x.response.outcome?.bind Outcome.error?

/-- How often the sequence can still come to its end. -/
def endsLeft (lx : Lexer) : Nat := if lx.done then 0 else 1

theorem endsLeft_of_done (hd : lx.done = true) : lx.endsLeft = 0 := by
  simp only [endsLeft, hd, ↓reduceIte]

theorem endsLeft_of_going (hd : lx.done = false) : lx.endsLeft = 1 := by
  simp only [endsLeft, hd, Bool.false_eq_true, ↓reduceIte]

/-- What comes with an end comes once in a run, in whatever order the calls are made. -/
theorem exchanges_length_le {α : Type} {f : Exchange σ ε → List α}
    (hf : ∀ fuel lx s c, (f ⟨c, lx, lx.call src fuel s c⟩).length +
      (lx.call src fuel s c).lexer.endsLeft ≤ lx.endsLeft) (calls : List (Nat × Call)) :
    ((lx.exchanges src calls s).flatMap f).length ≤ lx.endsLeft := by
  induction calls generalizing lx s with
  | nil => exact Nat.zero_le _
  | cons fc calls ih =>
    obtain ⟨fuel, c⟩ := fc
    have hhead := hf fuel lx s c
    have htail : ((exchanges src calls (lx.call src fuel s c).lexer
        (lx.call src fuel s c).source).flatMap f).length ≤ _ := ih
    rw [exchanges, List.flatMap_cons, List.length_append]
    omega

theorem advance_spends (src : CharSource σ ε) (fuel : Nat) (lx : Lexer) (s : σ) :
    let pull := lx.advance src fuel s
    pull.events.length + pull.lexer.endsLeft ≤ lx.endsLeft ∧
      (pull.outcome.toOption.bind Outcome.error?).toList.length + pull.lexer.endsLeft ≤
        lx.endsLeft := by
  intro pull
  cases hd : lx.done with
  | true =>
    have hpull : pull = ⟨.ok .finished, lx, s, []⟩ := advance_eq_finished src hd fuel s
    rw [hpull]
    exact ⟨Nat.le_of_eq (Nat.zero_add _), Nat.le_of_eq (Nat.zero_add _)⟩
  | false =>
    have hkeeps : src.Keeps fun _ => True := ⟨fun _ => trivial, fun _ => trivial⟩
    have hsettles : pull.Settles src fun _ => True := advance_settles hkeeps trivial hd fuel
    clear_value pull
    rw [endsLeft_of_going hd]
    cases hsettles with
    | @goes outcome lx' s' hs hd' ho =>
      have herror : outcome.toOption.bind Outcome.error? = none := by
        cases outcome with
        | error => rfl
        | ok o =>
          obtain ⟨t, rfl⟩ := ho o rfl
          rfl
      rw [herror, endsLeft_of_going hd']
      exact ⟨Nat.le_refl 1, Nat.le_refl 1⟩
    | @concludes lx' s' s'' ahead o event hs hp h =>
      rw [endsLeft_of_done (conclude_done src lx' s'' o event), conclude_eq]
      exact ⟨Nat.le_refl 1, Option.length_toList_le⟩

/-- A call that concludes logs one record or gives one error, and no other call does either. -/
theorem call_spends (src : CharSource σ ε) (fuel : Nat) (lx : Lexer) (s : σ) (c : Call) :
    let x : Exchange σ ε := ⟨c, lx, lx.call src fuel s c⟩
    x.response.events.length + x.response.lexer.endsLeft ≤ lx.endsLeft ∧
      x.failure?.toList.length + x.response.lexer.endsLeft ≤ lx.endsLeft := by
  intro x
  obtain ⟨hevents, hfailure⟩ := advance_spends src fuel lx s
  obtain ⟨result, hclose, hnone⟩ := lx.call_close src fuel s
  have hclosed : (lx.call src fuel s .close).events.length +
        (lx.call src fuel s .close).lexer.endsLeft ≤ lx.endsLeft ∧
      ((lx.call src fuel s .close).outcome?.bind Outcome.error?).toList.length +
        (lx.call src fuel s .close).lexer.endsLeft ≤ lx.endsLeft := by
    rw [hnone, hclose]
    exact ⟨Nat.zero_le _, Nat.zero_le _⟩
  cases c with
  | advance =>
    rw [← outcome?_report] at hfailure
    exact ⟨hevents, hfailure⟩
  | next =>
    rw [← outcome?_item] at hfailure
    exact ⟨hevents, hfailure⟩
  | enter => exact ⟨Nat.le_of_eq (Nat.zero_add _), Nat.le_of_eq (Nat.zero_add _)⟩
  | close => exact hclosed
  | exit => exact hclosed

end Lexer

end FormulaLex
