import FormulaLex.Proofs.Conclusion

/-!
What holds of a lexer on any source whatever, also on one that looks ahead to one thing and consumes
another. The state is where the automaton gets with the open token; so what is finalized has a text
of its kind, and an error shows what the source looked ahead to.
-/
namespace FormulaLex

variable {σ ε : Type}

/-- In states with the property `I`, and it gets to no others, a source looks ahead to one character
at a time. -/
structure CharSource.OneByOne (src : CharSource σ ε) (I : σ → Prop) : Prop extends src.Keeps I where
  single {s : σ} {ahead : String} (h : I s) (hp : (src.peek s).1 = .ok ahead) (hne : ahead ≠ "") :
    ∃ c, ahead = String.singleton c

/-- Only a single character is taken into a token. -/
theorem State.exists_of_stepOn?_eq_extend {q q' : State} {ahead : String}
    (h : q.stepOn? ahead = some (.extend q')) :
    ∃ c, ahead = String.singleton c ∧ q.grow? c = some q' := by
  unfold stepOn? at h
  split at h
  next c hc =>
    refine ⟨c, ?_, grow?_eq_some_iff.2 h⟩
    rw [← String.toList_inj, hc, String.toList_singleton]
  next =>
    split at h
    · cases h
    · cases h

namespace Lexer

variable {src : CharSource σ ε} {I : σ → Prop} {sourceName : Option String} {lx : Lexer} {s : σ}

/-- Between two turns: the state goes with the open token, and the source is in a state with the
property `I` unless it was closed. -/
structure Steady (I : σ → Prop) (sourceName : Option String) (lx : Lexer) (s : σ) : Prop where
  pending : ∃ p, lx.Pending p
  sourceName : lx.sourceName = sourceName
  source : lx.done = false → I s

/-- A token has a text of its kind, and an error shows what the source looked ahead to. -/
def Outcome.Sound (src : CharSource σ ε) (I : σ → Prop) (sourceName : Option String) :
    Outcome → Prop
  | .emitted t => t.kind.Contains t.text.toList
  | .failed e => e.sourceName = sourceName ∧ e.character ≠ "" ∧
      ∃ s, I s ∧ (src.peek s).1 = .ok e.character
  | .finished => True

structure Pull.Sound (src : CharSource σ ε) (I : σ → Prop) (sourceName : Option String)
    (pull : Pull σ ε) : Prop where
  steady : Steady I sourceName pull.lexer pull.source
  outcome (o : Outcome) (ho : pull.outcome = .ok o) : o.Sound src I sourceName

theorem Pull.Sound.of_error {cause : Interrupt ε} (h : Steady I sourceName lx s)
    (events : List Event) : Pull.Sound src I sourceName ⟨.error cause, lx, s, events⟩ :=
  ⟨h, nofun⟩

theorem steady_cleared (hname : lx.sourceName = sourceName) (hs : I s) :
    Steady I sourceName lx.cleared s :=
  ⟨⟨[], pending_cleared lx⟩, hname, fun _ => hs⟩

theorem conclude_sound {lx' : Lexer} (hcleared : lx' = lx.cleared)
    (hname : lx.sourceName = sourceName) {o : Outcome} (ho : o.Sound src I sourceName) (s : σ)
    (event : Event) : (lx'.conclude src s o event).Sound src I sourceName := by
  subst hcleared
  constructor
  · rw [conclude_eq]
    exact ⟨⟨[], pending_cleared { lx with done := true }⟩, hname, nofun⟩
  · intro o' ho'
    rw [outcome_of_conclude ho']
    exact ho

theorem Steady.turn (hsrc : src.Keeps I) (h : Steady I sourceName lx s) (hd : lx.done = false) :
    (lx.turn src s).Leads (fun lx s => Steady I sourceName lx s ∧ lx.done = false)
      (Pull.Sound src I sourceName) := by
  obtain ⟨p, hp⟩ := h.pending
  have hs := h.source hd
  have hfinished : Outcome.finished.Sound src I sourceName := trivial
  have hturned := turn_turned src lx s
  generalize lx.turn src s = turn at hturned
  generalize lx.turnFinalizes src s = ts at hturned
  cases hturned with
  | peekFault hahead => exact .of_error ⟨h.pending, h.sourceName, fun _ => hsrc.of_peek hs hahead⟩ []
  | readFault hahead hne hq hr =>
    have hread := hsrc.of_read (hsrc.of_peek hs hahead) hr
    exact .of_error ⟨h.pending, h.sourceName, fun _ => hread⟩ []
  | consumed hahead hne hq hr =>
    have hread := hsrc.of_read (hsrc.of_peek hs hahead) hr
    obtain ⟨c, rfl, hc⟩ := State.exists_of_stepOn?_eq_extend hq
    exact ⟨⟨⟨_, hp.consume hc⟩, h.sourceName, fun _ => hread⟩, hd⟩
  | emitted hahead ht hshow =>
    refine ⟨steady_cleared h.sourceName (hsrc.of_peek hs hahead), ?_⟩
    intro o ho
    cases ho
    exact hp.contains ht
  | hidden hahead ht hshow =>
    exact ⟨steady_cleared h.sourceName (hsrc.of_peek hs hahead), hd⟩
  | hiddenAtEnd hahead ht hshow => exact conclude_sound rfl h.sourceName hfinished _ _
  | ended hahead => exact conclude_sound rfl h.sourceName hfinished _ _
  | failed hahead hne hq =>
    apply conclude_sound (cleared_of_stuck hq) h.sourceName
    refine ⟨h.sourceName, hne, s, hs, ?_⟩
    rw [hahead]

theorem Steady.advance (hsrc : src.Keeps I) (h : Steady I sourceName lx s) (fuel : Nat) :
    (lx.advance src fuel s).Sound src I sourceName := by
  cases hd : lx.done with
  | true =>
    rw [advance_eq_finished src hd]
    refine ⟨h, ?_⟩
    intro o ho
    cases ho
    trivial
  | false =>
    rw [advance_eq_scan src hd]
    refine scan_leads (I := fun lx s => Steady I sourceName lx s ∧ lx.done = false) ?_ ?_ fuel
      ⟨h, hd⟩
    · rintro lx s ⟨h, hd⟩
      exact h.turn hsrc hd
    · rintro lx s ⟨h, -⟩
      exact .of_error h []

/-- The tokens of a sequence of pulls and the error at its end, if one is there, are sound. -/
structure Harvest.Sound (src : CharSource σ ε) (I : σ → Prop) (sourceName : Option String)
    (harvest : Harvest σ ε) : Prop where
  tokens (t : Token) (ht : t ∈ harvest.tokens) : t.kind.Contains t.text.toList
  failure (e : InvalidCharacter) (he : harvest.ending = some (.failed e)) :
    (Outcome.failed e).Sound src I sourceName

theorem Steady.take (hsrc : src.Keeps I) (h : Steady I sourceName lx s) (fuel count : Nat) :
    (lx.take src fuel count s).Sound src I sourceName := by
  induction count generalizing lx s with
  | zero => exact ⟨nofun, nofun⟩
  | succ count ih =>
    obtain ⟨hsteady, houtcome⟩ := h.advance hsrc fuel
    rw [take]
    generalize lx.advance src fuel s = pull at hsteady houtcome
    obtain ⟨outcome, lx', s', events⟩ := pull
    cases outcome with
    | error => exact ⟨nofun, nofun⟩
    | ok o =>
      have ho := houtcome o rfl
      cases o with
      | emitted t =>
        obtain ⟨htokens, hfailure⟩ := ih hsteady
        refine ⟨?_, hfailure⟩
        intro t' ht'
        rcases List.mem_cons.1 ht' with rfl | ht'
        · exact ho
        · exact htokens t' ht'
      | failed e =>
        refine ⟨nofun, ?_⟩
        intro e' he'
        cases he'
        exact ho
      | finished => exact ⟨nofun, nofun⟩

theorem Steady.collect (hsrc : src.Keeps I) (h : Steady I sourceName lx s) :
    (lx.collect src s).Sound src I sourceName := by
  obtain ⟨htokens, hfailure⟩ := h.take hsrc (enoughTurns src s) (src.size s + 2)
  refine ⟨htokens, ?_⟩
  intro e he
  apply hfailure
  rw [Lexer.collect, Option.some.injEq] at he
  cases hending : (lx.take src (enoughTurns src s) (src.size s + 2) s).ending with
  | none =>
    rw [hending] at he
    cases he
  | some ending =>
    rw [hending] at he
    exact congrArg some he

end Lexer

theorem CharSource.tokenize_sound {src : CharSource σ ε} {I : σ → Prop} (hsrc : src.Keeps I) {s : σ}
    (hs : I s) (sourceName : Option String) (config : Config) :
    (src.tokenize sourceName config s).Sound src I sourceName := by
  have hsteady : Lexer.Steady I sourceName (Lexer.create src.label sourceName config).1 s :=
    ⟨⟨[], Lexer.pending_cleared (Lexer.create src.label sourceName config).1⟩, rfl, fun _ => hs⟩
  obtain ⟨htokens, hfailure⟩ := hsteady.collect hsrc
  exact ⟨htokens, hfailure⟩

theorem CharSource.OneByOne.exists_character {src : CharSource σ ε} {I : σ → Prop}
    (hsrc : src.OneByOne I) {s : σ} (hs : I s) {sourceName : Option String} {config : Config}
    {e : InvalidCharacter}
    (he : (src.tokenize sourceName config s).ending = some (.failed e)) :
    e.sourceName = sourceName ∧ ∃ c, e.character = String.singleton c := by
  obtain ⟨hname, hne, s', hs', hp⟩ :=
    (src.tokenize_sound hsrc.toKeeps hs sourceName config).failure e he
  exact ⟨hname, hsrc.single hs' hp hne⟩

end FormulaLex
