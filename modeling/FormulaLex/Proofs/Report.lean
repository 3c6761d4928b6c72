import FormulaLex.Proofs.Supply
import FormulaLex.Proofs.Unambiguity

/-!
What a listing comes to, whatever ends it: the lines that it prints, its status, its one record in
the log, and that the source is closed.
-/
namespace FormulaLex

variable {σ : Type}

namespace Lexer

variable {ε : Type} {lx : Lexer}

/-- The events of the engine itself. -/
def IsOwn (event : Event) : Prop := event.logger = Event.loggerName "lexer.core"

theorem Concludes.isOwn {ahead : String} {o : Outcome} {event : Event}
    (h : Concludes lx ahead o event) : IsOwn event := by
  cases h with
  | finished => rfl
  | failed => rfl

theorem advance_isOwn (src : CharSource σ ε) (fuel : Nat) (lx : Lexer) (s : σ) :
    ∀ event ∈ (lx.advance src fuel s).events, IsOwn event := by
  cases hd : lx.done with
  | true =>
    rw [advance_eq_finished src hd]
    exact nofun
  | false =>
    have hkeeps : src.Keeps fun _ => True := ⟨fun _ => trivial, fun _ => trivial⟩
    have hsettles := advance_settles hkeeps trivial hd fuel (s := s)
    generalize lx.advance src fuel s = pull at hsettles
    cases hsettles with
    | goes => exact nofun
    | concludes hs hp h =>
      rw [conclude_eq]
      intro event hevent
      cases List.mem_singleton.1 hevent
      exact h.isOwn

theorem take_isOwn (src : CharSource σ ε) (fuel count : Nat) (lx : Lexer) (s : σ) :
    ∀ event ∈ (lx.take src fuel count s).events, IsOwn event := by
  induction count generalizing lx s with
  | zero => exact nofun
  | succ count ih =>
    have hpull := advance_isOwn src fuel lx s
    rw [take]
    generalize lx.advance src fuel s = pull at hpull
    dsimp only
    split
    · intro event hevent
      rcases List.mem_append.1 hevent with hevent | hevent
      · exact hpull event hevent
      · exact ih _ _ event hevent
    · exact hpull
    · exact hpull
    · exact hpull

end Lexer

theorem CharSource.tokenize_isOwn {ε : Type} (src : CharSource σ ε) (sourceName : Option String)
    (config : Config) (s : σ) :
    ∀ event ∈ (src.tokenize sourceName config s).events, Lexer.IsOwn event := by
  intro event hevent
  rcases List.mem_cons.1 hevent with rfl | hevent
  · rfl
  · exact Lexer.take_isOwn src _ _ _ s event hevent

namespace Listing

variable {src : CharSource σ Fault} {name : String} {config : Config} {positions : Bool} {s : σ}

/-- What a listing prints, a last line behind the tokens included, its status, and the one record
that it makes, with the number of the tokens. -/
structure Shows (positions : Bool) (tokens : List Token) (last : Option String) (status : Nat)
    (record : Nat → Event) (listing : Listing σ) : Prop where
  output : listing.output =
    String.join ((tokens.map (·.line positions) ++ last.toList).map (· ++ "\n"))
  status : listing.status = .ok status
  recorded : listing.events.filter (·.logger == "calclex.cli") = [record tokens.length]

theorem filter_isOwn {events : List Event} (h : ∀ event ∈ events, Lexer.IsOwn event) :
    events.filter (·.logger == "calclex.cli") = [] := by
  apply List.filter_eq_nil_iff.2
  intro event hevent
  rw [h event hevent]
  decide +kernel

theorem shows_of_verdict (hclose : ∀ s, ∃ s', src.close s = (.ok (), s')) {tokens : List Token}
    {ending : Lexer.Ending Fault} {last : Option String} {status : Nat} {record : Nat → Event}
    (htokens : (src.tokenize none config s).tokens = tokens)
    (hending : (src.tokenize none config s).ending = some ending)
    (hverdict : verdict name tokens.length (some ending) =
      (.ok status, last, [record tokens.length]))
    (hrecord : (record tokens.length).logger = Event.loggerName "cli") :
    (ofSource src name config positions s).Shows positions tokens last status record := by
  subst htokens
  have hown := filter_isOwn (src.tokenize_isOwn none config s)
  obtain ⟨s', hs'⟩ := hclose (src.tokenize none config s).source
  constructor
  · rw [(ofSource_eq src name config positions s).1, hending, hverdict]
    cases last with
    | none => simp [Function.comp_def]
    | some line => simp [Function.comp_def]
  · simp only [ofSource, hending, hverdict, Lexer.close, hs']
  · simp only [ofSource, hending, hverdict, Lexer.close, hs', List.filter_append, hown]
    simp [hrecord]
    decide

theorem closed_source {closed : σ → Bool}
    (hclose : ∀ s, ∃ s', src.close s = (.ok (), s') ∧ closed s' = true) :
    closed (ofSource src name config positions s).source = true := by
  obtain ⟨s', hs', hclosed⟩ := hclose (src.tokenize none config s).source
  simp only [ofSource, Lexer.close, hs']
  exact hclosed

theorem undecodableLine_eq (name reason : String) (start : Nat) :
    undecodableLine name reason start =
      name ++ ": cannot decode input: " ++ reason ++ " at byte " ++ toString start := by
  have hmessage : (Fault.undecodable reason start).message =
      reason ++ " at byte " ++ toString start := rfl
  rw [undecodableLine, hmessage, ← String.append_assoc, ← String.append_assoc]

/-- A listing of a source that hands out a text, and then ends or turns out to be no text. If the
lexer fails on the text, the listing ends with its error, wherever the source would have stopped. If
it comes through, the listing has all the tokens where the source ends, and else a token that is cut
by what is no text is left out. Always the source is closed in the end, and there is one record,
which counts the lines of the tokens. -/
theorem ofSource_shows {Holds : σ → List Char → Prop} {stop : Option (String × Nat)}
    (hsrc : src.Serves Holds (stop.map fun d => .undecodable d.1 d.2)) {closed : σ → Bool}
    (hclose : ∀ s, ∃ s', src.close s = (.ok (), s') ∧ closed s' = true) {p : String}
    (hs : Holds s p.toList) (name : String) (config : Config) (positions : Bool) {drop : Value}
    (hdrop : drop.isTruthy = false) :
    let run (config : Config) :=
      (TextSource.source : CharSource TextSource Fault).tokenize none config (.ofString p)
    let listing := ofSource src name config positions s
    (∀ e, (run config).ending = some (.failed e) →
        listing.Shows positions (run config).tokens (some e.text) 1 (.listingStopped name)) ∧
      ((run config).ending = some .finished → stop = none →
        listing.Shows positions (run config).tokens none 0 (.listed name)) ∧
      ((run config).ending = some .finished → ∀ reason start, stop = some (reason, start) →
        listing.Shows positions (run { config with flushAtEnd := drop }).tokens
          (some (name ++ ": cannot decode input: " ++ reason ++ " at byte " ++ toString start)) 1
          (.listingUndecodable name)) ∧
      ((run config).ending = some .finished ∨ ∃ e, (run config).ending = some (.failed e)) ∧
      closed listing.source = true := by
  intro run listing
  have hcloses : ∀ s, ∃ s', src.close s = (.ok (), s') := by
    intro s
    obtain ⟨s', hs', -⟩ := hclose s
    exact ⟨s', hs'⟩
  refine ⟨?_, ?_, ?_, TextSource.tokenize_settled none config p, closed_source hclose⟩
  · intro e he
    have htokenize : (src.tokenize none config s).tokens = (run config).tokens ∧
        (src.tokenize none config s).ending = some (.failed e) := by
      cases stop with
      | none =>
        obtain ⟨htokens, hending⟩ := CharSource.Delivers.tokenize_eq hsrc hs none config
        exact ⟨htokens, hending.trans he⟩
      | some d => exact CharSource.Breaks.tokenize_of_failed hsrc hs none config he
    exact shows_of_verdict hcloses htokenize.1 htokenize.2 rfl rfl
  · intro hfinished hstop
    subst hstop
    obtain ⟨htokens, hending⟩ := CharSource.Delivers.tokenize_eq hsrc hs none config
    exact shows_of_verdict hcloses htokens (hending.trans hfinished) rfl rfl
  · intro hfinished reason start hstop
    subst hstop
    obtain ⟨htokens, hending⟩ :=
      CharSource.Breaks.tokenize_of_finished hsrc hs none config hdrop hfinished
    rw [← undecodableLine_eq]
    exact shows_of_verdict hcloses htokens hending rfl rfl

/-- A star that the next bytes might have made another token is not listed when they are no text. -/
theorem star_before_undecodable_byte_dropped :
    let stream : ByteStream := { bytes := [0xFF], ready := ['a', ' ', '*'] }
    let source : Buffered ByteStream := { stream }
    let src := Buffered.source ByteStream.stream
    let run (config : Config) :=
      (TextSource.source : CharSource TextSource Fault).tokenize none config (.ofString "a *")
    let listing := ofSource src "in" {} false source
    (∃ Holds, src.Serves Holds (some (.undecodable "invalid start byte" 0)) ∧
        Holds source "a *".toList) ∧
      (∀ s, ∃ s', src.close s = (.ok (), s') ∧ s'.closed = true) ∧
      Value.null.isTruthy = false ∧ (run {}).ending = some .finished ∧
      (run { flushAtEnd := .null }).tokens.map Token.text = ["a"] ∧
      listing.Shows false (run { flushAtEnd := .null }).tokens
        (some "in: cannot decode input: invalid start byte at byte 0") 1
        (.listingUndecodable "in") ∧
      listing.source.closed = true := by
  intro stream source src run listing
  have hportions : ByteStream.portions [0xFF] = [[0xFF]] := by
    rw [ByteStream.portions_of_ne_nil (List.cons_ne_nil _ _)]
    exact congrArg ([0xFF] :: ·) ByteStream.portions_nil
  have hoffers : stream.Offers "a *".toList (some (.invalidStart, 0)) := by
    refine ⟨rfl, ?_, [], by decide, ?_⟩
    · exact Chunk.density_le (Nat.zero_le _) 0
    · change ByteStream.supply [] false (ByteStream.portions [0xFF]) = _
      rw [hportions]
      rfl
  have hclose : ∀ s, ∃ s', src.close s = (.ok (), s') ∧ s'.closed = true :=
    Buffered.close_ok (ByteStream.hands none)
  have hfinished : (run {}).ending = some .finished := rfl
  obtain ⟨Holds, hserves, hholds⟩ := hoffers.exists_serves true
  let stop : Option (String × Nat) := some ("invalid start byte", 0)
  have hserves' : src.Serves Holds (stop.map fun d => .undecodable d.1 d.2) := hserves
  obtain ⟨-, -, hcut, -, hclosed⟩ :=
    ofSource_shows hserves' hclose hholds "in" {} false (rfl : Value.null.isTruthy = false)
  exact ⟨⟨Holds, hserves, hholds⟩, hclose, rfl, hfinished, by decide,
    hcut hfinished "invalid start byte" 0 rfl, hclosed⟩

end Listing

end FormulaLex
