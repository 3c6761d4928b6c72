import FormulaLex.Proofs.Conservation
import FormulaLex.Proofs.Interchange
import FormulaLex.Proofs.Recording

/-!
How far a stream is read. Whatever a pull comes to, it has looked at one character behind what it
consumed, or at the end; and the end of a stream is looked at once.
-/
namespace FormulaLex

variable {σ τ ε : Type}

namespace Lexer

variable {src : CharSource σ ε} {Consumed : σ → List Char → Prop} {finalized : List Token}
  {counts : Bool} {lx : Lexer} {s : σ}

/-- What a pull on a lexer that is not at its end comes to, where it looked last, and what was
consumed by then. -/
inductive Pull.Halts (src : CharSource σ ε) (Consumed : σ → List Char → Prop) (counts : Bool) :
    Pull σ ε → Prop
  | cut {cause : Interrupt ε} {lx : Lexer} {s : σ} {w : List Char} (hs : Consumed s w) :
      Halts src Consumed counts ⟨.error cause, lx, s, []⟩
  | emitted {t : Token} {lx : Lexer} {s s' : σ} {before : List Char} {ahead : String}
      (hs : Consumed s (before ++ t.text.toList)) (hp : src.peek s = (.ok ahead, s'))
      (ht : t.position = .behind counts before) :
      Halts src Consumed counts ⟨.ok (.emitted t), lx, s', []⟩
  | ended {lx : Lexer} {s s' : σ} {w : List Char} {event : Event} (hs : Consumed s w)
      (hp : src.peek s = (.ok "", s')) :
      Halts src Consumed counts (lx.conclude src s' .finished event)
  | failed {e : InvalidCharacter} {lx : Lexer} {s s' : σ} {w : List Char} {event : Event}
      (hs : Consumed s w) (hp : src.peek s = (.ok e.character, s')) (hne : e.character ≠ "")
      (he : e.position = .behind counts w) :
      Halts src Consumed counts (lx.conclude src s' (.failed e) event)

/-- Between two turns, as long as the sequence is not at its end. -/
def Underway (Consumed : σ → List Char → Prop) (counts : Bool) (lx : Lexer) (s : σ) : Prop :=
  lx.config.countsNewlines = counts ∧ lx.done = false ∧
    ∃ finalized, Balanced Consumed finalized lx s

theorem Underway.turn (hsrc : src.Accounts Consumed) (h : Underway Consumed counts lx s) :
    (lx.turn src s).Leads (Underway Consumed counts) (Pull.Halts src Consumed counts) := by
  obtain ⟨rfl, hd, finalized, hbalanced⟩ := h
  have hkeeps := hbalanced.turn hsrc
  have hpeek := hsrc.peek_keeps hbalanced.consumed
  have hturned := turn_turned src lx s
  generalize lx.turn src s = turn at hkeeps hturned
  generalize lx.turnFinalizes src s = ts at hkeeps hturned
  cases hturned with
  | peekFault hp =>
    rw [hp] at hpeek
    exact .cut hpeek
  | readFault hp hne hq hr =>
    obtain ⟨c, s'', -, hread, -⟩ := hsrc.read_peeked hbalanced.consumed hp hne
    cases hr.symm.trans hread
  | consumed =>
    obtain ⟨hbalanced', -, hconfig⟩ := hkeeps
    exact ⟨congrArg Config.countsNewlines hconfig, hd, _, hbalanced'⟩
  | emitted hp ht hshow =>
    have hconsumed := hbalanced.consumed
    rw [← text_of_open? ht] at hconsumed
    exact .emitted hconsumed hp (hbalanced.position_of_open? ht)
  | hidden =>
    obtain ⟨hbalanced', -, hconfig⟩ := hkeeps
    exact ⟨congrArg Config.countsNewlines hconfig, hd, _, hbalanced'⟩
  | hiddenAtEnd hp => exact .ended hbalanced.consumed hp
  | ended hp => exact .ended hbalanced.consumed hp
  | failed hp hne => exact .failed hbalanced.consumed hp hne hbalanced.position

theorem Underway.advance (hsrc : src.Accounts Consumed) (h : Underway Consumed counts lx s)
    (fuel : Nat) : (lx.advance src fuel s).Halts src Consumed counts := by
  rw [advance_eq_scan src h.2.1]
  refine scan_leads (fun _ _ h => h.turn hsrc) ?_ fuel h
  rintro lx s ⟨-, -, finalized, hbalanced⟩
  exact .cut hbalanced.consumed

theorem Underway.next (hsrc : src.Accounts Consumed) (h : Underway Consumed counts lx s)
    {fuel : Nat} (hd : (lx.advance src fuel s).lexer.done = false) :
    Underway Consumed counts (lx.advance src fuel s).lexer (lx.advance src fuel s).source := by
  obtain ⟨rfl, -, finalized, hbalanced⟩ := h
  have hkeeps := hbalanced.advance hsrc hd
  exact ⟨congrArg Config.countsNewlines hkeeps.config, hd, _, hkeeps.balanced⟩

end Lexer

/-- What a stream answers that has a text to deliver: its characters one by one, and then the
end. -/
def TextStream.answers (text : List Char) : List (Except ε String) :=
  text.map (fun c => .ok (String.singleton c)) ++ [.ok ""]

namespace Buffered

open TextStream

variable {str : TextStream τ ε} {Holds : τ → List Char → Prop} {text w : List Char}
  {b : Buffered (Watched τ ε)}

/-- A source over a stream, where `w` of its text was consumed: the stream was asked for that much,
or else for one answer more, which is kept. -/
inductive Foresees (Holds : τ → List Char → Prop) (text w : List Char) :
    Buffered (Watched τ ε) → Prop
  | unread {t : τ} {rest : List Char} {closings : List (Except ε Unit)} {owns : Bool}
      (h : Holds t rest) (ht : w ++ rest = text) :
      Foresees Holds text w ⟨⟨t, (answers text).take w.length, closings⟩, none, false, owns⟩
  | ahead {t : τ} {c : Char} {rest : List Char} {closings : List (Except ε Unit)} {owns : Bool}
      (h : Holds t rest) (ht : w ++ c :: rest = text) :
      Foresees Holds text w ⟨⟨t, (answers text).take (w.length + 1), closings⟩,
        some (String.singleton c), false, owns⟩
  | ended {t : τ} {closings : List (Except ε Unit)} {owns : Bool} (ht : w = text) :
      Foresees Holds text w
        ⟨⟨t, (answers text).take (w.length + 1), closings⟩, some "", false, owns⟩

theorem take_answers_succ_of_cons {c : Char} {rest : List Char} (ht : w ++ c :: rest = text) :
    (answers text : List (Except ε String)).take (w.length + 1) =
      (answers text).take w.length ++ [.ok (String.singleton c)] := by
  subst ht
  simp [answers, List.take_add_one]

theorem take_answers_succ_of_eq (ht : w = text) :
    (answers text : List (Except ε String)).take (w.length + 1) =
      (answers text).take w.length ++ [.ok ""] := by
  subst ht
  simp [answers, List.take_add_one]

/-- To look ahead asks the stream once at most, and then the answer is kept. -/
theorem Foresees.peek (hstr : str.Delivers Holds) (h : Foresees Holds text w b) :
    ∃ ahead b', b.peek str.watched = (.ok ahead, b') ∧ b'.lookahead = some ahead ∧
      Foresees Holds text w b' := by
  cases h with
  | @unread t rest closings owns h ht =>
    let asked : List (Except ε String) := (answers text).take (w.length + 1)
    cases rest with
    | nil =>
      obtain ⟨t', hread⟩ := hstr.readOne_nil h
      have hw : w = text := by rw [← ht, List.append_nil]
      have hpeek : Buffered.peek str.watched ⟨⟨t, (answers text).take w.length, closings⟩, none,
          false, owns⟩ = (.ok "", ⟨⟨t', asked, closings⟩, some "", false, owns⟩) := by
        simp only [Buffered.peek, TextStream.watched, hread, asked, take_answers_succ_of_eq hw]
      exact ⟨_, _, hpeek, rfl, .ended hw⟩
    | cons c rest =>
      obtain ⟨t', hread, h'⟩ := hstr.readOne_cons h
      have hpeek : Buffered.peek str.watched ⟨⟨t, (answers text).take w.length, closings⟩, none,
          false, owns⟩ = (.ok (String.singleton c),
            ⟨⟨t', asked, closings⟩, some (String.singleton c), false, owns⟩) := by
        simp only [Buffered.peek, TextStream.watched, hread, asked, take_answers_succ_of_cons ht]
      exact ⟨_, _, hpeek, rfl, .ahead h' ht⟩
  | ahead h ht => exact ⟨_, _, rfl, rfl, .ahead h ht⟩
  | ended ht => exact ⟨_, _, rfl, rfl, .ended ht⟩

theorem Foresees.read (str : TextStream τ ε) (h : Foresees Holds text w b) {ahead : String}
    (hahead : b.lookahead = some ahead) (hne : ahead ≠ "") :
    ∃ c rest b', ahead = String.singleton c ∧ w ++ c :: rest = text ∧
      b.read str.watched = (.ok ahead, b') ∧ Foresees Holds text (w ++ [c]) b' := by
  cases h with
  | unread => cases hahead
  | ended =>
    cases hahead
    exact absurd rfl hne
  | @ahead t c rest closings owns h ht =>
    cases hahead
    have hread : Buffered.read str.watched ⟨⟨t, (answers text).take (w.length + 1), closings⟩,
        some (String.singleton c), false, owns⟩ =
          (.ok (String.singleton c),
            ⟨⟨t, (answers text).take (w ++ [c]).length, closings⟩, none, false, owns⟩) := by
      simp [Buffered.read, Buffered.peek, hne]
    have ht' : w ++ [c] ++ rest = text := by rw [List.append_assoc]; exact ht
    exact ⟨c, rest, _, rfl, ht, hread, .unread h ht'⟩

theorem Foresees.isPrefix (h : Foresees Holds text w b) :
    w <+: text ∧ b.stream.readings <+: answers text := by
  cases h with
  | unread h ht => exact ⟨⟨_, ht⟩, List.take_prefix _ _⟩
  | ahead h ht => exact ⟨⟨_, ht⟩, List.take_prefix _ _⟩
  | ended ht => exact ⟨⟨[], by rw [List.append_nil, ht]⟩, List.take_prefix _ _⟩

theorem Foresees.readings_eq (h : Foresees Holds text w b) {ahead : String}
    (hahead : b.lookahead = some ahead) :
    b.stream.readings = (answers text).take (w.length + 1) := by
  cases h with
  | unread => cases hahead
  | ahead => rfl
  | ended => rfl

theorem close_readings (str : TextStream τ ε) (b : Buffered (Watched τ ε)) :
    (b.close str.watched).2.stream.readings = b.stream.readings := by
  unfold close
  split
  · rfl
  · dsimp only
    split
    · rfl
    · rfl

/-- What was consumed, where the source is recorded. -/
def Consumed (Holds : τ → List Char → Prop) (text : List Char)
    (r : Recorded (Buffered (Watched τ ε))) (w : List Char) : Prop :=
  r.taken = w ∧ Foresees Holds text w r.source

theorem accounts (hstr : str.Delivers Holds) (text : List Char) :
    (source str.watched).recorded.Accounts (Consumed Holds text) where
  peek_keeps {r w} h := by
    obtain ⟨ahead, b', hpeek, -, h'⟩ := h.2.peek hstr
    have hsource : ((source str.watched).recorded.peek r).2.source = b' := congrArg Prod.snd hpeek
    rw [← hsource] at h'
    exact ⟨h.1, h'⟩
  read_peeked {r r' w ahead} h hp hne := by
    obtain ⟨ahead', b', hpeek, hahead, h'⟩ := h.2.peek hstr
    have hpeek' : (source str.watched).recorded.peek r = (.ok ahead', { r with source := b' }) := by
      simp only [CharSource.recorded, source, hpeek]
    cases hpeek'.symm.trans hp
    obtain ⟨c, rest, b'', hc, -, hread, h''⟩ := h'.read str hahead hne
    have hread' : (source str.watched).recorded.read { r with source := b' } =
        (.ok ahead, ⟨b'', r.taken ++ [c]⟩) := by
      simp [CharSource.recorded, source, hread, CharSource.takenBy, hc]
    exact ⟨c, _, hc, hread', by rw [← h.1], h''⟩

end Buffered

namespace Lexer

open TextStream

variable {str : TextStream τ ε} {Holds : τ → List Char → Prop} {text : List Char} {counts : Bool}
  {lx : Lexer} {r : Recorded (Buffered (Watched τ ε))}

/-- An outcome that tells a token or a character was given with one answer of the stream more than
was consumed. The token stands at the end of what was consumed, and the character behind it. -/
def Outcome.OneAhead (counts : Bool) (text taken : List Char) (readings : List (Except ε String)) :
    Outcome → Prop
  | .emitted t => readings = (answers text).take (taken.length + 1) ∧
      ∃ before, before ++ t.text.toList = taken ∧ t.position = .behind counts before
  | .failed e => readings = (answers text).take (taken.length + 1) ∧
      e.position = .behind counts taken ∧
      ∃ c rest, taken ++ c :: rest = text ∧ e.character = String.singleton c
  | .finished => True

/-- What a pull or another call leaves, if it has the outcome given: what was consumed is a front
part of the text, and what the stream was asked for is a front part of its answers. -/
structure Leaves (counts : Bool) (text : List Char) (o : Option Outcome)
    (r : Recorded (Buffered (Watched τ ε))) : Prop where
  taken : r.taken <+: text
  readings : r.source.stream.readings <+: answers text
  oneAhead : ∀ o' ∈ o, o'.OneAhead counts text r.taken r.source.stream.readings

theorem Leaves.of_consumed {w : List Char} (h : Buffered.Consumed Holds text r w) :
    Leaves counts text none r := by
  obtain ⟨rfl, h⟩ := h
  exact ⟨h.isPrefix.1, h.isPrefix.2, nofun⟩

/-- A look ahead leaves the stream asked for one answer more than was consumed. -/
theorem Leaves.of_peek (counts : Bool) (hstr : str.Delivers Holds) {w : List Char} {ahead : String}
    {r' : Recorded (Buffered (Watched τ ε))} (h : Buffered.Consumed Holds text r w)
    (hp : (Buffered.source str.watched).recorded.peek r = (.ok ahead, r')) :
    Leaves counts text none r' ∧ r'.taken = w ∧
      r'.source.stream.readings = (answers text).take (w.length + 1) ∧
      (ahead ≠ "" → ∃ c rest, w ++ c :: rest = text ∧ ahead = String.singleton c) := by
  obtain ⟨rfl, h⟩ := h
  obtain ⟨ahead', b', hpeek, hahead, h'⟩ := h.peek hstr
  have hpeek' : (Buffered.source str.watched).recorded.peek r =
      (.ok ahead', { r with source := b' }) := by
    simp only [CharSource.recorded, Buffered.source, hpeek]
  cases hpeek'.symm.trans hp
  refine ⟨.of_consumed ⟨rfl, h'⟩, rfl, h'.readings_eq hahead, ?_⟩
  intro hne
  obtain ⟨c, rest, -, hc, htext, -, -⟩ := h'.read str hahead hne
  exact ⟨c, rest, htext, hc⟩

theorem eq_ok_of_mem_toOption {α : Type} {result : Except ε α} {a : α}
    (h : a ∈ result.toOption) : result = .ok a := by
  cases result with
  | error e => cases h
  | ok b =>
    cases h
    rfl

/-- The stream is not asked when it is closed. -/
theorem Leaves.conclude (str : TextStream τ ε) (h : Leaves counts text none r) {o : Outcome}
    (ho : o.OneAhead counts text r.taken r.source.stream.readings) (event : Event) :
    let pull := lx.conclude (Buffered.source str.watched).recorded r o event
    Leaves counts text pull.outcome.toOption pull.source := by
  intro pull
  have hpull : pull = _ := conclude_eq (Buffered.source str.watched).recorded lx r o event
  have hreadings : pull.source.source.stream.readings = r.source.stream.readings := by
    rw [hpull]
    exact Buffered.close_readings str r.source
  have htaken : pull.source.taken = r.taken := by
    rw [hpull]
    rfl
  constructor
  · rw [htaken]
    exact h.taken
  · rw [hreadings]
    exact h.readings
  · intro o' ho'
    rw [hreadings, htaken]
    have houtcome : pull.outcome = .ok o' := eq_ok_of_mem_toOption ho'
    rw [outcome_of_conclude houtcome]
    exact ho

theorem Pull.Halts.leaves (hstr : str.Delivers Holds)
    {pull : Pull (Recorded (Buffered (Watched τ ε))) ε}
    (h : pull.Halts (Buffered.source str.watched).recorded (Buffered.Consumed Holds text) counts) :
    Leaves counts text pull.outcome.toOption pull.source := by
  cases h with
  | cut hs => exact .of_consumed hs
  | emitted hs hp ht =>
    obtain ⟨hleaves, htaken, hreadings, -⟩ := Leaves.of_peek counts hstr hs hp
    refine ⟨hleaves.taken, hleaves.readings, ?_⟩
    intro o ho
    cases ho
    rw [htaken]
    exact ⟨hreadings, _, rfl, ht⟩
  | ended hs hp =>
    obtain ⟨hleaves, -⟩ := Leaves.of_peek counts hstr hs hp
    exact hleaves.conclude str (o := .finished) trivial _
  | failed hs hp hne he =>
    obtain ⟨hleaves, htaken, hreadings, hahead⟩ := Leaves.of_peek counts hstr hs hp
    refine hleaves.conclude str ?_ _
    rw [htaken]
    exact ⟨hreadings, he, hahead hne⟩

theorem Leaves.forget {o : Option Outcome} (h : Leaves counts text o r) :
    Leaves counts text none r :=
  ⟨h.taken, h.readings, nofun⟩

/-- Between two calls, at the end of the sequence as well. -/
structure Attends (Holds : τ → List Char → Prop) (counts : Bool) (text : List Char) (lx : Lexer)
    (r : Recorded (Buffered (Watched τ ε))) : Prop where
  underway (hd : lx.done = false) : Underway (Buffered.Consumed Holds text) counts lx r
  leaves : Leaves counts text none r

theorem Attends.advance (hstr : str.Delivers Holds) (h : Attends Holds counts text lx r)
    (fuel : Nat) :
    let pull := lx.advance (Buffered.source str.watched).recorded fuel r
    Attends Holds counts text pull.lexer pull.source ∧
      Leaves counts text pull.outcome.toOption pull.source := by
  intro pull
  cases hd : lx.done with
  | true =>
    have hpull : pull = ⟨.ok .finished, lx, r, []⟩ := advance_eq_finished _ hd fuel r
    have hfinished : ∀ o ∈ some Outcome.finished,
        o.OneAhead counts text r.taken r.source.stream.readings := by
      intro o ho
      cases ho
      trivial
    rw [hpull]
    exact ⟨h, h.leaves.taken, h.leaves.readings, hfinished⟩
  | false =>
    have hsrc := Buffered.accounts hstr text
    have hunderway := h.underway hd
    have hleaves : Leaves counts text pull.outcome.toOption pull.source :=
      (hunderway.advance hsrc fuel).leaves hstr
    exact ⟨⟨hunderway.next hsrc, hleaves.forget⟩, hleaves⟩

theorem Attends.call (hstr : str.Delivers Holds) (h : Attends Holds counts text lx r) (fuel : Nat)
    (c : Call) :
    let response := lx.call (Buffered.source str.watched).recorded fuel r c
    Attends Holds counts text response.lexer response.source ∧
      Leaves counts text response.outcome? response.source := by
  have hpull := h.advance hstr fuel
  have hclose :
      let response := lx.call (Buffered.source str.watched).recorded fuel r .close
      Attends Holds counts text response.lexer response.source ∧
        Leaves counts text response.outcome? response.source := by
    intro response
    obtain ⟨result, hresponse, hnone⟩ : ∃ result,
        response = ⟨result, { lx with done := true }, _, []⟩ ∧ response.outcome? = none :=
      call_close (Buffered.source str.watched).recorded fuel lx r
    have hreadings : response.source.source.stream.readings = r.source.stream.readings := by
      rw [hresponse]
      exact Buffered.close_readings str r.source
    have hleaves : Leaves counts text none response.source := by
      constructor
      · rw [hresponse]
        exact h.leaves.taken
      · rw [hreadings]
        exact h.leaves.readings
      · exact nofun
    have hdone : response.lexer.done = true := by rw [hresponse]
    refine ⟨⟨?_, hleaves⟩, ?_⟩
    · intro hd
      cases hdone.symm.trans hd
    · rw [hnone]
      exact hleaves
  cases c with
  | advance =>
    refine ⟨hpull.1, ?_⟩
    rw [Lexer.call, outcome?_report]
    exact hpull.2
  | next =>
    refine ⟨hpull.1, ?_⟩
    rw [Lexer.call, outcome?_item]
    exact hpull.2
  | enter => exact ⟨h, h.leaves⟩
  | close => exact hclose
  | exit => exact hclose

theorem Attends.new {t : τ} (ht : Holds t text) (owns : Bool) (label : String)
    (sourceName : Option String) (config : Config) :
    Attends (ε := ε) Holds config.countsNewlines text (create label sourceName config).1
      ⟨{ stream := { stream := t }, ownsStream := owns }, []⟩ := by
  have hconsumed : Buffered.Consumed (ε := ε) Holds text
      ⟨{ stream := { stream := t }, ownsStream := owns }, []⟩ [] := ⟨rfl, .unread ht rfl⟩
  exact ⟨fun _ => ⟨rfl, rfl, [], .new hconsumed label sourceName config⟩, .of_consumed hconsumed⟩

/-- Whatever calls are made on a lexer over a stream that delivers a text, the stream answers with
characters of the text, one by one, and then with the end, once at most. When a token is emitted,
the stream was asked for all up to the end of the token and for one answer behind it; when an error
is told, for all up to the character that it is about. That the calls are recorded changes
nothing. -/
theorem exchanges_readAhead (hstr : str.Delivers Holds) {t : τ} {text : String}
    (ht : Holds t text.toList) (owns : Bool) (sourceName : Option String) (config : Config)
    (calls : List (Nat × Call)) :
    let counts := config.countsNewlines
    let lx := (create Buffered.label sourceName config).1
    let answers : List (Except ε String) := TextStream.answers text.toList
    let run := lx.exchanges (Buffered.source str.watched).recorded calls
      ⟨{ stream := { stream := t }, ownsStream := owns }, []⟩
    run.map Exchange.seen =
        (lx.exchanges (Buffered.source str) calls { stream := t, ownsStream := owns }).map
          Exchange.seen ∧
      ∀ x ∈ run,
        let taken := x.response.source.taken
        let readings := x.response.source.source.stream.readings
        taken <+: text.toList ∧ readings <+: answers ∧
        (∀ token, x.response.outcome? = some (.emitted token) →
          readings = answers.take (taken.length + 1) ∧
          ∃ before, before ++ token.text.toList = taken ∧ token.position = .behind counts before) ∧
        ∀ e, x.response.outcome? = some (.failed e) →
          readings = answers.take (taken.length + 1) ∧ e.position = .behind counts taken ∧
          ∃ c rest, taken ++ c :: rest = text.toList ∧ e.character = String.singleton c := by
  intro counts lx answers run
  refine ⟨?_, ?_⟩
  · exact (exchanges_simulates (Buffered.source str.watched).recorded_simulates calls lx rfl).trans
      (exchanges_simulates (Buffered.watched_simulates str) calls lx rfl)
  · intro x hx taken readings
    have hleaves : Leaves counts text.toList x.response.outcome? x.response.source :=
      (exchanges_invariant (I := Attends Holds counts text.toList)
        (P := fun x => Leaves counts text.toList x.response.outcome? x.response.source)
        (fun _ _ h => h.call hstr) (.new ht owns Buffered.label sourceName config) calls x hx).2
    exact ⟨hleaves.taken, hleaves.readings, fun _ => hleaves.oneAhead _,
      fun _ => hleaves.oneAhead _⟩

/-- The second token ends where the text does, behind a blank that is not shown. The end was looked
at for it, and is not looked at again. -/
theorem token_at_end_read_ahead :
    let text := "a 1"
    let p : PieceStream := ⟨["a", " ", "1"]⟩
    let Holds := fun (p : PieceStream) (w : List Char) => p.pieces = w.map String.singleton
    let run := (create Buffered.label none {}).1.exchanges
      (Buffered.source PieceStream.stream.watched).recorded
      [(9, .advance), (9, .advance), (9, .next)] ⟨{ stream := { stream := p } }, []⟩
    PieceStream.stream.Delivers Holds ∧ Holds p text.toList ∧
      (run.map fun x => x.response.source.source.stream.readings.length) = [2, 4, 4] ∧
      ∃ x ∈ run, ∃ token, x.response.outcome? = some (.emitted token) ∧ token.text = "1" ∧
        x.response.source.taken = text.toList ∧
        x.response.source.source.stream.readings =
          (TextStream.answers text.toList).take (text.toList.length + 1) := by
  intro text p Holds run
  have hholds : Holds p text.toList := by decide
  have hreadings :
      (run.map fun x => x.response.source.source.stream.readings.length) = [2, 4, 4] := by
    decide
  have houtcome : run[1]?.map (·.response.outcome?) =
      some (some (.emitted { kind := .real, text := "1", position := ⟨1, 3⟩ })) := by
    unfold run p
    rfl
  have hsecond : run[1]?.map (·.response.source.taken) = some text.toList := by decide
  obtain ⟨x, hget, ho⟩ := Option.map_eq_some_iff.1 houtcome
  rw [hget] at hsecond
  have htaken : x.response.source.taken = text.toList := Option.some.inj hsecond
  have hx : x ∈ run := List.mem_of_getElem? hget
  obtain ⟨-, hall⟩ := exchanges_readAhead PieceStream.delivers hholds true none {} _
  obtain ⟨-, -, hemitted, -⟩ := hall x hx
  have hahead := (hemitted _ ho).1
  rw [htaken] at hahead
  exact ⟨PieceStream.delivers, hholds, hreadings, x, hx, _, ho, rfl, htaken, hahead⟩

end Lexer

end FormulaLex
