import FormulaLex.Proofs.Conservation
import FormulaLex.Proofs.Exchange
import FormulaLex.Proofs.Recording
import FormulaLex.Source.Text

/-!
Every place that a lexer tells is the place behind what was consumed: that of a token behind the
characters in front of it, that of an error and the lexer's own behind all. So the rows and columns
of tokens lead back to their texts, and go up from token to token.
-/
namespace FormulaLex

variable {ε : Type}

theorem Kind.Contains.newline_notMem {k : Kind} {w : List Char} (h : k.Contains w)
    (hk : k ≠ .whitespace) : '\n' ∉ w := by
  intro hmem
  cases List.all_eq_true.1 (h.not_isBlank hk) '\n' hmem

/-- The token's text stands in the whole text behind `before`, and the token says so. -/
structure Token.IsAt (countNewlines : Bool) (text before : List Char) (t : Token) : Prop where
  isPrefix : before ++ t.text.toList <+: text
  position : t.position = .behind countNewlines before
  contains : t.kind.Contains t.text.toList

theorem Token.IsAt.precedes {countNewlines : Bool} {text before before' : List Char} {t t' : Token}
    (h : t.IsAt countNewlines text before) (h' : t'.IsAt countNewlines text before')
    (hle : before ++ t.text.toList <+: before') : t.position.Precedes t'.position := by
  obtain ⟨between, rfl⟩ := hle
  rw [h.position, h'.position, List.append_assoc]
  have hne : t.text.toList ++ between ≠ [] := by
    intro hnil
    exact h.contains.ne_nil (List.append_eq_nil_iff.1 hnil).1
  exact Position.behind_precedes countNewlines before hne

theorem TextSource.exists_of_peek_ne {s : TextSource} (h : s.peek ≠ "") :
    ∃ c rest, s.rest = c :: rest ∧ s.peek = String.singleton c := by
  cases hrest : s.rest with
  | nil => simp [TextSource.peek, hrest] at h
  | cons c rest => exact ⟨c, rest, rfl, by simp only [TextSource.peek, hrest]⟩

namespace Recorded

/-- What was read, and what is left, make up the text. -/
def Divides (text : List Char) (r : Recorded TextSource) (w : List Char) : Prop :=
  r.taken = w ∧ w ++ r.source.rest = text

theorem accounts (text : List Char) :
    (TextSource.source (ε := ε)).recorded.Accounts (Divides text) where
  peek_keeps h := h
  read_peeked {r r' w ahead} h hp hne := by
    cases hp
    obtain ⟨rfl, htext⟩ := h
    obtain ⟨c, rest, hrest, hc⟩ := TextSource.exists_of_peek_ne hne
    refine ⟨c, ⟨{ r.source with rest }, r.taken ++ [c]⟩, hc, ?_, rfl, ?_⟩
    · simp [CharSource.recorded, CharSource.takenBy, TextSource.source, TextSource.read, hrest, hc]
    · rw [← htext, hrest]
      simp

end Recorded

namespace Lexer

variable {text floor : List Char} {lx : Lexer} {r : Recorded TextSource}

/-- The places that an outcome tells are true, where `taken` was read of the text. A token starts
behind `floor`. -/
def Outcome.Located (countNewlines : Bool) (text floor taken : List Char) : Outcome → Prop
  | .emitted t => ∃ before, floor <+: before ∧ before ++ t.text.toList = taken ∧
      t.IsAt countNewlines text before
  | .failed e => e.position = .behind countNewlines taken ∧
      ∃ c rest, taken ++ c :: rest = text ∧ e.character = String.singleton c
  | .finished => True

/-- How far the emitted tokens reach: up to the last character read, if one was just emitted. -/
def floorBehind (floor taken : List Char) : Option Outcome → List Char
  | some (.emitted _) => taken
  | _ => floor

/-- Where a lexer stands in a text of which tokens up to `floor` were emitted. -/
structure Standing (text floor : List Char) (lx : Lexer) (r : Recorded TextSource) : Prop where
  isPrefix : r.taken <+: text
  position : lx.position = .behind lx.config.countsNewlines r.taken
  going : lx.done = false → ∃ finalized, floor <+: spelled finalized ∧
    Balanced (Recorded.Divides text) finalized lx r

/-- What a pull or another call comes to, if it has the outcome given. -/
structure Arrives (text floor : List Char) (config : Config) (o : Option Outcome) (lx : Lexer)
    (r : Recorded TextSource) : Prop where
  config_eq : lx.config = config
  located : ∀ o' ∈ o, o'.Located config.countsNewlines text floor r.taken
  standing : Standing text (floorBehind floor r.taken o) lx r

def Pull.Arrives (text floor : List Char) (config : Config) (pull : Pull (Recorded TextSource) ε) :
    Prop :=
  Lexer.Arrives text floor config pull.outcome.toOption pull.lexer pull.source

def Response.Arrives (text floor : List Char) (config : Config)
    (response : Response (Recorded TextSource) ε) : Prop :=
  Lexer.Arrives text floor config response.outcome? response.lexer response.source

theorem Balanced.standing {finalized : List Token}
    (h : Balanced (Recorded.Divides text) finalized lx r) (hfloor : floor <+: spelled finalized) :
    Standing text floor lx r where
  isPrefix := by
    rw [h.consumed.1]
    exact ⟨_, h.consumed.2⟩
  position := by
    rw [h.consumed.1]
    exact h.position
  going _ := ⟨finalized, hfloor, h⟩

theorem Balanced.isAt {finalized : List Token} {t : Token}
    (h : Balanced (Recorded.Divides text) finalized lx r) (ht : lx.open? = some t) :
    spelled finalized ++ t.text.toList = r.taken ∧
      t.IsAt lx.config.countsNewlines text (spelled finalized) := by
  have htaken : spelled finalized ++ t.text.toList = r.taken := by
    rw [text_of_open? ht]
    exact h.consumed.1.symm
  refine ⟨htaken, ?_, h.position_of_open? ht, h.pending.contains ht⟩
  rw [htaken, h.consumed.1]
  exact ⟨_, h.consumed.2⟩

theorem Standing.conclude (h : Standing text floor lx r) {lx' : Lexer} {o : Outcome}
    (hconfig : lx'.config = lx.config) (hposition : lx'.position = lx.position)
    (ho : o.Located lx.config.countsNewlines text floor r.taken) (hquiet : ∀ t, o ≠ .emitted t)
    (event : Event) :
    (lx'.conclude (TextSource.source (ε := ε)).recorded r o event).Arrives text floor lx.config where
  config_eq := hconfig
  located := by
    intro o' ho'
    cases ho'
    exact ho
  standing := by
    have hfloor : floorBehind floor r.taken (some o) = floor := by
      cases o with
      | emitted t => exact absurd rfl (hquiet t)
      | failed => rfl
      | finished => rfl
    change Standing text (floorBehind floor r.taken (some o)) _ _
    rw [hfloor]
    refine ⟨h.isPrefix, ?_, ?_⟩
    · change lx'.position = .behind lx'.config.countsNewlines r.taken
      rw [hposition, hconfig]
      exact h.position
    · intro hd
      cases hd

theorem Standing.exhaust (h : Standing text floor lx r) {lx' : Lexer}
    (hconfig : lx'.config = lx.config) (hposition : lx'.position = lx.position) :
    (lx'.exhaust (TextSource.source (ε := ε)).recorded r).Arrives text floor lx.config := by
  apply h.conclude
  · exact hconfig
  · exact hposition
  · trivial
  · exact Outcome.finished_ne_emitted

theorem Standing.fail (h : Standing text floor lx r) {c : Char} {rest : List Char}
    (htext : r.taken ++ c :: rest = text) {ahead : String} (hc : ahead = String.singleton c) :
    (lx.fail (TextSource.source (ε := ε)).recorded r ahead).Arrives text floor lx.config := by
  apply h.conclude
  · rfl
  · rfl
  · exact ⟨h.position, c, rest, htext, hc⟩
  · exact Outcome.failed_ne_emitted _

theorem Standing.turn (h : Standing text floor lx r) (hd : lx.done = false) :
    (lx.turn (TextSource.source (ε := ε)).recorded r).Leads
      (fun lx' r' => lx'.config = lx.config ∧ lx'.done = false ∧ Standing text floor lx' r')
      (Pull.Arrives text floor lx.config) := by
  obtain ⟨finalized, hfloor, hbalanced⟩ := h.going hd
  have hkeeps := hbalanced.turn (Recorded.accounts (ε := ε) text)
  have hturned := turn_turned (TextSource.source (ε := ε)).recorded lx r
  generalize lx.turn (TextSource.source (ε := ε)).recorded r = turn at hkeeps hturned
  generalize lx.turnFinalizes (TextSource.source (ε := ε)).recorded r = ts at hkeeps hturned
  cases hturned with
  | peekFault hp => cases hp
  | readFault hp hne hq hr => cases hr
  | consumed hp hne hq hr =>
    obtain ⟨hbalanced', -, hconfig⟩ := hkeeps
    rw [List.append_nil] at hbalanced'
    exact ⟨hconfig, hd, hbalanced'.standing hfloor⟩
  | @emitted ahead t s' hp ht hshow =>
    cases hp
    -- All that was read is spelled by finalized tokens now, so the floor may rise to it.
    obtain ⟨htaken, hat⟩ := hbalanced.isAt ht
    have hbalanced' := (hkeeps hd).balanced
    have hspelled : spelled (finalized ++ [t]) = r.taken := by rw [spelled_concat, htaken]
    have hfloor' : r.taken <+: spelled (finalized ++ [t]) := ⟨[], by rw [hspelled, List.append_nil]⟩
    constructor
    · rfl
    · intro o ho
      cases ho
      exact ⟨spelled finalized, hfloor, htaken, hat⟩
    · exact hbalanced'.standing hfloor'
  | @hidden ahead t s' hp ht hshow =>
    obtain ⟨hbalanced', -, hconfig⟩ := hkeeps
    have hfloor' : floor <+: spelled (finalized ++ [t]) := by
      rw [spelled_concat]
      exact hfloor.trans (List.prefix_append _ _)
    exact ⟨hconfig, hd, hbalanced'.standing hfloor'⟩
  | hiddenAtEnd hp ht hshow =>
    cases congrArg Prod.snd hp
    exact h.exhaust rfl rfl
  | ended hp =>
    cases congrArg Prod.snd hp
    exact h.exhaust rfl rfl
  | failed hp hne hq =>
    cases hp
    obtain ⟨c, rest, hrest, hc⟩ := TextSource.exists_of_peek_ne hne
    have htext : r.taken ++ c :: rest = text := by
      rw [hbalanced.consumed.1, ← hrest]
      exact hbalanced.consumed.2
    exact h.fail htext hc

theorem Standing.scan (h : Standing text floor lx r) (hd : lx.done = false) (fuel : Nat) :
    (lx.scan (TextSource.source (ε := ε)).recorded fuel r).Arrives text floor lx.config := by
  refine scan_leads
    (I := fun lx' r' => lx'.config = lx.config ∧ lx'.done = false ∧ Standing text floor lx' r')
    ?_ ?_ fuel ⟨rfl, hd, h⟩
  · rintro lx' r' ⟨hconfig, hd', h'⟩
    have hturn := h'.turn (ε := ε) hd'
    rw [hconfig] at hturn
    exact hturn
  · rintro lx' r' ⟨hconfig, -, h'⟩
    exact ⟨hconfig, nofun, h'⟩

theorem Standing.advance (h : Standing text floor lx r) (fuel : Nat) :
    (lx.advance (TextSource.source (ε := ε)).recorded fuel r).Arrives text floor lx.config := by
  cases hd : lx.done with
  | false =>
    rw [advance_eq_scan _ hd]
    exact h.scan hd fuel
  | true =>
    have hlocated : ∀ o ∈ some Outcome.finished,
        o.Located lx.config.countsNewlines text floor r.taken := by
      intro o ho
      cases ho
      trivial
    rw [advance_eq_finished _ hd]
    exact ⟨rfl, hlocated, h⟩

theorem Standing.call (h : Standing text floor lx r) (fuel : Nat) (c : Call) :
    (lx.call (TextSource.source (ε := ε)).recorded fuel r c).Arrives text floor lx.config := by
  have hpull := h.advance (ε := ε) fuel
  have hclose : (lx.call (TextSource.source (ε := ε)).recorded fuel r .close).Arrives text floor
      lx.config := by
    refine ⟨rfl, nofun, h.isPrefix, h.position, ?_⟩
    intro hd
    cases hd
  cases c with
  | advance =>
    rw [Pull.Arrives, ← outcome?_report] at hpull
    exact hpull
  | next =>
    rw [Pull.Arrives, ← outcome?_item] at hpull
    exact hpull
  | enter => exact ⟨rfl, nofun, h⟩
  | close => exact hclose
  | exit => exact hclose

/-- The token that a call brought, if it brought one. -/
def Exchange.token? {σ : Type} (x : Exchange σ ε) : Option Token :=
  match x.response.outcome? with
  | some (.emitted t) => some t
  | _ => none

theorem Standing.exchanges (h : Standing text floor lx r) (calls : List (Nat × Call)) :
    ∀ x ∈ lx.exchanges (TextSource.source (ε := ε)).recorded calls r,
      ∃ floor', x.response.Arrives text floor' lx.config := by
  intro x hx
  refine (exchanges_invariant
    (I := fun lx' r' => lx'.config = lx.config ∧ ∃ floor', Standing text floor' lx' r')
    (P := fun x => ∃ floor', x.response.Arrives text floor' lx.config)
    ?_ ⟨rfl, floor, h⟩ calls x hx).2
  rintro lx' r' ⟨hconfig, floor', h'⟩ fuel c
  have harrives := h'.call (ε := ε) fuel c
  rw [hconfig] at harrives
  exact ⟨⟨harrives.config_eq, _, harrives.standing⟩, floor', harrives⟩

/-- The tokens of a run stand in the text one behind the other. -/
theorem Standing.tokens (h : Standing text floor lx r) (calls : List (Nat × Call)) :
    let tokens := (lx.exchanges (TextSource.source (ε := ε)).recorded calls r).filterMap
      Exchange.token?
    (∀ t ∈ tokens, ∃ before, floor <+: before ∧ t.IsAt lx.config.countsNewlines text before) ∧
      tokens.Pairwise fun t t' => t.position.Precedes t'.position := by
  induction calls generalizing floor lx r with
  | nil => exact ⟨nofun, .nil⟩
  | cons fc calls ih =>
    obtain ⟨fuel, c⟩ := fc
    obtain ⟨hconfig, hlocated, hstanding⟩ := h.call (ε := ε) fuel c
    obtain ⟨hat, hpairwise⟩ := ih hstanding
    rw [hconfig] at hat
    simp only [Lexer.exchanges, List.filterMap_cons, Exchange.token?]
    cases ho : (lx.call (TextSource.source (ε := ε)).recorded fuel r c).outcome? with
    | none =>
      rw [ho] at hat
      exact ⟨hat, hpairwise⟩
    | some o =>
      rw [ho] at hat hlocated
      cases o with
      | failed => exact ⟨hat, hpairwise⟩
      | finished => exact ⟨hat, hpairwise⟩
      | emitted t =>
        obtain ⟨before, hbefore, htaken, ht⟩ := hlocated _ rfl
        refine ⟨List.forall_mem_cons.2 ⟨⟨before, hbefore, ht⟩, ?_⟩, .cons ?_ hpairwise⟩
        · intro t' ht'
          obtain ⟨before', hle, hat'⟩ := hat t' ht'
          have hlonger : before <+: before' := by
            rw [floorBehind, ← htaken] at hle
            exact (List.prefix_append _ _).trans hle
          exact ⟨before', hbefore.trans hlonger, hat'⟩
        · intro t' ht'
          obtain ⟨before', hle, hat'⟩ := hat t' ht'
          rw [floorBehind, ← htaken] at hle
          exact ht.precedes hat' hle

theorem Standing.new (sourceName : Option String) (config : Config) (text : String) :
    Standing text.toList [] (create (TextSource.source (ε := ε)).label sourceName config).1
      ⟨.ofString text, []⟩ := by
  have hdivides : Recorded.Divides text.toList ⟨.ofString text, []⟩ [] := ⟨rfl, rfl⟩
  exact (Balanced.new hdivides _ sourceName config).standing List.nil_prefix

/-- Whatever calls are made on a new lexer: its place, and that of an error, is the one behind the
characters read so far, and the place of a token is the one behind the characters in front of it. So
places go up from token to token; and if newlines are counted, a token's text stands in the row and
from the column on that it tells. That the reading is recorded changes nothing. -/
theorem exchanges_placed (sourceName : Option String) (config : Config) (text : String)
    (calls : List (Nat × Call)) :
    let counts := config.countsNewlines
    let src : CharSource TextSource ε := TextSource.source
    let lx := (create src.label sourceName config).1
    let run := lx.exchanges src.recorded calls ⟨.ofString text, []⟩
    let tokens := run.filterMap Exchange.token?
    run.map Exchange.seen = (lx.exchanges src calls (.ofString text)).map Exchange.seen ∧
      (∀ x ∈ run,
        let taken := x.response.source.taken
        taken <+: text.toList ∧ x.response.lexer.position = .behind counts taken ∧
        (∀ t, x.response.outcome? = some (.emitted t) →
          ∃ before, before ++ t.text.toList = taken ∧ t.position = .behind counts before) ∧
        ∀ e, x.response.outcome? = some (.failed e) → e.position = .behind counts taken ∧
          ∃ c rest, taken ++ c :: rest = text.toList ∧ e.character = String.singleton c) ∧
      (counts = true → ∀ t ∈ tokens, t.kind ≠ .whitespace →
        ∃ row, (text.toList.splitOn '\n')[(t.position.line - 1).toNat]? = some row ∧
          (row.drop (t.position.column - 1).toNat).take t.text.length = t.text.toList) ∧
      tokens.Pairwise fun t t' => t.position.Precedes t'.position := by
  intro counts src lx run tokens
  have hnew : Standing text.toList [] lx _ := .new (ε := ε) sourceName config text
  obtain ⟨hat, hpairwise⟩ := hnew.tokens (ε := ε) calls
  refine ⟨exchanges_simulates src.recorded_simulates calls lx rfl, ?_, ?_, hpairwise⟩
  · intro x hx taken
    obtain ⟨floor, hconfig, hlocated, hstanding⟩ := hnew.exchanges (ε := ε) calls x hx
    refine ⟨hstanding.isPrefix, ?_, ?_, ?_⟩
    · rw [hstanding.position, hconfig]
      rfl
    · intro t ht
      obtain ⟨before, -, htaken, ht⟩ := hlocated _ ht
      exact ⟨before, htaken, ht.position⟩
    · intro e he
      exact hlocated _ he
  · intro hcounts t ht hkind
    obtain ⟨before, -, ht⟩ := hat t ht
    obtain ⟨rest, hrest⟩ := ht.isPrefix
    have hposition : t.position = .behind true before := by
      rw [ht.position, ← hcounts]
      rfl
    have hnewline := ht.contains.newline_notMem hkind
    rw [← hrest, hposition, ← String.length_toList]
    exact Position.exists_row_of_behind hnewline before rest

theorem token_behind_newline_placed :
    let config : Config := {}
    let src : CharSource TextSource Empty := TextSource.source
    let run := (create src.label none config).1.exchanges src.recorded [(9, .advance), (9, .next)]
      ⟨.ofString "a\n b", []⟩
    config.countsNewlines = true ∧ ∃ t ∈ run.filterMap Exchange.token?,
      t.kind ≠ .whitespace ∧ t.text = "b" ∧ t.position = ⟨2, 2⟩ ∧
        ∃ row, ("a\n b".toList.splitOn '\n')[1]? = some row ∧ (row.drop 1).take 1 = ['b'] := by
  intro config src run
  have hsecond : (run.filterMap Exchange.token?)[1]?.map (fun t => (t.kind, t.text, t.position)) =
      some (.identifier, "b", ⟨2, 2⟩) := by decide
  obtain ⟨t, hget, hfields⟩ := Option.map_eq_some_iff.1 hsecond
  obtain ⟨hkind, htext, hposition⟩ : t.kind = .identifier ∧ t.text = "b" ∧ t.position = ⟨2, 2⟩ := by
    simpa using hfields
  have ht : t ∈ run.filterMap Exchange.token? := List.mem_of_getElem? hget
  have hvisible : t.kind ≠ .whitespace := by
    rw [hkind]
    decide
  obtain ⟨-, -, hrows, -⟩ := exchanges_placed (ε := Empty) none config "a\n b"
    [(9, .advance), (9, .next)]
  have hrow := hrows rfl t ht hvisible
  have hlength : "b".length = 1 := by decide
  have hchars : "b".toList = ['b'] := by decide
  rw [hposition, htext, hlength, hchars] at hrow
  exact ⟨rfl, t, ht, hvisible, htext, hposition, hrow⟩

end Lexer

end FormulaLex
