import FormulaLex.Proofs.Sweep
import FormulaLex.Proofs.Turn
import FormulaLex.Source.Text

/-!
Pulls on a source that has a known text to deliver. However the pulls cut it up, the run gives what
the text alone says; the number of turns that a pull is granted suffices.
-/
namespace FormulaLex

variable {σ ε : Type}

/-- `Holds s w` says that in the state `s` the source has the characters `w` still to deliver, and
no others. To look ahead leaves that as it is. -/
structure CharSource.Delivers (src : CharSource σ ε) (Holds : σ → List Char → Prop) : Prop where
  peek_nil {s : σ} (h : Holds s []) : ∃ s', src.peek s = (.ok "", s') ∧ Holds s' []
  peek_cons {s : σ} {c : Char} {w : List Char} (h : Holds s (c :: w)) :
    ∃ s', src.peek s = (.ok (String.singleton c), s') ∧ Holds s' (c :: w)
  read_cons {s : σ} {c : Char} {w : List Char} (h : Holds s (c :: w)) :
    ∃ s', src.read s = (.ok (String.singleton c), s') ∧ Holds s' w
  close_ok {s : σ} {w : List Char} (h : Holds s w) : ∃ s', src.close s = (.ok (), s')
  length_le_size {s : σ} {w : List Char} (h : Holds s w) : w.length ≤ src.size s

/-- The same, with the end left open: what comes behind the last character may be anything. -/
structure CharSource.Hands (src : CharSource σ ε) (Holds : σ → List Char → Prop) : Prop where
  peek_cons {s : σ} {c : Char} {w : List Char} (h : Holds s (c :: w)) :
    ∃ s', src.peek s = (.ok (String.singleton c), s') ∧ Holds s' (c :: w)
  read_cons {s : σ} {c : Char} {w : List Char} (h : Holds s (c :: w)) :
    ∃ s', src.read s = (.ok (String.singleton c), s') ∧ Holds s' w
  close_ok {s : σ} {w : List Char} (h : Holds s w) : ∃ s', src.close s = (.ok (), s')
  length_le_size {s : σ} {w : List Char} (h : Holds s w) : w.length ≤ src.size s

theorem CharSource.Delivers.hands {src : CharSource σ ε} {Holds : σ → List Char → Prop}
    (h : src.Delivers Holds) : src.Hands Holds :=
  ⟨h.peek_cons, h.read_cons, h.close_ok, h.length_le_size⟩

theorem TextSource.delivers :
    (TextSource.source (ε := ε)).Delivers fun s w => s.rest = w where
  peek_nil {s} h := ⟨s, by simp [TextSource.source, TextSource.peek, h], h⟩
  peek_cons {s c w} h := ⟨s, by simp [TextSource.source, TextSource.peek, h], h⟩
  read_cons {s c w} h := ⟨{ s with rest := w }, by simp [TextSource.source, TextSource.read, h], rfl⟩
  close_ok {s _} _ := ⟨s.close, rfl⟩
  length_le_size {_ _} h := by simp [TextSource.source, h]

namespace Lexer

theorem singleton_ne_empty (c : Char) : String.singleton c ≠ "" := by
  simp [← String.toList_inj]

variable {src : CharSource σ ε} {Holds : σ → List Char → Prop} {lx : Lexer} {s : σ} {c : Char}
  {w : List Char}

section Turn

theorem turn_nil (hsrc : src.Delivers Holds) (lx : Lexer) (h : Holds s []) :
    ∃ s', lx.turn src s = .stop (lx.finish src s') ∧ Holds s' [] := by
  obtain ⟨s', hp, h'⟩ := hsrc.peek_nil h
  exact ⟨s', turn_of_end lx hp, h'⟩

theorem turn_stuck (hsrc : src.Hands Holds) (h : Holds s (c :: w))
    (hc : lx.state.step? c = none) :
    ∃ s', lx.turn src s = .stop (lx.fail src s' (String.singleton c)) ∧ Holds s' (c :: w) := by
  obtain ⟨s', hp, h'⟩ := hsrc.peek_cons h
  rw [← State.stepOn?_singleton] at hc
  exact ⟨s', turn_of_stuck hp (singleton_ne_empty c) hc, h'⟩

theorem turn_extend (hsrc : src.Hands Holds) (h : Holds s (c :: w)) {q : State}
    (hc : lx.state.step? c = some (.extend q)) :
    ∃ s', lx.turn src s = .again (lx.consume (String.singleton c) q) s' ∧ Holds s' w := by
  obtain ⟨s', hp, h'⟩ := hsrc.peek_cons h
  obtain ⟨s'', hr, h''⟩ := hsrc.read_cons h'
  rw [← State.stepOn?_singleton] at hc
  exact ⟨s'', turn_of_extend hp (singleton_ne_empty c) hc hr, h''⟩

theorem turn_finalize (hsrc : src.Hands Holds) (h : Holds s (c :: w))
    (hc : lx.state.step? c = some .finalize) :
    ∃ t s', lx.open? = some t ∧ Holds s' (c :: w) ∧ lx.turn src s =
      if lx.shows t then .stop ⟨.ok (.emitted t), lx.cleared, s', []⟩
      else .again lx.cleared s' := by
  obtain ⟨s', hp, h'⟩ := hsrc.peek_cons h
  obtain ⟨t, ht⟩ := exists_open? (State.step?_eq_finalize_iff.1 hc).1
  rw [← State.stepOn?_singleton] at hc
  exact ⟨t, s', ht, h', turn_of_finalize hp (singleton_ne_empty c) hc ht⟩

end Turn

def Digest.outcome (d : Digest) : Outcome :=
  match d.failure with
  | none => .finished
  | some e => .failed e

def Digest.ending (d : Digest) : Ending ε :=
  match d.failure with
  | none => .finished
  | some e => .failed e

/-- What the last pull logs. -/
def Digest.event (d : Digest) : Event :=
  match d.failure with
  | none => .finished d.lexer.location
  | some _ => .stopped d.lexer.location

/-- A bound on the tokens still to come: the open one, and one for each character. -/
def load (lx : Lexer) (w : List Char) : Nat := w.length + if lx.state = .start then 0 else 1

/-- What a pull comes to: the first token of the digest, and a lexer whose digest lacks just that
token; or the end of the run, when the digest has no token. -/
inductive Pulled (Holds : σ → List Char → Prop) (lx : Lexer) (w : List Char) : Pull σ ε → Prop
  | emitted {t : Token} {lx' : Lexer} {s' : σ} {w' : List Char} (held : Holds s' w')
      (going : lx'.done = false)
      (digest : lx.digest w = { lx'.digest w' with tokens := t :: (lx'.digest w').tokens })
      (shorter : w'.length ≤ w.length) (lighter : lx'.load w' < lx.load w) :
      Pulled Holds lx w ⟨.ok (.emitted t), lx', s', []⟩
  | ended {s' : σ} (tokens : (lx.digest w).tokens = []) :
      Pulled Holds lx w ⟨.ok (lx.digest w).outcome, (lx.digest w).lexer, s', [(lx.digest w).event]⟩

theorem Pulled.mono {lx' : Lexer} {w' : List Char} {pull : Pull σ ε} (h : Pulled Holds lx' w' pull)
    (hd : lx.digest w = lx'.digest w') (hlength : w'.length ≤ w.length)
    (hload : lx'.load w' ≤ lx.load w) : Pulled Holds lx w pull := by
  cases h with
  | emitted held going digest shorter lighter =>
    exact .emitted held going (hd.trans digest) (Nat.le_trans shorter hlength) (by omega)
  | ended tokens => rw [← hd] at tokens ⊢; exact .ended tokens

theorem exhaust_pulled (hsrc : src.Delivers Holds) (h : Holds s [])
    (ht : (lx.digest []).tokens = []) : Pulled Holds lx [] (lx.exhaust src s) := by
  obtain ⟨s', hc⟩ := hsrc.close_ok h
  have hp : lx.exhaust src s = ⟨.ok (lx.digest []).outcome, (lx.digest []).lexer, s',
      [(lx.digest []).event]⟩ := by
    simp only [exhaust, conclude, close, hc, digest_nil]
    rfl
  rw [hp]
  exact .ended ht

theorem finish_pulled (hsrc : src.Delivers Holds) (h : Holds s []) (hd : lx.done = false) :
    Pulled Holds lx [] (lx.finish src s) := by
  by_cases hq : lx.state = .start
  · rw [finish_of_start src hq]
    exact exhaust_pulled hsrc h (by simp [digest_nil, hq])
  obtain ⟨t, ht⟩ := exists_open? hq
  rw [finish_of_open? src ht]
  cases hflush : lx.config.flushes with
  | false => exact exhaust_pulled hsrc h (by simp [digest_nil, hflush])
  | true =>
    cases hshow : lx.shows t with
    | true =>
      refine .emitted h hd ?_ (Nat.le_refl _) ?_
      · simp [digest_nil, hflush, ht, hshow]
      · simp [load, hq]
    | false =>
      have hpulled : Pulled Holds lx.cleared [] (lx.cleared.exhaust src s) :=
        exhaust_pulled hsrc h (by simp [digest_nil])
      refine hpulled.mono ?_ (Nat.le_refl _) ?_
      · simp [digest_nil, hflush, ht, hshow]
      · simp [load]

theorem fail_pulled (hsrc : src.Delivers Holds) (h : Holds s (c :: w))
    (hc : lx.state.step? c = none) :
    Pulled Holds lx (c :: w) (lx.fail src s (String.singleton c)) := by
  obtain ⟨s', hclose⟩ := hsrc.close_ok h
  have hq : lx.state = .start := (State.step?_eq_none_iff.1 hc).1
  have hp : lx.fail src s (String.singleton c) = ⟨.ok (lx.digest (c :: w)).outcome,
      (lx.digest (c :: w)).lexer, s', [(lx.digest (c :: w)).event]⟩ := by
    simp only [fail, conclude, close, hclose, digest_of_stuck hc, ended, cleared, ← hq]
    rfl
  rw [hp]
  exact .ended (by rw [digest_of_stuck hc])

theorem load_consume_le (lx : Lexer) (c : Char) (q : State) (w : List Char) :
    (lx.consume (String.singleton c) q).load w ≤ lx.load (c :: w) := by
  simp only [load, List.length_cons]
  split <;> omega

theorem load_cleared_lt (hc : lx.state.step? c = some .finalize) :
    lx.cleared.load (c :: w) < lx.load (c :: w) := by
  simp [load, (State.step?_eq_finalize_iff.1 hc).1]

/-- What is true of the pulls that a turn ends is true of every pull with turns enough, if it is not
lost in front of a turn that goes on: every such turn leaves fewer characters, or finalizes the open
token in front of one. -/
theorem scan_hands (hsrc : src.Hands Holds) {P : Lexer → List Char → Pull σ ε → Prop}
    (hend : ∀ {lx s}, Holds s [] → lx.done = false →
      ∃ pull, lx.turn src s = .stop pull ∧ P lx [] pull)
    (hstuck : ∀ {lx s c w}, Holds s (c :: w) → lx.state.step? c = none →
      P lx (c :: w) (lx.fail src s (String.singleton c)))
    (hextend : ∀ {lx c q w pull}, lx.state.step? c = some (.extend q) →
      P (lx.consume (String.singleton c) q) w pull → P lx (c :: w) pull)
    (hemit : ∀ {lx s c w t}, Holds s (c :: w) → lx.done = false →
      lx.state.step? c = some .finalize → lx.open? = some t → lx.shows t = true →
      P lx (c :: w) ⟨.ok (.emitted t), lx.cleared, s, []⟩)
    (hhide : ∀ {lx c w t pull}, lx.state.step? c = some .finalize → lx.open? = some t →
      lx.shows t = false → P lx.cleared (c :: w) pull → P lx (c :: w) pull)
    {fuel : Nat} (h : Holds s w) (hd : lx.done = false) (hf : w.length + lx.load w < fuel) :
    P lx w (lx.scan src fuel s) := by
  induction fuel generalizing lx s w with
  | zero => omega
  | succ fuel ih =>
    cases w with
    | nil =>
      obtain ⟨pull, ht, hpull⟩ := hend h hd
      rw [scan_of_stop ht]
      exact hpull
    | cons c w =>
      rw [List.length_cons] at hf
      cases hc : lx.state.step? c with
      | none =>
        obtain ⟨s', ht, h'⟩ := turn_stuck hsrc h hc
        rw [scan_of_stop ht]
        exact hstuck h' hc
      | some step =>
        cases step with
        | extend q =>
          obtain ⟨s', ht, h'⟩ := turn_extend hsrc h hc
          have hle := lx.load_consume_le c q w
          rw [scan_of_again ht]
          exact hextend hc (ih h' hd (by omega))
        | finalize =>
          obtain ⟨t, s', ht, h', hturn⟩ := turn_finalize hsrc h hc
          have hlt : lx.cleared.load (c :: w) < lx.load (c :: w) := load_cleared_lt hc
          cases hshow : lx.shows t with
          | true =>
            rw [hshow, if_pos rfl] at hturn
            rw [scan_of_stop hturn]
            exact hemit h' hd hc ht hshow
          | false =>
            rw [hshow, if_neg Bool.false_ne_true] at hturn
            rw [scan_of_again hturn]
            exact hhide hc ht hshow (ih h' hd (by rw [List.length_cons]; omega))

theorem scan_pulled (hsrc : src.Delivers Holds) {fuel : Nat} (h : Holds s w)
    (hd : lx.done = false) (hf : w.length + lx.load w < fuel) :
    Pulled Holds lx w (lx.scan src fuel s) := by
  apply scan_hands hsrc.hands ?_ ?_ ?_ ?_ ?_ h hd hf
  · intro lx s h hd
    obtain ⟨s', ht, h'⟩ := turn_nil hsrc lx h
    exact ⟨_, ht, finish_pulled hsrc h' hd⟩
  · intro lx s c w h hc
    exact fail_pulled hsrc h hc
  · intro lx c q w pull hc hpulled
    exact hpulled.mono (digest_of_extend hc w) (by simp) (lx.load_consume_le c q w)
  · intro lx s c w t h hd hc ht hshow
    refine .emitted h hd ?_ (Nat.le_refl _) (load_cleared_lt hc)
    simp [digest_of_finalize hc ht, hshow]
  · intro lx c w t pull hc ht hshow hpulled
    have hdigest : lx.digest (c :: w) = lx.cleared.digest (c :: w) := by
      simp [digest_of_finalize hc ht, hshow]
    exact hpulled.mono hdigest (Nat.le_refl _) (Nat.le_of_lt (load_cleared_lt hc))

theorem load_le (lx : Lexer) (w : List Char) : lx.load w ≤ w.length + 1 := by
  unfold load
  split <;> omega

theorem advance_pulled (hsrc : src.Delivers Holds) {fuel : Nat} (h : Holds s w)
    (hd : lx.done = false) (hf : 2 * w.length + 2 ≤ fuel) :
    Pulled Holds lx w (lx.advance src fuel s) := by
  have hload := lx.load_le w
  rw [advance, hd]
  exact scan_pulled hsrc h hd (by omega)

/-- The turns that a pull is granted suffice. -/
theorem next_pulled (hsrc : src.Delivers Holds) (h : Holds s w) (hd : lx.done = false) :
    Pulled Holds lx w (lx.next src s) := by
  have hsize := hsrc.length_le_size h
  exact advance_pulled hsrc h hd (by rw [enoughTurns]; omega)

/-- The outcomes of so many pulls, whatever they are. -/
def outcomes (src : CharSource σ ε) : Nat → Lexer → σ → List (Except (Interrupt ε) Outcome)
  | 0, _, _ => []
  | n + 1, lx, s =>
    let pull := lx.next src s
    pull.outcome :: outcomes src n pull.lexer pull.source

theorem outcomes_of_done (src : CharSource σ ε) (hd : lx.done = true) (n : Nat) (s : σ) :
    outcomes src n lx s = List.replicate n (.ok .finished) := by
  induction n with
  | zero => rfl
  | succ n ih => simp only [outcomes, next, advance, hd, ↓reduceIte, ih, List.replicate_succ]

/-- The outcomes of a run: its tokens, how it ends, and from then on that it is finished. -/
theorem outcomes_eq (hsrc : src.Delivers Holds) (h : Holds s w) (hd : lx.done = false) (n : Nat) :
    outcomes src n lx s = (((lx.digest w).tokens.map Outcome.emitted ++
      (lx.digest w).outcome :: List.replicate n .finished).take n).map .ok := by
  induction n generalizing lx s w with
  | zero => rfl
  | succ n ih =>
    have hpulled := next_pulled hsrc h hd
    rw [outcomes]
    generalize lx.next src s = pull at hpulled
    cases hpulled with
    | @emitted t lx' s' w' held going digest shorter lighter =>
      have hrest := ih held going
      -- One pull fewer looks at one outcome fewer of what follows the end.
      rw [digest, List.replicate_succ', ← List.cons_append, ← List.append_assoc]
      rw [List.take_append_of_le_length (by simp; omega)]
      simp only [hrest, List.map_cons, List.cons_append, List.take_succ_cons]
      rfl
    | ended tokens =>
      rw [tokens, outcomes_of_done src rfl]
      simp

theorem take_eq (hsrc : src.Delivers Holds) {fuel count : Nat} (h : Holds s w)
    (hd : lx.done = false) (hf : 2 * w.length + 2 ≤ fuel) (hc : lx.load w < count) :
    ∃ s', lx.take src fuel count s =
      ⟨(lx.digest w).tokens, some (lx.digest w).ending, (lx.digest w).lexer, s',
        [(lx.digest w).event]⟩ := by
  induction count generalizing lx s w with
  | zero => omega
  | succ count ih =>
    have hpulled := advance_pulled hsrc h hd hf
    rw [take]
    generalize lx.advance src fuel s = pull at hpulled
    cases hpulled with
    | @emitted t lx' s' w' held going digest shorter lighter =>
      obtain ⟨s'', hs''⟩ := ih held going (by omega) (by omega)
      refine ⟨s'', ?_⟩
      simp only [hs'', digest]
      rfl
    | @ended s' tokens =>
      refine ⟨s', ?_⟩
      rw [tokens]
      cases hfail : (lx.digest w).failure <;> simp only [Digest.outcome, Digest.ending, hfail]

theorem collect_eq (hsrc : src.Delivers Holds) (h : Holds s w) (hd : lx.done = false) :
    ∃ s', lx.collect src s =
      ⟨(lx.digest w).tokens, some (lx.digest w).ending, (lx.digest w).lexer, s',
        [(lx.digest w).event]⟩ := by
  have hsize := hsrc.length_le_size h
  have hload := lx.load_le w
  have hturns : 2 * w.length + 2 ≤ enoughTurns src s := by
    rw [enoughTurns]
    omega
  have hcount : lx.load w < src.size s + 2 := by omega
  obtain ⟨s', hs'⟩ := take_eq hsrc h hd hturns hcount
  exact ⟨s', by rw [collect, hs']; rfl⟩

end Lexer

namespace TextSource

/-- A new lexer on a text. -/
def lexer (sourceName : Option String) (config : Config) : Lexer :=
  (Lexer.create label sourceName config).1

theorem pending_lexer (sourceName : Option String) (config : Config) :
    (lexer sourceName config).Pending [] :=
  Lexer.pending_cleared (lexer sourceName config)

theorem tokenize_eq_harvest (sourceName : Option String) (config : Config) (s : String) :
    let digest := (lexer sourceName config).digest s.toList
    ∃ s', (source (ε := ε)).tokenize sourceName config (ofString s) =
      ⟨digest.tokens, some digest.ending, digest.lexer, s',
        [(Lexer.create label sourceName config).2, digest.event]⟩ := by
  have hcollect : ∃ s', (lexer sourceName config).collect (source (ε := ε)) (ofString s) = _ :=
    Lexer.collect_eq delivers rfl rfl
  obtain ⟨s', hs'⟩ := hcollect
  let event := (Lexer.create label sourceName config).2
  exact ⟨s', congrArg (fun harvest => { harvest with events := event :: harvest.events }) hs'⟩

theorem tokenize_eq (sourceName : Option String) (config : Config) (s : String) :
    ((source (ε := ε)).tokenize sourceName config (ofString s)).tokens =
        ((lexer sourceName config).digest s.toList).tokens ∧
      ((source (ε := ε)).tokenize sourceName config (ofString s)).ending =
        some ((lexer sourceName config).digest s.toList).ending := by
  obtain ⟨s', hs'⟩ := tokenize_eq_harvest (ε := ε) sourceName config s
  rw [hs']
  exact ⟨rfl, rfl⟩

theorem outcomes_eq (sourceName : Option String) (config : Config) (s : String) (n : Nat) :
    let digest := (lexer sourceName config).digest s.toList
    Lexer.outcomes (source (ε := ε)) n (lexer sourceName config) (ofString s) =
      ((digest.tokens.map Lexer.Outcome.emitted ++
        digest.outcome :: List.replicate n Lexer.Outcome.finished).take n).map .ok :=
  Lexer.outcomes_eq delivers rfl rfl n

end TextSource

end FormulaLex
