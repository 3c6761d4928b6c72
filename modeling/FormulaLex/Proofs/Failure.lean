import FormulaLex.Proofs.Options
import FormulaLex.Proofs.Place

/-!
Which texts a lexer fails on, and where. Whether a character can be taken depends on the state, and
so on how all the text in front of it was cut; yet a look at the letters and digits right in front of
it, and at the one character in front of those, tells as much.
-/
namespace FormulaLex

namespace Charset

/-- A decimal point may stand behind digits that neither a letter nor another decimal point is in
front of. -/
def admitsPoint (before : List Char) : Bool :=
  let run := before.rtakeWhile isAlphanumeric
  !run.isEmpty && run.all isDigit &&
    (before.rdropWhile isAlphanumeric).getLast? != some decimalPoint

/-- Whether a character may stand behind a text. -/
def admits (before : List Char) (c : Char) : Bool :=
  isLetter c || isDigit c || ['+', '-', '*', '/', '=', '(', ')'].contains c || isBlank c ||
    c == decimalPoint && admitsPoint before

/-- The character at an offset may not stand behind the text in front of it. -/
def violates (s : List Char) (i : Nat) : Bool := s[i]?.any fun c => !admits (s.take i) c

end Charset

namespace State

/-- What the state tells of the text behind which it is reached. -/
structure Follows (q : State) (before : List Char) : Prop where
  realInt_iff : q = realInt ↔ Charset.admitsPoint before
  realFrac_iff : q = realFrac ↔ (before.rtakeWhile Charset.isAlphanumeric).all Charset.isDigit ∧
    (before.rdropWhile Charset.isAlphanumeric).getLast? = some Charset.decimalPoint
  identifier_iff : q = identifier ↔
    ¬ (before.rtakeWhile Charset.isAlphanumeric).all Charset.isDigit

theorem follows_nil : start.Follows [] := ⟨by decide, by decide, by decide⟩

theorem after?_letter (q : State) {c : Char} (hc : Charset.isLetter c) :
    q.after? c = some identifier := by
  have hdigit := Charset.not_isDigit_of_isLetter hc
  have hpoint : c ≠ Charset.decimalPoint := Charset.ne_of_mem hc (by decide)
  have hstar : c ≠ '*' := Charset.ne_of_mem hc (by decide)
  have hfirst := ofFirst?_letter hc
  cases q <;>
    simp [after?, grow?_of_ne_start, extend?, Charset.isAlphanumeric, hc, hdigit, hpoint, hstar,
      hfirst]

theorem after?_digit (q : State) {c : Char} (hc : Charset.isDigit c) : q.after? c =
    some (if q = realFrac ∨ q = identifier then q else realInt) := by
  have hstar : c ≠ '*' := Charset.ne_of_mem hc (by decide)
  have hfirst := ofFirst?_digit hc
  cases q <;> simp [after?, grow?_of_ne_start, extend?, Charset.isAlphanumeric, hc, hstar, hfirst]

theorem after?_point (q : State) : q.after? Charset.decimalPoint =
    if q = realInt then some realFrac else none := by
  cases q <;> decide

theorem after?_star (q : State) : ∃ q', q.after? '*' = some q' ∧ q' ≠ realInt ∧ q' ≠ realFrac ∧
    q' ≠ identifier := by
  cases q <;> exact ⟨_, rfl, by decide⟩

theorem after?_other (q : State) {c : Char} (hc : Charset.isAlphanumeric c = false)
    (hpoint : c ≠ Charset.decimalPoint) (hstar : c ≠ '*') : q.after? c = ofFirst? c := by
  simp only [Charset.isAlphanumeric, Bool.or_eq_false_iff] at hc
  cases q <;> simp [after?, grow?_of_ne_start, extend?, Charset.isAlphanumeric, hc, hpoint, hstar]

theorem ofFirst?_other {q : State} {c : Char} (hc : Charset.isAlphanumeric c = false)
    (h : ofFirst? c = some q) : q ≠ realInt ∧ q ≠ realFrac ∧ q ≠ identifier := by
  simp only [Charset.isAlphanumeric, Bool.or_eq_false_iff] at hc
  have hq := ofFirst?_eq_some_iff.1 h
  refine ⟨?_, ?_, ?_⟩
  · rintro rfl
    simp [Spells, hc] at hq
  · rintro rfl
    obtain ⟨whole, fraction, hne, hdigits, -, he⟩ := hq
    cases whole <;> simp_all
  · rintro rfl
    obtain ⟨d, rest, he, hd, -⟩ := hq.contains rfl
    cases he
    simp [hc] at hd

theorem ofFirst?_eq_none_iff {c : Char} : ofFirst? c = none ↔ Charset.isLetter c = false ∧
    Charset.isDigit c = false ∧ ['+', '-', '*', '/', '=', '(', ')'].contains c = false ∧
    Charset.isBlank c = false := by
  have hops : operators.lookup c = none ↔ ['+', '-', '*', '/', '=', '(', ')'].contains c = false := by
    simp [List.lookup_eq_none_iff, operators]
  rw [← hops]
  unfold ofFirst?
  grind

/-- Taking a character keeps the state in step with the text. -/
theorem Follows.after {q q' : State} {before : List Char} {c : Char} (h : q.Follows before)
    (hc : q.after? c = some q') : q'.Follows (before ++ [c]) := by
  obtain ⟨hint, hfrac, hident⟩ := h
  -- A letter or digit lengthens the run that is looked back at; any other character ends it.
  by_cases halnum : Charset.isAlphanumeric c
  · have hdrop : (before ++ [c]).rdropWhile Charset.isAlphanumeric =
        before.rdropWhile Charset.isAlphanumeric := by simp [halnum]
    by_cases hdigit : Charset.isDigit c
    · rw [after?_digit q hdigit, Option.some.injEq] at hc
      have hpoint : Charset.admitsPoint (before ++ [c]) =
          ((before.rtakeWhile Charset.isAlphanumeric).all Charset.isDigit &&
            (before.rdropWhile Charset.isAlphanumeric).getLast? != some Charset.decimalPoint) := by
        have hne : (before.rtakeWhile Charset.isAlphanumeric ++ [c]).isEmpty = false := by simp
        simp [Charset.admitsPoint, halnum, hdigit, hne]
      have hall : ((before ++ [c]).rtakeWhile Charset.isAlphanumeric).all Charset.isDigit =
          (before.rtakeWhile Charset.isAlphanumeric).all Charset.isDigit := by
        simp [halnum, hdigit]
      constructor
      · rw [hpoint]
        grind
      · rw [hall, hdrop]
        grind
      · rw [hall]
        grind
    · have hletter : Charset.isLetter c := by simpa [Charset.isAlphanumeric, hdigit] using halnum
      rw [after?_letter q hletter] at hc
      cases hc
      constructor <;> simp [Charset.admitsPoint, hdigit, halnum]
  · by_cases hpoint : c = Charset.decimalPoint
    · subst hpoint
      rw [after?_point, Option.ite_none_right_eq_some] at hc
      obtain ⟨-, hq'⟩ := hc
      cases hq'
      constructor <;> simp [Charset.admitsPoint, halnum]
    · have hother : q' ≠ realInt ∧ q' ≠ realFrac ∧ q' ≠ identifier := by
        by_cases hstar : c = '*'
        · subst hstar
          obtain ⟨q'', hq'', hother⟩ := q.after?_star
          cases hc.symm.trans hq''
          exact hother
        · rw [after?_other q (by simpa using halnum) hpoint hstar] at hc
          exact ofFirst?_other (by simpa using halnum) hc
      constructor <;> simp [Charset.admitsPoint, halnum, hother, hpoint]

/-- The state takes just the characters that the text in front of them admits. -/
theorem Follows.after?_eq_none_iff {q : State} {before : List Char} (h : q.Follows before)
    (c : Char) : q.after? c = none ↔ Charset.admits before c = false := by
  by_cases hletter : Charset.isLetter c
  · simp [after?_letter q hletter, Charset.admits, hletter]
  by_cases hdigit : Charset.isDigit c
  · simp [after?_digit q hdigit, Charset.admits, hdigit]
  by_cases hpoint : c = Charset.decimalPoint
  · subst hpoint
    have hadmits : Charset.admits before Charset.decimalPoint = Charset.admitsPoint before := rfl
    simp [after?_point, h.realInt_iff, hadmits]
  by_cases hstar : c = '*'
  · subst hstar
    obtain ⟨q', hq', -⟩ := q.after?_star
    simp [hq', Charset.admits]
  · have halnum : Charset.isAlphanumeric c = false := by
      simp [Charset.isAlphanumeric, hletter, hdigit]
    rw [after?_other q halnum hpoint hstar, ofFirst?_eq_none_iff]
    simp [Charset.admits, hletter, hdigit, hpoint]

end State

namespace Charset

theorem violates_append {s : List Char} {i : Nat} (hi : i < s.length) (rest : List Char) :
    violates (s ++ rest) i = violates s i := by
  rw [violates, violates, List.getElem?_append_left hi, List.take_append_of_le_length (by omega)]

theorem violates_length (s : List Char) (c : Char) (rest : List Char) :
    violates (s ++ c :: rest) s.length = !admits s c := by
  simp [violates]

/-- `c` is the first character that violates the test, and `front` is the text in front of it. -/
structure FirstViolation (s front : List Char) (c : Char) : Prop where
  split : ∃ rest, s = front ++ c :: rest
  here : violates s front.length
  before {i : Nat} (hi : i < front.length) : violates s i = false

theorem FirstViolation.length_eq {s front : List Char} {c : Char} (h : FirstViolation s front c)
    {i : Nat} (hi : violates s i) (hlt : ∀ j < i, violates s j = false) : front.length = i := by
  rcases Nat.lt_trichotomy i front.length with hi' | hi' | hi'
  · cases hi.symm.trans (h.before hi')
  · exact hi'.symm
  · cases h.here.symm.trans (hlt _ hi')

end Charset

namespace Lexer

variable {lx lx' lx₀ : Lexer} {c : Char} {w : List Char} {ts : List Token}

theorem Reads.position (h : Reads lx₀ w ts lx) (hp : lx₀.position = .start) :
    lx.position = .behind lx₀.config.countsNewlines w := by
  induction h with
  | nil => simpa using hp
  | concat h hc ih =>
    obtain ⟨lx₁, q, -, rfl, rfl | rfl⟩ := feed?_cases hc
    · rw [Position.behind_concat, ← ih, ← h.config]
      rfl
    · rw [Position.behind_concat, ← ih, ← h.config]
      rfl

theorem Reads.follows (h : Reads lx₀ w ts lx) (hq : lx₀.state = .start) : lx.state.Follows w := by
  induction h with
  | nil => exact hq ▸ State.follows_nil
  | concat h hc ih =>
    obtain ⟨lx₁, q, hq', rfl, -⟩ := feed?_cases hc
    exact ih.after hq'

theorem Reads.not_violates (h : Reads lx₀ w ts lx) (hq : lx₀.state = .start) {i : Nat}
    (hi : i < w.length) : Charset.violates w i = false := by
  induction h generalizing i with
  | nil => cases hi
  | @concat w ts us lx lx' c h hc ih =>
    rw [List.length_append, List.length_singleton] at hi
    by_cases hlt : i < w.length
    · rw [Charset.violates_append hlt]
      exact ih hlt
    · obtain rfl : i = w.length := by omega
      have hadmits : ¬ Charset.admits w c = false := by
        rw [← (h.follows hq).after?_eq_none_iff, ← feed?_eq_none_iff, hc]
        simp
      simpa [Charset.violates_length] using hadmits

/-- The same lexer with another value for flushing. -/
def withFlush (lx : Lexer) (v : Value) : Lexer :=
  { lx with config := { lx.config with flushAtEnd := v } }

@[simp] theorem open?_withFlush (lx : Lexer) (v : Value) : (lx.withFlush v).open? = lx.open? :=
  open?_withConfig lx _

theorem Reads.withFlush (h : Reads lx₀ w ts lx) (v : Value) :
    Reads (lx₀.withFlush v) w ts (lx.withFlush v) := by
  have hlast : lx.withFlush v = lx.withConfig { lx₀.config with flushAtEnd := v } := by
    rw [← h.config]
    rfl
  rw [hlast]
  exact h.withConfig { lx₀.config with flushAtEnd := v } rfl

/-- A run comes through, and then no character violates the test. Or it fails on the first that
does, and shows what a run over the text in front of it shows, the last token flushed. -/
theorem digest_failure_cases (lx : Lexer) (hq : lx.state = .start) (hp : lx.position = .start)
    (s : List Char) : ((lx.digest s).failure = none ∧ ∀ i, Charset.violates s i = false) ∨
    ∃ front c, Charset.FirstViolation s front c ∧
      (lx.digest s).failure = some ⟨String.singleton c,
        .behind lx.config.countsNewlines front, lx.sourceName⟩ ∧
      ∀ v : Value, v.isTruthy →
        ((lx.withFlush v).digest front).tokens = (lx.digest s).tokens ∧
        ((lx.withFlush v).digest front).failure = none := by
  obtain ⟨front, hsplit, hreads, hstop⟩ := lx.sweep_reads s
  cases hrest : (lx.sweep s).rest with
  | nil =>
    rw [hrest, List.append_nil] at hsplit
    subst hsplit
    refine .inl ⟨by simp [digest, hrest], ?_⟩
    intro i
    by_cases hi : i < s.length
    · exact hreads.not_violates hq hi
    · simp [Charset.violates, List.getElem?_eq_none (Nat.le_of_not_lt hi)]
  | cons c rest =>
    rw [hrest] at hsplit
    have hadmits : Charset.admits front c = false := by
      rw [← (hreads.follows hq).after?_eq_none_iff, ← feed?_eq_none_iff]
      exact hstop c (by simp [hrest])
    have hfirst : Charset.FirstViolation s front c := by
      refine ⟨⟨rest, hsplit⟩, ?_, ?_⟩
      · rw [hsplit, Charset.violates_length, hadmits]
        rfl
      · intro i hi
        rw [hsplit, Charset.violates_append hi]
        exact hreads.not_violates hq hi
    refine .inr ⟨front, c, hfirst, by simp [digest, hrest, hreads.position hp], ?_⟩
    intro v hv
    have hclean := (hreads.withFlush v).sweep_eq
    have hflush : (lx.withFlush v).config.flushes = true := hv
    have hshows : (lx.withFlush v).shows = lx.shows := rfl
    constructor
    · simp [digest, hrest, hclean, hflush, hshows]
    · simp [digest, hclean]

end Lexer

theorem exists_failed_mem_outcomes_iff {ε : Type} (sourceName : Option String) (config : Config)
    (s : String) :
    (∃ n e, .ok (.failed e) ∈ Lexer.outcomes (ε := ε) TextSource.source n
      (TextSource.lexer sourceName config) (.ofString s)) ↔
    ∃ e, ((TextSource.lexer sourceName config).digest s.toList).failure = some e := by
  simp only [TextSource.outcomes_eq, Lexer.Digest.outcome]
  constructor
  · rintro ⟨n, e, he⟩
    obtain ⟨o, ho, hoe⟩ := List.mem_map.1 he
    cases hoe
    cases hfailure : ((TextSource.lexer sourceName config).digest s.toList).failure with
    | none => simpa [hfailure] using List.mem_of_mem_take ho
    | some e => exact ⟨e, rfl⟩
  · rintro ⟨e, he⟩
    rw [he]
    refine ⟨((TextSource.lexer sourceName config).digest s.toList).tokens.length + 1, e, ?_⟩
    apply List.mem_map_of_mem
    simp [List.take_append]

/-- A lexer on a text fails just if some character violates the test, and then once, on the first
one, at its place, and behind the tokens of the text in front of it. -/
theorem failed_iff_violates {ε : Type} (sourceName : Option String) (config : Config) (s : String) :
    let outcomes : Nat → List (Except (Lexer.Interrupt ε) Lexer.Outcome) := fun n =>
      Lexer.outcomes TextSource.source n (TextSource.lexer sourceName config) (.ofString s)
    ((∃ n e, .ok (.failed e) ∈ outcomes n) ↔ ∃ i, Charset.violates s.toList i) ∧
    ∀ i, Charset.violates s.toList i → (∀ j < i, Charset.violates s.toList j = false) →
      ∃ c, s.toList[i]? = some c ∧ ∀ v : Value, v.isTruthy →
        let front := (TextSource.source : CharSource TextSource ε).tokenize sourceName
          { config with flushAtEnd := v } (.ofString (.ofList (s.toList.take i)))
        let error : InvalidCharacter := ⟨String.singleton c,
          .behind config.countsNewlines (s.toList.take i), sourceName⟩
        front.ending = some .finished ∧
        ∀ n, outcomes n = ((front.tokens.map Lexer.Outcome.emitted ++
          Lexer.Outcome.failed error :: List.replicate n Lexer.Outcome.finished).take n).map
            .ok := by
  intro outcomes
  rw [exists_failed_mem_outcomes_iff]
  rcases Lexer.digest_failure_cases (TextSource.lexer sourceName config) rfl rfl s.toList with
    ⟨hfailure, hnone⟩ | ⟨front, c, hfirst, hfailure, hfront⟩
  · refine ⟨⟨?_, ?_⟩, ?_⟩
    · rintro ⟨e, he⟩
      cases hfailure.symm.trans he
    · rintro ⟨i, hi⟩
      cases (hnone i).symm.trans hi
    · intro i hi
      cases (hnone i).symm.trans hi
  · refine ⟨⟨fun _ => ⟨_, hfirst.here⟩, fun _ => ⟨_, hfailure⟩⟩, ?_⟩
    intro i hi hlt
    obtain rfl := hfirst.length_eq hi hlt
    obtain ⟨rest, hsplit⟩ := hfirst.split
    have htake : s.toList.take front.length = front := by simp [hsplit]
    refine ⟨c, by simp [hsplit], ?_⟩
    intro v hv
    obtain ⟨htokens, hclean⟩ := hfront v hv
    obtain ⟨hfronttokens, hfrontending⟩ := TextSource.tokenize_eq (ε := ε) sourceName
      { config with flushAtEnd := v } (.ofList front)
    rw [String.toList_ofList] at hfronttokens hfrontending
    have hwith : TextSource.lexer sourceName { config with flushAtEnd := v } =
        (TextSource.lexer sourceName config).withFlush v := rfl
    rw [hwith] at hfronttokens hfrontending
    simp only [htake]
    constructor
    · rw [hfrontending, Lexer.Digest.ending, hclean]
    · intro n
      rw [hfronttokens, htokens]
      simp only [outcomes, TextSource.outcomes_eq, Lexer.Digest.outcome, hfailure]
      rfl

theorem second_point_of_numeral_fails :
    let config : Config := { flushAtEnd := .bool false }
    let outcomes : Nat → List (Except (Lexer.Interrupt Empty) Lexer.Outcome) := fun n =>
      Lexer.outcomes TextSource.source n (TextSource.lexer none config) (.ofString "1.2.3")
    Charset.violates "1.2.3".toList 3 ∧ (∀ i < 3, Charset.violates "1.2.3".toList i = false) ∧
      ∀ n, outcomes n = ((Lexer.Outcome.emitted ⟨.real, "1.2", ⟨1, 1⟩, none, []⟩ ::
        Lexer.Outcome.failed ⟨".", ⟨1, 4⟩, none⟩ ::
          List.replicate n Lexer.Outcome.finished).take n).map .ok := by
  refine ⟨by decide, by decide, ?_⟩
  obtain ⟨-, h⟩ := failed_iff_violates (ε := Empty) none { flushAtEnd := .bool false } "1.2.3"
  obtain ⟨c, hc, h⟩ := h 3 (by decide) (by decide)
  obtain rfl : '.' = c := Option.some.inj hc
  exact (h (.bool true) rfl).2

end FormulaLex
