import FormulaLex.Proofs.MaximalMunch
import Mathlib.Data.List.Chain

/-!
Printing tokens and lexing them back: which neighbours run into each other, and that nothing else
can go wrong.
-/
namespace FormulaLex

/-- A text with the kind to whose class it belongs. -/
structure Word where
  kind : Kind
  text : String
  belongs : kind.Contains text.toList

def Word.cut (v : Word) : Kind × List Char := (v.kind, v.text.toList)

/-- The neighbours of which the second one goes on with the first. -/
def Kind.clashes : Kind → Kind → Bool
  | identifier, identifier | identifier, real => true
  | real, real => true
  | star, star | star, exponent => true
  | _, _ => false

theorem Kind.Contains.digit_head {c : Char} {w : List Char} (h : real.Contains (c :: w)) :
    Charset.isDigit c := by
  obtain ⟨whole, hne, hdigits, he⟩ := h
  cases whole with
  | nil => exact absurd rfl hne
  | cons d whole =>
    have hcd : c = d := by
      rcases he with he | ⟨fraction, -, he⟩
      · exact (List.cons.inj he).1
      · exact (List.cons.inj he).1
    simp_all

theorem Kind.Contains.head {k : Kind} {c : Char} {w : List Char} (h : k.Contains (c :: w)) :
    (Charset.isLetter c ↔ k = identifier) ∧ (Charset.isDigit c ↔ k = real) ∧
      (c = '*' ↔ k = star ∨ k = exponent) ∧ c ≠ Charset.decimalPoint := by
  cases k with
  | identifier =>
    obtain ⟨d, rest, he, hletter, -⟩ := h
    cases he
    have hstar : c ≠ '*' := Charset.ne_of_mem hletter (by decide)
    have hpoint : c ≠ Charset.decimalPoint := Charset.ne_of_mem hletter (by decide)
    simp [hletter, Charset.not_isDigit_of_isLetter hletter, hstar, hpoint]
  | real =>
    have hdigit := h.digit_head
    have hstar : c ≠ '*' := Charset.ne_of_mem hdigit (by decide)
    have hpoint : c ≠ Charset.decimalPoint := Charset.ne_of_mem hdigit (by decide)
    simp [hdigit, Charset.not_isLetter_of_isDigit hdigit, hstar, hpoint]
  | whitespace =>
    obtain ⟨d, he, hblank⟩ := h
    cases he
    have hblanks : Charset.blanks.all fun d => !Charset.isLetter d && !Charset.isDigit d &&
        d != '*' && d != Charset.decimalPoint := by decide
    have hmem : c ∈ Charset.blanks := by simpa [Charset.isBlank] using hblank
    have hc := List.all_eq_true.1 hblanks c hmem
    simp only [Bool.and_eq_true, Bool.not_eq_true', bne_iff_ne] at hc
    obtain ⟨⟨⟨hletter, hdigit⟩, hstar⟩, hpoint⟩ := hc
    simp [hletter, hdigit, hstar, hpoint]
  | _ =>
    cases h
    decide

/-- A token goes on with the next one just if the two kinds clash. -/
theorem State.grow?_eq_none_iff {q : State} {k k' : Kind} {c : Char} {w : List Char}
    (hk : q.kind? = some k) (h : k'.Contains (c :: w)) :
    q.grow? c = none ↔ k.clashes k' = false := by
  obtain ⟨hletter, hdigit, hstar, hpoint⟩ := h.head
  have hq : q ≠ start := by
    rintro rfl
    cases hk
  rw [grow?_of_ne_start hq]
  cases q <;> cases hk <;> cases k' <;>
    simp_all [extend?, Kind.clashes, Charset.isAlphanumeric]

theorem isLongest_word_iff {v : Word} {words : List Word} :
    IsLongest v.kind v.text.toList (words.flatMap (·.text.toList)) ↔
      ∀ u ∈ words.head?, v.kind.clashes u.kind = false := by
  obtain ⟨q, hq, hk⟩ := Kind.contains_iff.1 v.belongs
  rw [isLongest_iff]
  cases words with
  | nil => simpa using ⟨q, hq, hk⟩
  | cons u words =>
    have hu := u.belongs
    cases htext : u.text.toList with
    | nil => exact absurd htext hu.ne_nil
    | cons c rest =>
      rw [htext] at hu
      simp [htext, hq, hk, State.grow?_eq_none_iff hk hu]

/-- A text made of words is cut into them again just if no neighbours clash. -/
theorem munched_words_iff {words : List Word} :
    Munched (words.flatMap (·.text.toList)) (words.map Word.cut) none ↔
      words.IsChain fun v u => v.kind.clashes u.kind = false := by
  induction words with
  | nil => simpa using Munched.finished
  | cons v words ih =>
    rw [List.isChain_cons, ← isLongest_word_iff, ← ih, List.flatMap_cons, List.map_cons]
    constructor
    · intro h
      generalize hs : v.text.toList ++ words.flatMap (·.text.toList) = s at h
      cases h with
      | token hlongest hrest =>
        rw [List.append_cancel_left_eq] at hs
        exact hs ▸ ⟨hlongest, hrest⟩
    · rintro ⟨hlongest, hrest⟩
      exact .token hlongest hrest

theorem TextSource.tokenize_contains {ε : Type} (sourceName : Option String) (config : Config)
    (s : String) {t : Token}
    (ht : t ∈ ((source : CharSource TextSource ε).tokenize sourceName config (ofString s)).tokens) :
    t.kind.Contains t.text.toList := by
  have hmunched := (pending_lexer sourceName config).sweep_munched s.toList
  rw [(tokenize_eq sourceName config s).1, Lexer.digest, List.mem_filter, List.mem_append] at ht
  apply hmunched.contains t.cut
  rw [List.mem_map]
  refine ⟨t, ?_, rfl⟩
  rw [List.mem_append]
  rcases ht.1 with hswept | hlast
  · exact .inl hswept
  · split at hlast
    next => cases hlast
    next => exact .inr hlast

/-- Words written one behind the other are lexed back, all of them and without a failure. -/
def RoundTrips (ε : Type) (sourceName : Option String) (config : Config) (words : List Word) :
    Prop :=
  let harvest := (TextSource.source : CharSource TextSource ε).tokenize sourceName config
    (.ofString (String.join (words.map Word.text)))
  harvest.tokens.map Token.cut = words.map Word.cut ∧ harvest.ending = some .finished

theorem roundTrips_iff_munched {ε : Type} {sourceName : Option String} {config : Config}
    (hflush : config.flushes = true) (hkeep : config.keepsWhitespace = true) {words : List Word} :
    RoundTrips ε sourceName config words ↔
      Munched (words.flatMap (·.text.toList)) (words.map Word.cut) none := by
  obtain ⟨ending, stop, hending, hstops, hmunched⟩ := TextSource.tokenize_munched (ε := ε)
    sourceName hflush hkeep (String.join (words.map Word.text))
  rw [String.toList_join, List.flatMap_map] at hmunched
  constructor
  · rintro ⟨hcuts, hfinished⟩
    cases hending.symm.trans hfinished
    exact hcuts ▸ (hstops none).1 trivial ▸ hmunched
  · intro h
    obtain ⟨hcuts, rfl⟩ := hmunched.unique h
    refine ⟨hcuts, ?_⟩
    have hnone := (hstops none).2 rfl
    cases ending with
    | finished => exact hending
    | failed e => cases hnone
    | interrupted cause => cases hnone

/-- Words survive printing and lexing just if no neighbours clash. So does each token by itself, and
so do words with blanks between them. -/
theorem roundTrips_iff {ε : Type} (sourceName : Option String) (config : Config)
    (hflush : config.flushes = true) (hkeep : config.keepsWhitespace = true) :
    (∀ words, RoundTrips ε sourceName config words ↔
      words.IsChain fun v u => v.kind.clashes u.kind = false) ∧
    (∀ (config' : Config) (s : String), ∀ t ∈ ((TextSource.source :
        CharSource TextSource ε).tokenize sourceName config' (.ofString s)).tokens,
      ∃ v : Word, v.kind = t.kind ∧ v.text = t.text ∧ RoundTrips ε sourceName config [v]) ∧
    (∀ words : List Word,
      (words.IsChain fun v u => v.kind = .whitespace ∨ u.kind = .whitespace) →
        RoundTrips ε sourceName config words) := by
  have hiff : ∀ words, RoundTrips ε sourceName config words ↔
      words.IsChain fun v u => v.kind.clashes u.kind = false := fun words =>
    (roundTrips_iff_munched hflush hkeep).trans munched_words_iff
  refine ⟨hiff, ?_, ?_⟩
  · intro config' s t ht
    have hcontains := TextSource.tokenize_contains sourceName config' s ht
    exact ⟨⟨t.kind, t.text, hcontains⟩, rfl, rfl, (hiff _).2 (.singleton _)⟩
  · intro words hblanks
    refine (hiff words).2 (hblanks.imp ?_)
    rintro v u (hv | hu)
    · rw [hv]
      rfl
    · rw [hu]
      cases v.kind <;> rfl

theorem power_roundTrips_and_numbers_clash :
    let config : Config := { keepWhitespace := .bool true }
    config.flushes = true ∧ config.keepsWhitespace = true ∧
      RoundTrips Empty none config
        [⟨.identifier, "x1", by decide⟩, ⟨.exponent, "**", by decide⟩, ⟨.star, "*", by decide⟩,
          ⟨.real, "2.", by decide⟩, ⟨.identifier, "y", by decide⟩] ∧
      ¬ RoundTrips Empty none config
        [⟨.real, "1.2", by decide⟩, ⟨.real, "3.4", by decide⟩] := by
  obtain ⟨hiff, -, -⟩ :=
    roundTrips_iff (ε := Empty) none { keepWhitespace := .bool true } rfl rfl
  refine ⟨rfl, rfl, (hiff _).2 (by decide), ?_⟩
  rw [hiff]
  decide

end FormulaLex
