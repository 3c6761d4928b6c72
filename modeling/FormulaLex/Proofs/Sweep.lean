import FormulaLex.Proofs.OpenToken

/-!
What a lexer makes of a whole text, character by character and without a source: the tokens it
finalizes on the way, the lexer behind the last character it takes, and the rest from the first
character on with which no token goes on or starts.
-/
namespace FormulaLex.Lexer

/-- Takes one more character, into the open token or else behind it as the first one of the next. -/
def feed? (lx : Lexer) (c : Char) : Option (List Token × Lexer) :=
  match lx.state.grow? c with
  | some q => some ([], lx.consume (String.singleton c) q)
  | none => (State.ofFirst? c).map fun q =>
      (lx.open?.toList, lx.cleared.consume (String.singleton c) q)

structure Sweep where
  tokens : List Token
  lexer : Lexer
  rest : List Char

def sweep (lx : Lexer) : List Char → Sweep
  | [] => ⟨[], lx, []⟩
  | c :: w =>
    match lx.feed? c with
    | none => ⟨[], lx, c :: w⟩
    | some (ts, lx) =>
      let swept := lx.sweep w
      { swept with tokens := ts ++ swept.tokens }

@[simp] theorem sweep_nil (lx : Lexer) : lx.sweep [] = ⟨[], lx, []⟩ := rfl

theorem sweep_of_feed?_eq_none {lx : Lexer} {c : Char} (h : lx.feed? c = none) (w : List Char) :
    lx.sweep (c :: w) = ⟨[], lx, c :: w⟩ := by
  simp only [sweep, h]

theorem sweep_of_feed?_eq_some {lx lx' : Lexer} {c : Char} {ts : List Token}
    (h : lx.feed? c = some (ts, lx')) (w : List Char) : lx.sweep (c :: w) =
      ⟨ts ++ (lx'.sweep w).tokens, (lx'.sweep w).lexer, (lx'.sweep w).rest⟩ := by
  simp only [sweep, h]

theorem feed?_of_stuck {lx : Lexer} {c : Char} (h : lx.state.step? c = none) :
    lx.feed? c = none := by
  simp [feed?, State.grow?, h, (State.step?_eq_none_iff.1 h).2]

theorem feed?_of_extend {lx : Lexer} {c : Char} {q : State}
    (h : lx.state.step? c = some (.extend q)) :
    lx.feed? c = some ([], lx.consume (String.singleton c) q) := by
  simp only [feed?, State.grow?, h]

theorem feed?_of_finalize {lx : Lexer} {c : Char} (h : lx.state.step? c = some .finalize) :
    lx.feed? c = (State.ofFirst? c).map fun q =>
      (lx.open?.toList, lx.cleared.consume (String.singleton c) q) := by
  simp only [feed?, State.grow?, h]

theorem feed?_eq_none_iff {lx : Lexer} {c : Char} :
    lx.feed? c = none ↔ lx.state.after? c = none := by
  unfold feed? State.after?
  cases lx.state.grow? c <;> simp

theorem feed?_cases {lx lx' : Lexer} {c : Char} {ts : List Token}
    (h : lx.feed? c = some (ts, lx')) : ∃ lx₁ q, lx.state.after? c = some q ∧
      lx' = lx₁.consume (String.singleton c) q ∧ (lx₁ = lx ∨ lx₁ = lx.cleared) := by
  unfold feed? at h
  unfold State.after?
  cases hg : lx.state.grow? c with
  | some q =>
    rw [hg] at h
    cases h
    exact ⟨lx, q, rfl, rfl, .inl rfl⟩
  | none =>
    rw [hg] at h
    obtain ⟨q, hq, he⟩ := Option.map_eq_some_iff.1 h
    cases he
    exact ⟨lx.cleared, q, hq, rfl, .inr rfl⟩

/-- Taking in the characters of `w`, all of them, a lexer finalizes the tokens `ts` and becomes
another. -/
inductive Reads (lx₀ : Lexer) : List Char → List Token → Lexer → Prop
  | nil : Reads lx₀ [] [] lx₀
  | concat {w : List Char} {ts us : List Token} {lx lx' : Lexer} {c : Char} (h : Reads lx₀ w ts lx)
      (hc : lx.feed? c = some (us, lx')) : Reads lx₀ (w ++ [c]) (ts ++ us) lx'

/-- What no step changes stays as it is. -/
theorem Reads.keeps {α : Type} {lx₀ lx : Lexer} {w : List Char} {ts : List Token}
    (h : Reads lx₀ w ts lx) (f : Lexer → α) (hcleared : ∀ lx : Lexer, f lx.cleared = f lx)
    (hconsume : ∀ (lx : Lexer) ahead q, f (lx.consume ahead q) = f lx) : f lx = f lx₀ := by
  induction h with
  | nil => rfl
  | concat h hc ih =>
    obtain ⟨lx₁, q, -, rfl, rfl | rfl⟩ := feed?_cases hc
    · rw [hconsume, ih]
    · rw [hconsume, hcleared, ih]

theorem Reads.config {lx₀ lx : Lexer} {w : List Char} {ts : List Token} (h : Reads lx₀ w ts lx) :
    lx.config = lx₀.config :=
  h.keeps Lexer.config (fun _ => rfl) (fun _ _ _ => rfl)

theorem Reads.sourceName {lx₀ lx : Lexer} {w : List Char} {ts : List Token}
    (h : Reads lx₀ w ts lx) : lx.sourceName = lx₀.sourceName :=
  h.keeps Lexer.sourceName (fun _ => rfl) (fun _ _ _ => rfl)

theorem Reads.done {lx₀ lx : Lexer} {w : List Char} {ts : List Token} (h : Reads lx₀ w ts lx) :
    lx.done = lx₀.done :=
  h.keeps Lexer.done (fun _ => rfl) (fun _ _ _ => rfl)

theorem Reads.shows {lx₀ lx : Lexer} {w : List Char} {ts : List Token} (h : Reads lx₀ w ts lx) :
    lx.shows = lx₀.shows :=
  h.keeps Lexer.shows (fun _ => rfl) (fun _ _ _ => rfl)

theorem Reads.sweep_append {lx₀ lx : Lexer} {w : List Char} {ts : List Token}
    (h : Reads lx₀ w ts lx) (v : List Char) :
    lx₀.sweep (w ++ v) = ⟨ts ++ (lx.sweep v).tokens, (lx.sweep v).lexer, (lx.sweep v).rest⟩ := by
  induction h generalizing v with
  | nil => rfl
  | concat h hc ih =>
    rw [List.append_assoc, List.singleton_append, ih, sweep_of_feed?_eq_some hc]
    simp only [List.append_assoc]

theorem Reads.sweep_eq {lx₀ lx : Lexer} {w : List Char} {ts : List Token} (h : Reads lx₀ w ts lx) :
    lx₀.sweep w = ⟨ts, lx, []⟩ := by
  simpa using h.sweep_append []

/-- A sweep reads all in front of the rest that it leaves, and takes no character of that. -/
theorem Reads.sweep_reads {lx₀ lx : Lexer} {u : List Char} {ts : List Token}
    (h : Reads lx₀ u ts lx) (w : List Char) : ∃ v, w = v ++ (lx.sweep w).rest ∧
      Reads lx₀ (u ++ v) (ts ++ (lx.sweep w).tokens) (lx.sweep w).lexer ∧
      ∀ c ∈ (lx.sweep w).rest.head?, (lx.sweep w).lexer.feed? c = none := by
  induction w generalizing u ts lx with
  | nil => exact ⟨[], rfl, by simpa using h, by simp⟩
  | cons c w ih =>
    cases hc : lx.feed? c with
    | none =>
      rw [sweep_of_feed?_eq_none hc]
      exact ⟨[], rfl, by simpa using h, by simpa using hc⟩
    | some fed =>
      obtain ⟨us, lx'⟩ := fed
      obtain ⟨v, hv, hreads, hrest⟩ := ih (h.concat hc)
      rw [sweep_of_feed?_eq_some hc]
      refine ⟨c :: v, congrArg (c :: ·) hv, ?_, hrest⟩
      simpa using hreads

theorem sweep_reads (lx : Lexer) (w : List Char) : ∃ v, w = v ++ (lx.sweep w).rest ∧
    Reads lx v (lx.sweep w).tokens (lx.sweep w).lexer ∧
    ∀ c ∈ (lx.sweep w).rest.head?, (lx.sweep w).lexer.feed? c = none := by
  simpa using Reads.nil.sweep_reads w

theorem Pending.feed? {lx lx' : Lexer} {p : List Char} {c : Char} {ts : List Token}
    (h : lx.Pending p) (hc : lx.feed? c = some (ts, lx')) : ∃ p', lx'.Pending (p' ++ [c]) := by
  unfold Lexer.feed? at hc
  cases hg : lx.state.grow? c with
  | some q =>
    rw [hg] at hc
    cases hc
    exact ⟨p, h.consume hg⟩
  | none =>
    rw [hg] at hc
    obtain ⟨q, hq, he⟩ := Option.map_eq_some_iff.1 hc
    cases he
    exact ⟨[], (pending_cleared lx).consume ((State.grow?_start c).trans hq)⟩

theorem Reads.pending {lx₀ lx : Lexer} {w : List Char} {ts : List Token} (h : Reads lx₀ w ts lx)
    (h₀ : lx₀.Pending []) : ∃ p, lx.Pending p ∧ (p = [] ↔ w = []) := by
  induction h with
  | nil => exact ⟨[], h₀, Iff.rfl⟩
  | concat h hc ih =>
    obtain ⟨p, hp, -⟩ := ih
    obtain ⟨p', hp'⟩ := hp.feed? hc
    exact ⟨_, hp', by simp⟩

theorem Reads.ne_start_iff {lx₀ lx : Lexer} {w : List Char} {ts : List Token}
    (h : Reads lx₀ w ts lx) (h₀ : lx₀.Pending []) : lx.state ≠ .start ↔ w ≠ [] := by
  obtain ⟨p, hp, hnil⟩ := h.pending h₀
  rw [ne_eq, hp.state_eq_start_iff, hnil]

/-- What a run over a text comes to: the tokens shown, the character it fails on, if it does, and
the lexer it leaves. -/
structure Digest where
  tokens : List Token
  failure : Option InvalidCharacter
  lexer : Lexer

/-- At its end, no token is open and none will be. -/
def ended (lx : Lexer) : Lexer := { lx.cleared with done := true }

@[simp] theorem ended_cleared (lx : Lexer) : lx.cleared.ended = lx.ended := rfl

/-- The run over a text that is all there is. The last token counts in front of a character that
ends it, but at the end of the text only if the options say so. -/
def digest (lx : Lexer) (w : List Char) : Digest :=
  let swept := lx.sweep w
  let last := if swept.rest = [] ∧ lx.config.flushes = false then [] else swept.lexer.open?.toList
  { tokens := (swept.tokens ++ last).filter lx.shows
    failure := swept.rest.head?.map fun c =>
      ⟨String.singleton c, swept.lexer.position, lx.sourceName⟩
    lexer := swept.lexer.ended }

theorem reads_of_failure_eq_none {lx : Lexer} {w : List Char}
    (h : (lx.digest w).failure = none) : ∃ ts lx', Reads lx w ts lx' := by
  obtain ⟨v, hv, hreads, -⟩ := lx.sweep_reads w
  have hrest : (lx.sweep w).rest = [] := by
    simpa [digest] using h
  rw [hrest, List.append_nil] at hv
  rw [hv]
  exact ⟨_, _, hreads⟩

theorem digest_nil (lx : Lexer) : lx.digest [] =
    ⟨if lx.config.flushes then lx.open?.toList.filter lx.shows else [], none, lx.ended⟩ := by
  cases hf : lx.config.flushes <;> simp [digest, hf]

theorem digest_of_stuck {lx : Lexer} {c : Char} (h : lx.state.step? c = none) (w : List Char) :
    lx.digest (c :: w) =
      ⟨[], some ⟨String.singleton c, lx.position, lx.sourceName⟩, lx.ended⟩ := by
  have hq : lx.state = .start := (State.step?_eq_none_iff.1 h).1
  simp [digest, sweep_of_feed?_eq_none (feed?_of_stuck h), hq]

theorem digest_of_extend {lx : Lexer} {c : Char} {q : State}
    (h : lx.state.step? c = some (.extend q)) (w : List Char) :
    lx.digest (c :: w) = (lx.consume (String.singleton c) q).digest w := by
  simp only [digest, sweep_of_feed?_eq_some (feed?_of_extend h)]
  rfl

/-- A token is finalized in front of a character as if the text started there. -/
theorem digest_of_finalize {lx : Lexer} {c : Char} {t : Token}
    (h : lx.state.step? c = some .finalize) (ht : lx.open? = some t) (w : List Char) :
    lx.digest (c :: w) =
      { lx.cleared.digest (c :: w) with
        tokens := [t].filter lx.shows ++ (lx.cleared.digest (c :: w)).tokens } := by
  have hstart : lx.cleared.state.step? c = (State.ofFirst? c).map .extend := rfl
  have hfeed := feed?_of_finalize h
  cases hc : State.ofFirst? c with
  | none =>
    rw [hc] at hstart hfeed
    rw [digest_of_stuck hstart]
    simp [digest, sweep_of_feed?_eq_none hfeed, ht]
  | some q =>
    rw [hc] at hstart hfeed
    rw [digest_of_extend hstart]
    simp [digest, sweep_of_feed?_eq_some hfeed, ht, List.filter_cons]
    split <;> rfl

end FormulaLex.Lexer
