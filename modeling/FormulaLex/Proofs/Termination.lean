import FormulaLex.Proofs.Delivery
import FormulaLex.Source.Feed

/-!
Every pull comes to its end on a source that has finitely many characters left, also if the source
shows its end before them or fails in between; and a lexer gives no more tokens than there are
characters. A turn that goes on takes a character, or else finalizes the open token, behind which the
next turn cannot do the same.
-/
namespace FormulaLex

variable {σ ε : Type}

/-- `Left s n` says that in the state `s` the source has `n` characters left. A look ahead takes none
of them away, whether it shows one, shows none or fails; the one that it shows is taken away by the
reading behind it. -/
structure CharSource.Depletes (src : CharSource σ ε) (Left : σ → Nat → Prop) : Prop where
  peek {s : σ} {n : Nat} (h : Left s n) : Left (src.peek s).2 n
  read {s s' : σ} {n : Nat} {ahead : String} (h : Left s n) (hp : src.peek s = (.ok ahead, s'))
    (hne : ahead ≠ "") : ∃ m, n = m + 1 ∧ Left (src.read s').2 m

theorem CharSource.Depletes.of_peek {src : CharSource σ ε} {Left : σ → Nat → Prop}
    (hsrc : src.Depletes Left) {s s' : σ} {n : Nat} (h : Left s n) {ahead : Except ε String}
    (hp : src.peek s = (ahead, s')) : Left s' n := by
  have hleft := hsrc.peek h
  rw [hp] at hleft
  exact hleft

theorem CharSource.Depletes.of_read {src : CharSource σ ε} {Left : σ → Nat → Prop}
    (hsrc : src.Depletes Left) {s s' s'' : σ} {n : Nat} (h : Left s n) {ahead : String}
    (hp : src.peek s = (.ok ahead, s')) (hne : ahead ≠ "") {taken : Except ε String}
    (hr : src.read s' = (taken, s'')) : ∃ m, n = m + 1 ∧ Left s'' m := by
  obtain ⟨m, hm, hleft⟩ := hsrc.read h hp hne
  rw [hr] at hleft
  exact ⟨m, hm, hleft⟩

namespace Lexer

variable {src : CharSource σ ε} {Left : σ → Nat → Prop} {lx : Lexer} {s : σ} {n : Nat}

/-- A bound on the tokens that can still come: the open one, and one for each character left. It is
the `load` of a text of which only the length is known. -/
def tokensLeft (lx : Lexer) (n : Nat) : Nat := n + if lx.state = .start then 0 else 1

theorem le_tokensLeft (lx : Lexer) (n : Nat) : n ≤ lx.tokensLeft n := Nat.le_add_right n _

theorem tokensLeft_le (lx : Lexer) (n : Nat) : lx.tokensLeft n ≤ n + 1 := by
  unfold tokensLeft
  split
  · exact Nat.le_succ n
  · exact Nat.le_refl (n + 1)

@[simp] theorem tokensLeft_cleared (lx : Lexer) (n : Nat) : lx.cleared.tokensLeft n = n := rfl

theorem tokensLeft_of_open? {t : Token} (ht : lx.open? = some t) (n : Nat) :
    lx.tokensLeft n = n + 1 := by
  rw [tokensLeft, if_neg (ne_start_of_open? ht)]

/-- The sequence is over, or at most `k` tokens can still come. -/
def Allows (Left : σ → Nat → Prop) (k : Nat) (lx : Lexer) (s : σ) : Prop :=
  lx.done = true ∨ ∃ n, Left s n ∧ lx.tokensLeft n ≤ k

/-- Nothing but a fault of the source keeps a pull from its outcome. -/
def Pull.Returns (pull : Pull σ ε) : Prop :=
  ∀ cause, pull.outcome = .error cause → ∃ fault, cause = .source fault

theorem Pull.Returns.ne_outOfFuel {pull : Pull σ ε} (h : pull.Returns) :
    pull.outcome ≠ .error .outOfFuel := by
  intro hcut
  obtain ⟨fault, hfault⟩ := h _ hcut
  cases hfault

theorem returns_of_fault {fault : ε} {events : List Event} :
    (⟨.error (.source fault), lx, s, events⟩ : Pull σ ε).Returns := by
  intro cause hcause
  cases hcause
  exact ⟨fault, rfl⟩

theorem returns_of_ok {o : Outcome} {events : List Event} :
    (⟨.ok o, lx, s, events⟩ : Pull σ ε).Returns := nofun

/-- A pull gives no more tokens than could come, and those that it does not give can still come. -/
def Pull.Spends (Left : σ → Nat → Prop) (k : Nat) (pull : Pull σ ε) : Prop :=
  ∃ rest, pull.emitted.length + rest ≤ k ∧ pull.lexer.Allows Left rest pull.source

theorem Pull.Spends.of_quiet {pull : Pull σ ε} {k : Nat} (hquiet : pull.emitted = [])
    (h : pull.lexer.Allows Left k pull.source) : pull.Spends Left k := by
  refine ⟨k, ?_, h⟩
  rw [hquiet]
  exact Nat.le_of_eq (Nat.zero_add k)

/-- A turn that goes on takes a character or finalizes the open token. -/
def Turn.Depletes (Left : σ → Nat → Prop) (lx : Lexer) (n : Nat) : Turn σ ε → Prop
  | again lx' s' => ∃ n', Left s' n' ∧ lx'.tokensLeft n' ≤ lx.tokensLeft n ∧
      n' + lx'.tokensLeft n' < n + lx.tokensLeft n
  | stop pull => pull.Returns ∧ pull.Spends Left (lx.tokensLeft n)

theorem emitted_conclude (src : CharSource σ ε) (lx : Lexer) (s : σ) {o : Outcome}
    (hquiet : ∀ t, o ≠ .emitted t) (event : Event) : (lx.conclude src s o event).emitted = [] := by
  unfold Pull.emitted
  split
  next t ht => exact absurd (outcome_of_conclude ht).symm (hquiet t)
  next => rfl

theorem conclude_depletes (src : CharSource σ ε) (lx : Lexer) (s : σ) {o : Outcome}
    (hquiet : ∀ t, o ≠ .emitted t) (event : Event) (lx₀ : Lexer) (n : Nat) :
    (Turn.stop (lx.conclude src s o event)).Depletes Left lx₀ n := by
  constructor
  · intro cause hcause
    rw [conclude_eq] at hcause
    cases hclose : (src.close s).1 with
    | error e =>
      rw [hclose] at hcause
      cases hcause
      exact ⟨e, rfl⟩
    | ok =>
      rw [hclose] at hcause
      cases hcause
  · apply Pull.Spends.of_quiet
    · exact emitted_conclude src lx s hquiet event
    · exact .inl (conclude_done src lx s o event)

theorem turn_depletes (hsrc : src.Depletes Left) (h : Left s n) (lx : Lexer) :
    (lx.turn src s).Depletes Left lx n := by
  have hturned := turn_turned src lx s
  generalize lx.turn src s = turn at hturned
  generalize lx.turnFinalizes src s = ts at hturned
  cases hturned with
  | peekFault hp =>
    have hleft := hsrc.of_peek h hp
    exact ⟨returns_of_fault, .of_quiet rfl (.inr ⟨n, hleft, Nat.le_refl _⟩)⟩
  | readFault hp hne hq hr =>
    obtain ⟨m, rfl, hleft⟩ := hsrc.of_read h hp hne hr
    have hle : lx.tokensLeft m ≤ lx.tokensLeft (m + 1) := Nat.add_le_add_right (Nat.le_succ m) _
    exact ⟨returns_of_fault, .of_quiet rfl (.inr ⟨m, hleft, hle⟩)⟩
  | @consumed ahead taken q s' s'' hp hne hq hr =>
    obtain ⟨m, rfl, hleft⟩ := hsrc.of_read h hp hne hr
    have hle : (lx.consume ahead q).tokensLeft m ≤ lx.tokensLeft (m + 1) :=
      Nat.le_trans (tokensLeft_le _ m) (lx.le_tokensLeft (m + 1))
    exact ⟨m, hleft, hle, Nat.add_lt_add_of_lt_of_le (Nat.lt_succ_self m) hle⟩
  | emitted hp ht hshow =>
    refine ⟨returns_of_ok, n, ?_, .inr ⟨n, hsrc.of_peek h hp, Nat.le_refl n⟩⟩
    rw [tokensLeft_of_open? ht]
    exact Nat.le_of_eq (Nat.add_comm 1 n)
  | hidden hp ht hshow =>
    refine ⟨n, hsrc.of_peek h hp, ?_⟩
    rw [tokensLeft_of_open? ht, tokensLeft_cleared]
    omega
  | hiddenAtEnd => exact conclude_depletes src _ _ Outcome.finished_ne_emitted _ lx n
  | ended => exact conclude_depletes src _ _ Outcome.finished_ne_emitted _ lx n
  | failed => exact conclude_depletes src _ _ (Outcome.failed_ne_emitted _) _ lx n

/-- The turns suffice when there are more of them than characters left and tokens still to come. -/
theorem scan_depletes (hsrc : src.Depletes Left) {fuel : Nat} (h : Left s n)
    (hf : n + lx.tokensLeft n < fuel) : (lx.scan src fuel s).Returns := by
  induction fuel generalizing lx s n with
  | zero => exact absurd hf (Nat.not_lt_zero _)
  | succ fuel ih =>
    have hturn := turn_depletes hsrc h lx
    cases ht : lx.turn src s with
    | stop pull =>
      rw [ht] at hturn
      rw [scan_of_stop ht]
      exact hturn.1
    | again lx' s' =>
      rw [ht] at hturn
      obtain ⟨n', h', -, hless⟩ := hturn
      rw [scan_of_again ht]
      apply ih h'
      omega

theorem advance_depletes (hsrc : src.Depletes Left) (h : Left s n) (lx : Lexer) {fuel : Nat}
    (hf : 2 * n + 2 ≤ fuel) : (lx.advance src fuel s).Returns := by
  cases hd : lx.done with
  | true =>
    rw [advance_eq_finished src hd]
    exact returns_of_ok
  | false =>
    rw [advance_eq_scan src hd]
    have hle := lx.tokensLeft_le n
    apply scan_depletes hsrc h
    omega

/-- A pull that was not cut short is the same with more turns. -/
theorem scan_of_le {fuel fuel' : Nat} (h : (lx.scan src fuel s).outcome ≠ .error .outOfFuel)
    (hle : fuel ≤ fuel') : lx.scan src fuel' s = lx.scan src fuel s := by
  induction fuel generalizing fuel' lx s with
  | zero => exact absurd rfl h
  | succ fuel ih =>
    obtain ⟨more, rfl⟩ := Nat.exists_eq_add_of_le' hle
    cases ht : lx.turn src s with
    | stop pull => rw [← Nat.add_assoc, scan_of_stop ht, scan_of_stop ht]
    | again lx' s' =>
      rw [scan_of_again ht] at h
      rw [← Nat.add_assoc, scan_of_again ht, scan_of_again ht]
      exact ih h (Nat.le_add_left fuel more)

theorem advance_of_le {fuel fuel' : Nat}
    (h : (lx.advance src fuel s).outcome ≠ .error .outOfFuel) (hle : fuel ≤ fuel') :
    lx.advance src fuel' s = lx.advance src fuel s := by
  cases hd : lx.done with
  | true => rw [advance_eq_finished src hd, advance_eq_finished src hd]
  | false =>
    rw [advance_eq_scan src hd] at h
    rw [advance_eq_scan src hd, advance_eq_scan src hd]
    exact scan_of_le h hle

theorem Pull.Spends.mono {pull : Pull σ ε} {k k' : Nat} (h : pull.Spends Left k) (hle : k ≤ k') :
    pull.Spends Left k' := by
  obtain ⟨rest, hrest, hallows⟩ := h
  exact ⟨rest, Nat.le_trans hrest hle, hallows⟩

theorem Allows.advance (hsrc : src.Depletes Left) {k : Nat} (h : lx.Allows Left k s) (fuel : Nat) :
    (lx.advance src fuel s).Spends Left k := by
  cases hd : lx.done with
  | true =>
    rw [advance_eq_finished src hd]
    exact .of_quiet rfl (.inl hd)
  | false =>
    rw [advance_eq_scan src hd]
    have hopen : ∃ n, Left s n ∧ lx.tokensLeft n ≤ k := by
      rcases h with hdone | hopen
      · cases hd.symm.trans hdone
      · exact hopen
    apply scan_leads (I := fun lx s => ∃ n, Left s n ∧ lx.tokensLeft n ≤ k) ?_ ?_ fuel hopen
    · rintro lx s ⟨n, h, hk⟩
      have hturn := turn_depletes hsrc h lx
      generalize lx.turn src s = turn at hturn
      cases turn with
      | again lx' s' =>
        obtain ⟨n', h', hle, -⟩ := hturn
        exact ⟨n', h', Nat.le_trans hle hk⟩
      | stop pull => exact hturn.2.mono hk
    · rintro lx s hopen
      exact .of_quiet rfl (.inr hopen)

theorem Reached.spends (hsrc : src.Depletes Left) {lx₀ : Lexer} {s₀ : σ} {k : Nat}
    (h₀ : lx₀.Allows Left k s₀) {finalized emitted : List Token}
    (h : Reached src lx₀ s₀ finalized emitted lx s) :
    ∃ rest, emitted.length + rest ≤ k ∧ lx.Allows Left rest s := by
  induction h with
  | new => exact ⟨k, Nat.le_of_eq (Nat.zero_add k), h₀⟩
  | pull fuel h ih =>
    obtain ⟨rest, hrest, hallows⟩ := ih
    obtain ⟨rest', hrest', hallows'⟩ := hallows.advance hsrc fuel
    refine ⟨rest', ?_, hallows'⟩
    rw [List.length_append]
    omega

theorem Allows.returns (hsrc : src.Depletes Left) {k fuel : Nat} (h : lx.Allows Left k s)
    (hf : 2 * k + 2 ≤ fuel) : (lx.advance src fuel s).Returns := by
  rcases h with hd | ⟨n, h, hk⟩
  · rw [advance_eq_finished src hd]
    exact returns_of_ok
  · apply advance_depletes hsrc h
    have hle := lx.le_tokensLeft n
    omega

theorem Allows.take (hsrc : src.Depletes Left) {k fuel count : Nat} (h : lx.Allows Left k s)
    (hf : 2 * k + 2 ≤ fuel) (hc : k < count) :
    ∃ ending, (lx.take src fuel count s).ending = some ending ∧
      ∀ cause, ending = .interrupted cause → ∃ fault, cause = .source fault := by
  induction count generalizing k lx s with
  | zero => exact absurd hc (Nat.not_lt_zero k)
  | succ count ih =>
    have hreturns := h.returns hsrc hf
    obtain ⟨rest, hrest, hallows⟩ := h.advance hsrc fuel
    rw [Lexer.take]
    generalize lx.advance src fuel s = pull at hreturns hrest hallows
    obtain ⟨outcome, lx', s', events⟩ := pull
    cases outcome with
    | error cause =>
      refine ⟨.interrupted cause, rfl, ?_⟩
      intro cause' hcause
      cases hcause
      exact hreturns cause rfl
    | ok o =>
      cases o with
      | finished =>
        refine ⟨.finished, rfl, ?_⟩
        intro cause hcause
        cases hcause
      | failed e =>
        refine ⟨.failed e, rfl, ?_⟩
        intro cause hcause
        cases hcause
      | emitted t =>
        have hless : 1 + rest ≤ k := hrest
        exact ih hallows (by omega) (by omega)

theorem Allows.length_take_le (hsrc : src.Depletes Left) {k : Nat} (h : lx.Allows Left k s)
    (fuel count : Nat) : (lx.take src fuel count s).tokens.length ≤ k := by
  induction count generalizing k lx s with
  | zero => exact Nat.zero_le k
  | succ count ih =>
    obtain ⟨rest, hrest, hallows⟩ := h.advance hsrc fuel
    rw [Lexer.take]
    generalize lx.advance src fuel s = pull at hrest hallows
    obtain ⟨outcome, lx', s', events⟩ := pull
    cases outcome with
    | error cause => exact Nat.zero_le k
    | ok o =>
      cases o with
      | finished => exact Nat.zero_le k
      | failed e => exact Nat.zero_le k
      | emitted t =>
        have hless : 1 + rest ≤ k := hrest
        have htokens := ih hallows
        rw [List.length_cons]
        omega

end Lexer

/-- A source with a text to deliver has as many characters left as the text. -/
theorem CharSource.Delivers.depletes {src : CharSource σ ε} {Holds : σ → List Char → Prop}
    (hsrc : src.Delivers Holds) : src.Depletes fun s n => ∃ w, Holds s w ∧ w.length = n where
  peek {s n} h := by
    obtain ⟨w, h, hn⟩ := h
    cases w with
    | nil =>
      obtain ⟨s', hp, h'⟩ := hsrc.peek_nil h
      rw [hp]
      exact ⟨[], h', hn⟩
    | cons c w =>
      obtain ⟨s', hp, h'⟩ := hsrc.peek_cons h
      rw [hp]
      exact ⟨c :: w, h', hn⟩
  read {s s' n ahead} h hp hne := by
    obtain ⟨w, h, hn⟩ := h
    cases w with
    | nil =>
      obtain ⟨shown, hshown, -⟩ := hsrc.peek_nil h
      cases hp.symm.trans hshown
      exact absurd rfl hne
    | cons c w =>
      obtain ⟨shown, hshown, h'⟩ := hsrc.peek_cons h
      cases hp.symm.trans hshown
      obtain ⟨behind, hr, h''⟩ := hsrc.read_cons h'
      rw [hr]
      exact ⟨w.length, hn.symm, w, h'', rfl⟩

/-- An item that shows something. -/
def FeedItem.showsText : FeedItem → Bool
  | .text s => s != ""
  | .fail _ => false

namespace Feed

def textsLeft (f : Feed) : Nat := f.items.countP FeedItem.showsText

theorem depletes : source.Depletes fun f n => f.textsLeft = n where
  peek {f n} h := by
    subst h
    rcases f with ⟨_ | ⟨item, rest⟩, fault, closings⟩
    · rfl
    · cases item with
      | fail message => simp [source, peek, textsLeft, FeedItem.showsText]
      | text s =>
        by_cases hs : s = ""
        · simp [source, peek, textsLeft, FeedItem.showsText, hs]
        · simp [source, peek, hs]
  read {f f' n ahead} h hp hne := by
    subst h
    rcases f with ⟨_ | ⟨item, rest⟩, fault, closings⟩
    · cases hp
      exact absurd rfl hne
    · cases item with
      | fail message => cases hp
      | text s =>
        simp only [source, peek, Prod.mk.injEq, Except.ok.injEq] at hp
        obtain ⟨rfl, hf'⟩ := hp
        rw [if_neg (by simpa using hne)] at hf'
        subst hf'
        refine ⟨rest.countP FeedItem.showsText, ?_, ?_⟩
        · exact List.countP_cons_of_pos (by simpa [FeedItem.showsText] using hne)
        · simp [source, read, peek, hne, textsLeft]

end Feed

namespace Lexer

variable {src : CharSource σ ε} {Left : σ → Nat → Prop} {s : σ} {n : Nat}

theorem collect_text (lx : Lexer) (text : TextSource) :
    let harvest := lx.collect (TextSource.source (ε := ε)) text
    harvest.tokens.length ≤ text.rest.length + 1 ∧
      (harvest.ending = some .finished ∨ ∃ e, harvest.ending = some (.failed e)) := by
  intro harvest
  have hallows : lx.Allows (fun text n => ∃ w, text.rest = w ∧ w.length = n)
      (text.rest.length + 1) text :=
    .inr ⟨_, ⟨_, rfl, rfl⟩, lx.tokensLeft_le text.rest.length⟩
  refine ⟨hallows.length_take_le TextSource.delivers.depletes _ _, ?_⟩
  cases hd : lx.done with
  | true =>
    left
    simp only [harvest, collect, take, advance_eq_finished _ hd, Option.getD_some]
  | false =>
    obtain ⟨s', hs'⟩ := collect_eq (ε := ε) TextSource.delivers (s := text) rfl hd
    have hending : harvest.ending = some (lx.digest text.rest).ending := congrArg Harvest.ending hs'
    rw [hending, Digest.ending]
    cases (lx.digest text.rest).failure with
    | none => exact .inl rfl
    | some e => exact .inr ⟨e, rfl⟩

/-- On a source that has `n` characters left, in whatever state the lexer is, `2 * n + 2` turns
suffice for a pull, and more make no difference. A new lexer emits at most `n` tokens, whatever pulls
are made, and an iteration that may have one more comes to its end. So any iteration over a text
ends, behind the last token or at an invalid character. -/
theorem scanning_ends (hsrc : src.Depletes Left) (h : Left s n) :
    (∀ (lx : Lexer) (fuel : Nat), 2 * n + 2 ≤ fuel →
      (∀ cause, (lx.advance src fuel s).outcome = .error cause → ∃ fault, cause = .source fault) ∧
        lx.advance src fuel s = lx.advance src (2 * n + 2) s) ∧
      (∀ (sourceName : Option String) (config : Config),
        let new := (create src.label sourceName config).1
        (∀ finalized emitted lx s', Reached src new s finalized emitted lx s' →
          emitted.length ≤ n) ∧
        ∀ fuel count, 2 * n + 2 ≤ fuel → n < count → ∃ ending,
          (new.take src fuel count s).ending = some ending ∧
            ∀ cause, ending = .interrupted cause → ∃ fault, cause = .source fault) ∧
      ∀ (lx : Lexer) (text : TextSource),
        let harvest := lx.collect (TextSource.source (ε := ε)) text
        harvest.tokens.length ≤ text.rest.length + 1 ∧
          (harvest.ending = some .finished ∨ ∃ e, harvest.ending = some (.failed e)) := by
  refine ⟨?_, ?_, collect_text⟩
  · intro lx fuel hf
    have hreturns := advance_depletes hsrc h lx (Nat.le_refl (2 * n + 2))
    have hsame := advance_of_le hreturns.ne_outOfFuel hf
    rw [hsame]
    exact ⟨hreturns, rfl⟩
  · intro sourceName config new
    have hallows : new.Allows Left n s := .inr ⟨n, h, Nat.le_refl n⟩
    constructor
    · intro finalized emitted lx s' hreached
      obtain ⟨rest, hrest, -⟩ := hreached.spends hsrc hallows
      exact Nat.le_of_add_right_le hrest
    · intro fuel count hf hc
      exact hallows.take hsrc hf hc

/-- A feed that ends behind each of its characters gives as many tokens as it can. -/
theorem feed_of_flushed_tokens_ends :
    let feed : Feed := ⟨[.text "1", .text "", .text "*", .text "", .text "b"], none, 0⟩
    let new := (create Feed.label none {}).1
    let harvest := new.take Feed.source 8 4 feed
    feed.textsLeft = 3 ∧ new.advance Feed.source 100 feed = new.advance Feed.source 8 feed ∧
      (∀ finalized emitted lx s', Reached Feed.source new feed finalized emitted lx s' →
        emitted.length ≤ 3) ∧
      harvest.tokens.map Token.text = ["1", "*", "b"] ∧
      ∃ ending, harvest.ending = some ending ∧
        ∀ cause, ending = .interrupted cause → ∃ fault, cause = .source fault := by
  intro feed new harvest
  have hleft : feed.textsLeft = 3 := by decide
  obtain ⟨hpull, hrun, -⟩ := scanning_ends Feed.depletes hleft
  obtain ⟨hreached, hends⟩ := hrun none {}
  exact ⟨hleft, (hpull new 100 (by decide)).2, hreached, by decide, hends 8 4 (by decide) (by decide)⟩

end Lexer

end FormulaLex
