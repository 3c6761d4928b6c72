import FormulaLex.Proofs.Grammar

/-!
Maximal munch as a reading of the grammar alone: from the front of a text the longest prefix that
belongs to any class is cut off, again and again. The automaton finds such a prefix without trying
any other, because it can go on exactly as long as there is a longer one.
-/
namespace FormulaLex

/-- `w` is in the class `k`, and no longer prefix of `w ++ rest` is in any class. -/
structure IsLongest (k : Kind) (w rest : List Char) : Prop where
  contains : k.Contains w
  length_le {k' : Kind} {w' : List Char} (h : w' <+: w ++ rest) (h' : k'.Contains w') :
    w'.length ≤ w.length

/-- A text, its cuts by longest match, and the character with which no class goes on, if the cutting
comes to one before the text ends. No class has the empty text. -/
inductive Munched : List Char → List (Kind × List Char) → Option Char → Prop
  | finished : Munched [] [] none
  | failed {c : Char} {rest : List Char} (h : ∀ k w, w <+: c :: rest → ¬ Kind.Contains k w) :
      Munched (c :: rest) [] (some c)
  | token {k : Kind} {w rest : List Char} {cuts : List (Kind × List Char)} {stop : Option Char}
      (h : IsLongest k w rest) (hrest : Munched rest cuts stop) :
      Munched (w ++ rest) ((k, w) :: cuts) stop

namespace State

theorem contains_of_run? {q : State} {w : List Char} (h : start.run? w = some q) (hw : w ≠ []) :
    ∃ k : Kind, k.Contains w := by
  cases hk : q.kind? with
  | none =>
    rw [kind?_eq_none_iff.1 hk, run?_start_eq_start_iff] at h
    exact absurd h hw
  | some k => exact ⟨k, Kind.contains_iff.2 ⟨q, h, hk⟩⟩

end State

/-- A match is longest just if the automaton does not go on behind it. -/
theorem isLongest_iff {k : Kind} {w rest : List Char} : IsLongest k w rest ↔
    ∃ q, State.start.run? w = some q ∧ q.kind? = some k ∧ ∀ c ∈ rest.head?, q.grow? c = none := by
  constructor
  · intro h
    obtain ⟨q, hq, hk⟩ := Kind.contains_iff.1 h.contains
    refine ⟨q, hq, hk, ?_⟩
    intro c hc
    cases hg : q.grow? c with
    | none => rfl
    | some q' =>
      have hrun : State.start.run? (w ++ [c]) = some q' := by rw [State.run?_concat, hq]; exact hg
      obtain ⟨k', hk'⟩ := State.contains_of_run? hrun (by simp)
      obtain ⟨rest', rfl⟩ := List.head?_eq_some_iff.1 hc
      have hle := h.length_le ⟨rest', by simp⟩ hk'
      rw [List.length_append, List.length_singleton] at hle
      omega
  · rintro ⟨q, hq, hk, hstop⟩
    refine ⟨Kind.contains_iff.2 ⟨q, hq, hk⟩, ?_⟩
    intro k' w' hpre hw'
    by_contra hlt
    obtain ⟨q', hq', -⟩ := Kind.contains_iff.1 hw'
    obtain ⟨v, rfl⟩ := List.prefix_of_prefix_length_le (List.prefix_append w rest) hpre (by omega)
    rw [List.prefix_append_right_inj] at hpre
    cases v with
    | nil => simp at hlt
    | cons c v =>
      obtain ⟨rest', rfl⟩ := hpre
      rw [List.append_cons, State.run?_append, State.run?_concat, hq] at hq'
      have hnone := hstop c (by simp)
      simp [hnone] at hq'

/-- Where no class goes on, the automaton has no first step. -/
theorem no_contains_iff {c : Char} {rest : List Char} :
    (∀ k w, w <+: c :: rest → ¬ Kind.Contains k w) ↔ State.ofFirst? c = none := by
  constructor
  · intro h
    cases hc : State.ofFirst? c with
    | none => rfl
    | some q =>
      have hrun : State.start.run? [c] = some q := by
        rw [← List.nil_append [c], State.run?_concat]
        simpa using hc
      obtain ⟨k, hk⟩ := State.contains_of_run? hrun (by simp)
      exact absurd hk (h k [c] ⟨rest, rfl⟩)
  · intro h k w hw hk
    obtain ⟨q, hq, -⟩ := Kind.contains_iff.1 hk
    cases w with
    | nil => exact hk.ne_nil rfl
    | cons d v =>
      obtain ⟨rfl, -⟩ := List.cons_prefix_cons.1 hw
      obtain ⟨q', hq'⟩ := State.exists_run?_of_isPrefix hq (u := [d]) ⟨v, rfl⟩
      rw [← List.nil_append [d], State.run?_concat] at hq'
      simp [h] at hq'

theorem IsLongest.unique {k k' : Kind} {w w' rest rest' : List Char} (h : IsLongest k w rest)
    (h' : IsLongest k' w' rest') (he : w ++ rest = w' ++ rest') :
    k = k' ∧ w = w' ∧ rest = rest' := by
  have hle := h.length_le (he ▸ List.prefix_append w' rest') h'.contains
  have hge := h'.length_le (he ▸ List.prefix_append w rest) h.contains
  obtain ⟨rfl, rfl⟩ := List.append_inj he (Nat.le_antisymm hge hle)
  exact ⟨h.contains.unique h'.contains, rfl, rfl⟩

theorem Munched.contains {s : List Char} {cuts : List (Kind × List Char)} {stop : Option Char}
    (h : Munched s cuts stop) : ∀ cut ∈ cuts, cut.1.Contains cut.2 := by
  induction h with
  | finished => simp
  | failed => simp
  | token hw _ ih => exact List.forall_mem_cons.2 ⟨hw.contains, ih⟩

theorem Munched.unique {s : List Char} {cuts cuts' : List (Kind × List Char)}
    {stop stop' : Option Char} (h : Munched s cuts stop) (h' : Munched s cuts' stop') :
    cuts = cuts' ∧ stop = stop' := by
  induction h generalizing cuts' stop' with
  | finished =>
    generalize hs : ([] : List Char) = s at h'
    cases h' with
    | finished => exact ⟨rfl, rfl⟩
    | failed => cases hs
    | token hw _ => exact absurd (List.append_eq_nil_iff.1 hs.symm).1 hw.contains.ne_nil
  | @failed c rest hno =>
    generalize hs : c :: rest = s at h'
    cases h' with
    | finished => cases hs
    | failed => cases hs; exact ⟨rfl, rfl⟩
    | token hw _ => exact absurd hw.contains (hno _ _ (hs ▸ List.prefix_append _ _))
  | @token k w rest cuts stop hw _ ih =>
    generalize hs : w ++ rest = s at h'
    cases h' with
    | finished => exact absurd (List.append_eq_nil_iff.1 hs).1 hw.contains.ne_nil
    | failed hno => exact absurd hw.contains (hno _ _ (hs ▸ List.prefix_append _ _))
    | token hw' hrest' =>
      obtain ⟨rfl, rfl, rfl⟩ := hw.unique hw' hs
      obtain ⟨rfl, rfl⟩ := ih hrest'
      exact ⟨rfl, rfl⟩

end FormulaLex
