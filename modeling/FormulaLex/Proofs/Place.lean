import FormulaLex.Location
import Mathlib.Data.List.DropRight

/-!
The place behind a text, read off the text alone and not kept up along the way: longer texts have
later places, and the row and the column of a place lead back to what stands there.
-/
namespace FormulaLex.Position

/-- The place of what follows a text. If newlines are counted, each of them opens a line, and the
column counts what stands behind the last one; else all is one line. -/
def behind (countNewlines : Bool) (before : List Char) : Position :=
  if countNewlines then
    ⟨1 + before.count '\n', 1 + (before.rtakeWhile (· != '\n')).length⟩
  else ⟨1, 1 + before.length⟩

@[simp] theorem behind_nil (countNewlines : Bool) : behind countNewlines [] = start := by
  cases countNewlines <;> rfl

theorem singleton_eq_newline_iff {c : Char} : String.singleton c = "\n" ↔ c = '\n' := by
  rw [← String.toList_inj]
  simp

theorem behind_concat (countNewlines : Bool) (before : List Char) (c : Char) :
    behind countNewlines (before ++ [c]) =
      (behind countNewlines before).after countNewlines (String.singleton c) := by
  cases countNewlines with
  | false =>
    simp [behind, after]
    omega
  | true =>
    by_cases hc : c = '\n'
    · subst hc
      simp [behind, after]
      omega
    · have hs : String.singleton c ≠ "\n" := fun h => hc (singleton_eq_newline_iff.1 h)
      simp [behind, after, hc, hs]
      omega

/-- Earlier in the order in which a text is read. -/
def Precedes (p q : Position) : Prop := p.line < q.line ∨ p.line = q.line ∧ p.column < q.column

instance (p q : Position) : Decidable (p.Precedes q) := inferInstanceAs (Decidable (_ ∨ _))

theorem Precedes.trans {p q r : Position} (h : p.Precedes q) (h' : q.Precedes r) :
    p.Precedes r := by
  unfold Precedes at *
  omega

theorem precedes_after (p : Position) (countNewlines : Bool) (consumed : String) :
    p.Precedes (p.after countNewlines consumed) := by
  unfold Precedes after
  split
  · exact .inl (Int.lt_succ p.line)
  · exact .inr ⟨rfl, Int.lt_succ p.column⟩

theorem behind_precedes (countNewlines : Bool) (before : List Char) {w : List Char} (hw : w ≠ []) :
    (behind countNewlines before).Precedes (behind countNewlines (before ++ w)) := by
  induction w using List.reverseRecOn with
  | nil => exact absurd rfl hw
  | append_singleton w c ih =>
    rw [← List.append_assoc, behind_concat]
    have hlast := precedes_after (behind countNewlines (before ++ w)) countNewlines
      (String.singleton c)
    by_cases hnil : w = []
    · subst hnil
      rwa [List.append_nil] at hlast ⊢
    · exact (ih hnil).trans hlast

theorem splitOn_cons (c : Char) (w : List Char) : (c :: w).splitOn '\n' =
    if c = '\n' then [] :: w.splitOn '\n' else (w.splitOn '\n').modifyHead (c :: ·) := by
  simp only [List.splitOn_eq_splitOnP, List.splitOnP_cons_eq_if_modifyHead, beq_iff_eq]

theorem length_splitOn (w : List Char) : (w.splitOn '\n').length = w.count '\n' + 1 := by
  induction w with
  | nil => rfl
  | cons c w ih =>
    rw [splitOn_cons]
    split
    next hc => simp [hc, ih]
    next hc => simp [hc, ih]

theorem splitOn_getElem?_zero (w : List Char) :
    (w.splitOn '\n')[0]? = some (w.takeWhile (· != '\n')) := by
  induction w with
  | nil => rfl
  | cons c w ih =>
    rw [splitOn_cons]
    split
    next hc => simp [hc]
    next hc => simp [hc, ih]

/-- The row of a place: what is in front of it behind the last newline, and what follows it up to
the next one. -/
theorem splitOn_getElem?_count (before rest : List Char) :
    ((before ++ rest).splitOn '\n')[before.count '\n']? =
      some (before.rtakeWhile (· != '\n') ++ rest.takeWhile (· != '\n')) := by
  induction before using List.reverseRecOn generalizing rest with
  | nil => exact splitOn_getElem?_zero rest
  | append_singleton before c ih =>
    rw [List.append_assoc, List.singleton_append]
    by_cases hc : c = '\n'
    · subst hc
      have hrows : (before ++ '\n' :: rest).splitOn '\n' =
          before.splitOn '\n' ++ rest.splitOn '\n' := by
        simp only [List.splitOn_eq_splitOnP]
        exact List.splitOnP_append_cons before rest rfl
      have hcount : (before ++ ['\n']).count '\n' = (before.splitOn '\n').length := by
        simp [length_splitOn]
      rw [hrows, hcount, List.getElem?_append_right (Nat.le_refl _), Nat.sub_self,
        splitOn_getElem?_zero, List.rtakeWhile_concat_neg _ _ _ (by simp), List.nil_append]
    · have hcount : (before ++ [c]).count '\n' = before.count '\n' := by simp [hc]
      rw [hcount, ih (c :: rest), List.rtakeWhile_concat_pos _ _ _ (by simpa using hc)]
      simp [hc]

theorem exists_row_of_behind {w : List Char} (hw : '\n' ∉ w) (before rest : List Char) :
    let place := behind true before
    ∃ row, ((before ++ w ++ rest).splitOn '\n')[(place.line - 1).toNat]? = some row ∧
      (row.drop (place.column - 1).toNat).take w.length = w := by
  intro place
  have hline : (place.line - 1).toNat = before.count '\n' := by
    simp only [place, behind, ↓reduceIte]
    omega
  have hcolumn : (place.column - 1).toNat = (before.rtakeWhile (· != '\n')).length := by
    simp only [place, behind, ↓reduceIte]
    omega
  have htaken : (w ++ rest).takeWhile (· != '\n') = w ++ rest.takeWhile (· != '\n') := by
    apply List.takeWhile_append_of_pos
    intro c hc
    rw [bne_iff_ne]
    rintro rfl
    exact hw hc
  rw [List.append_assoc, hline, hcolumn, splitOn_getElem?_count, htaken]
  refine ⟨_, rfl, ?_⟩
  rw [List.drop_left, List.take_left]

end FormulaLex.Position
