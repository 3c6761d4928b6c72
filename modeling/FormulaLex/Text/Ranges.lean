/-!
Sets of code points given as ascending inclusive ranges.
-/
namespace FormulaLex.Text

/-- Ascending, disjoint, inclusive ranges of code points. -/
abbrev Ranges := List (Nat × Nat)

/-- Membership; the search ends at the first range that lies above `n`. -/
def Ranges.contains (n : Nat) : Ranges → Bool
  | [] => false
  | (lo, hi) :: rest => if n < lo then false else if n ≤ hi then true else Ranges.contains n rest

end FormulaLex.Text
