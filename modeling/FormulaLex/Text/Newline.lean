/-!
Line ends of all conventions read as newlines, also when a text arrives in portions.
-/
namespace FormulaLex.Newline

/-- A carriage return, with the newline behind it if there is one, becomes a newline. -/
def normalize : List Char → List Char
  | [] => []
  | '\r' :: '\n' :: rest => '\n' :: normalize rest
  | c :: rest => (if c == '\r' then '\n' else c) :: normalize rest

theorem notMem_normalize (chars : List Char) : '\r' ∉ normalize chars := by
  fun_induction normalize chars with
  | case1 => exact List.not_mem_nil
  | case2 rest ih =>
    apply List.not_mem_cons_of_ne_of_not_mem ?_ ih
    decide
  | case3 c rest hne ih =>
    apply List.not_mem_cons_of_ne_of_not_mem ?_ ih
    split
    · decide
    next hc => exact fun h => hc (beq_iff_eq.2 h.symm)

/-- Only carriage returns, and newlines behind them, are not kept as they are. -/
theorem normalize_of_notMem {chars : List Char} (h : '\r' ∉ chars) : normalize chars = chars := by
  fun_induction normalize chars with
  | case1 => rfl
  | case2 rest ih => exact absurd List.mem_cons_self h
  | case3 c rest hne ih =>
    have hc : c ≠ '\r' := (List.ne_of_not_mem_cons h).symm
    rw [if_neg (by simpa using hc), ih (List.not_mem_of_not_mem_cons h)]

theorem normalize_normalize (chars : List Char) : normalize (normalize chars) = normalize chars :=
  normalize_of_notMem (notMem_normalize chars)

/-- One portion in normal form. A carriage return at the end of a portion that is not final is
held back, because its newline may be the first character of the next one. -/
def translate (held final : Bool) (portion : List Char) : List Char × Bool :=
  if portion.isEmpty && !final then ([], held)
  else
    let whole := if held then '\r' :: portion else portion
    if !final && whole.getLast? == some '\r' then (normalize whole.dropLast, true)
    else (normalize whole, false)

end FormulaLex.Newline
