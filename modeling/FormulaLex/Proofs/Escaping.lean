import FormulaLex.Text.Quoted
import Mathlib.Algebra.Group.Nat.Defs

/-!
An escaped text can be read back: a decoder takes off the form of one character, whatever is behind
it.
-/
namespace FormulaLex.Text

/-- The number that a lower-case hexadecimal digit stands for. -/
def hexValue (c : Char) : Nat := if c.isDigit then c.toNat - 48 else c.toNat - 87

def hexNumber (digits : List Char) : Nat := digits.foldl (fun n d => 16 * n + hexValue d) 0

theorem hexValue_hexDigit {n : Nat} (hn : n < 16) : hexValue (hexDigit n) = n := by
  have hall : ∀ n < 16, hexValue (hexDigit n) = n := by decide
  exact hall n hn

@[simp] theorem length_hex (width n : Nat) : (hex width n).length = width := by
  induction width generalizing n with
  | zero => rfl
  | succ width ih => simp [hex, ih]

theorem hexNumber_concat (digits : List Char) (d : Char) :
    hexNumber (digits ++ [d]) = 16 * hexNumber digits + hexValue d := by
  simp [hexNumber]

theorem hexNumber_hex (width n : Nat) : hexNumber (hex width n) = n % 16 ^ width := by
  induction width generalizing n with
  | zero => simp [hex, hexNumber, Nat.mod_one]
  | succ width ih =>
    have hdigit : n % 16 < 16 := Nat.mod_lt n (by decide)
    rw [hex, hexNumber_concat, ih, hexValue_hexDigit hdigit, Nat.pow_succ', Nat.mod_mul]
    omega

/-- The character that so many digits stand for, and what is behind them. -/
def readCode (width : Nat) (text : List Char) : Char × List Char :=
  (Char.ofNat (hexNumber (text.take width)), text.drop width)

theorem readCode_hex (width : Nat) {c : Char} (hc : c.toNat < 16 ^ width) (rest : List Char) :
    readCode width (hex width c.toNat ++ rest) = (c, rest) := by
  have hlength : (hex width c.toNat).length = width := length_hex width c.toNat
  rw [readCode, List.take_left' hlength, List.drop_left' hlength, hexNumber_hex, Nat.mod_eq_of_lt hc,
    Char.ofNat_toNat]

/-- The first character of an escaped text, and what is behind its form. -/
def unescape? : List Char → Option (Char × List Char)
  | [] => none
  | c :: rest =>
    if c = backslash then
      match rest with
      | [] => none
      | 't' :: rest => some ('\t', rest)
      | 'n' :: rest => some ('\n', rest)
      | 'r' :: rest => some ('\r', rest)
      | 'x' :: rest => some (readCode 2 rest)
      | 'u' :: rest => some (readCode 4 rest)
      | 'U' :: rest => some (readCode 8 rest)
      | d :: rest => some (d, rest)
    else some (c, rest)

theorem unescape?_of_ne {c : Char} (hc : c ≠ backslash) (rest : List Char) :
    unescape? (c :: rest) = some (c, rest) := by
  simp only [unescape?, if_neg hc]

/-- A code is written in as many digits as it needs, two, four or eight, with a mark for their
number. -/
inductive Coded (n : Nat) : List Char → Prop
  | two (h : n < 16 ^ 2) : Coded n (backslash :: 'x' :: hex 2 n)
  | four (h : n < 16 ^ 4) : Coded n (backslash :: 'u' :: hex 4 n)
  | eight : Coded n (backslash :: 'U' :: hex 8 n)

theorem escapeCode_coded (n : Nat) : Coded n (escapeCode n) := by
  unfold escapeCode
  split
  next h => exact .two h
  next =>
    split
    next h => exact .four h
    next => exact .eight

theorem unescape?_escapeCode (c : Char) (rest : List Char) :
    unescape? (escapeCode c.toNat ++ rest) = some (c, rest) := by
  have hcoded := escapeCode_coded c.toNat
  generalize escapeCode c.toNat = form at hcoded
  cases hcoded with
  | two h => exact congrArg some (readCode_hex 2 h rest)
  | four h => exact congrArg some (readCode_hex 4 h rest)
  | eight =>
    have hc : c.toNat < 16 ^ 8 := by
      rcases c.valid with hlow | ⟨-, hhigh⟩
      · exact Nat.lt_trans hlow (by decide)
      · exact Nat.lt_trans hhigh (by decide)
    exact congrArg some (readCode_hex 8 hc rest)

/-- The forms in which a character is written between delimiters. -/
inductive Written (delim c : Char) : List Char → Prop
  | guarded (h : c = delim ∨ c = backslash) : Written delim c [backslash, c]
  | named {mark : Char} (h : (c, mark) ∈ [('\t', 't'), ('\n', 'n'), ('\r', 'r')]) :
      Written delim c [backslash, mark]
  | plain (hne : c ≠ backslash) (hc : isPrintable c = true) : Written delim c [c]
  | coded : Written delim c (escapeCode c.toNat)

theorem escapeChar_written (delim c : Char) : Written delim c (escapeChar delim c) := by
  unfold escapeChar
  split
  next h =>
    rw [Bool.or_eq_true, beq_iff_eq, beq_iff_eq] at h
    exact .guarded h
  next h =>
    have hne : c ≠ backslash := by
      rintro rfl
      simp at h
    split
    next ht => exact .named (by simp [eq_of_beq ht])
    next =>
      split
      next hn => exact .named (by simp [eq_of_beq hn])
      next =>
        split
        next hr => exact .named (by simp [eq_of_beq hr])
        next =>
          split
          next hc => exact .plain hne hc
          next => exact .coded

theorem delimiter_eq (s : List Char) : delimiter s = apostrophe ∨ delimiter s = doubleQuote := by
  unfold delimiter
  split
  · exact .inr rfl
  · exact .inl rfl

section Delimiter

variable {delim : Char} (hdelim : delim = apostrophe ∨ delim = doubleQuote)
include hdelim

theorem unescape?_escapeChar (c : Char) (rest : List Char) :
    unescape? (escapeChar delim c ++ rest) = some (c, rest) := by
  have hwritten := escapeChar_written delim c
  generalize escapeChar delim c = form at hwritten
  cases hwritten with
  | guarded h =>
    rcases h with rfl | rfl
    · rcases hdelim with rfl | rfl
      · rfl
      · rfl
    · rfl
  | named h =>
    simp only [List.mem_cons, Prod.mk.injEq, List.not_mem_nil, or_false] at h
    rcases h with ⟨rfl, rfl⟩ | ⟨rfl, rfl⟩ | ⟨rfl, rfl⟩
    · rfl
    · rfl
    · rfl
  | plain hne => exact unescape?_of_ne hne rest
  | coded => exact unescape?_escapeCode c rest

end Delimiter

/-- No apostrophe stands behind the backslash with which the form of an unprintable character
starts. -/
theorem escapeChar_of_unprintable {c : Char} (hc : isPrintable c = false) (delim : Char) :
    ∃ mark rest, escapeChar delim c = backslash :: mark :: rest ∧ mark ≠ apostrophe := by
  have hwritten := escapeChar_written delim c
  generalize escapeChar delim c = form at hwritten
  cases hwritten with
  | guarded =>
    refine ⟨c, [], rfl, ?_⟩
    rintro rfl
    revert hc
    decide
  | @named mark h =>
    refine ⟨mark, [], rfl, ?_⟩
    rintro rfl
    simp [apostrophe] at h
  | plain hne hplain => cases hc.symm.trans hplain
  | coded =>
    have hcoded := escapeCode_coded c.toNat
    generalize escapeCode c.toNat = form at hcoded
    cases hcoded with
    | two => exact ⟨'x', _, rfl, by decide⟩
    | four => exact ⟨'u', _, rfl, by decide⟩
    | eight => exact ⟨'U', _, rfl, by decide⟩

theorem toList_display_singleton (c : Char) : (display (String.singleton c)).toList =
    if isPrintable c then [c] else escapeChar (delimiter [c]) c := by
  cases hc : isPrintable c with
  | true => simp [display, allPrintable, hc]
  | false => simp [display, allPrintable, hc, escape]

/-- The character that is shown in front of an apostrophe, and what is behind its form. -/
def readShown? (text : List Char) : Option (Char × List Char) :=
  if text.tail.head? = some apostrophe then text.head?.map fun c => (c, text.tail)
  else unescape? text

theorem readShown?_display (c : Char) (rest : List Char) :
    readShown? ((display (String.singleton c)).toList ++ apostrophe :: rest) =
      some (c, apostrophe :: rest) := by
  rw [toList_display_singleton]
  cases hc : isPrintable c with
  | true => rfl
  | false =>
    have hread := unescape?_escapeChar (delimiter_eq [c]) c (apostrophe :: rest)
    obtain ⟨mark, form, hform, hmark⟩ := escapeChar_of_unprintable hc (delimiter [c])
    rw [hform] at hread
    rw [if_neg Bool.false_ne_true, hform, readShown?, if_neg (by simpa using hmark)]
    exact hread

end FormulaLex.Text
