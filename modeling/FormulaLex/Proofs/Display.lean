import FormulaLex.Proofs.Unambiguity

/-!
What is shown of a text is printable, and it tells the text: a single character always, and a longer
text when it was not printable as it is. So the text of an error is printable too, and one line.
-/
namespace FormulaLex.Text

theorem allPrintable_cons_iff {c : Char} {s : List Char} :
    allPrintable (c :: s) ↔ isPrintable c ∧ allPrintable s := by
  rw [allPrintable, List.all_cons, Bool.and_eq_true]
  rfl

theorem allPrintable_append_iff {u v : List Char} :
    allPrintable (u ++ v) ↔ allPrintable u ∧ allPrintable v := by
  rw [allPrintable, List.all_append, Bool.and_eq_true]
  rfl

theorem isPrintable_of_ascii {c : Char} (hlow : 0x1F < c.toNat) (hhigh : c.toNat < 0x7F) :
    isPrintable c := by
  obtain ⟨rest, hrest⟩ : ∃ rest, unprintable = (0x0, 0x1F) :: (0x7F, 0xA0) :: rest := ⟨_, rfl⟩
  rw [isPrintable, hrest, Ranges.contains, if_neg (Nat.not_lt_zero _), if_neg (Nat.not_le.2 hlow),
    Ranges.contains, if_pos hhigh]
  rfl

theorem isPrintable_of_isIntegral {c : Char} (hc : isIntegral c) : isPrintable c := by
  rw [isIntegral, Bool.or_eq_true, beq_iff_eq] at hc
  rcases hc with hdigit | rfl
  · rw [Char.isDigit, Bool.and_eq_true, decide_eq_true_iff, decide_eq_true_iff] at hdigit
    have hlow : 48 ≤ c.toNat := hdigit.1
    have hhigh : c.toNat ≤ 57 := hdigit.2
    exact isPrintable_of_ascii (by omega) (by omega)
  · decide

theorem allPrintable_number (n : Int) : allPrintable (toString n).toList := by
  have hdigits := all_isIntegral_toString n
  rw [List.all_eq_true] at hdigits
  rw [allPrintable, List.all_eq_true]
  intro c hc
  exact isPrintable_of_isIntegral (hdigits c hc)

section Escaping

theorem isPrintable_hexDigit {n : Nat} (hn : n < 16) : isPrintable (hexDigit n) := by
  have hall : ∀ n < 16, isPrintable (hexDigit n) := by decide
  exact hall n hn

theorem allPrintable_hex (width n : Nat) : allPrintable (hex width n) := by
  induction width generalizing n with
  | zero => rfl
  | succ width ih =>
    have hdigit : isPrintable (hexDigit (n % 16)) := isPrintable_hexDigit (Nat.mod_lt n (by decide))
    apply allPrintable_append_iff.2
    exact ⟨ih (n / 16), allPrintable_cons_iff.2 ⟨hdigit, rfl⟩⟩

theorem allPrintable_code {mark : Char} (hmark : isPrintable mark) (width n : Nat) :
    allPrintable (backslash :: mark :: hex width n) := by
  apply allPrintable_cons_iff.2
  exact ⟨by decide, allPrintable_cons_iff.2 ⟨hmark, allPrintable_hex width n⟩⟩

theorem allPrintable_escapeCode (n : Nat) : allPrintable (escapeCode n) := by
  have hcoded := escapeCode_coded n
  generalize escapeCode n = form at hcoded
  cases hcoded with
  | two => exact allPrintable_code (by decide) 2 n
  | four => exact allPrintable_code (by decide) 4 n
  | eight => exact allPrintable_code (by decide) 8 n

theorem allPrintable_escapeChar {delim : Char} (hdelim : delim = apostrophe ∨ delim = doubleQuote)
    (c : Char) : allPrintable (escapeChar delim c) := by
  have hwritten := escapeChar_written delim c
  generalize escapeChar delim c = form at hwritten
  cases hwritten with
  | guarded h =>
    rcases h with rfl | rfl
    · rcases hdelim with rfl | rfl
      · decide
      · decide
    · decide
  | named h =>
    simp only [List.mem_cons, Prod.mk.injEq, List.not_mem_nil, or_false] at h
    rcases h with ⟨-, rfl⟩ | ⟨-, rfl⟩ | ⟨-, rfl⟩
    · decide
    · decide
    · decide
  | plain hne hc => exact allPrintable_cons_iff.2 ⟨hc, rfl⟩
  | coded => exact allPrintable_escapeCode c.toNat

theorem allPrintable_escape (s : List Char) : allPrintable (escape s) := by
  rw [allPrintable, escape, List.all_flatMap, List.all_eq_true]
  intro c _
  exact allPrintable_escapeChar (delimiter_eq s) c

end Escaping

theorem allPrintable_display (s : String) : allPrintable (display s).toList := by
  unfold display
  split
  next h => exact h
  next =>
    rw [String.toList_ofList]
    exact allPrintable_escape s.toList

section Reading

variable {delim delim' : Char} (hdelim : delim = apostrophe ∨ delim = doubleQuote)
  (hdelim' : delim' = apostrophe ∨ delim' = doubleQuote)
include hdelim hdelim'

/-- The forms of characters one behind the other can be told apart, also between different
delimiters. -/
theorem flatMap_escapeChar_inj {s t : List Char}
    (h : s.flatMap (escapeChar delim) = t.flatMap (escapeChar delim')) : s = t := by
  induction s generalizing t with
  | nil =>
    cases t with
    | nil => rfl
    | cons d t =>
      have hread := unescape?_escapeChar hdelim' d (t.flatMap (escapeChar delim'))
      rw [← List.flatMap_cons, ← h] at hread
      cases hread
  | cons c s ih =>
    have hread := unescape?_escapeChar hdelim c (s.flatMap (escapeChar delim))
    rw [← List.flatMap_cons, h] at hread
    cases t with
    | nil => cases hread
    | cons d t =>
      rw [List.flatMap_cons, unescape?_escapeChar hdelim', Option.some.injEq, Prod.mk.injEq] at hread
      obtain ⟨rfl, hrest⟩ := hread
      rw [ih hrest.symm]

end Reading

theorem escape_inj {s t : List Char} (h : escape s = escape t) : s = t :=
  flatMap_escapeChar_inj (delimiter_eq s) (delimiter_eq t) h

theorem display_of_unprintable {s : String} (hs : allPrintable s.toList = false) :
    display s = String.ofList (escape s.toList) := by
  rw [display, hs, if_neg Bool.false_ne_true]

theorem display_inj_of_unprintable {s t : String} (hs : allPrintable s.toList = false)
    (ht : allPrintable t.toList = false) (h : display s = display t) : s = t := by
  rw [display_of_unprintable hs, display_of_unprintable ht, String.ofList_inj] at h
  exact String.toList_inj.1 (escape_inj h)

theorem display_singleton_inj {c d : Char}
    (h : display (String.singleton c) = display (String.singleton d)) : c = d := by
  have hread := readShown?_display c []
  rw [h, readShown?_display d [], Option.some.injEq, Prod.mk.injEq] at hread
  exact hread.1.symm

/-- The characters that end a line. -/
def lineEnds : List Char :=
  ['\n', '\r', '\x0b', '\x0c', '\x1c', '\x1d', '\x1e', '\u0085', '\u2028', '\u2029']

theorem not_isPrintable_of_mem_lineEnds {c : Char} (hc : c ∈ lineEnds) : isPrintable c = false := by
  have hall : lineEnds.all fun c => !isPrintable c := by decide +kernel
  exact Bool.not_eq_true' _ ▸ List.all_eq_true.1 hall c hc

theorem notMem_lineEnds_of_allPrintable {s : List Char} (hs : allPrintable s) :
    ∀ c ∈ s, c ∉ lineEnds := by
  intro c hc hend
  have hprintable := List.all_eq_true.1 hs c hc
  rw [not_isPrintable_of_mem_lineEnds hend] at hprintable
  cases hprintable

end FormulaLex.Text

namespace FormulaLex.InvalidCharacter

open Text

theorem allPrintable_message (e : InvalidCharacter) : allPrintable e.message.toList := by
  have hopening : allPrintable "Invalid character '".toList := by decide +kernel
  have hline : allPrintable "' at line ".toList := by decide +kernel
  have hcolumn : allPrintable " column ".toList := by decide +kernel
  have hcharacter := allPrintable_display e.character
  have hplace := allPrintable_number
  unfold message
  simp only [String.toList_append, allPrintable_append_iff]
  exact ⟨⟨⟨⟨⟨hopening, hcharacter⟩, hline⟩, hplace _⟩, hcolumn⟩, hplace _⟩

theorem allPrintable_text {e : InvalidCharacter}
    (hname : ∀ name ∈ e.sourceName, allPrintable name.toList) : allPrintable e.text.toList := by
  have hseparator : allPrintable ": ".toList := by decide +kernel
  unfold text LexicalError.text
  split
  next name hknown =>
    have hgiven : e.sourceName = some name := (Option.filter_eq_some_iff.1 hknown).1
    simp only [String.toList_append, allPrintable_append_iff]
    exact ⟨⟨hname name hgiven, hseparator⟩, e.allPrintable_message⟩
  next => exact e.allPrintable_message

end FormulaLex.InvalidCharacter

namespace FormulaLex.Text

/-- What is shown of a text is printable. So is the text of an error, on one line, if the name of the
input is. Of a single character nothing is lost in what is shown, and neither is it of a text that
is not printable as it is. -/
theorem display_printable_and_faithful :
    (∀ s : String, allPrintable (display s).toList) ∧
      (∀ e : InvalidCharacter, (∀ name ∈ e.sourceName, allPrintable name.toList) →
        allPrintable e.text.toList ∧ ∀ c ∈ e.text.toList, c ∉ lineEnds) ∧
      (∀ c d : Char, display (String.singleton c) = display (String.singleton d) → c = d) ∧
      ∀ s t : String, allPrintable s.toList = false → allPrintable t.toList = false →
        display s = display t → s = t := by
  refine ⟨allPrintable_display, ?_, ?_, ?_⟩
  · intro e hname
    have htext := e.allPrintable_text hname
    exact ⟨htext, notMem_lineEnds_of_allPrintable htext⟩
  · intro c d h
    exact display_singleton_inj h
  · intro s t hs ht h
    exact display_inj_of_unprintable hs ht h

/-- A line separator in an input of a quoted name, and two texts with escapes of both kinds. -/
theorem separator_and_quotes_displayed :
    let e : InvalidCharacter := ⟨"\u2028", ⟨3, 0⟩, some "it's"⟩
    let s := "'\"\t"
    let t := "\\'\t"
    allPrintable "it's".toList ∧ e.text = "it's: Invalid character '\\u2028' at line 3 column 0" ∧
      allPrintable e.text.toList ∧ (∀ c ∈ e.text.toList, c ∉ lineEnds) ∧
      allPrintable s.toList = false ∧ display s = "\\'\"\\t" ∧
      allPrintable t.toList = false ∧ display t = "\\\\'\\t" ∧ display s ≠ display t ∧
      display (String.singleton '\t') ≠ display (String.singleton '\\') := by
  intro e s t
  obtain ⟨-, herror, hcharacter, htext⟩ := display_printable_and_faithful
  have hgiven : allPrintable "it's".toList := by decide +kernel
  have hname : ∀ name ∈ e.sourceName, allPrintable name.toList := by
    intro name hname
    cases hname
    exact hgiven
  obtain ⟨hprintable, hline⟩ := herror e hname
  have hs : allPrintable s.toList = false := by decide +kernel
  have ht : allPrintable t.toList = false := by decide +kernel
  have hdistinct : display s ≠ display t := by
    intro h
    exact absurd (htext s t hs ht h) (by decide)
  have hdistinct' : display (String.singleton '\t') ≠ display (String.singleton '\\') := by
    intro h
    exact absurd (hcharacter '\t' '\\' h) (by decide)
  exact ⟨hgiven, by decide +kernel, hprintable, hline, hs, by decide +kernel, ht, by decide +kernel,
    hdistinct, hdistinct'⟩

end FormulaLex.Text
