import FormulaLex.Listing
import FormulaLex.Proofs.Escaping
import FormulaLex.Proofs.Safety
import FormulaLex.Proofs.TokenPlaces

/-!
A listing can be read back. The texts in it are not escaped, and blanks that are shown bring tabs and
line ends into it; still every line tells where it ends, and no two lists of tokens, each with the
error behind it, are listed alike.
-/
namespace FormulaLex

section Fields

/-- A field of characters from one class ends at the first one that is not from it. -/
theorem field_inj {p : Char → Bool} {u u' r r' : List Char} {d d' : Char}
    (hu : u.all p) (hu' : u'.all p) (hd : p d = false) (hd' : p d' = false)
    (h : u ++ d :: r = u' ++ d' :: r') : u = u' ∧ d :: r = d' :: r' := by
  have htake {u r : List Char} {d : Char} (hu : u.all p) (hd : p d = false) :
      (u ++ d :: r).takeWhile p = u := by
    rw [List.takeWhile_append_of_pos (List.all_eq_true.1 hu),
      List.takeWhile_cons_of_neg (by simp [hd]), List.append_nil]
  have he : u = u' := by
    rw [← htake hu hd, h, htake hu' hd']
  subst he
  exact ⟨rfl, List.append_cancel_left h⟩

/-- The characters with which whole numbers are written. -/
def isIntegral (c : Char) : Bool := c.isDigit || c == '-'

theorem all_isIntegral_toString (n : Int) : (toString n).toList.all isIntegral := by
  rw [List.all_eq_true]
  intro c hc
  have hnat {m : Nat} (hm : c ∈ m.repr.toList) : isIntegral c = true := by
    rw [Nat.toList_repr] at hm
    rw [isIntegral, Nat.isDigit_of_mem_toDigits (by decide) (by decide) hm, Bool.true_or]
  rw [Int.toString_eq_repr, Int.repr_eq_if] at hc
  split at hc
  · exact hnat hc
  · rw [String.toList_append, List.mem_append] at hc
    rcases hc with hc | hc
    · have hminus : c = '-' := by simpa using hc
      rw [hminus]
      decide
    · exact hnat hc

/-- The whole number that is written. -/
def integral : List Char → Int
  | '-' :: digits => -Nat.ofDigitChars 10 digits 0
  | digits => Nat.ofDigitChars 10 digits 0

theorem integral_toString (n : Int) : integral (toString n).toList = n := by
  rw [Int.toString_eq_repr, Int.repr_eq_if]
  split
  next hn =>
    rw [Nat.toList_repr]
    unfold integral
    split
    next digits hsigned =>
      have hdigit : '-' ∈ Nat.toDigits 10 n.toNat := by
        rw [hsigned]
        exact List.mem_cons_self
      cases Nat.isDigit_of_mem_toDigits (by decide) (by decide) hdigit
    next =>
      rw [Nat.ofDigitChars_ten_toDigits]
      exact Int.toNat_of_nonneg hn
  next hn =>
    rw [String.toList_append, Nat.toList_repr]
    change -((Nat.ofDigitChars 10 (Nat.toDigits 10 (-n).toNat) 0 : Nat) : Int) = n
    rw [Nat.ofDigitChars_ten_toDigits]
    omega

theorem number_inj {n n' : Int} {d d' : Char} {r r' : List Char} (hd : isIntegral d = false)
    (hd' : isIntegral d' = false)
    (h : (toString n).toList ++ d :: r = (toString n').toList ++ d' :: r') :
    n = n' ∧ d :: r = d' :: r' := by
  obtain ⟨htext, hrest⟩ := field_inj (all_isIntegral_toString n) (all_isIntegral_toString n') hd
    hd' h
  have hnumber := congrArg integral htext
  rw [integral_toString, integral_toString] at hnumber
  exact ⟨hnumber, hrest⟩

theorem Position.text_inj {p p' : Position} {r r' : List Char}
    (h : p.text.toList ++ '\n' :: r = p'.text.toList ++ '\n' :: r') : p = p' ∧ r = r' := by
  have htext (p : Position) (r : List Char) : p.text.toList ++ r =
      (toString p.line).toList ++ ':' :: ((toString p.column).toList ++ r) := by
    simp [Position.text]
  rw [htext, htext] at h
  obtain ⟨hline, hrest⟩ := number_inj (by decide) (by decide) h
  obtain ⟨hcolumn, hback⟩ := number_inj (by decide) (by decide) (List.cons.inj hrest).2
  obtain ⟨line, column⟩ := p
  obtain ⟨line', column'⟩ := p'
  cases hline
  cases hcolumn
  exact ⟨rfl, (List.cons.inj hback).2⟩

theorem Kind.Contains.text_inj {k : Kind} {w w' : List Char} (h : k.Contains w)
    (h' : k.Contains w') {d d' : Char} (hd : Charset.isBlank d) (hd' : Charset.isBlank d')
    {r r' : List Char} (he : w ++ d :: r = w' ++ d' :: r') : w = w' ∧ d :: r = d' :: r' := by
  by_cases hk : k = .whitespace
  · -- A blank as a token is one character, whichever it is.
    subst hk
    obtain ⟨c, rfl, -⟩ := h
    obtain ⟨c', rfl, -⟩ := h'
    obtain ⟨rfl, hrest⟩ := List.cons.inj he
    exact ⟨rfl, hrest⟩
  · have hend {d : Char} (hd : Charset.isBlank d) : (!Charset.isBlank d) = false := by
      rw [hd, Bool.not_true]
    exact field_inj (h.not_isBlank hk) (h'.not_isBlank hk) (hend hd) (hend hd') he

end Fields

namespace Kind

/-- A kind in its column. -/
def column (k : Kind) : List Char :=
  k.name.toList ++ List.replicate (kindWidth - k.name.length) ' '

theorem length_column (k : Kind) : k.column.length = kindWidth := by
  cases k <;> decide

theorem mem_all (k : Kind) : k ∈ all := by
  cases k <;> decide

theorem column_injective {k k' : Kind} (h : k.column = k'.column) : k = k' := by
  have hall : ∀ k ∈ all, ∀ k' ∈ all, k.column = k'.column → k = k' := by decide
  exact hall k k.mem_all k' k'.mem_all h

end Kind

/-- What a listing shows of a token. -/
def Token.shown (positions : Bool) (t : Token) : Kind × String × Option Position :=
  (t.kind, t.text, if positions then some t.position else none)

namespace Token

/-- The line of a token with its end, and what is behind it. -/
def lineBefore (positions : Bool) (t : Token) (rest : List Char) : List Char :=
  (t.line positions).toList ++ '\n' :: rest

theorem lineBefore_eq (positions : Bool) (t : Token) (rest : List Char) :
    t.lineBefore positions rest = t.kind.column ++ '\t' :: (t.text.toList ++
      if positions then '\t' :: (t.position.text.toList ++ '\n' :: rest) else '\n' :: rest) := by
  cases positions <;> simp [lineBefore, line, Kind.column]

theorem lineBefore_inj {t t' : Token} (ht : t.kind.Contains t.text.toList)
    (ht' : t'.kind.Contains t'.text.toList) {positions : Bool} {r r' : List Char}
    (h : t.lineBefore positions r = t'.lineBefore positions r') :
    t.shown positions = t'.shown positions ∧ r = r' := by
  rw [lineBefore_eq, lineBefore_eq] at h
  have hlength : t.kind.column.length = t'.kind.column.length :=
    t.kind.length_column.trans t'.kind.length_column.symm
  obtain ⟨hcolumn, htail⟩ := List.append_inj h hlength
  have hkind := Kind.column_injective hcolumn
  rw [← hkind] at ht'
  have hrest := (List.cons.inj htail).2
  cases positions with
  | false =>
    obtain ⟨htext, hend⟩ := ht.text_inj ht' (by decide) (by decide) hrest
    rw [shown, shown, hkind, String.toList_inj.1 htext]
    exact ⟨rfl, (List.cons.inj hend).2⟩
  | true =>
    obtain ⟨htext, hend⟩ := ht.text_inj ht' (by decide) (by decide) hrest
    obtain ⟨hposition, hback⟩ := Position.text_inj (List.cons.inj hend).2
    rw [shown, shown, hkind, String.toList_inj.1 htext, hposition]
    exact ⟨rfl, hback⟩

end Token

namespace InvalidCharacter

/-- What a listing shows of an error, which comes without a name of the input. -/
def shown (e : InvalidCharacter) : String × Position := (e.character, e.position)

/-- The line of an error with its end, and what is behind it. -/
def lineBefore (e : InvalidCharacter) (rest : List Char) : List Char := e.text.toList ++ '\n' :: rest

theorem lineBefore_eq {e : InvalidCharacter} (hname : e.sourceName = none) (rest : List Char) :
    e.lineBefore rest = "Invalid character '".toList ++
      ((Text.display e.character).toList ++ Text.apostrophe :: (" at line ".toList ++
        ((toString e.position.line).toList ++ ' ' :: ("column ".toList ++
          ((toString e.position.column).toList ++ '\n' :: rest))))) := by
  have htext : e.text = e.message := by
    simp only [text, toLexicalError, LexicalError.text, hname]
    rfl
  have hjoin (a b c d e f : String) (r : List Char) : (a ++ b ++ c ++ d ++ e ++ f).toList ++ r =
      a.toList ++ (b.toList ++ (c.toList ++ (d.toList ++ (e.toList ++ (f.toList ++ r))))) := by
    simp only [String.toList_append, List.append_assoc]
  have hquote : "' at line ".toList = Text.apostrophe :: " at line ".toList := by decide
  have hspace : " column ".toList = ' ' :: "column ".toList := by decide
  have hmessage := hjoin "Invalid character '" (Text.display e.character) "' at line "
    (toString e.position.line) " column " (toString e.position.column) ('\n' :: rest)
  rw [hquote, hspace] at hmessage
  rw [lineBefore, htext]
  exact hmessage

theorem shown_eq {e e' : InvalidCharacter} (hcharacter : e.character = e'.character)
    (hline : e.position.line = e'.position.line)
    (hcolumn : e.position.column = e'.position.column) : e.shown = e'.shown := by
  obtain ⟨character, ⟨line, column⟩, name⟩ := e
  obtain ⟨character', ⟨line', column'⟩, name'⟩ := e'
  cases hcharacter
  cases hline
  cases hcolumn
  rfl

theorem lineBefore_inj {e e' : InvalidCharacter} (hname : e.sourceName = none)
    (hname' : e'.sourceName = none) {c c' : Char} (hc : e.character = String.singleton c)
    (hc' : e'.character = String.singleton c') {r r' : List Char}
    (h : e.lineBefore r = e'.lineBefore r') : e.shown = e'.shown ∧ r = r' := by
  rw [lineBefore_eq hname, lineBefore_eq hname', hc, hc'] at h
  have hread := congrArg Text.readShown? (List.append_cancel_left h)
  rw [Text.readShown?_display, Text.readShown?_display, Option.some.injEq, Prod.mk.injEq] at hread
  obtain ⟨rfl, hplace⟩ := hread
  have hnumbers := List.append_cancel_left (List.cons.inj hplace).2
  obtain ⟨hline, hrest⟩ := number_inj (by decide) (by decide) hnumbers
  have hnumber := List.append_cancel_left (List.cons.inj hrest).2
  obtain ⟨hcolumn, hback⟩ := number_inj (by decide) (by decide) hnumber
  exact ⟨shown_eq (hc.trans hc'.symm) hline hcolumn, (List.cons.inj hback).2⟩

end InvalidCharacter

theorem Token.lineBefore_ne {e : InvalidCharacter} (hname : e.sourceName = none) (t : Token)
    (positions : Bool) (r r' : List Char) : t.lineBefore positions r ≠ e.lineBefore r' := by
  intro h
  rw [Token.lineBefore_eq, InvalidCharacter.lineBefore_eq hname] at h
  have hfront := congrArg (List.take 2) h
  rw [List.take_append_of_le_length (by rw [Kind.length_column]; decide)] at hfront
  have hall : ∀ k ∈ Kind.all, k.column.take 2 ≠ ['I', 'n'] := by decide
  exact hall t.kind (Kind.mem_all _) hfront

theorem TextSource.oneByOne : (source : CharSource TextSource Fault).OneByOne fun _ => True where
  peek _ := trivial
  read _ := trivial
  single _ hp hne := by
    cases hp
    obtain ⟨c, -, -, hc⟩ := exists_of_peek_ne hne
    exact ⟨c, hc⟩

namespace Feed

/-- A feed of single characters, with faults and ends among them. -/
theorem oneByOne : source.OneByOne fun f => ∀ s, .text s ∈ f.items → s.length ≤ 1 where
  peek := by
    rintro ⟨_ | ⟨item, rest⟩, fault, closings⟩ h
    · exact h
    · have hrest : ∀ s, .text s ∈ rest → s.length ≤ 1 := fun s hs => h s (.tail _ hs)
      cases item with
      | fail message => exact hrest
      | text s =>
        by_cases hs : s = ""
        · simpa [source, peek, hs] using hrest
        · simpa [source, peek, hs] using h
  read := by
    rintro ⟨_ | ⟨item, rest⟩, fault, closings⟩ h
    · exact h
    · have hrest : ∀ s, .text s ∈ rest → s.length ≤ 1 := fun s hs => h s (.tail _ hs)
      cases item with
      | fail message => exact hrest
      | text s =>
        by_cases hs : s = ""
        · simpa [source, read, peek, hs] using hrest
        · simpa [source, read, peek, hs] using hrest
  single := by
    rintro ⟨_ | ⟨item, rest⟩, fault, closings⟩ ahead h hp hne
    · cases hp
      exact absurd rfl hne
    · cases item with
      | fail message => cases hp
      | text s =>
        cases hp
        exact eq_singleton_of_length_le_one (h _ (List.mem_cons_self ..)) hne

end Feed

namespace Lexer

def Ending.error? {ε : Type} : Ending ε → Option InvalidCharacter
  | .failed e => some e
  | _ => none

/-- The error at the end of a sequence of pulls, if one is there. -/
def Harvest.error? {σ ε : Type} (harvest : Harvest σ ε) : Option InvalidCharacter :=
  harvest.ending.bind Ending.error?

end Lexer

namespace Listing

variable {σ σ' : Type} {positions : Bool} {ts ts' : List Token} {e e' : Option InvalidCharacter}

/-- The lines of tokens, and behind them that of an error. -/
def report (positions : Bool) (e : Option InvalidCharacter) : List Token → List Char
  | [] => e.elim [] (·.lineBefore [])
  | t :: ts => t.lineBefore positions (report positions e ts)

/-- Tokens and an error such as come from a source that delivers one character at a time. -/
structure Legible (ts : List Token) (e : Option InvalidCharacter) : Prop where
  tokens : ∀ t ∈ ts, t.kind.Contains t.text.toList
  error : ∀ e' ∈ e, e'.sourceName = none ∧ ∃ c, e'.character = String.singleton c

theorem Legible.tail {t : Token} (h : Legible (t :: ts) e) : Legible ts e :=
  ⟨fun t' ht' => h.tokens t' (List.mem_cons_of_mem t ht'), h.error⟩

theorem report_cons_ne_report_nil (t : Token) (h : Legible ts' e') :
    report positions e (t :: ts) ≠ report positions e' [] := by
  cases e' with
  | none => simp [report, Token.lineBefore]
  | some e' =>
    obtain ⟨hname, -⟩ := h.error e' rfl
    exact t.lineBefore_ne hname positions _ _

theorem report_nil_inj (h : Legible ts e) (h' : Legible ts' e')
    (heq : report positions e [] = report positions e' []) :
    e.map InvalidCharacter.shown = e'.map InvalidCharacter.shown := by
  have hne (e : InvalidCharacter) : e.lineBefore [] ≠ [] := by
    simp [InvalidCharacter.lineBefore]
  cases e with
  | none =>
    cases e' with
    | none => rfl
    | some e' => exact absurd heq.symm (hne e')
  | some e =>
    cases e' with
    | none => exact absurd heq (hne e)
    | some e' =>
      obtain ⟨hname, c, hc⟩ := h.error e rfl
      obtain ⟨hname', c', hc'⟩ := h'.error e' rfl
      exact congrArg some (InvalidCharacter.lineBefore_inj hname hname' hc hc' heq).1

theorem report_inj (h : Legible ts e) (h' : Legible ts' e')
    (heq : report positions e ts = report positions e' ts') :
    ts.map (Token.shown positions) = ts'.map (Token.shown positions) ∧
      e.map InvalidCharacter.shown = e'.map InvalidCharacter.shown := by
  induction ts generalizing ts' with
  | nil =>
    cases ts' with
    | nil => exact ⟨rfl, report_nil_inj h h' heq⟩
    | cons t' ts' => exact absurd heq.symm (report_cons_ne_report_nil t' h)
  | cons t ts ih =>
    cases ts' with
    | nil => exact absurd heq (report_cons_ne_report_nil t h')
    | cons t' ts' =>
      have ht := h.tokens t (List.mem_cons_self ..)
      have ht' := h'.tokens t' (List.mem_cons_self ..)
      obtain ⟨hshown, hrest⟩ := Token.lineBefore_inj ht ht' heq
      obtain ⟨htokens, herror⟩ := ih h.tail h'.tail hrest
      exact ⟨List.cons_eq_cons.2 ⟨hshown, htokens⟩, herror⟩

/-- The run that a listing prints came to an end, or was cut short, otherwise than by input that is
no text. -/
def Decoded (ending : Option (Lexer.Ending Fault)) : Prop :=
  ∀ defect start, ending ≠ some (.interrupted (.source (.undecodable defect start)))

theorem decoded_of_error?_isSome {ending : Option (Lexer.Ending Fault)}
    (h : (ending.bind Lexer.Ending.error?).isSome) : Decoded ending := by
  rintro defect start rfl
  cases h

theorem verdict_of_decoded {ending : Option (Lexer.Ending Fault)} (h : Decoded ending)
    (name : String) (count : Nat) :
    let error? := ending.bind Lexer.Ending.error?
    (verdict name count ending).2.1 = error?.map InvalidCharacter.text ∧
      ∀ n, (verdict name count ending).1 = .ok n → n = if error?.isSome then 1 else 0 := by
  have hcut (cause : Lexer.Interrupt Fault) (n : Nat) :
      (Except.error cause : Except (Lexer.Interrupt Fault) Nat) ≠ .ok n := nofun
  cases ending with
  | none => exact ⟨rfl, fun n hn => absurd hn (hcut _ n)⟩
  | some ending =>
    cases ending with
    | finished =>
      refine ⟨rfl, ?_⟩
      intro n hn
      cases hn
      rfl
    | failed e =>
      refine ⟨rfl, ?_⟩
      intro n hn
      cases hn
      rfl
    | interrupted cause =>
      cases cause with
      | source fault =>
        cases fault with
        | undecodable defect start => exact absurd rfl (h defect start)
        | _ => exact ⟨rfl, fun n hn => absurd hn (hcut _ n)⟩
      | _ => exact ⟨rfl, fun n hn => absurd hn (hcut _ n)⟩

theorem report_eq (positions : Bool) (e : Option InvalidCharacter) (ts : List Token) :
    report positions e ts =
      ts.flatMap (fun t => (t.line positions ++ "\n").toList) ++
        (e.elim "" (·.text ++ "\n")).toList := by
  induction ts with
  | nil => cases e <;> simp [report, InvalidCharacter.lineBefore]
  | cons t ts ih => simp [report, Token.lineBefore, ih]

section OfSource

variable (src : CharSource σ Fault) (name : String) (config : Config) (positions : Bool) (s : σ)

/-- What is printed hangs on the run alone; a fault in closing the source can only take the status
away. -/
theorem ofSource_eq :
    let run := src.tokenize none config s
    (ofSource src name config positions s).output =
        String.join (run.tokens.map fun t => t.line positions ++ "\n") ++
          (verdict name run.tokens.length run.ending).2.1.elim "" (· ++ "\n") ∧
      ∀ n, (ofSource src name config positions s).status = .ok n →
        (verdict name run.tokens.length run.ending).1 = .ok n := by
  intro run
  rcases hverdict : verdict name run.tokens.length run.ending with ⟨status, lastLine, closing⟩
  rcases hclose : run.lexer.close src run.source with ⟨closed, lx, s'⟩
  cases closed with
  | ok =>
    simp only [ofSource, run, hverdict, hclose]
    refine ⟨?_, fun n hn => hn⟩
    cases lastLine with
    | none => rfl
    | some line => rfl
  | error fault =>
    simp only [ofSource, run, hverdict, hclose]
    refine ⟨?_, nofun⟩
    cases lastLine with
    | none => rfl
    | some line => rfl

theorem output_ofSource (h : Decoded (src.tokenize none config s).ending) :
    (ofSource src name config positions s).output.toList =
      report positions (src.tokenize none config s).error? (src.tokenize none config s).tokens := by
  have hlast := (verdict_of_decoded h name (src.tokenize none config s).tokens.length).1
  have houtput := (ofSource_eq src name config positions s).1
  rw [houtput, hlast, report_eq, String.toList_append, String.toList_join, List.flatMap_map,
    Option.elim_map]
  rfl

theorem status_ofSource (h : Decoded (src.tokenize none config s).ending) {n : Nat}
    (hn : (ofSource src name config positions s).status = .ok n) :
    n = if (src.tokenize none config s).error?.isSome then 1 else 0 := by
  have hstatus := (verdict_of_decoded h name (src.tokenize none config s).tokens.length).2 n
  exact hstatus ((ofSource_eq src name config positions s).2 n hn)

end OfSource

theorem legible_tokenize {src : CharSource σ Fault} {I : σ → Prop} (hsrc : src.OneByOne I) {s : σ}
    (hs : I s) (config : Config) :
    Legible (src.tokenize none config s).tokens (src.tokenize none config s).error? where
  tokens := (src.tokenize_sound hsrc.toKeeps hs none config).tokens
  error := by
    intro e he
    obtain ⟨ending, hending, herror⟩ := Option.bind_eq_some_iff.1 he
    cases ending with
    | failed e' =>
      cases herror
      exact hsrc.exists_character hs hending
    | _ => cases herror

/-- On sources that deliver one character at a time, with whatever options and also with blanks that
are shown, runs that are printed alike are alike: their statuses, if they come to one, the tokens in
all that is shown of them, and the error, if there is one. Input that is no text may be announced by
any line whatever, so it has to be left out. -/
theorem ofSource_unambiguous {src : CharSource σ Fault} {src' : CharSource σ' Fault}
    {I : σ → Prop} {I' : σ' → Prop} (hsrc : src.OneByOne I) (hsrc' : src'.OneByOne I') {s : σ}
    {s' : σ'} (hs : I s) (hs' : I' s') (name name' : String) (config config' : Config)
    (positions : Bool) :
    let run := src.tokenize none config s
    let run' := src'.tokenize none config' s'
    let listing := ofSource src name config positions s
    let listing' := ofSource src' name' config' positions s'
    Decoded run.ending → Decoded run'.ending → listing.output = listing'.output →
      (∀ n n', listing.status = .ok n → listing'.status = .ok n' → n = n') ∧
      run.tokens.map (Token.shown positions) = run'.tokens.map (Token.shown positions) ∧
      run.error?.map InvalidCharacter.shown = run'.error?.map InvalidCharacter.shown := by
  intro run run' listing listing' hdecoded hdecoded' houtput
  have hreport : report positions run.error? run.tokens =
      report positions run'.error? run'.tokens := by
    rw [← output_ofSource src name config positions s hdecoded,
      ← output_ofSource src' name' config' positions s' hdecoded']
    exact congrArg String.toList houtput
  obtain ⟨htokens, herror⟩ := report_inj (legible_tokenize hsrc hs config)
    (legible_tokenize hsrc' hs' config') hreport
  refine ⟨?_, htokens, herror⟩
  intro n n' hn hn'
  have hsome : run.error?.isSome = run'.error?.isSome := by
    rw [← Option.isSome_map (f := InvalidCharacter.shown), herror, Option.isSome_map]
  rw [status_ofSource src name config positions s hdecoded hn,
    status_ofSource src' name' config' positions s' hdecoded' hn']
  exact congrArg (fun failed : Bool => if failed then 1 else 0) hsome

/-- A text and a feed of its characters, from a blank that is shown up to a stray character that is
not printable. -/
theorem blank_and_stray_space_read_back :
    let text : TextSource := .ofString "x\n\u00a0"
    let feed : Feed := ⟨[.text "x", .text "\n", .text "\u00a0"], none, 0⟩
    let config : Config := { keepWhitespace := .int 1 }
    let run := TextSource.source.tokenize none config text
    let run' := Feed.source.tokenize none config feed
    let listing := ofSource TextSource.source "text" config true text
    let listing' := ofSource Feed.source "feed" config true feed
    Decoded run.ending ∧ Decoded run'.ending ∧ listing.output = listing'.output ∧
      listing.output = "IDENTIFIER     \tx\t1:1\nWHITESPACE     \t\n\t1:2\n" ++
        "Invalid character '\\xa0' at line 2 column 1\n" ∧
      run.tokens.map (Token.shown true) = run'.tokens.map (Token.shown true) ∧
      run.error?.map InvalidCharacter.shown = run'.error?.map InvalidCharacter.shown := by
  intro text feed config run run' listing listing'
  have hdecoded : Decoded run.ending := decoded_of_error?_isSome (by decide +kernel)
  have hdecoded' : Decoded run'.ending := decoded_of_error?_isSome (by decide +kernel)
  have houtput : listing.output = listing'.output := by decide +kernel
  have hsingle : ∀ s, .text s ∈ feed.items → s.length ≤ 1 := by
    intro s hs
    simp only [feed, List.mem_cons, FeedItem.text.injEq, List.not_mem_nil, or_false] at hs
    rcases hs with rfl | rfl | rfl <;> decide
  obtain ⟨-, htokens, herror⟩ := ofSource_unambiguous TextSource.oneByOne Feed.oneByOne trivial
    hsingle "text" "feed" config config true hdecoded hdecoded' houtput
  exact ⟨hdecoded, hdecoded', houtput, by decide +kernel, htokens, herror⟩

end Listing

end FormulaLex
