import FormulaLex.Proofs.Arrival
import FormulaLex.Proofs.Encoding
import FormulaLex.Proofs.Report
import FormulaLex.Program

/-!
What the program makes of an input that is a text: the listing of that text, with all its line ends
as newlines, whether the bytes come from a file or from standard input and in whatever portions they
arrive.
-/
namespace FormulaLex

open String (utf8EncodeChar)

namespace Listing

variable {σ : Type} {src : CharSource σ Fault} {Holds : σ → List Char → Prop} {s : σ}
  {chars : List Char}

/-- Listings that print the same and have the same status. -/
structure Alike {σ' : Type} (listing : Listing σ) (listing' : Listing σ') : Prop where
  status : listing.status = listing'.status
  output : listing.output = listing'.output

theorem Shows.alike {σ' : Type} {positions : Bool} {tokens : List Token} {last : Option String}
    {status : Nat} {record record' : Nat → Event} {listing : Listing σ} {listing' : Listing σ'}
    (h : listing.Shows positions tokens last status record)
    (h' : listing'.Shows positions tokens last status record') : listing.Alike listing' where
  status := h.status.trans h'.status.symm
  output := h.output.trans h'.output.symm

/-- A source that delivers a text is listed as the text is, under any name. -/
theorem ofSource_alike (hsrc : src.Delivers Holds)
    (hclose : ∀ s, ∃ s', src.close s = (.ok (), s')) (hs : Holds s chars) (name name' : String)
    (config : Config) (positions : Bool) :
    (ofSource src name config positions s).Alike
      (ofSource TextSource.source name' config positions (.ofString (.ofList chars))) := by
  let p := String.ofList chars
  have hp : Holds s p.toList := by
    rw [String.toList_ofList]
    exact hs
  have hclose' : ∀ s, ∃ s', (TextSource.source (ε := Fault)).close s = (.ok (), s') :=
    fun s => ⟨s.close, rfl⟩
  obtain ⟨htokens, hending⟩ := hsrc.tokenize_eq hp none config
  rcases TextSource.tokenize_settled (ε := Fault) none config p with hfinished | ⟨e, hfailed⟩
  · exact (shows_of_verdict hclose htokens (hending.trans hfinished) rfl rfl).alike
      (shows_of_verdict hclose' rfl hfinished rfl rfl)
  · exact (shows_of_verdict hclose htokens (hending.trans hfailed) rfl rfl).alike
      (shows_of_verdict hclose' rfl hfailed rfl rfl)

end Listing

/-- However the encoding of a text is cut, the portions give the text in normal form. -/
theorem ByteStream.supply_of_encode {chunks : List (List UInt8)} {chars : List Char}
    (h : chunks.flatten = chars.flatMap utf8EncodeChar) :
    supply [] false chunks = (Newline.normalize chars, none) := by
  have hdecode : Utf8.decode true ([] ++ chunks.flatten) = .ok (chars, []) :=
    Utf8.decode_eq_ok_iff.2 h
  exact supply_of_decode false hdecode

section Encoded

variable (chars : List Char) (owns : Bool) (name name' : String) (config : Config)
  (positions : Bool)

/-- The listing of a text in normal form. -/
def Listing.ofText (name : String) (config : Config) (positions : Bool) (chars : List Char) :
    Listing TextSource :=
  ofSource TextSource.source name config positions (.ofString (.ofList (Newline.normalize chars)))

theorem Listing.exists_status_ofText :
    ∃ status, (ofText name config positions chars).status = .ok status := by
  have hclose : ∀ s, ∃ s', (TextSource.source (ε := Fault)).close s = (.ok (), s') :=
    fun s => ⟨s.close, rfl⟩
  rcases TextSource.tokenize_settled (ε := Fault) none config
    (.ofList (Newline.normalize chars)) with hfinished | ⟨e, hfailed⟩
  · have hshows : (ofText name config positions chars).Shows positions _ none 0 (.listed name) :=
      shows_of_verdict hclose rfl hfinished rfl rfl
    exact ⟨0, hshows.status⟩
  · have hshows : (ofText name config positions chars).Shows positions _ (some e.text) 1
        (.listingStopped name) :=
      shows_of_verdict hclose rfl hfailed rfl rfl
    exact ⟨1, hshows.status⟩

theorem ByteStream.listing_alike :
    (Listing.ofSource (Buffered.source stream) name config positions
        { stream := { bytes := chars.flatMap utf8EncodeChar }, ownsStream := owns }).Alike
      (.ofText name' config positions chars) := by
  have hsupply := supply_of_encode (flatten_portions (chars.flatMap utf8EncodeChar))
  have hoffers := offers_new (chars.flatMap utf8EncodeChar)
  rw [hsupply] at hoffers
  obtain ⟨Holds, hserves, hholds⟩ := hoffers.exists_serves owns
  apply Listing.ofSource_alike hserves ?_ hholds
  intro b
  obtain ⟨b', hb', -⟩ := Buffered.close_ok (hands none) b
  exact ⟨b', hb'⟩

theorem PortionStream.listing_alike {portions : List (List UInt8)}
    (h : portions.flatten = chars.flatMap utf8EncodeChar) :
    (Listing.ofSource (Buffered.source stream) name config positions
        { stream := { portions }, ownsStream := owns }).Alike
      (.ofText name' config positions chars) := by
  have hoffers : Offers { portions } (Newline.normalize chars) :=
    ⟨rfl, _, rfl, ByteStream.supply_of_encode h⟩
  apply Listing.ofSource_alike delivers ?_ (.before (.unread hoffers))
  intro b
  obtain ⟨b', hb', -⟩ := Buffered.close_ok hands b
  exact ⟨b', hb'⟩

end Encoded

namespace Program

open CommandLine

/-- Where the settings let the program find its bytes. -/
inductive Reads (settings : Settings) (stdin : List UInt8) (files : FileTree) : List UInt8 → Prop
  | standardInput (h : settings.file = none) : Reads settings stdin files stdin
  | file {file : String} {bytes : List UInt8} (h : settings.file = some file)
      (hopen : files.open? file = .ok bytes) : Reads settings stdin files bytes

variable {argv : List String} {settings : Settings} {stdin bytes : List UInt8} {files : FileTree}
  {chars : List Char}

theorem Reads.run_eq (h : Reads settings stdin files bytes)
    (hargv : Settings.ofArguments argv = .ok settings) :
    ∃ name owned, run argv stdin files = list settings name owned bytes := by
  cases h with
  | standardInput h => exact ⟨Program.standardInput, false, by simp only [run, hargv, h]⟩
  | @file file _ h hopen => exact ⟨file, true, by simp only [run, hargv, h, hopen]⟩

theorem list_text (settings : Settings) (name name' : String) (owned : Bool) (chars : List Char) :
    let listing := Listing.ofText name' settings.config settings.positions chars
    ∃ exit, list settings name owned (chars.flatMap utf8EncodeChar) = .ok exit ∧
      listing.status = .ok exit.status ∧ exit.output = listing.output := by
  intro listing
  obtain ⟨status, hstatus⟩ :=
    Listing.exists_status_ofText chars name' settings.config settings.positions
  have halike :=
    ByteStream.listing_alike chars owned name name' settings.config settings.positions
  unfold list
  dsimp only
  generalize Listing.ofSource (Buffered.source ByteStream.stream) name _ _ _ = printed at halike ⊢
  obtain ⟨hstatus', houtput⟩ := halike
  rw [hstatus] at hstatus'
  simp only [hstatus']
  exact ⟨_, rfl, hstatus, houtput⟩

/-- On the bytes of a text, from a file or from standard input, the program prints what a listing of
the text prints that has all its line ends as newlines, and that listing has its status. It makes no
difference in what portions the bytes arrive. -/
theorem run_text (hargv : Settings.ofArguments argv = .ok settings)
    (hreads : Reads settings stdin files bytes) (hbytes : bytes = chars.flatMap utf8EncodeChar)
    (name : String) :
    let config : Config :=
      { flushAtEnd := .bool !settings.noFlush, keepWhitespace := .bool settings.keepWhitespace }
    let listing := Listing.ofText name config settings.positions chars
    (∃ exit, run argv stdin files = .ok exit ∧ listing.status = .ok exit.status ∧
      exit.output = listing.output) ∧
      ∀ (portions : List (List UInt8)) (name' : String) (owns : Bool), portions.flatten = bytes →
        (Listing.ofSource (Buffered.source PortionStream.stream) name' config settings.positions
          { stream := { portions }, ownsStream := owns }).Alike listing := by
  intro config listing
  subst hbytes
  constructor
  · obtain ⟨name', owned, hrun⟩ := hreads.run_eq hargv
    rw [hrun]
    exact list_text settings name' name owned chars
  · intro portions name' owns hportions
    exact PortionStream.listing_alike chars owns name' name config settings.positions hportions

/-- A carriage return is a line end of its own, but one and its newline are a single one, also where
they are cut apart. So the letter behind them, of two bytes that are cut apart as well, stands in the
third line and in its first column. -/
theorem letter_behind_cut_line_end :
    let stdin : List UInt8 := [0x78, 0x0D, 0x0D, 0x0A, 0xC3, 0xA9]
    let portions : List (List UInt8) := [[0x78, 0x0D, 0x0D], [0x0A, 0xC3], [0xA9]]
    let listing := Listing.ofSource (Buffered.source PortionStream.stream) "in" {} true
      { stream := { portions } }
    Settings.ofArguments ["--positions"] = .ok { positions := true } ∧
      Reads { positions := true } stdin {} stdin ∧
      stdin = ['x', '\r', '\r', '\n', 'é'].flatMap utf8EncodeChar ∧
      (∃ exit, run ["--positions"] stdin {} = .ok exit ∧ exit.status = 1 ∧ exit.output =
        "IDENTIFIER     \tx\t1:1\nInvalid character 'é' at line 3 column 1\n") ∧
      listing.status = .ok 1 ∧ listing.output =
        "IDENTIFIER     \tx\t1:1\nInvalid character 'é' at line 3 column 1\n" := by
  intro stdin portions listing
  have hargv : Settings.ofArguments ["--positions"] = .ok { positions := true } := by
    decide +kernel
  have hreads : Reads { positions := true } stdin {} stdin := .standardInput rfl
  have hstdin : stdin = ['x', '\r', '\r', '\n', 'é'].flatMap utf8EncodeChar := by decide
  have hstatus : (Listing.ofText "in" { flushAtEnd := .bool !false } true
      ['x', '\r', '\r', '\n', 'é']).status = .ok 1 := rfl
  have houtput : (Listing.ofText "in" { flushAtEnd := .bool !false } true
      ['x', '\r', '\r', '\n', 'é']).output =
        "IDENTIFIER     \tx\t1:1\nInvalid character 'é' at line 3 column 1\n" := by
    decide +kernel
  obtain ⟨⟨exit, hrun, hexit, hprinted⟩, hportions⟩ := run_text hargv hreads hstdin "in"
  obtain ⟨hlisted, hprinted'⟩ := hportions portions "in" true rfl
  refine ⟨hargv, hreads, hstdin, ⟨exit, hrun, ?_, hprinted.trans houtput⟩,
    hlisted.trans hstatus, hprinted'.trans houtput⟩
  exact Except.ok.inj (hexit.symm.trans hstatus)

end Program

end FormulaLex
