import FormulaLex.Fault
import FormulaLex.Lexer

/-!
Token listings: one line for each token, and one more for an error that ends the listing.
-/
namespace FormulaLex

/-- The width of the column of kinds. -/
def kindWidth : Nat := 15

/-- The kind in its column, a tab, and the text; with positions, a tab and the place. -/
def Token.line (t : Token) (positions : Bool) : String :=
  let kind := t.kind.name ++ String.ofList (List.replicate (kindWidth - t.kind.name.length) ' ')
  kind ++ "\t" ++ t.text ++ if positions then "\t" ++ t.position.text else ""

/-- A listing: the exit status unless something interrupted it, the printed text, what was logged,
and the source after it. -/
structure Listing (σ : Type) where
  status : Except (Lexer.Interrupt Fault) Nat
  output : String
  events : List Event
  source : σ

namespace Listing

variable {σ : Type}

/-- The line on input that is no text. -/
def undecodableLine (name reason : String) (start : Nat) : String :=
  name ++ ": cannot decode input: " ++ (Fault.undecodable reason start).message

/-- The status, the last line and the event with which a listing of `count` tokens ends. -/
def verdict (name : String) (count : Nat) :
    Option (Lexer.Ending Fault) → Except (Lexer.Interrupt Fault) Nat × Option String × List Event
  | some .finished => (.ok 0, none, [.listed name count])
  | some (.failed e) => (.ok 1, some e.text, [.listingStopped name count])
  | some (.interrupted (.source (.undecodable reason start))) =>
    (.ok 1, some (undecodableLine name reason start), [.listingUndecodable name count])
  | some (.interrupted cause) => (.error cause, none, [])
  | none => (.error .outOfFuel, none, [])

/-- Lists the tokens of a source. However the listing ends, the source is closed; a fault in
closing it takes the place of the status, and a listing that came to its end is then not logged. -/
def ofSource (src : CharSource σ Fault) (name : String) (config : Config) (positions : Bool)
    (s : σ) : Listing σ :=
  let harvest := src.tokenize none config s
  let (status, lastLine, closing) := verdict name harvest.tokens.length harvest.ending
  let output := String.join (harvest.tokens.map fun t => t.line positions ++ "\n") ++
    match lastLine with
    | some line => line ++ "\n"
    | none => ""
  match harvest.lexer.close src harvest.source with
  | (.ok _, _, s) => ⟨status, output, harvest.events ++ closing, s⟩
  | (.error e, _, s) =>
    let closing := if lastLine.isSome then closing else []
    ⟨.error (.source e), output, harvest.events ++ closing, s⟩

end Listing

end FormulaLex
