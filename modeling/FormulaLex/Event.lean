import FormulaLex.Location

/-!
What a run writes to its log, and the names of the loggers.
-/
namespace FormulaLex

inductive Event where
  | scanning (subject : String)
  | finished (here : Location)
  | stopped (here : Location)
  | listed (name : String) (count : Nat)
  | listingStopped (name : String) (count : Nat)
  | listingUndecodable (name : String) (count : Nat)
  deriving DecidableEq, Repr

namespace Event

/-- Every logger belongs to one family, whose name stands in front of the others. -/
def loggerName (name : String) : String :=
  if name == "calclex" || name.startsWith "calclex." then name else "calclex." ++ name

/-- The lexer and the listing have a logger each. -/
def logger : Event → String
  | scanning _ | finished _ | stopped _ => loggerName "lexer.core"
  | listed _ _ | listingStopped _ _ | listingUndecodable _ _ => loggerName "cli"

def message : Event → String
  | scanning subject => "Scanning " ++ subject
  | finished here => "Finished scanning at " ++ here.text
  | stopped here => "Stopped scanning at " ++ here.text
  | listed name count => "Tokenized " ++ name ++ ": " ++ toString count ++ " tokens"
  | listingStopped name count => "Stopped " ++ name ++ " after " ++ toString count ++ " tokens"
  | listingUndecodable name count =>
    "Undecodable input in " ++ name ++ " after " ++ toString count ++ " tokens"

/-- All events are of the lowest level. -/
def line (e : Event) : String := "DEBUG " ++ e.logger ++ ": " ++ e.message

/-- A log as text, one line for each event. -/
def log (events : List Event) : String := String.join (events.map fun e => e.line ++ "\n")

end Event

end FormulaLex
