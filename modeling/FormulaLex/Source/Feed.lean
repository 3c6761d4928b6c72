import FormulaLex.Fault
import FormulaLex.Source.Basic

/-!
Character sources fed by their owner, item by item. An end of input among the items is passed over
once it was seen, so a feed may end and go on; it may also fail, and be closed any number of times.
-/
namespace FormulaLex

inductive FeedItem where
  | text (s : String)
  | fail (message : String)
  deriving DecidableEq, Repr

structure Feed where
  items : List FeedItem
  closeFault : Option String := none
  /-- How often the feed was closed. -/
  closings : Nat := 0
  deriving DecidableEq, Repr

namespace Feed

def label : String := "FeedSource"

def peek (f : Feed) : Except Fault String × Feed :=
  match f.items with
  | [] => (.ok "", f)
  | .fail message :: rest => (.error (.raised message), { f with items := rest })
  | .text s :: rest => (.ok s, if s == "" then { f with items := rest } else f)

def read (f : Feed) : Except Fault String × Feed :=
  match f.peek with
  | (.error e, f) => (.error e, f)
  | (.ok s, f) => (.ok s, if s == "" then f else { f with items := f.items.drop 1 })

/-- Items stay readable after a closing. -/
def close (f : Feed) : Except Fault Unit × Feed :=
  let f := { f with closings := f.closings + 1 }
  match f.closeFault with
  | some message => (.error (.raised message), f)
  | none => (.ok (), f)

def extend (f : Feed) (more : List FeedItem) : Feed := { f with items := f.items ++ more }

def source : CharSource Feed Fault where
  label := label
  peek := peek
  read := read
  close := close
  size f := f.items.length

end Feed

end FormulaLex
