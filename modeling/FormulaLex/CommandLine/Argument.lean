import FormulaLex.Text.Numeral

/-!
The arguments of the command line, each put into a class before any of them acts: an option, an
operand, or the separator after which everything is an operand.
-/
namespace FormulaLex.CommandLine

/-- The options of the program. -/
inductive Switch where
  | help
  | positions
  | keepWhitespace
  | noFlush
  | logLevel
  | version
  deriving DecidableEq, Repr

namespace Switch

/-- The spellings of all options. -/
def spellings : List (String × Switch) :=
  [("-h", help), ("--help", help), ("--positions", positions),
    ("--keep-whitespace", keepWhitespace), ("--no-flush", noFlush), ("--log-level", logLevel),
    ("--version", version)]

/-- The option as an error names it: all its spellings. -/
def title (o : Switch) : String :=
  "/".intercalate ((spellings.filter (·.2 == o)).map Prod.fst)

end Switch

inductive ArgClass where
  /-- An option, whether it was spelt with one dash, and the value written into the argument. -/
  | option (o : Switch) (short : Bool) (value : Option String)
  | unknownOption
  | operand
  | separator
  deriving DecidableEq, Repr

structure Argument where
  text : String
  argClass : ArgClass
  deriving DecidableEq, Repr

/-- What is wrong with the arguments. -/
inductive UsageError where
  | ambiguous (argument : String) (candidates : List String)
  | ignoredValue (o : Switch) (value : String)
  | missingLevel
  | unknownLevel (value : String)
  | unrecognized (arguments : List String)
  deriving DecidableEq, Repr

/-- The argument after which everything is an operand. -/
def separator : String := "--"

namespace Argument

/-- A text cut at its first equals sign, if it has one. -/
def cutAtEquals (arg : List Char) : List Char × Option (List Char) :=
  match arg.dropWhile (· != '=') with
  | [] => (arg, none)
  | _ :: value => (arg.takeWhile (· != '='), some value)

/-- The spellings that a text with two dashes abbreviates. -/
def abbreviated (text : List Char) : List (String × Switch) :=
  Switch.spellings.filter fun (spelling, _) => text.isPrefixOf spelling.toList

/-- An argument that is no option: an operand if it is a negative number or holds a space. -/
def classifyUnknown (arg : List Char) : ArgClass :=
  if Text.isNegativeNumber arg || arg.contains ' ' then .operand else .unknownOption

/-- An argument with two dashes that spells no option in full. -/
def classifyLong (arg : List Char) : Except UsageError ArgClass :=
  let (name, value) := cutAtEquals arg
  match abbreviated name with
  | [] => .ok (classifyUnknown arg)
  | [(_, o)] => .ok (.option o false (value.map String.ofList))
  | several => .error (.ambiguous (String.ofList arg) (several.map Prod.fst))

/-- An argument with one dash may be the short option with a value behind it. -/
def classifyShort (arg : List Char) : ArgClass :=
  match Switch.spellings.lookup (String.ofList (arg.take 2)) with
  | some o => .option o true (some (String.ofList (arg.drop 2)))
  | none => classifyUnknown arg

/-- Whether a spelling has one dash. -/
def isShort (spelling : List Char) : Bool := (spelling.drop 1).head? != some '-'

def classify (arg : String) : Except UsageError ArgClass :=
  let cs := arg.toList
  if cs.head? != some '-' then .ok .operand
  else match Switch.spellings.lookup arg with
    | some o => .ok (.option o (isShort cs) none)
    | none =>
      if cs.length = 1 then .ok .operand
      else
        let (name, value) := cutAtEquals cs
        match value, Switch.spellings.lookup (String.ofList name) with
        | some value, some o => .ok (.option o (isShort name) (some (String.ofList value)))
        | _, _ => if isShort cs then .ok (classifyShort cs) else classifyLong cs

/-- All arguments in their classes; the first error counts. -/
def classifyAll : List String → Except UsageError (List Argument)
  | [] => .ok []
  | arg :: rest =>
    if arg == separator then
      .ok (⟨arg, .separator⟩ :: rest.map fun operand => ⟨operand, .operand⟩)
    else do
      let argClass ← classify arg
      let rest ← classifyAll rest
      return ⟨arg, argClass⟩ :: rest

end Argument

end FormulaLex.CommandLine
