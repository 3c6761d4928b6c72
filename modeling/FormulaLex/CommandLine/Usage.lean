import FormulaLex.CommandLine.Settings

/-!
What the program says about itself.
-/
namespace FormulaLex.CommandLine

def programName : String := "calclex"

def versionNumber : String := "0.1.0"

def versionText : String := programName ++ " " ++ versionNumber ++ "\n"

/-- The levels in braces, as the usage shows them. -/
def levelChoices : String := "\x7b" ++ ",".intercalate (Level.all.map Level.name) ++ "\x7d"

def usageText : String :=
  "usage: " ++ programName ++ " [-h] [--positions] [--keep-whitespace] [--no-flush]\n" ++
  "               [--log-level " ++ levelChoices ++ "] [--version]\n" ++
  "               [file]\n"

def helpText : String :=
  usageText ++
  "\n" ++
  "Tokenize an arithmetic/assignment program.\n" ++
  "\n" ++
  "positional arguments:\n" ++
  "  file                  Input file (default: standard input)\n" ++
  "\n" ++
  "options:\n" ++
  "  -h, --help            show this help message and exit\n" ++
  "  --positions           Append line:column of each token\n" ++
  "  --keep-whitespace     Print WHITESPACE tokens too\n" ++
  "  --no-flush            Drop a token still open at end of input\n" ++
  "  --log-level " ++ levelChoices ++ "\n" ++
  "                        Logging level (default: WARNING)\n" ++
  "  --version             show program's version number and exit\n"

def UsageError.message : UsageError → String
  | ambiguous argument candidates =>
    "ambiguous option: " ++ argument ++ " could match " ++ ", ".intercalate candidates
  | ignoredValue o value =>
    "argument " ++ o.title ++ ": ignored explicit argument " ++ Text.quote value
  | missingLevel => "argument --log-level: expected one argument"
  | unknownLevel value =>
    "argument --log-level: invalid choice: " ++ Text.quote value ++ " (choose from " ++
      ", ".intercalate (Level.all.map fun level => Text.quote level.name) ++ ")"
  | unrecognized arguments => "unrecognized arguments: " ++ " ".intercalate arguments

/-- A usage error shows the usage first. -/
def UsageError.text (e : UsageError) : String :=
  usageText ++ programName ++ ": error: " ++ e.message ++ "\n"

end FormulaLex.CommandLine
