import FormulaLex.CommandLine.Argument
import FormulaLex.Config

/-!
What the command line asks for. Arguments act from left to right; help and version end the work at
once, and so does an error.
-/
namespace FormulaLex.CommandLine

inductive Level where
  | debug
  | info
  | warning
  | error
  deriving DecidableEq, Repr

namespace Level

def all : List Level := [debug, info, warning, error]

def name : Level → String
  | debug => "DEBUG"
  | info => "INFO"
  | warning => "WARNING"
  | error => "ERROR"

def ofName? (s : String) : Option Level := all.find? (·.name == s)

end Level

structure Settings where
  positions : Bool := false
  keepWhitespace : Bool := false
  noFlush : Bool := false
  level : Level := .warning
  /-- The input file; standard input if there is none. -/
  file : Option String := none
  deriving DecidableEq, Repr

/-- Why arguments give no settings. -/
inductive Detour where
  | help
  | version
  | usage (e : UsageError)
  /-- The last value given for the level was dropped. -/
  | levelLost
  deriving DecidableEq, Repr

/-- The arguments read so far: the settings, whether the level was lost, whether the operand was
met, and the arguments that nothing takes, the newest first. -/
structure Progress where
  settings : Settings := {}
  levelLost : Bool := false
  operandMet : Bool := false
  extras : List String := []

namespace Progress

/-- A separator in the place of the level is dropped, and no level is left until a later argument
gives one. -/
def setLevel (p : Progress) (value : String) : Except Detour Progress :=
  if value == separator then .ok { p with levelLost := true }
  else match Level.ofName? value with
    | some level => .ok { p with settings := { p.settings with level }, levelLost := false }
    | none => .error (.usage (.unknownLevel value))

/-- An option without value acts. -/
def act (p : Progress) : Switch → Except Detour Progress
  | .help => .error .help
  | .version => .error .version
  | .positions => .ok { p with settings := { p.settings with positions := true } }
  | .keepWhitespace => .ok { p with settings := { p.settings with keepWhitespace := true } }
  | .noFlush => .ok { p with settings := { p.settings with noFlush := true } }
  | .logLevel => .error (.usage .missingLevel)

/-- An option with a value written into its argument. Only the level takes one; behind the short
option, though, the value may repeat its letter. -/
def actWith (p : Progress) (o : Switch) (short : Bool) (value : String) : Except Detour Progress :=
  if o = .logLevel then p.setLevel value
  else
    let ignored := if short then value.toList.dropWhile (· == 'h') else value.toList
    if short && ignored.isEmpty && value != "" then p.act o
    else .error (.usage (.ignoredValue o (String.ofList ignored)))

def setFile (p : Progress) (file : Option String) : Progress :=
  { p with operandMet := true, settings := { p.settings with file } }

def reject (p : Progress) (arg : String) : Progress := { p with extras := arg :: p.extras }

end Progress

namespace Settings

/-- Reads classified arguments. The first operand is the file; a separator next to it is dropped
with it. -/
def consume : Progress → List Argument → Except Detour Progress
  | p, [] => .ok p
  | p, ⟨arg, .unknownOption⟩ :: rest => consume (p.reject arg) rest
  | p, ⟨_, .option o short (some value)⟩ :: rest => do consume (← p.actWith o short value) rest
  | p, ⟨_, .option .logLevel _ none⟩ :: ⟨value, .operand⟩ :: rest => do
    consume (← p.setLevel value) rest
  | p, ⟨_, .option o _ none⟩ :: rest => do consume (← p.act o) rest
  | p, ⟨arg, .operand⟩ :: rest =>
    if p.operandMet then consume (p.reject arg) rest
    else match rest with
      | ⟨_, .separator⟩ :: rest => consume (p.setFile (some arg)) rest
      | rest => consume (p.setFile (some arg)) rest
  | p, ⟨arg, .separator⟩ :: rest =>
    if p.operandMet then consume (p.reject arg) rest
    else match rest with
      | ⟨operand, .operand⟩ :: rest => consume (p.setFile (some operand)) rest
      | rest => consume (p.setFile none) rest

/-- The settings of a command line. Arguments that nothing takes are reported after all others, and
a lost level last. -/
def ofArguments (argv : List String) : Except Detour Settings := do
  let arguments ← (Argument.classifyAll argv).mapError .usage
  let progress ← consume {} arguments
  if !progress.extras.isEmpty then throw (.usage (.unrecognized progress.extras.reverse))
  else if progress.levelLost then throw .levelLost
  else return progress.settings

/-- The lexer options of the settings. -/
def config (s : Settings) : Config :=
  { flushAtEnd := .bool !s.noFlush, keepWhitespace := .bool s.keepWhitespace }

end Settings

end FormulaLex.CommandLine
