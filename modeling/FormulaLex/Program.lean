import FormulaLex.CommandLine.Usage
import FormulaLex.FileTree
import FormulaLex.Listing
import FormulaLex.Source.Buffered
import FormulaLex.Stream.Bytes

/-!
The program as a whole: the tokens of a file, or of standard input, on standard output.
-/
namespace FormulaLex

/-- What a run of the program leaves. -/
structure Exit where
  status : Nat
  output : String := ""
  errors : String := ""
  /-- Whether standard input was closed. -/
  stdinClosed : Bool := false

/-- What no part of the program handles. -/
inductive Crash where
  | openFailed (e : OpenError)
  /-- The log has no level. -/
  | levelLost
  | interrupted (cause : Lexer.Interrupt Fault)

def Crash.message : Crash → String
  | openFailed e => e.reason
  | levelLost => "Level not an integer or a valid string: []"
  | interrupted cause => cause.message Fault.message

namespace Program

open CommandLine

/-- How the program ends when its arguments give no settings. -/
def detour : Detour → Except Crash Exit
  | .help => .ok { status := 0, output := helpText }
  | .version => .ok { status := 0, output := versionText }
  | .usage e => .ok { status := 2, errors := e.text }
  | .levelLost => .error .levelLost

/-- The name of standard input in messages. -/
def standardInput : String := "<stdin>"

def cannotOpen (file : String) (e : OpenError) : Exit :=
  { status := 2, errors := programName ++ ": cannot open " ++ file ++ ": " ++ e.reason ++ "\n" }

/-- Lists the tokens of an input given by its bytes. A stream that is not the program's own stays
open; the log shows at the lowest level only. -/
def list (settings : Settings) (name : String) (owned : Bool) (bytes : List UInt8) :
    Except Crash Exit :=
  let source : Buffered ByteStream := { stream := { bytes }, ownsStream := owned }
  let listing :=
    Listing.ofSource (Buffered.source ByteStream.stream) name settings.config settings.positions
      source
  match listing.status with
  | .error cause => .error (.interrupted cause)
  | .ok status =>
    .ok { status
          output := listing.output
          errors := if settings.level = .debug then Event.log listing.events else ""
          stdinClosed := !owned && listing.source.stream.closed }

/-- The program on its arguments, standard input, and the files that it can open. -/
def run (argv : List String) (stdin : List UInt8) (files : FileTree) : Except Crash Exit :=
  match Settings.ofArguments argv with
  | .error d => detour d
  | .ok settings =>
    match settings.file with
    | none => list settings standardInput false stdin
    | some file =>
      match files.open? file with
      | .ok bytes => list settings file true bytes
      | .error .embeddedNull => .error (.openFailed .embeddedNull)
      | .error e => .ok (cannotOpen file e)

end Program

end FormulaLex
