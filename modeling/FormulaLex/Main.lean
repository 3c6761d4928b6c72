import FormulaLex.Program

/-!
The executable: it reads the input of the process and prints what the program leaves.
-/
namespace FormulaLex.Program

/-- The cause behind a failure of the system to open a file. -/
def openErrorOf? : IO.Error → Option OpenError
  | .noFileOrDirectory _ _ _ => some .missing
  | .inappropriateType _ code _ => some (if code = 21 then .isDirectory else .notDirectory)
  | .invalidArgument _ _ _ => some .nameTooLong
  | .permissionDenied _ _ _ => some .permissionDenied
  | _ => none

def finish : Except Crash Exit → IO UInt32
  | .ok exit => do
    IO.print exit.output
    IO.eprint exit.errors
    return exit.status.toUInt32
  | .error crash => throw (IO.userError crash.message)

/-- Lists a file that has to be opened first. -/
def listFile (settings : CommandLine.Settings) (file : String) : IO UInt32 := do
  if file.toList.contains (Char.ofNat 0) then finish (.error (.openFailed .embeddedNull))
  else match ← (IO.FS.readBinFile file).toBaseIO with
    | .ok bytes => finish (list settings file true bytes.toList)
    | .error e =>
      match openErrorOf? e with
      | some cause => finish (.ok (cannotOpen file cause))
      | none => throw e

end FormulaLex.Program

open FormulaLex in
def main (argv : List String) : IO UInt32 := do
  match CommandLine.Settings.ofArguments argv with
  | .error d => Program.finish (Program.detour d)
  | .ok settings =>
    match settings.file with
    | some file => Program.listFile settings file
    | none =>
      let bytes ← (← IO.getStdin).readBinToEnd
      Program.finish (Program.list settings Program.standardInput false bytes.toList)
