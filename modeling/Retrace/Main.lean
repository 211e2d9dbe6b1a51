/-
The program.

Reads the environment and the file that the command names, and prints and writes what the command
reports. No browser is at hand here, so a recording ends before it begins.
-/
import Retrace.CommandLine.Report

set_option autoImplicit false

namespace Retrace.Program

/-- The variables of the environment that are set. -/
def environment : IO (List (String × String)) := do
  let found ← Settings.variableNames.mapM fun name => do
    return (← IO.getEnv name).map fun value => (name, value)
  return found.filterMap id

def readFile (path : String) : IO (Except CommandLine.Unreadable String) := do
  match ← (IO.FS.readFile path).toBaseIO with
  | .ok text => return .ok text
  | .error (.noFileOrDirectory ..) => return .error .missing
  | .error (.inappropriateType ..) => return .error .directory
  | .error (.permissionDenied ..) => return .error ⟨13, "Permission denied"⟩
  | .error e => return .error ⟨5, toString e⟩

def sourceOf (args : List String) : Option String :=
  match CommandLine.Request.ofArguments args with
  | .ok (.run (.compile log _)) | .ok (.run (.list log)) => some log
  | .ok (.run (.record _ _ (some dir))) => some (CommandLine.storePath dir)
  | _ => none

/-- The directory of a file, if its path names one. -/
def directoryOf (path : String) : Option String :=
  match (path.splitOn "/").dropLast with
  | [] => none
  | parts => some ("/".intercalate parts ++ "/")

/-- Writes a file and the directories that it needs. -/
def writeFile (path text : String) : IO Unit := do
  match directoryOf path with
  | some dir => IO.FS.createDirAll dir
  | none => pure ()
  IO.FS.writeFile path text

end Retrace.Program

open Retrace

/-- Runs the command that the arguments name. -/
def main (args : List String) : IO UInt32 := do
  let environment ← Program.environment
  let content ← match Program.sourceOf args with
    | some path => Program.readFile path
    | none => pure (.error .missing)
  let around : CommandLine.Surroundings :=
    { environment, textAt := fun _ => content, clock := .ofStep 1.0
      visit := { failing := some (.launch, "no browser is available") } }
  let report := CommandLine.answer around args
  for notice in report.notices do
    (← IO.getStderr).putStrLn ("WARNING " ++ notice.message)
  for (path, text) in report.written do
    Program.writeFile path text
  (← IO.getStdout).putStr report.out
  (← IO.getStderr).putStr report.err
  return report.exit.toUInt32
