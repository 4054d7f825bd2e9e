/-
The command line program.

All decisions are taken in `CommandLine.run`; what is done here is reading the
files that a request names, printing, and writing the one file of the result.
-/
import ContractClient.CommandLine.Run

set_option autoImplicit false

open ContractClient ContractClient.CommandLine

/-- The variables of the environment that settings are taken from. -/
def settingVariables : IO Settings.Variables := do
  let names := ["INKGEN_STRICT_SCHEMA", "INKGEN_SELECTOR_POLICY", "INKGEN_RUNTIME_MODULE", "INKGEN_HANDLE_NAME",
    "INKGEN_LOGLEVEL"]
  names.filterMapM fun name => do
    let value ← IO.getEnv name
    return value.map fun v => (name, v)

/-- The content of a file, if it can be read. -/
def contentOf (path : String) : IO (Option Bytes) :=
  try
    let content ← IO.FS.readBinFile path
    return some content.toList
  catch _ => return none

/-- The files that a command line names, with their contents. -/
def namedFiles (arguments : List String) : IO (List (String × Bytes)) :=
  match Request.ofArguments arguments with
  | .error _ => return []
  | .ok request => request.paths.filterMapM fun path => do
    let content ← contentOf path
    return content.map fun c => (path, c)

/-- The directory of a path. -/
def directoryOf (path : String) : String :=
  "/".intercalate ((path.splitOn "/").dropLast)

/-- Writes the file of a result and makes its directory. -/
def writeResult (path text : String) : IO Unit := do
  let directory := directoryOf path
  unless directory.isEmpty do
    IO.FS.createDirAll directory
  IO.FS.writeFile path text

/-- Runs the command line. -/
def main (arguments : List String) : IO UInt32 := do
  let vars ← settingVariables
  let files ← namedFiles arguments
  let result := run vars (fun path => (files.find? (·.1 == path)).map (·.2)) arguments
  match result.written with
  | some (path, text) => writeResult path text
  | none => pure ()
  (← IO.getStdout).putStr result.out
  (← IO.getStderr).putStr result.err
  return result.exitCode.toUInt32
