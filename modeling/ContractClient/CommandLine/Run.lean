/-
Running a command line.

A run reads at most two files, prints to the two streams, and writes at most one
file. It ends with 0, with 1 if the document cannot be compiled, and with 2 if
the command line is no use. Nothing is written unless everything before went
well.
-/
import ContractClient.CommandLine.Arguments
import ContractClient.CommandLine.Journal
import ContractClient.Hash.Blake2b
import ContractClient.Summary

set_option autoImplicit false

namespace ContractClient.CommandLine

/-- What comes of a run. -/
structure RunResult where
  exitCode : Nat
  out : String := ""
  err : String := ""
  /-- The file to write, with its text. -/
  written : Option (String × String) := none
  deriving DecidableEq, Repr

/-- The flags of a command as settings. Policies are named in letters of any
case, and an empty name is none. -/
def overridesOf (p : Parsed) : Settings.Overrides :=
  { strictSchema := p.strictSchema?
    policy := match p.value? .selectorPolicy with
      | some name => if name.isEmpty then none else some (Text.lower name)
      | none => none
    runtimeModule := p.value? .runtimeModule
    handleName := p.value? .handleName
    logLevel := if p.has .verbose then some 10 else none }

/-- The settings of a command under an environment. -/
def settingsOf (vars : Settings.Variables) (p : Parsed) : Except SettingsError Settings := do
  let s ← Settings.ofVariables vars
  s.withOverrides (overridesOf p)

/-- A path without what does not matter in it: repeated and trailing slashes,
and steps that stay. -/
def plainPath (path : String) : String :=
  let cs := path.toList
  let root :=
    match cs with
    | '/' :: '/' :: '/' :: _ => "/"
    | '/' :: '/' :: _ => "//"
    | '/' :: _ => "/"
    | _ => ""
  let steps := ((Text.splitAt '/' cs).map String.ofList).filter fun s => s != "" && s != "."
  let plain := root ++ "/".intercalate steps
  if plain.isEmpty then "." else plain

/-- Lines of the journal that settings let through. -/
def journalText (s : Settings) (entries : List JournalEntry) : String :=
  String.join ((entries.filter (JournalEntry.passes s.logLevel)).map fun e => e.line ++ "\n")

/-- What is printed of an error. -/
def errorText (message : String) : String :=
  "error: " ++ message ++ "\n"

/-- The result of a run that ends in an error of the document. -/
def failed (s : Settings) (entries : List JournalEntry) (message : String) : RunResult :=
  { exitCode := 1, err := journalText s entries ++ errorText message }

/-- Runs `inspect` on a document. -/
def inspect (s : Settings) (wasm : Option Bytes) (document : Document) : RunResult :=
  let entries := s.journal :: Journal.ofDocument Blake2b.digest s wasm document
  match document.compile Blake2b.digest s wasm with
  | .error e => failed s entries e.message
  | .ok u => { exitCode := 0, out := u.summary.indented 0 ++ "\n", err := journalText s entries }

/-- Runs `generate` on a document; the module is printed unless there is a file
to write it to. -/
def generate (s : Settings) (wasm : Option Bytes) (document : Document) (out : Option String) : RunResult :=
  let entries := s.journal :: Journal.ofDocument Blake2b.digest s wasm document
  match document.compile Blake2b.digest s wasm with
  | .error e => failed s entries e.message
  | .ok u =>
    match u.client s.runtimeModule s.handleName with
    | .error e => failed s entries e.message
    | .ok m =>
      let source := m.source
      let entries := entries ++ [Journal.emitted u source]
      match out with
      | none => { exitCode := 0, out := source, err := journalText s entries }
      | some path =>
        let path := plainPath path
        { exitCode := 0, err := journalText s (entries ++ [Journal.wrote path]),
          written := some (path, source) }

/-- A file that has to be there. -/
def requireFile (read : String → Option Bytes) (path : String) : Except UsageError Bytes :=
  match read path with
  | some content => .ok content
  | none => .error (.noSuchFile path)

/-- The files that a request reads. -/
def Request.paths : Request → List String
  | .compile _ path p => path :: (p.value? .wasm).toList
  | _ => []

/-- Runs a request. -/
def Request.run (vars : Settings.Variables) (read : String → Option Bytes) :
    Request → Except UsageError RunResult
  | .version => .ok { exitCode := 0, out := s!"inkgen {generatorVersion}\n" }
  | .help => .ok { exitCode := 0 }
  | .compile command path p => do
    let document ← requireFile read path
    let wasm ← match p.value? .wasm with
      | some path => some <$> requireFile read path
      | none => pure none
    let s ← (settingsOf vars p).mapError fun e => .badSetting e.message
    return match command with
      | .generate => generate s wasm (.bytes document) (p.value? .out)
      | .inspect => inspect s wasm (.bytes document)

/-- **Running a command line** over files that `read` gives. -/
def run (vars : Settings.Variables) (read : String → Option Bytes) (arguments : List String) : RunResult :=
  match (Request.ofArguments arguments).bind fun r => r.run vars read with
  | .ok result => result
  | .error e => { exitCode := 2, err := errorText e.message }

end ContractClient.CommandLine
