/-
Arguments of a command line.

Options and operands may be mixed; two dashes on their own end the options. A
long option takes its value behind an equals sign or from the next argument, a
short one from the rest of its argument or from the next. Short options without
values may share a dash. Of several values for one option the last counts.
-/

set_option autoImplicit false

namespace ContractClient.CommandLine

/-- The options of all commands. -/
inductive OptionName
  | wasm
  | out
  | runtimeModule
  | handleName
  | selectorPolicy
  | strictSchema
  | noStrictSchema
  | verbose
  | version
  | help
  deriving DecidableEq, Repr

/-- An option as it is spelled. -/
structure OptionForm where
  spelling : String
  name : OptionName
  takesValue : Bool
  deriving DecidableEq, Repr

/-- The options that both commands have. -/
def sharedOptions : List OptionForm :=
  [⟨"--wasm", .wasm, true⟩, ⟨"--selector-policy", .selectorPolicy, true⟩, ⟨"--verbose", .verbose, false⟩,
    ⟨"-v", .verbose, false⟩, ⟨"--help", .help, false⟩]

/-- The options of `generate`. -/
def generateOptions : List OptionForm :=
  sharedOptions ++
    [⟨"--out", .out, true⟩, ⟨"-o", .out, true⟩, ⟨"--runtime-module", .runtimeModule, true⟩,
      ⟨"--handle-name", .handleName, true⟩, ⟨"--strict-schema", .strictSchema, false⟩,
      ⟨"--no-strict-schema", .noStrictSchema, false⟩]

/-- The options of `inspect`. -/
def inspectOptions : List OptionForm := sharedOptions

/-- The options before the command. -/
def leadingOptions : List OptionForm :=
  [⟨"--version", .version, false⟩, ⟨"--help", .help, false⟩]

/-- Why arguments are refused. -/
inductive UsageError
  | unknownOption (spelling : String)
  | valueMissing (spelling : String)
  | valueNotTaken (spelling : String)
  | commandMissing
  | unknownCommand (name : String)
  | operandMissing
  | operandLeft (operand : String)
  | noSuchFile (path : String)
  | badSetting (message : String)
  deriving DecidableEq, Repr

/-- The error in words. -/
def UsageError.message : UsageError → String
  | .unknownOption spelling => s!"no such option: {spelling}"
  | .valueMissing spelling => s!"option {spelling} requires an argument"
  | .valueNotTaken spelling => s!"option {spelling} does not take a value"
  | .commandMissing => "missing command"
  | .unknownCommand name => s!"no such command: {name}"
  | .operandMissing => "missing argument METADATA"
  | .operandLeft operand => s!"unexpected extra argument: {operand}"
  | .noSuchFile path => s!"file does not exist: {path}"
  | .badSetting message => message

/-- An option that was given, with its value if it takes one. -/
structure GivenOption where
  name : OptionName
  value : String := ""
  deriving DecidableEq, Repr

/-- Arguments taken apart. -/
structure Parsed where
  options : List GivenOption := []
  operands : List String := []
  deriving DecidableEq, Repr

/-- What one argument says: the options in it that are complete, and the one
that waits for a value. -/
structure Reading where
  given : List GivenOption := []
  waiting : Option OptionForm := none

section

variable (forms : List OptionForm)

/-- The form of a spelling. -/
def form? (spelling : String) : Option OptionForm :=
  forms.find? fun f => f.spelling == spelling

/-- The short options in an argument behind its dash. -/
def readShort : List Char → Except UsageError Reading
  | [] => .ok {}
  | c :: rest =>
    let spelling := String.ofList ['-', c]
    match form? forms spelling with
    | none => .error (.unknownOption spelling)
    | some f =>
      if f.takesValue then
        match rest with
        | [] => .ok { waiting := some f }
        | _ => .ok { given := [⟨f.name, String.ofList rest⟩] }
      else do
        let more ← readShort rest
        return { more with given := ⟨f.name, ""⟩ :: more.given }

/-- A long option. -/
def readLong (argument : String) : Except UsageError Reading :=
  let spelling := String.ofList (argument.toList.takeWhile (· != '='))
  let behind := argument.toList.dropWhile (· != '=')
  match form? forms spelling, behind with
  | none, _ => .error (.unknownOption spelling)
  | some f, [] => if f.takesValue then .ok { waiting := some f } else .ok { given := [⟨f.name, ""⟩] }
  | some f, _ :: value =>
    if f.takesValue then .ok { given := [⟨f.name, String.ofList value⟩] } else .error (.valueNotTaken spelling)

/-- Whether an argument holds options. -/
def isOption (argument : String) : Bool :=
  argument.startsWith "-" && argument != "-"

/-- The options in an argument. -/
def readOption (argument : String) : Except UsageError Reading :=
  if argument.startsWith "--" then readLong forms argument
  else readShort forms (argument.toList.drop 1)

/-- **Taking arguments apart.** If `mixed` is false, the first operand ends the
options. -/
def parseArguments (mixed : Bool) : List String → Except UsageError Parsed
  | [] => .ok {}
  | argument :: rest =>
    if argument == "--" then .ok { operands := rest }
    else if isOption argument then do
      let reading ← readOption forms argument
      match reading.waiting, rest with
      | none, rest => do
        let more ← parseArguments mixed rest
        return { more with options := reading.given ++ more.options }
      | some f, [] => .error (.valueMissing f.spelling)
      | some f, value :: rest => do
        let more ← parseArguments mixed rest
        return { more with options := reading.given ++ ⟨f.name, value⟩ :: more.options }
    else if mixed then do
      let more ← parseArguments mixed rest
      return { more with operands := argument :: more.operands }
    else .ok { operands := argument :: rest }

end

namespace Parsed

/-- The value of an option: the last one that was given. -/
def value? (p : Parsed) (name : OptionName) : Option String :=
  (p.options.reverse.find? fun o => o.name == name).map (·.value)

/-- Whether an option was given. -/
def has (p : Parsed) (name : OptionName) : Bool :=
  p.options.any fun o => o.name == name

/-- What the last of the options on strictness says. -/
def strictSchema? (p : Parsed) : Option Bool :=
  (p.options.reverse.find? fun o => o.name == .strictSchema || o.name == .noStrictSchema).map
    fun o => o.name == .strictSchema

end Parsed

/-! ## Commands -/

/-- The two commands that compile a document. -/
inductive Command
  | generate
  | inspect
  deriving DecidableEq, Repr

/-- What a command line asks for. -/
inductive Request
  | version
  | help
  | compile (command : Command) (document : String) (options : Parsed)
  deriving DecidableEq, Repr

/-- The request of a command and its arguments. -/
def requestOf (command : Command) (forms : List OptionForm) (arguments : List String) :
    Except UsageError Request := do
  let p ← parseArguments forms true arguments
  if p.has .help then return .help
  match p.operands with
  | [] => .error .operandMissing
  | [document] => return .compile command document p
  | _ :: extra :: _ => .error (.operandLeft extra)

/-- **The request of a command line.** -/
def Request.ofArguments (arguments : List String) : Except UsageError Request := do
  let p ← parseArguments leadingOptions false arguments
  if p.has .version then return .version
  if p.has .help then return .help
  match p.operands with
  | [] => .error .commandMissing
  | "generate" :: rest => requestOf .generate generateOptions rest
  | "inspect" :: rest => requestOf .inspect inspectOptions rest
  | name :: _ => .error (.unknownCommand name)

end ContractClient.CommandLine
