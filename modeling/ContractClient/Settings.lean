/-
The settings of a run.

Settings come from environment variables over defaults, and flags come over
both. They are checked when they are complete: the policy is a known one, the
handle has a name that a generated module can bind and does not bind already,
and the runtime module is a dotted path of identifiers. The environment alone
has to pass the check before flags are laid over it.
-/
import ContractClient.Client.Identifier
import ContractClient.Text.Quoted

set_option autoImplicit false

namespace ContractClient

/-- Which selector a constructor or message has when the document declares
one. -/
inductive SelectorPolicy
  /-- The declared one. -/
  | declared
  /-- The one computed from the name. -/
  | computed
  deriving DecidableEq, Repr

/-- The name of a policy. -/
def SelectorPolicy.name : SelectorPolicy → String
  | .declared => "declared"
  | .computed => "computed"

/-- The policy of a name. -/
def SelectorPolicy.ofName? (s : String) : Option SelectorPolicy :=
  [SelectorPolicy.declared, .computed].find? fun p => p.name == s

/-! ## Severities -/

namespace Severity

/-- The names of the severities, each of which stands for a number. -/
def byName : List (String × Int) :=
  [("CRITICAL", 50), ("FATAL", 50), ("ERROR", 40), ("WARN", 30), ("WARNING", 30), ("INFO", 20),
    ("DEBUG", 10), ("NOTSET", 0)]

/-- The severity of a name. -/
def ofName? (s : String) : Option Int :=
  (byName.find? (·.1 == s)).map (·.2)

/-- The name of a severity. -/
def name (level : Int) : String :=
  if level = 50 then "CRITICAL"
  else if level = 40 then "ERROR"
  else if level = 30 then "WARNING"
  else if level = 20 then "INFO"
  else if level = 10 then "DEBUG"
  else if level = 0 then "NOTSET"
  else s!"Level {level}"

end Severity

/-! ## Settings -/

/-- The settings of a run. -/
structure Settings where
  /-- Whether documents are checked against the layout before they are
  loaded. -/
  strictSchema : Bool
  policy : SelectorPolicy
  /-- The path from which the generated module imports. -/
  runtimeModule : String
  /-- The class name of the contract handle. -/
  handleName : String
  /-- The lowest severity that is reported. -/
  logLevel : Int
  deriving DecidableEq, Repr

/-- Why settings are refused. -/
inductive SettingsError
  | unknownPolicy (given : String)
  | handleNoIdentifier (given : String)
  | handleReserved (given : String)
  | modulePath (given : String)
  deriving DecidableEq, Repr

/-- The error in words. -/
def SettingsError.message : SettingsError → String
  | .unknownPolicy given =>
    s!"selector_policy must be one of ('declared', 'computed'), got {Text.literal given}"
  | .handleNoIdentifier given => s!"handle_name must be a Python identifier, got {Text.literal given}"
  | .handleReserved given => s!"handle_name {Text.literal given} is already bound in generated modules"
  | .modulePath given => s!"runtime_module must be a dotted module path, got {Text.literal given}"

namespace Settings

/-- Whether `s` can be bound: an identifier that is no keyword. -/
def isName (s : String) : Bool :=
  Text.isIdentifier s && !isKeyword s

/-- Whether `s` is a dotted path of names. -/
def isModulePath (s : String) : Bool :=
  (Text.splitAt '.' s.toList).all fun part => isName (String.ofList part)

/-- Settings of which nothing is known yet. -/
structure Draft where
  strictSchema : Bool := true
  policy : String := "declared"
  runtimeModule : String := "inkgen.runtime"
  handleName : String := "Instance"
  logLevel : Int := 30

/-- The settings of a draft that passes all checks. -/
def Draft.check (d : Draft) : Except SettingsError Settings :=
  match SelectorPolicy.ofName? d.policy with
  | none => .error (.unknownPolicy d.policy)
  | some policy =>
    if !isName d.handleName then .error (.handleNoIdentifier d.handleName)
    else if moduleReserved.contains d.handleName then .error (.handleReserved d.handleName)
    else if !isModulePath d.runtimeModule then .error (.modulePath d.runtimeModule)
    else .ok
      { strictSchema := d.strictSchema, policy, runtimeModule := d.runtimeModule, handleName := d.handleName,
        logLevel := d.logLevel }

/-- Settings as a draft again. -/
def draft (s : Settings) : Draft :=
  { strictSchema := s.strictSchema, policy := s.policy.name, runtimeModule := s.runtimeModule,
    handleName := s.handleName, logLevel := s.logLevel }

/-! ## The environment -/

/-- The variables of an environment. -/
abbrev Variables := List (String × String)

/-- The value of a variable. -/
def valueOf? (vars : Variables) (name : String) : Option String :=
  (vars.find? (·.1 == name)).map (·.2)

/-- A boolean variable: some words mean true and everything else means false. -/
def flagVariable (vars : Variables) (name : String) (default : Bool) : Bool :=
  match valueOf? vars name with
  | none => default
  | some raw => ["1", "true", "t", "yes", "y", "on"].contains (Text.lower (Text.strip raw))

/-- A variable with one of the values in `choices`; any other value counts as
absent. -/
def choiceVariable (vars : Variables) (name default : String) (choices : List String) : String :=
  match valueOf? vars name with
  | none => default
  | some raw =>
    let value := Text.lower (Text.strip raw)
    if choices.contains value then value else default

/-- A variable with a text; a blank one counts as absent. -/
def textVariable (vars : Variables) (name default : String) : String :=
  match valueOf? vars name with
  | none => default
  | some raw =>
    let value := Text.strip raw
    if value.isEmpty then default else value

/-- A variable that names a severity; any other value counts as absent. -/
def severityVariable (vars : Variables) (name : String) (default : Int) : Int :=
  match valueOf? vars name with
  | none => default
  | some raw => (Severity.ofName? (Text.upper (Text.strip raw))).getD default

/-- The draft that an environment makes of the defaults. -/
def Draft.ofVariables (vars : Variables) : Draft :=
  let d : Draft := {}
  { strictSchema := flagVariable vars "INKGEN_STRICT_SCHEMA" d.strictSchema
    policy := choiceVariable vars "INKGEN_SELECTOR_POLICY" d.policy ["declared", "computed"]
    runtimeModule := textVariable vars "INKGEN_RUNTIME_MODULE" d.runtimeModule
    handleName := textVariable vars "INKGEN_HANDLE_NAME" d.handleName
    logLevel := severityVariable vars "INKGEN_LOGLEVEL" d.logLevel }

/-- The settings of an environment. -/
def ofVariables (vars : Variables) : Except SettingsError Settings :=
  (Draft.ofVariables vars).check

/-! ## Flags -/

/-- What flags say. -/
structure Overrides where
  strictSchema : Option Bool := none
  policy : Option String := none
  runtimeModule : Option String := none
  handleName : Option String := none
  logLevel : Option Int := none

/-- Settings with flags laid over them. -/
def withOverrides (s : Settings) (o : Overrides) : Except SettingsError Settings :=
  let d := s.draft
  Draft.check
    { strictSchema := o.strictSchema.getD d.strictSchema
      policy := o.policy.getD d.policy
      runtimeModule := o.runtimeModule.getD d.runtimeModule
      handleName := o.handleName.getD d.handleName
      logLevel := o.logLevel.getD d.logLevel }

end Settings

/-! ## The version -/

/-- The version of the generator: the one that the environment names, if it
names one, or that of a development build. -/
def version (vars : Settings.Variables) : String :=
  match Settings.valueOf? vars "INKGEN_VERSION" with
  | some v => if v.isEmpty then "0.3.0+dev" else v
  | none => "0.3.0+dev"

end ContractClient
