/-
The journal of a run: what each stage reports.

Every stage that ends well has one entry, and so has every method whose declared
selector differs from the one that its name gives. A stage that fails ends the
journal. The entries are made from what the stages give, so keeping a journal
changes nothing of what comes out.
-/
import ContractClient.Client.Source

set_option autoImplicit false

namespace ContractClient

/-- An entry of the journal. -/
structure JournalEntry where
  level : Int
  source : String
  text : String
  deriving DecidableEq, Repr

namespace JournalEntry

/-- An entry for those who look closely. -/
def debug (source text : String) : JournalEntry := ⟨10, source, text⟩

/-- An entry for everyone who asked for information. -/
def info (source text : String) : JournalEntry := ⟨20, source, text⟩

/-- The entry as a line. -/
def line (e : JournalEntry) : String :=
  s!"[{Severity.name e.level}] {e.source}: {e.text}"

/-- Whether settings let the entry through. Severity zero stands for the one
that is usual. -/
def passes (logLevel : Int) (e : JournalEntry) : Bool :=
  (if logLevel = 0 then 30 else logLevel) ≤ e.level

end JournalEntry

/-- Settings, as they are reported. -/
def Settings.journal (s : Settings) : JournalEntry :=
  .debug "inkgen.cli.main"
    ("config: \x7b'strict_schema': " ++ (if s.strictSchema then "True" else "False") ++
      ", 'selector_policy': " ++ Text.literal s.policy.name ++
      ", 'runtime_module': " ++ Text.literal s.runtimeModule ++
      ", 'handle_name': " ++ Text.literal s.handleName ++
      ", 'log_level': " ++ Text.literal (Severity.name s.logLevel) ++ "\x7d")

namespace Journal

/-- The entry on a loaded document. -/
def loaded (m : Metadata) : JournalEntry :=
  .debug "inkgen.common.loader"
    (s!"loaded metadata for {m.contractName} {m.contractVersion}: {m.types.length} types, " ++
      s!"{m.constructors.length} constructors, {m.messages.length} messages, {m.events.length} events")

/-- The entry on a resolved registry. -/
def resolved (m : Metadata) (r : Registry) : JournalEntry :=
  .debug "inkgen.common.resolver"
    s!"resolved {r.entries.length} of {m.types.length} types ({r.declarationOrder.length} declarations)"

/-- The entry on a method whose declared selector is used and differs from the
computed one. -/
def selector (hash : HashFunction) (policy : SelectorPolicy) (m : Method) : List JournalEntry :=
  match m.computedSelector hash, m.effectiveSelector hash policy with
  | .ok computed, .ok effective =>
    if effective = computed then []
    else
      [.debug "inkgen.common.analyzer"
        (s!"{m.label}: declared selector {Bytes.toHex0x effective} differs from computed " ++
          s!"{Bytes.toHex0x computed}; using declared")]
  | _, _ => []

/-- The entries on the selectors of the methods of one kind, up to the first
method that is refused. A method's selector is looked at once its name is
accepted. -/
def selectors (hash : HashFunction) (policy : SelectorPolicy) (kind : MethodKind) (seen : Seen) :
    List Method → List JournalEntry
  | [] => []
  | m :: rest =>
    match MethodName.ofLabel m.label with
    | .error _ => []
    | .ok name =>
      if seen.names.contains name then []
      else
        selector hash policy m ++
          match m.describe hash policy kind seen with
          | .ok d => selectors hash policy kind (seen.add d) rest
          | .error _ => []

/-- The entries on constructors and messages. -/
def methods (hash : HashFunction) (policy : SelectorPolicy) (m : Metadata) : List JournalEntry :=
  selectors hash policy .constructor {} m.constructors ++
    match describeAll hash policy .constructor {} m.constructors with
    | .error _ => []
    | .ok (constructors, seen) =>
      selectors hash policy .message { seen with names := [] } m.messages ++
        match describeAll hash policy .message { seen with names := [] } m.messages with
        | .error _ => []
        | .ok (messages, _) =>
          [.debug "inkgen.common.analyzer"
            s!"analyzed {constructors.length} constructors, {messages.length} messages"]

/-- The entry on events. -/
def events (es : List EventDescriptor) : JournalEntry :=
  .debug "inkgen.common.analyzer" s!"analyzed {es.length} events"

/-- What is known of the code. -/
def codeWords (u : CompilationUnit) : String :=
  if u.bytecode.isSome then "known" else if u.codeHash.isSome then "hash only" else "unknown"

/-- The entry on a compiled contract. -/
def compiled (u : CompilationUnit) : JournalEntry :=
  .info "inkgen.compiler"
    (s!"compiled {u.contractName}: {u.registry.declarationOrder.length} declarations, " ++
      s!"{u.interfaces.length} interfaces, code {codeWords u}")

/-- The entry on a generated module. -/
def emitted (u : CompilationUnit) (source : String) : JournalEntry :=
  let count := source.toList.count '\n'
  .debug "inkgen.codegen.emitter" s!"emitted {count} lines for {u.contractName}"

/-- The entry on a written file. -/
def wrote (path : String) : JournalEntry :=
  .info "inkgen.cli.main" s!"wrote {path}"

/-- The entries of compiling loaded metadata. -/
def ofMetadata (hash : HashFunction) (policy : SelectorPolicy) (wasm : Option Bytes) (m : Metadata) :
    List JournalEntry :=
  match settleCode hash (wasm <|> m.wasm) m.sourceHash, m.resolve with
  | .ok _, .ok r =>
    resolved m r :: methods hash policy m ++
      match m.describeMethods hash policy, m.describeEvents with
      | .ok _, .ok es =>
        events es ::
          match m.compile hash policy wasm with
          | .ok u => [compiled u]
          | .error _ => []
      | _, _ => []
  | _, _ => []

/-- **The entries of compiling a document.** -/
def ofDocument (hash : HashFunction) (settings : Settings) (wasm : Option Bytes) (document : Document) :
    List JournalEntry :=
  match document.load hash settings.strictSchema with
  | .error _ => []
  | .ok m => loaded m :: ofMetadata hash settings.policy wasm m

end Journal

end ContractClient
