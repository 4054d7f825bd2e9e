/-
Compiling a document: everything that a client is generated from, in one unit.

The stages run in a fixed order and the first one that fails decides: the
document is loaded, the code is compared with the declared hash, the types are
resolved, and the surface is described. Code that is handed in takes precedence
over code in the document.
-/
import ContractClient.Metadata.Load
import ContractClient.Registry.Resolve
import ContractClient.Surface.Analyze

set_option autoImplicit false

namespace ContractClient

/-- Contract code, known by its hash and length. -/
structure BytecodeRef where
  codeHash : Bytes
  length : Nat
  deriving DecidableEq, Repr

/-- The reference to a piece of code. -/
def BytecodeRef.ofCode (hash : HashFunction) (code : Bytes) : BytecodeRef :=
  ⟨hash code, code.length⟩

/-- Everything that a client is generated from. -/
structure CompilationUnit where
  contractName : String
  contractVersion : String
  registry : Registry
  constructors : List MethodDescriptor
  messages : List MethodDescriptor
  events : List EventDescriptor
  codeHash : Option Bytes
  bytecode : Option BytecodeRef
  deriving DecidableEq, Repr

/-- Why a document cannot be compiled. -/
inductive CompileError
  | load (error : LoadError)
  | codeMismatch (supplied declared : Bytes)
  | resolve (error : ResolveError)
  | surface (error : SurfaceError)

/-- The error in words. -/
def CompileError.message : CompileError → String
  | .load error => error.message
  | .codeMismatch supplied declared =>
    s!"SchemaError [source/hash]: supplied code hashes to {Bytes.toHex0x supplied} but source.hash is {Bytes.toHex0x declared}"
  | .resolve error => error.message
  | .surface error => error.message

/-- The code reference of a contract and the hash under which its code is known.
A declared hash has to agree with the code. -/
def settleCode (hash : HashFunction) (code declared : Option Bytes) :
    Except CompileError (Option BytecodeRef × Option Bytes) :=
  match code with
  | none => .ok (none, declared)
  | some code =>
    let bytecode := BytecodeRef.ofCode hash code
    match declared with
    | some d =>
      if d = bytecode.codeHash then .ok (some bytecode, some bytecode.codeHash)
      else .error (.codeMismatch bytecode.codeHash d)
    | none => .ok (some bytecode, some bytecode.codeHash)

/-- The unit of loaded metadata, with the code that was handed in. -/
def Metadata.compile (hash : HashFunction) (policy : SelectorPolicy) (wasm : Option Bytes) (m : Metadata) :
    Except CompileError CompilationUnit := do
  let (bytecode, codeHash) ← settleCode hash (wasm <|> m.wasm) m.sourceHash
  let registry ← m.resolve.mapError .resolve
  let (constructors, messages) ← (m.describeMethods hash policy).mapError .surface
  let events ← m.describeEvents.mapError .surface
  return { contractName := m.contractName, contractVersion := m.contractVersion, registry, constructors,
           messages, events, codeHash, bytecode }

/-- **Compiling.** The unit of a document, with the code that was handed in. -/
def Document.compile (hash : HashFunction) (settings : Settings) (wasm : Option Bytes) (document : Document) :
    Except CompileError CompilationUnit := do
  let m ← (document.load hash settings.strictSchema).mapError .load
  m.compile hash settings.policy wasm

/-- The elements of a list without repetitions, each where it stands first. -/
def distinct {α : Type} [BEq α] (xs : List α) : List α :=
  xs.foldl (fun seen x => if seen.contains x then seen else seen ++ [x]) []

namespace CompilationUnit

/-- The interfaces of the messages, in the order in which they appear first. -/
def interfaces (u : CompilationUnit) : List String :=
  distinct (u.messages.filterMap fun m => m.name.interface?)

end CompilationUnit

end ContractClient
