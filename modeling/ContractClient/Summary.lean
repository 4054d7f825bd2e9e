/-
The summary of a compiled contract, as a JSON object.
-/
import ContractClient.Compile
import ContractClient.Json.Writer

set_option autoImplicit false

namespace ContractClient

/-- A text or null. -/
def optionalText (s : Option String) : Json :=
  match s with
  | some s => .str s
  | none => .null

/-- A natural number or null. -/
def optionalNumber (n : Option Nat) : Json :=
  match n with
  | some n => .int n
  | none => .null

/-- The summary of a constructor or message. -/
def MethodDescriptor.summary (m : MethodDescriptor) : Json :=
  .obj
    [("label", .str m.label),
      ("interface", optionalText m.name.interface?),
      ("name", .str m.name.base),
      ("selector", .str (Bytes.toHex0x m.selector)),
      ("args", .arr (m.args.map fun (name, id) => .obj [("name", .str name), ("type", .int id)])),
      ("returnType", optionalNumber m.returnType),
      ("mutates", .bool m.mutates),
      ("payable", .bool m.payable)]

/-- The summary of an event. -/
def EventDescriptor.summary (e : EventDescriptor) : Json :=
  .obj
    [("name", .str e.name),
      ("discriminant", .int e.discriminant),
      ("fields",
        .arr (e.fields.map fun f =>
          .obj [("name", .str f.name), ("type", .int f.typeId), ("indexed", .bool f.indexed)]))]

/-- The path of a declared type in one text. -/
def Registry.displayPath (r : Registry) (id : TypeId) : String :=
  match r.entry? id with
  | some e => e.displayPath
  | none => ""

/-- The summary of a unit. -/
def CompilationUnit.summary (u : CompilationUnit) : Json :=
  .obj
    [("contract", .obj [("name", .str u.contractName), ("version", .str u.contractVersion)]),
      ("codeHash", optionalText (u.codeHash.map Bytes.toHex0x)),
      ("codeLen", optionalNumber (u.bytecode.map (·.length))),
      ("constructors", .arr (u.constructors.map MethodDescriptor.summary)),
      ("messages", .arr (u.messages.map MethodDescriptor.summary)),
      ("interfaces", .arr (u.interfaces.map .str)),
      ("events", .arr (u.events.map EventDescriptor.summary)),
      ("declarations",
        .arr (u.registry.declarationOrder.map fun (id : TypeId) =>
          .obj [("id", .int id), ("path", .str (u.registry.displayPath id))]))]

end ContractClient
