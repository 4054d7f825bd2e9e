/-
Generating, from a document to the text of its client.

Everything between a document and the text of its client is a function of what
is loaded, and of the types only those count that the signatures reach: the
registry of a unit is the one place where the types of a document are used. So
two documents that both load, and are alike in this sense, generate one text, or
fail with one error: `generate_of_alike`. In what order a document declares its
types, which others it declares besides, and in what order it has its keys,
cannot be seen in a client.
-/
import ContractClient.CommandLine.Run
import ContractClient.Proofs.Client.Calls
import ContractClient.Proofs.Metadata.Rearrangement

set_option autoImplicit false

namespace ContractClient

/-! ## Generating -/

/-- Why no client is generated. -/
inductive GenerateError
  | compile (error : CompileError)
  | spell (error : SpellError)

/-- The error in words. -/
def GenerateError.message : GenerateError → String
  | .compile error => error.message
  | .spell error => error.message

/-- The text of the client of a document. -/
def Document.generate (hash : HashFunction) (settings : Settings) (wasm : Option Bytes) (document : Document) :
    Except GenerateError String := do
  let u ← (document.compile hash settings wasm).mapError .compile
  let m ← (u.client settings.runtimeModule settings.handleName).mapError .spell
  return m.source

/-- A document whose client can be made has its text generated; nothing fails
after that. -/
theorem generate_of_client {hash : HashFunction} {settings : Settings} {wasm : Option Bytes} {document : Document}
    {u : CompilationUnit} (hcompile : document.compile hash settings wasm = .ok u) {m : ClientModule}
    (hclient : u.client settings.runtimeModule settings.handleName = .ok m) :
    document.generate hash settings wasm = .ok m.source := by
  rw [Document.generate, hcompile]
  simp only [Except.mapError, bind, Except.bind]
  rw [hclient]
  rfl

/-- What comes of a run, the journal aside: the exit code, what is printed, the
file that is written, and the error. -/
structure Shows (r : CommandLine.RunResult) (out : Option String) (text : Except GenerateError String) : Prop where
  failed : ∀ e, text = .error e → r.exitCode = 1 ∧ r.out = "" ∧ r.written = none ∧
    ∃ journal, r.err = journal ++ CommandLine.errorText e.message
  printed : ∀ source, text = .ok source → out = none → r.exitCode = 0 ∧ r.out = source ∧ r.written = none
  written : ∀ source path, text = .ok source → out = some path →
    r.exitCode = 0 ∧ r.out = "" ∧ r.written = some (CommandLine.plainPath path, source)

/-- The command `generate` shows what generating gives. An error of either
stage, compiling or naming, is shown as an error and writes nothing; the text is
printed, or written where it was asked to go. -/
theorem shows_generate (settings : Settings) (wasm : Option Bytes) (document : Document) (out : Option String) :
    Shows (CommandLine.generate settings wasm document out) out
      (document.generate Blake2b.digest settings wasm) := by
  unfold CommandLine.generate Document.generate
  cases document.compile Blake2b.digest settings wasm with
  | error e =>
    refine ⟨?_, nofun, nofun⟩
    rintro _ ⟨⟩
    exact ⟨rfl, rfl, rfl, _, rfl⟩
  | ok u =>
    dsimp only
    simp only [Except.mapError, bind, Except.bind]
    -- Compiling went well; what is left to fail is naming the types.
    cases u.client settings.runtimeModule settings.handleName with
    | error e =>
      refine ⟨?_, nofun, nofun⟩
      rintro _ ⟨⟩
      exact ⟨rfl, rfl, rfl, _, rfl⟩
    | ok m =>
      refine ⟨nofun, ?_, ?_⟩
      · rintro _ ⟨⟩ ⟨⟩
        exact ⟨rfl, rfl, rfl⟩
      · rintro _ path ⟨⟩ ⟨⟩
        exact ⟨rfl, rfl, rfl⟩

/-- Runs that show one text differ in the journal only. What is printed, what is
written and the exit code follow from the text and from where it is to go. -/
theorem Shows.same {r r' : CommandLine.RunResult} {out : Option String} {text : Except GenerateError String}
    (h : Shows r out text) (h' : Shows r' out text) :
    r.exitCode = r'.exitCode ∧ r.out = r'.out ∧ r.written = r'.written := by
  cases text with
  | error e =>
    obtain ⟨hcode, hout, hwritten, -⟩ := h.failed e rfl
    obtain ⟨hcode', hout', hwritten', -⟩ := h'.failed e rfl
    exact ⟨hcode.trans hcode'.symm, hout.trans hout'.symm, hwritten.trans hwritten'.symm⟩
  | ok source =>
    cases out with
    | none =>
      obtain ⟨hcode, hout, hwritten⟩ := h.printed source rfl rfl
      obtain ⟨hcode', hout', hwritten'⟩ := h'.printed source rfl rfl
      exact ⟨hcode.trans hcode'.symm, hout.trans hout'.symm, hwritten.trans hwritten'.symm⟩
    | some path =>
      obtain ⟨hcode, hout, hwritten⟩ := h.written source path rfl rfl
      obtain ⟨hcode', hout', hwritten'⟩ := h'.written source path rfl rfl
      exact ⟨hcode.trans hcode'.symm, hout.trans hout'.symm, hwritten.trans hwritten'.symm⟩

/-! ## Alike documents -/

namespace Metadata

variable {m m' : Metadata}

/-- **Compiling looks at reached types only.** -/
theorem compile_congr (h : m.AgreesOn m' m.Reachable) (hash : HashFunction) (policy : SelectorPolicy)
    (wasm : Option Bytes) : m.compile hash policy wasm = m'.compile hash policy wasm := by
  have hresolve := resolve_congr h
  -- All other stages read members that the two have in common.
  rw [compile, compile, ← hresolve, h.rest]
  rfl

end Metadata

section

variable {hash : HashFunction} {settings : Settings} {document document' : Document} {doc doc' : Load.Members}
  {m m' : Metadata}

/-- Documents that are alike are compiled to one unit, or with one error. The
unit is made of the metadata, in which only the types that are not reached may
differ, and of the code under `source`. -/
theorem compile_of_alike (hobject : Load.object document = .ok doc) (hobject' : Load.object document' = .ok doc')
    (hload : document.load hash settings.strictSchema = .ok m)
    (hload' : document'.load hash settings.strictSchema = .ok m') (halike : Load.Alike doc doc' m.Reachable)
    (wasm : Option Bytes) : document.compile hash settings wasm = document'.compile hash settings wasm := by
  have hmembers : Load.members hash settings.strictSchema doc = .ok m := by
    rw [Document.load, hobject] at hload
    exact hload
  have hmembers' : Load.members hash settings.strictSchema doc' = .ok m' := by
    rw [Document.load, hobject'] at hload'
    exact hload'
  have hagrees : m.AgreesOn m' m.Reachable := Load.members_concur halike m m' hmembers hmembers'
  rw [Document.compile, Document.compile, hload, hload']
  exact Metadata.compile_congr hagrees hash settings.policy wasm

/-- **Documents that are alike generate alike.** If two documents load, agree up
to the order of keys on the version, the contract, the source and the
signatures, and have the same types under the numbers that the signatures reach,
in any order and with any others, then they generate the same text, or fail with
the same error. -/
theorem generate_of_alike (hobject : Load.object document = .ok doc) (hobject' : Load.object document' = .ok doc')
    (hload : document.load hash settings.strictSchema = .ok m)
    (hload' : document'.load hash settings.strictSchema = .ok m') (halike : Load.Alike doc doc' m.Reachable)
    (wasm : Option Bytes) : document.generate hash settings wasm = document'.generate hash settings wasm := by
  rw [Document.generate, Document.generate, compile_of_alike hobject hobject' hload hload' halike wasm]

/-- Nor can the command `generate` tell them apart, the journal aside. -/
theorem commandLine_of_alike (hobject : Load.object document = .ok doc) (hobject' : Load.object document' = .ok doc')
    (hload : document.load Blake2b.digest settings.strictSchema = .ok m)
    (hload' : document'.load Blake2b.digest settings.strictSchema = .ok m') (halike : Load.Alike doc doc' m.Reachable)
    (wasm : Option Bytes) (out : Option String) :
    let r := CommandLine.generate settings wasm document out
    let r' := CommandLine.generate settings wasm document' out
    r.exitCode = r'.exitCode ∧ r.out = r'.out ∧ r.written = r'.written := by
  have hgenerate : document.generate Blake2b.digest settings wasm =
      document'.generate Blake2b.digest settings wasm := by
    rw [Document.generate, Document.generate, compile_of_alike hobject hobject' hload hload' halike wasm]
  exact (shows_generate settings wasm document out).same (hgenerate ▸ shows_generate settings wasm document' out)

end

/-! ## A document and another one like it -/

/-- The members of the document with the payable message. -/
def transferMembers : Load.Members :=
  [("version", .int 4), ("contract", .obj [("name", .str "c"), ("version", .str "1")]),
    ("types", .arr [
      .obj [("id", .int 0), ("type", .obj [("def", .obj [("primitive", .str "u8")])])],
      .obj [("id", .int 1), ("type", .obj [("path", .arr [.str "a", .str "P"]), ("def", .obj [
        ("composite", .obj [("fields", .arr [.obj [("name", .str "x"), ("type", .int 0)]])])])])]]),
    ("spec", .obj [
      ("constructors", .arr []),
      ("messages", .arr [.obj [("label", .str "send"),
        ("args", .arr [.obj [("label", .str "p"), ("type", .obj [("type", .int 1)])]]),
        ("mutates", .bool true), ("payable", .bool true), ("selector", .str "0x0a0b0c0d")]]),
      ("events", .arr [])])]

/-- The same with its types in another order and one more among them, and with
the keys of four objects in another order. -/
def shuffledMembers : Load.Members :=
  [("spec", .obj [
      ("events", .arr []),
      ("messages", .arr [.obj [("label", .str "send"),
        ("args", .arr [.obj [("label", .str "p"), ("type", .obj [("type", .int 1)])]]),
        ("mutates", .bool true), ("payable", .bool true), ("selector", .str "0x0a0b0c0d")]]),
      ("constructors", .arr [])]),
    ("types", .arr [
      .obj [("type", .obj [("path", .arr [.str "a", .str "P"]), ("def", .obj [
        ("composite", .obj [("fields", .arr [.obj [("name", .str "x"), ("type", .int 0)]])])])]), ("id", .int 1)],
      .obj [("id", .int 7), ("type", .obj [("path", .arr [.str "b", .str "P"]), ("def", .obj [
        ("composite", .obj [])])])],
      .obj [("id", .int 0), ("type", .obj [("def", .obj [("primitive", .str "u8")])])]]),
    ("contract", .obj [("version", .str "1"), ("name", .str "c")]), ("version", .int 4)]

/-- What is loaded of the document. -/
def transferMetadata : Metadata where
  contractName := "c"
  contractVersion := "1"
  types :=
    [{ id := 0, definition := .primitive (.unsigned .w8) },
      { id := 1, definition := .composite [{ typeId := 0, name := some "x" }], path := ["a", "P"] }]
  messages :=
    [{ label := "send", args := [{ label := "p", typeId := 1 }], mutates := true, payable := true,
       selector := some [0x0a, 0x0b, 0x0c, 0x0d] }]

/-- What is loaded of the other one. -/
def shuffledMetadata : Metadata :=
  { transferMetadata with
    types :=
      [{ id := 1, definition := .composite [{ typeId := 0, name := some "x" }], path := ["a", "P"] },
        { id := 7, definition := .composite [], path := ["b", "P"] },
        { id := 0, definition := .primitive (.unsigned .w8) }] }

theorem transfer_load : (transferDocument "P").load id transferSettings.strictSchema = .ok transferMetadata := by
  cbv

theorem shuffled_load :
    (Document.value (.obj shuffledMembers)).load id transferSettings.strictSchema = .ok shuffledMetadata := by
  cbv

/-- Both types of the document are reached. -/
theorem transfer_reachable {id : TypeId} (h : transferMetadata.Reachable id) : id = 1 ∨ id = 0 := by
  have hresolve : transferMetadata.resolve = .ok (transferUnit "P").registry := by cbv
  simpa [transferUnit] using ((Metadata.resolvesTo_of_resolve hresolve).reached id).2 h

/-- The two documents are alike: the types that are reached are the same, and
the members stand in another order. -/
theorem shuffled_alike : Load.Alike transferMembers shuffledMembers transferMetadata.Reachable := by
  constructor
  case members =>
    refine List.forall_mem_cons.2 ⟨.some (.refl _), List.forall_mem_cons.2 ⟨.some ?_, List.forall_mem_cons.2
      ⟨.none, List.forall_mem_singleton.2 (.some ?_)⟩⟩⟩
    · exact .of_perm (by decide) (List.reverse_perm _).symm
    · exact .of_perm (by decide) (List.reverse_perm _).symm
  case types =>
    intro id hid
    rcases transfer_reachable hid with rfl | rfl
    · exact .some (.of_perm (by decide) (List.reverse_perm _).symm)
    · exact .some (.refl _)

/-- Both documents generate one text. -/
theorem generate_of_alike_shuffled :
    (transferDocument "P").load id transferSettings.strictSchema = .ok transferMetadata ∧
      (Document.value (.obj shuffledMembers)).load id transferSettings.strictSchema = .ok shuffledMetadata ∧
      Load.Alike transferMembers shuffledMembers transferMetadata.Reachable ∧
      ∃ source, (transferDocument "P").generate id transferSettings none = .ok source ∧
        (Document.value (.obj shuffledMembers)).generate id transferSettings none = .ok source := by
  obtain ⟨m, hclient⟩ : ∃ m, (transferUnit "P").client "inkgen.runtime" "Instance" = .ok m :=
    exists_ok (by decide +kernel)
  have hsource : (transferDocument "P").generate id transferSettings none = .ok m.source :=
    generate_of_client (transfer_compile "P") hclient
  have hobject : Load.object (transferDocument "P") = .ok transferMembers := rfl
  have hsame := generate_of_alike hobject rfl transfer_load shuffled_load shuffled_alike none
  exact ⟨transfer_load, shuffled_load, shuffled_alike, m.source, hsource, hsame ▸ hsource⟩

end ContractClient
