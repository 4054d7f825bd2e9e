/-
What a call does.

A call of a generated method is to do what the description of the method says:
encode the arguments by the codecs of their declared types, send them behind the
selector in one call of the connection, and make a result of the answer; or, if
an argument does not encode, say so and send nothing. This is shown of
connections that write their calls down.

It is so for methods that see the classes of their types. A type may have the
name of a variable that a method has, such as the amount that goes with a call.
Such a method makes no call, and what it fails with says nothing of its
arguments.
-/
import ContractClient.Proofs.Client.Methods
import ContractClient.Proofs.Client.SelectorTable

set_option autoImplicit false

namespace ContractClient

open Codec

/-! ## Connections with a log -/

section

variable {σ τ ε α : Type}

/-- The connection that writes its calls down, the latest last. -/
def Transport.logged (T : Transport σ τ ε) : Transport (σ × List TransportCall) τ ε where
  read account data s :=
    let (answer, t) := T.read account data s.1
    (answer, t, s.2 ++ [.read account data])
  exec account data amount s :=
    let (answer, t) := T.exec account data amount s.1
    (answer, t, s.2 ++ [.exec account data amount])
  instantiate codeHash salt data amount s :=
    let (answer, t) := T.instantiate codeHash salt data amount s.1
    (answer, t, s.2 ++ [.instantiate codeHash salt data amount])
  upload code codeHash s :=
    let (answer, t) := T.upload code codeHash s.1
    (answer, t, s.2 ++ [.upload code codeHash])

/-- Whether something that is done with a connection is one call, with an
outcome and a state behind it. -/
def MakesCall (run : σ × List TransportCall → Except (CallError ε) α × σ × List TransportCall)
    (call : TransportCall) (ask : σ → Except (CallError ε) α × σ) : Prop :=
  ∀ s log, run (s, log) = ((ask s).1, (ask s).2, log ++ [call])

/-- Whether something that is done with a connection is no call, but an
error. -/
def MakesNoCall (run : σ × List TransportCall → Except (CallError ε) α × σ × List TransportCall)
    (e : CallError ε) : Prop :=
  ∀ s log, run (s, log) = (.error e, s, log)

end

/-! ## The data of a call -/

/-- Whether values are encoded as the given bytes, each by its codec. -/
def Encodes (env : Environment) (codecs : List Codec) (args : List Value) (encoded : List Bytes) : Prop :=
  List.Forall₂ (fun p bs => p.1.encode env p.2 = .ok bs) (codecs.zip args) encoded

/-- Arguments encode if each of them does, and the result is the concatenation
of their encodings in the order of the parameters. -/
theorem encodeArgs_ok_iff {env : Environment} {args : List (Codec × Value)} {bs : Bytes} :
    encodeArgs env args = .ok bs ↔
      ∃ encoded, List.Forall₂ (fun p bs => p.1.encode env p.2 = .ok bs) args encoded ∧ encoded.flatten = bs := by
  induction args generalizing bs with
  | nil =>
    simp only [encodeArgs, List.forall₂_nil_left_iff, exists_eq_left, List.flatten_nil, Except.ok.injEq]
  | cons a args ih =>
    obtain ⟨c, v⟩ := a
    rw [encodeArgs, bind_ok_iff]
    constructor
    · rintro ⟨head, hhead, h⟩
      obtain ⟨tail, htail, heq⟩ := bind_ok_iff.1 h
      obtain ⟨encoded, hencoded, rfl⟩ := ih.1 htail
      cases heq
      exact ⟨head :: encoded, .cons hhead hencoded, rfl⟩
    · rintro ⟨encoded, hencoded, rfl⟩
      obtain ⟨head, tail, hhead, htail, rfl⟩ := List.forall₂_cons_left_iff.1 hencoded
      exact ⟨head, hhead, bind_ok_iff.2 ⟨tail.flatten, ih.2 ⟨tail, htail, rfl⟩, rfl⟩⟩

section

variable {m : ClientModule} {b : Bindings} {cls : String} {f : ClientMethod} {args : List Value}
  {codecs : List Codec} {ε : Type}

/-- The data of a call is the selector of its label followed by the arguments,
if the method finds its codecs and the selector is in the table. -/
theorem data_of_encodes (hcodecs : f.codecs (ε := ε) (f.scope b cls args false) = .ok codecs)
    {encoded : List Bytes} (hencoded : Encodes b.environment codecs args encoded) {selector : Bytes}
    (hselector : m.selector? f.label = some selector) :
    m.data (ε := ε) b cls f args = .ok (selector ++ encoded.flatten) := by
  unfold ClientModule.data
  rw [hcodecs, hselector]
  refine bind_ok_iff.2 ⟨codecs, rfl, bind_ok_iff.2 ⟨encoded.flatten, ?_, rfl⟩⟩
  exact mapError_ok_iff.2 (encodeArgs_ok_iff.2 ⟨encoded, hencoded, rfl⟩)

end

/-! ## What a call comes to -/

section

variable {σ τ ε α ρ : Type}

variable {T : Transport σ τ ε} {m : ClientModule} {b : Bindings} {cls : String} {f : ClientMethod}
  {args : List Value} {data : Bytes}

end

/-! ## What is asked of a call -/

section

variable (u : CompilationUnit) (m : ClientModule) (b : Bindings) (cls : String) (d : MethodDescriptor)
  (f : ClientMethod)

/-- Whether arguments are as many as are declared, and come with the codecs of
their declared types. -/
structure Given (codecs : List Codec) (args : List Value) : Prop where
  codecs : List.Forall₂ (fun a c => u.HasCodec m.writtenHandle b a.2 c) d.args codecs
  length : args.length = d.args.length

/-- Whether data is a selector, and behind it the encodings of the arguments in
the order in which they are declared. -/
def DataOf (selector : Bytes) (args : List Value) (data : Bytes) : Prop :=
  ∃ codecs encoded, Given u m b d codecs args ∧ Encodes b.environment codecs args encoded ∧
    data = selector ++ encoded.flatten

/-- The amount that is to go with a call. -/
def MethodDescriptor.passed (d : MethodDescriptor) (amount : Int) : Option Int :=
  if d.payable then some amount else none

variable {σ τ ε : Type}

end

/-! ## Calls of rendered methods -/

section

variable {metadata : Metadata} {u : CompilationUnit} {runtimeModule : String} {m : ClientModule} {b : Bindings}
  {cls : String} {d : MethodDescriptor} {f : ClientMethod} {σ τ ε : Type}

/-- What `DataOf` says of a described method, its rendered method does: it is
the step from a document's descriptor to the method of the client that was made
from it. -/
theorem Renders.data (h : Renders u m.writtenHandle d f) {selector : Bytes}
    (hselector : m.selector? d.label = some selector) (hsees : f.SeesArguments cls) {args : List Value}
    {data : Bytes} (hdata : DataOf u m b d selector args data) : m.data (ε := ε) b cls f args = .ok data := by
  obtain ⟨codecs, encoded, hgiven, hencoded, rfl⟩ := hdata
  have hlen := hgiven.length.trans h.types.length_eq
  exact data_of_encodes (h.codecs_of_sees hlen hgiven.codecs hsees) hencoded (h.label ▸ hselector)

/-- The amount that is passed on is the descriptor's: the one given where the
method is payable, and none otherwise. -/
theorem Renders.passed (h : Renders u m.writtenHandle d f) (amount : Int) : f.passed amount = d.passed amount := by
  rw [ClientMethod.passed, MethodDescriptor.passed, h.payable]

end

/-- What a unit was compiled from has the registry of the unit. -/
theorem compile_resolve {hash : HashFunction} {settings : Settings} {wasm : Option Bytes} {document : Document}
    {u : CompilationUnit} (h : document.compile hash settings wasm = .ok u) :
    ∃ metadata : Metadata, metadata.resolve = .ok u.registry := by
  obtain ⟨metadata, hfrom⟩ := exists_compiledFrom h
  exact ⟨metadata, hfrom.registry⟩

/-- A document with a payable message that takes a record, whose type has a name
of choice. -/
def transferDocument (name : String) : Document :=
  .value (.obj [("version", .int 4), ("contract", .obj [("name", .str "c"), ("version", .str "1")]),
    ("types", .arr [
      .obj [("id", .int 0), ("type", .obj [("def", .obj [("primitive", .str "u8")])])],
      .obj [("id", .int 1), ("type", .obj [("path", .arr [.str "a", .str name]), ("def", .obj [
        ("composite", .obj [("fields", .arr [.obj [("name", .str "x"), ("type", .int 0)]])])])])]]),
    ("spec", .obj [
      ("constructors", .arr []),
      ("messages", .arr [.obj [("label", .str "send"),
        ("args", .arr [.obj [("label", .str "p"), ("type", .obj [("type", .int 1)])]]),
        ("mutates", .bool true), ("payable", .bool true), ("selector", .str "0x0a0b0c0d")]]),
      ("events", .arr [])])])

/-- The message of the document. -/
def transferMessage : MethodDescriptor :=
  { kind := .message, label := "send", name := .ungrouped "send", selector := [10, 11, 12, 13],
    args := [("p", 1)], returnType := none, mutates := true, payable := true, docs := [] }

/-- The unit of the document. -/
def transferUnit (name : String) : CompilationUnit :=
  { contractName := "c", contractVersion := "1"
    registry := ⟨[{ id := 1, definition := .composite [{ typeId := 0, name := "x" }], path := ["a", name] },
      { id := 0, definition := .primitive (.unsigned .w8) }], [1]⟩
    constructors := [], messages := [transferMessage], events := [], codeHash := none, bytecode := none }

/-- The settings under which it is compiled. -/
def transferSettings : Settings :=
  ⟨true, .declared, "inkgen.runtime", "Instance", 30⟩

theorem transfer_compile (name : String) :
    (transferDocument name).compile id transferSettings none = .ok (transferUnit name) := by
  cbv

/-- A value of the type. -/
def transferred (name : String) : Value :=
  .instance name [("x", .int 1)]

/-- Whether the value encodes in an imported client, and no parameter is private
there. -/
def transferCheck (name : String) (p : ClientModule × Bindings) : Bool :=
  ((p.2.environment.early name).encode p.2.environment (transferred name)).toOption == some [1] &&
    p.1.messages.all fun f => f.parameters.all fun q => !isPrivate q.name

theorem exists_transferImport (name : String)
    (h : ((transferUnit name).imported "inkgen.runtime" "Instance").toOption.map (transferCheck name) = some true) :
    ∃ m b, (transferUnit name).client "inkgen.runtime" "Instance" = .ok m ∧ m.Imports b ∧
      transferCheck name (m, b) = true :=
  exists_imported h

theorem transfer_spell {name : String}
    (hname : ((transferUnit name).moduleNames "Instance").types.find? 1 = some name) :
    (transferUnit name).registry.spell ((transferUnit name).moduleNames "Instance").types 1 =
      .ok (.named name) := by
  rw [Registry.spell, Registry.spellBelow, hname]
  rfl

section

variable {name : String} {m : ClientModule} {b : Bindings}

/-- The method that sends it. -/
theorem transfer_method (hname : ((transferUnit name).moduleNames "Instance").types.find? 1 = some name)
    (hclient : (transferUnit name).client "inkgen.runtime" "Instance" = .ok m) :
    ∃ f, m.messages = [f] ∧ Renders (transferUnit name) m.writtenHandle transferMessage f ∧
      ∃ p, f.parameters = [p] ∧ p.type.classes = [name] := by
  obtain ⟨hhandle, hrenders⟩ := client_renders hclient
  obtain ⟨f, fs, hf, hnone, hmessages⟩ := List.forall₂_cons_left_iff.1 hrenders.messages
  obtain rfl := List.forall₂_nil_left_iff.1 hnone
  obtain ⟨p, ps, hp, hnone, hparameters⟩ := List.forall₂_cons_left_iff.1 hf.types
  obtain rfl := List.forall₂_nil_left_iff.1 hnone
  refine ⟨f, hmessages, hf, p, hparameters, ?_⟩
  rw [hhandle] at hp
  have htype : TypeExpr.named name = p.type := Except.ok.inj ((transfer_spell hname).symm.trans hp)
  rw [← htype, TypeExpr.classes]

/-- The Boolean check of the example says what the theorem above needs: the
codec wired for the class encodes the argument, and no parameter is private. -/
theorem transferCheck_iff : transferCheck name (m, b) = true ↔
    (b.environment.early name).encode b.environment (transferred name) = .ok [1] ∧
      ∀ f ∈ m.messages, ∀ p ∈ f.parameters, isPrivate p.name = false := by
  unfold transferCheck
  rw [Bool.and_eq_true, beq_iff_eq]
  simp only [List.all_eq_true, Bool.not_eq_true']
  cases (b.environment.early name).encode b.environment (transferred name) <;> simp [Except.toOption]

end

end ContractClient
