/-
The table of selectors.

A generated method does not carry its selector but looks it up in one table,
under its label. The table holds constructors and messages alike, and of two
entries under one label it keeps the later one, which is the message's.
Selectors are distinct over both kinds, labels only within each kind. So the
selector that a message looks up is always its own, and the one that a
constructor looks up is its own exactly if no message has the label of the
constructor; otherwise it is the selector of that message.
-/
import ContractClient.Client.Call
import ContractClient.Proofs.Client.Assembly
import ContractClient.Proofs.Surface.Distinct
import Mathlib

set_option autoImplicit false

namespace ContractClient

/-! ## What a unit is made of -/

/-- The types and the surface of a unit are those of one document. -/
structure CompiledFrom (hash : HashFunction) (policy : SelectorPolicy) (m : Metadata) (u : CompilationUnit) :
    Prop where
  registry : m.resolve = .ok u.registry
  methods : m.describeMethods hash policy = .ok (u.constructors, u.messages)
  events : m.describeEvents = .ok u.events

/-- A unit is compiled from the metadata that its document loads to. -/
theorem exists_compiledFrom {hash : HashFunction} {settings : Settings} {wasm : Option Bytes}
    {document : Document} {u : CompilationUnit} (h : document.compile hash settings wasm = .ok u) :
    ∃ m, CompiledFrom hash settings.policy m u := by
  unfold Document.compile at h
  obtain ⟨m, -, h⟩ := bind_ok_iff.1 h
  unfold Metadata.compile at h
  obtain ⟨⟨bytecode, codeHash⟩, -, h⟩ := bind_ok_iff.1 h
  obtain ⟨registry, hregistry, h⟩ := bind_ok_iff.1 h
  obtain ⟨⟨constructors, messages⟩, hmethods, h⟩ := bind_ok_iff.1 h
  obtain ⟨events, hevents, heq⟩ := bind_ok_iff.1 h
  cases heq
  exact ⟨m, mapError_ok_iff.1 hregistry, mapError_ok_iff.1 hmethods, mapError_ok_iff.1 hevents⟩

/-- The methods of a unit are those that were described. -/
theorem compile_distinct {hash : HashFunction} {settings : Settings} {wasm : Option Bytes}
    {document : Document} {u : CompilationUnit} (h : document.compile hash settings wasm = .ok u) :
    DistinctSurface u.constructors u.messages := by
  obtain ⟨m, hfrom⟩ := exists_compiledFrom h
  exact describe_distinct hfrom.methods

/-! ## What a module is made of -/

/-- The methods of a module carry the labels of the unit's methods, and its
table their selectors. -/
structure Labelled (u : CompilationUnit) (m : ClientModule) : Prop where
  table : m.selectors = (u.constructors ++ u.messages).map fun d => (d.label, d.selector)
  constructors : m.constructors.map (·.label) = u.constructors.map (·.label)
  messages : m.messages.map (·.label) = u.ownMessages.map (·.label)
  interfaces : ∀ i ∈ m.interfaces, i.methods.map (·.label) = (u.messagesOf i.interface).map (·.label)

/-- The methods of a client have the labels of the unit's messages and
constructors, so its table has an entry for each of them. -/
theorem client_labelled {u : CompilationUnit} {runtimeModule handle : String} {m : ClientModule}
    (h : u.client runtimeModule handle = .ok m) : Labelled u m := by
  have hmade := client_assembled h
  obtain ⟨hconstructors, hmessages, -⟩ := length_handleMembers u handle
  exact ⟨hmade.selectors, clientMethods_labels hconstructors hmade.constructors,
    clientMethods_labels hmessages hmade.messages,
    fun i hi => clientMethods_labels (length_methodNamesOf i.interface) (hmade.interface hi)⟩

/-! ## Looking up -/

section

variable {u : CompilationUnit} {m : ClientModule}

/-- The last entry of a label counts: that of a message, or else that of a
constructor. -/
theorem selector?_eq (h : Labelled u m) (label : String) :
    m.selector? label = (((u.messages.reverse.find? (·.label == label)).or
      (u.constructors.reverse.find? (·.label == label))).map (·.selector)) := by
  unfold ClientModule.selector?
  rw [h.table, ← List.map_reverse, List.find?_map, List.reverse_append, List.find?_append, Option.map_map]
  rfl

/-- Messages look up their own selectors. -/
theorem selector?_message (h : Labelled u m) (hd : DistinctSurface u.constructors u.messages)
    {d : MethodDescriptor} (hmem : d ∈ u.messages) : m.selector? d.label = some d.selector := by
  rw [selector?_eq h, find?_reverse_of_nodup _ hd.message_labels hmem]
  rfl

/-- Constructors whose labels no message has look up their own selectors. -/
theorem selector?_constructor (h : Labelled u m) (hd : DistinctSurface u.constructors u.messages)
    {d : MethodDescriptor} (hmem : d ∈ u.constructors) (hlabel : ∀ d' ∈ u.messages, d'.label ≠ d.label) :
    m.selector? d.label = some d.selector := by
  have hnone : u.messages.reverse.find? (·.label == d.label) = none :=
    find?_eq_none_of_key MethodDescriptor.label fun d' hd' => hlabel d' (List.mem_reverse.1 hd')
  rw [selector?_eq h, hnone, find?_reverse_of_nodup _ hd.constructor_labels hmem]
  rfl

/-- Constructors and messages have different selectors. -/
theorem selector_ne (hd : DistinctSurface u.constructors u.messages) {c d : MethodDescriptor}
    (hc : c ∈ u.constructors) (hmem : d ∈ u.messages) : d.selector ≠ c.selector := by
  have hselectors := hd.selectors
  rw [List.map_append, List.nodup_append] at hselectors
  intro heq
  exact hselectors.2.2 c.selector (List.mem_map.2 ⟨c, hc, rfl⟩) d.selector (List.mem_map.2 ⟨d, hmem, rfl⟩)
    heq.symm

/-- The data of a call opens with what the table has under the label of the
method. -/
theorem data_eq {ε : Type} {b : Bindings} {cls : String} {f : ClientMethod} {args : List Value} {data : Bytes}
    (h : m.data (ε := ε) b cls f args = .ok data) {selector : Bytes}
    (hselector : m.selector? f.label = some selector) : ∃ encoded, data = selector ++ encoded := by
  unfold ClientModule.data at h
  obtain ⟨codecs, -, h⟩ := bind_ok_iff.1 h
  obtain ⟨encoded, -, heq⟩ := bind_ok_iff.1 h
  cases heq
  rw [hselector]
  exact ⟨encoded, rfl⟩

end

/-- **Which selector a call carries.** In the module of a document that
compiles, the generated methods carry the labels of the described ones, in their
order. Under the label of a message the table has the message's own selector.
Under the label of a constructor it has the constructor's own selector exactly
if no message has this label, and otherwise the selector of that message, which
is another one. Whatever a method sends opens with what the table has under its
label. -/
theorem call_selectors {hash : HashFunction} {settings : Settings} {wasm : Option Bytes} {document : Document}
    {u : CompilationUnit} (hcompile : document.compile hash settings wasm = .ok u)
    {runtimeModule handle : String} {m : ClientModule} (hclient : u.client runtimeModule handle = .ok m) :
    (m.constructors.map (·.label) = u.constructors.map (·.label) ∧
      m.messages.map (·.label) = u.ownMessages.map (·.label) ∧
      ∀ i ∈ m.interfaces, i.methods.map (·.label) = (u.messagesOf i.interface).map (·.label)) ∧
    (∀ d ∈ u.messages, m.selector? d.label = some d.selector) ∧
    (∀ d ∈ u.constructors,
      (m.selector? d.label = some d.selector ↔ ∀ d' ∈ u.messages, d'.label ≠ d.label) ∧
      ∀ d' ∈ u.messages, d'.label = d.label →
        m.selector? d.label = some d'.selector ∧ d'.selector ≠ d.selector) ∧
    (∀ (ε : Type) b cls f args data selector, m.data (ε := ε) b cls f args = .ok data →
      m.selector? f.label = some selector → ∃ encoded, data = selector ++ encoded) := by
  have hlabelled := client_labelled hclient
  have hdistinct := compile_distinct hcompile
  refine ⟨⟨hlabelled.constructors, hlabelled.messages, hlabelled.interfaces⟩,
    fun d hd => selector?_message hlabelled hdistinct hd, ?_,
    fun ε b cls f args data selector hdata hselector => data_eq hdata hselector⟩
  intro d hd
  have hshared : ∀ d' ∈ u.messages, d'.label = d.label →
      m.selector? d.label = some d'.selector ∧ d'.selector ≠ d.selector := by
    intro d' hd' hlabel
    rw [← hlabel]
    exact ⟨selector?_message hlabelled hdistinct hd', selector_ne hdistinct hd hd'⟩
  refine ⟨⟨?_, selector?_constructor hlabelled hdistinct hd⟩, hshared⟩
  intro hown d' hd' hlabel
  obtain ⟨hfound, hne⟩ := hshared d' hd' hlabel
  rw [hown] at hfound
  exact hne (Option.some.inj hfound).symm

/-! ## One label for two methods -/

/-- A document with a constructor and a message of one label and two declared
selectors. -/
def sharedLabel : Document :=
  .value (.obj [("version", .int 4), ("contract", .obj [("name", .str "c"), ("version", .str "1")]),
    ("types", .arr []),
    ("spec", .obj [
      ("constructors", .arr [.obj [("label", .str "new"), ("args", .arr []), ("selector", .str "0x01020304")]]),
      ("messages", .arr [.obj [("label", .str "new"), ("args", .arr []), ("mutates", .bool true),
        ("selector", .str "0x0a0b0c0d")]]),
      ("events", .arr [])])])

/-- The method of the label. -/
def sharedMethod (kind : MethodKind) (selector : Bytes) : MethodDescriptor :=
  { kind, label := "new", name := .ungrouped "new", selector, args := [], returnType := none, mutates := true,
    payable := false, docs := [] }

/-- The unit of the document. -/
def sharedUnit : CompilationUnit :=
  { contractName := "c", contractVersion := "1", registry := ⟨[], []⟩,
    constructors := [sharedMethod .constructor [1, 2, 3, 4]],
    messages := [sharedMethod .message [10, 11, 12, 13]],
    events := [], codeHash := none, bytecode := none }

theorem sharedLabel_compile :
    sharedLabel.compile id ⟨true, .declared, "inkgen.runtime", "Instance", 30⟩ none = .ok sharedUnit := by
  cbv

/-- In the module of the document the constructor sends the selector of the
message. -/
theorem call_selectors_shared :
    ∃ m, sharedUnit.client "inkgen.runtime" "Instance" = .ok m ∧
      m.selector? "new" = some [10, 11, 12, 13] ∧
      ([10, 11, 12, 13] : Bytes) ≠ (sharedMethod .constructor [1, 2, 3, 4]).selector := by
  obtain ⟨m, hm⟩ : ∃ m, sharedUnit.client "inkgen.runtime" "Instance" = .ok m := ⟨_, rfl⟩
  exact ⟨m, hm, ((call_selectors sharedLabel_compile hm).2.2.1 _ List.mem_cons_self).2 _
    List.mem_cons_self rfl⟩

/-- So it is not true that every method sends its own selector. -/
theorem not_all_own_selectors :
    ¬ ∀ (hash : HashFunction) (settings : Settings) (wasm : Option Bytes) (document : Document)
      (u : CompilationUnit), document.compile hash settings wasm = .ok u →
      ∀ m, u.client settings.runtimeModule settings.handleName = .ok m →
        ∀ d ∈ u.constructors ++ u.messages, m.selector? d.label = some d.selector := by
  intro h
  obtain ⟨m, hm, hlookup⟩ : ∃ m, sharedUnit.client "inkgen.runtime" "Instance" = .ok m ∧
      m.selector? "new" = some [10, 11, 12, 13] := ⟨_, rfl, rfl⟩
  have hown := h id _ none sharedLabel sharedUnit sharedLabel_compile m hm
    (sharedMethod .constructor [1, 2, 3, 4]) List.mem_cons_self
  have hboth : some ([10, 11, 12, 13] : Bytes) = some [1, 2, 3, 4] := hlookup.symm.trans hown
  exact absurd hboth (by decide)

end ContractClient
