/-
The literals that labels end up in.

A label shows in two kinds of literals. The interface that it names stands in
the docstring of the class of the interface, between three quotes and as it is;
and the label itself is a key in the table of selectors, as a JSON literal. What
the two are worth is told by reading them again.

The docstring says what it should exactly if the interface is verbatim.
Otherwise it ends early, or does not end, or names something else: other
docstrings are escaped, this one is not. A key is always one literal on one
line, and keys tell labels apart; but it is the label itself only if the label
has no character of two UTF-16 units. Such a character is two escapes in JSON,
and they read as two halves of it.
-/
import ContractClient.Client.Source
import ContractClient.Proofs.Client.Methods
import ContractClient.Proofs.Client.Namespaces
import ContractClient.Proofs.Client.SelectorTable
import ContractClient.Proofs.Text.Literal

set_option autoImplicit false

namespace ContractClient

open Literal

/-! ## What labels name -/

/-- Methods are named by their labels. -/
theorem describeMethods_named {hash : HashFunction} {policy : SelectorPolicy} {m : Metadata}
    {constructors messages : List MethodDescriptor}
    (h : m.describeMethods hash policy = .ok (constructors, messages)) :
    ∀ d ∈ messages, MethodName.ofLabel d.label = .ok d.name := by
  obtain ⟨⟨cs, seen⟩, -, h⟩ := bind_ok_iff.1 h
  obtain ⟨⟨ms, seen'⟩, hms, heq⟩ := bind_ok_iff.1 h
  cases heq
  exact fun d hd => ((describeAll_distinct hms).1 d hd).named

/-- The name of a compiled message is the one that its label gives. -/
theorem compile_named {hash : HashFunction} {settings : Settings} {wasm : Option Bytes} {document : Document}
    {u : CompilationUnit} (h : document.compile hash settings wasm = .ok u) :
    ∀ d ∈ u.messages, MethodName.ofLabel d.label = .ok d.name := by
  obtain ⟨metadata, hfrom⟩ := exists_compiledFrom h
  exact describeMethods_named hfrom.methods

/-- Every interface of a unit is what stands before the last double colon in the
label of a message. -/
theorem exists_label_of_interface {u : CompilationUnit}
    (hnamed : ∀ d ∈ u.messages, MethodName.ofLabel d.label = .ok d.name) {interface : String}
    (h : interface ∈ u.interfaces) :
    ∃ d ∈ u.messages, ∃ name, MethodName.ofLabel d.label = .ok (.grouped interface name) := by
  obtain ⟨d, hd, hinterface⟩ := List.mem_filterMap.1 (mem_distinct.1 h)
  cases hname : d.name with
  | grouped i name =>
    rw [hname] at hinterface
    cases hinterface
    exact ⟨d, hd, name, hname ▸ hnamed d hd⟩
  | ungrouped name =>
    rw [hname] at hinterface
    cases hinterface

/-! ## Where the literals stand -/

/-- A part stands within the parts that are put together, whatever separates
them. -/
theorem infix_intercalate {α : Type} {sep part : List α} {parts : List (List α)} (h : part ∈ parts) :
    part <:+: sep.intercalate parts := by
  induction parts with
  | nil => exact absurd h List.not_mem_nil
  | cons first rest ih =>
    cases rest with
    | nil =>
      obtain rfl := List.mem_singleton.1 h
      rw [List.intercalate_singleton]
    | cons second rest =>
      rw [List.intercalate_cons_cons, List.append_assoc]
      rcases List.mem_cons.1 h with rfl | h
      · exact (List.prefix_append _ _).isInfix
      · exact (ih h).trans ⟨first ++ sep, [], by simp⟩

/-- The sentence in the docstring of an interface. -/
def interfaceSentence (interface : String) : String :=
  "Messages of the " ++ interface ++ " interface."

/-- The docstring of an interface. -/
def interfaceDocstring (interface : String) : String :=
  "    \"\"\"" ++ interfaceSentence interface ++ "\"\"\""

/-- The sentence of an interface has the interface's text in it as it is;
nothing is escaped. -/
theorem toList_interfaceSentence (interface : String) : (interfaceSentence interface).toList =
    "Messages of the ".toList ++ interface.toList ++ " interface.".toList := by
  delta interfaceSentence
  rw [String.toList_append, String.toList_append]

-- The literals are joined on their own, since it is slow to compare joined texts.
/-- The line has four spaces, three quotes, the sentence and three quotes. -/
theorem interfaceDocstring_eq (interface : String) :
    interfaceDocstring interface = "    \"\"\"Messages of the " ++ interface ++ " interface.\"\"\"" := by
  have hparts : ∀ a b c d : String, a ++ (b ++ interface ++ c) ++ d = (a ++ b) ++ interface ++ (c ++ d) := by
    simp only [String.append_assoc, implies_true]
  have hbefore : "    \"\"\"" ++ "Messages of the " = "    \"\"\"Messages of the " := by decide
  have hbehind : " interface." ++ "\"\"\"" = " interface.\"\"\"" := by decide
  exact (hparts _ _ _ _).trans (congrArg₂ (· ++ interface ++ ·) hbefore hbehind)

namespace ClientModule

/-- The docstring of an interface stands below the first lines of its class. -/
theorem docstring_below_class {m : ClientModule} {i : InterfaceClass} (h : i ∈ m.interfaces) :
    ["@dataclass(frozen=True)", "class " ++ i.name ++ ":", interfaceDocstring i.interface] <:+: m.lines := by
  have hblock : [interfaceStatement i] ∈ m.blocks := by
    simp only [blocks, List.mem_append]
    exact .inl (.inl (.inr (List.mem_map_of_mem h)))
  have hlines : [interfaceStatement i].flatMap Statement.lines ∈
      m.headerLines :: m.blocks.map fun block => block.flatMap Statement.lines :=
    List.mem_cons_of_mem _ (List.mem_map_of_mem hblock)
  refine List.IsInfix.trans ?_ (infix_intercalate hlines)
  rw [List.flatMap_singleton, interfaceStatement, ← interfaceDocstring_eq]
  exact (List.prefix_append _ _).isInfix

/-- The lines of the table of selectors. -/
def selectorLines (m : ClientModule) : List String :=
  "SELECTORS = \x7b" :: m.selectors.map (fun (label, selector) => selectorLine label selector) ++ ["\x7d"]

/-- The lines of the table stand in the text of the module, one after the
other. -/
theorem selectorLines_infix (m : ClientModule) : m.selectorLines <:+: m.lines := by
  have hconstants : m.selectorLines <:+ m.constantLines := ⟨_, (List.append_assoc _ _ _).symm⟩
  have hheader : m.constantLines <:+ m.headerLines := List.suffix_append _ _
  exact (hconstants.trans hheader).isInfix.trans (infix_intercalate List.mem_cons_self)

end ClientModule

/-! ## Reading them again -/

/-- The words around an interface are verbatim, so its sentence is verbatim
exactly if it is. -/
theorem verbatim_interfaceSentence (interface : String) :
    Verbatim (interfaceSentence interface).toList ↔ Verbatim interface.toList := by
  have hbefore : "Messages of the ".toList = "Messages of the".toList ++ [' '] := by decide
  have hbehind : " interface.".toList = ' ' :: "interface.".toList := by decide
  have hfirst : Verbatim "Messages of the".toList := by decide
  have hlast : Verbatim "interface.".toList := by decide
  rw [toList_interfaceSentence, hbefore, hbehind, List.append_assoc, List.append_assoc, List.singleton_append]
  calc Verbatim ("Messages of the".toList ++ ' ' :: (interface.toList ++ ' ' :: "interface.".toList))
    _ ↔ Verbatim "Messages of the".toList ∧ Verbatim (interface.toList ++ ' ' :: "interface.".toList) :=
      verbatim_spaced_iff
    _ ↔ Verbatim (interface.toList ++ ' ' :: "interface.".toList) := and_iff_right hfirst
    _ ↔ Verbatim interface.toList ∧ Verbatim "interface.".toList := verbatim_spaced_iff
    _ ↔ Verbatim interface.toList := and_iff_left hlast

/-- The docstring of an interface, read from its first quote on. -/
theorem read_interfaceDocstring_iff {named : String → Option Nat} (interface : String) :
    Literal.read named ((interfaceDocstring interface).toList.drop 4) =
      some (codes (interfaceSentence interface).toList, []) ↔ Verbatim interface.toList := by
  have hdocstring : (interfaceDocstring interface).toList.drop 4 =
      '"' :: '"' :: '"' :: ((interfaceSentence interface).toList ++ (closing true ++ [])) := by
    rw [interfaceDocstring, String.toList_append, String.toList_append, List.append_assoc]
    rfl
  have hlast : (interfaceSentence interface).toList.getLast? = some '.' := by
    rw [toList_interfaceSentence]
    exact List.getLast?_append_of_ne_nil _ (by decide)
  rw [← verbatim_interfaceSentence, hdocstring, Literal.read]
  exact readBody_triple_iff [] (by rw [hlast]; decide) (by rw [hlast]; decide)

/-- What stands behind the key in a line of the table. -/
def behindKey (selector : Bytes) : String :=
  ": bytes.fromhex(\"" ++ Bytes.toHex selector ++ "\"),"

/-- A line of the table is the label as JSON writes it, and behind it the
selector. -/
theorem toList_selectorLine (label : String) (selector : Bytes) :
    (ClientModule.selectorLine label selector).toList =
      "    ".toList ++ ((Text.jsonLiteral label).toList ++ (behindKey selector).toList) := by
  have hparts : ∀ key digits : String, ("    " ++ key ++ ": bytes.fromhex(\"" ++ digits ++ "\"),").toList =
      "    ".toList ++ (key.toList ++ (": bytes.fromhex(\"" ++ digits ++ "\"),").toList) := by
    simp only [String.toList_append, List.append_assoc, implies_true]
  exact hparts (Text.jsonLiteral label) (Bytes.toHex selector)

/-- The key of a line in the table of selectors. -/
theorem read_selectorLine {named : String → Option Nat} (label : String) (selector : Bytes) :
    Literal.read named ((ClientModule.selectorLine label selector).toList.drop 4) =
      some (label.toList.flatMap Text.utf16Units, (behindKey selector).toList) := by
  have hhead : ∀ digits : String, (": bytes.fromhex(\"" ++ digits ++ "\"),").toList.head? ≠ some '"' := by simp
  have hbehind : (behindKey selector).toList.head? ≠ some '"' := hhead (Bytes.toHex selector)
  rw [toList_selectorLine, List.drop_left' (by rfl)]
  exact read_jsonLiteral label hbehind

/-- The digits of bytes are ASCII. -/
theorem ascii_toHex (bs : Bytes) : ∀ c ∈ (Bytes.toHex bs).toList, Ascii c := by
  have hdigit : ∀ i : Fin 16, Ascii (Bytes.hexDigit i) := by decide
  rw [Bytes.toHex, String.toList_ofList, List.forall_mem_flatMap]
  intro b _
  have hlt := b.toNat_lt
  rw [Bytes.hexPair, List.forall_mem_cons, List.forall_mem_singleton]
  exact ⟨hdigit ⟨b.toNat / 16, by omega⟩, hdigit ⟨b.toNat % 16, Nat.mod_lt _ (by decide)⟩⟩

/-- A line of the table is ASCII, as everything else in a label is written by
escapes. What escapes come to when they are read again is the question of the
theorems below. -/
theorem ascii_selectorLine (label : String) (selector : Bytes) :
    ∀ c ∈ (ClientModule.selectorLine label selector).toList, Ascii c := by
  rw [toList_selectorLine, List.forall_mem_append, List.forall_mem_append]
  refine ⟨by decide, ascii_jsonLiteral label, ?_⟩
  have hparts : ∀ digits : String, (∀ c ∈ digits.toList, Ascii c) →
      ∀ c ∈ (": bytes.fromhex(\"" ++ digits ++ "\"),").toList, Ascii c := by
    intro digits hdigits
    rw [String.toList_append, String.toList_append, List.forall_mem_append, List.forall_mem_append]
    exact ⟨⟨by decide, hdigits⟩, by decide⟩
  exact hparts (Bytes.toHex selector) (ascii_toHex selector)

/-! ## The literals of a module -/

/-- **What the literals of labels read as.** In a generated module every
interface class has, as its first line, the docstring of an interface that a
label names, and it reads as one literal that names the interface exactly if the
interface is verbatim. The table of selectors has one line of ASCII for each
label, in the order of the constructors and messages; the key in it is one
literal, it tells its label from all others, and it is the label itself exactly
if no character of the label lies beyond U+FFFF. -/
theorem literals_of_labels {hash : HashFunction} {settings : Settings} {wasm : Option Bytes} {document : Document}
    {u : CompilationUnit} (hcompile : document.compile hash settings wasm = .ok u)
    {runtimeModule handle : String} {m : ClientModule} (hclient : u.client runtimeModule handle = .ok m) :
    (∀ i ∈ m.interfaces,
      (∃ d ∈ u.messages, ∃ name, MethodName.ofLabel d.label = .ok (.grouped i.interface name)) ∧
      ["@dataclass(frozen=True)", "class " ++ i.name ++ ":", interfaceDocstring i.interface] <:+: m.lines ∧
      ∀ named, Literal.read named ((interfaceDocstring i.interface).toList.drop 4) =
        some (codes (interfaceSentence i.interface).toList, []) ↔ Verbatim i.interface.toList) ∧
    m.selectors.map (·.1) = (u.constructors ++ u.messages).map (·.label) ∧
    m.selectorLines <:+: m.lines ∧
    ∀ p ∈ m.selectors,
      (∀ c ∈ (ClientModule.selectorLine p.1 p.2).toList, Ascii c) ∧
      (∀ named, Literal.read named ((ClientModule.selectorLine p.1 p.2).toList.drop 4) =
        some (p.1.toList.flatMap Text.utf16Units, (behindKey p.2).toList)) ∧
      (∀ q ∈ m.selectors, p.1.toList.flatMap Text.utf16Units = q.1.toList.flatMap Text.utf16Units → p.1 = q.1) ∧
      (p.1.toList.flatMap Text.utf16Units = codes p.1.toList ↔ ∀ c ∈ p.1.toList, c.toNat < 0x10000) := by
  obtain ⟨-, hrenders⟩ := client_renders hclient
  have htable := (client_labelled hclient).table
  refine ⟨fun i hi => ⟨?_, ClientModule.docstring_below_class hi, fun named => read_interfaceDocstring_iff _⟩, ?_,
    m.selectorLines_infix, fun p _ => ⟨ascii_selectorLine _ _, fun named => read_selectorLine _ _, ?_,
      utf16_eq_codes_iff⟩⟩
  · -- Every interface of the module is one of the unit, and those were taken from labels.
    exact exists_label_of_interface (compile_named hcompile) (hrenders.complete ▸ List.mem_map_of_mem hi)
  · rw [htable, List.map_map]
    rfl
  · exact fun q _ hunits => String.toList_injective (utf16_injective hunits)

/-- In the module of a document with the messages `Hash::get` and `hash`, both
docstring and keys say what they should. -/
theorem literals_of_labels_crowded :
    ∃ m, crowdedDocument.compile id transferSettings none = .ok crowdedUnit ∧
      crowdedUnit.client "inkgen.runtime" "Instance" = .ok m ∧
      (∀ i ∈ m.interfaces, ∀ named, Literal.read named ((interfaceDocstring i.interface).toList.drop 4) =
        some (codes (interfaceSentence i.interface).toList, [])) ∧
      ∀ p ∈ m.selectors, ∀ named, Literal.read named ((ClientModule.selectorLine p.1 p.2).toList.drop 4) =
        some (codes p.1.toList, (behindKey p.2).toList) := by
  have hlabels : (crowdedUnit.client "inkgen.runtime" "Instance").toOption.map
      (fun m => (m.interfaces.map (·.interface), m.selectors.map (·.1))) = some (["Hash"], ["Hash::get", "hash"]) := by
    decide +kernel
  obtain ⟨m, hm, heq⟩ := Option.map_eq_some_iff.1 hlabels
  obtain ⟨hinterfaces, hkeys⟩ := Prod.mk.inj heq
  have hclient : crowdedUnit.client "inkgen.runtime" "Instance" = .ok m := toOption_eq_some_iff.1 hm
  obtain ⟨hdocs, -, -, hselectors⟩ := literals_of_labels crowded_compile hclient
  refine ⟨m, crowded_compile, hclient, fun i hi named => ?_, fun p hp named => ?_⟩
  · refine ((hdocs i hi).2.2 named).2 ?_
    have hi : i.interface ∈ ["Hash"] := hinterfaces ▸ List.mem_map_of_mem hi
    rw [List.mem_singleton.1 hi]
    decide
  · obtain ⟨-, hread, -, hexact⟩ := hselectors p hp
    have hp : p.1 ∈ ["Hash::get", "hash"] := hkeys ▸ List.mem_map_of_mem hp
    have hshort : ∀ label ∈ ["Hash::get", "hash"], ∀ c ∈ label.toList, c.toNat < 0x10000 := by decide
    rw [hread named, hexact.2 (hshort p.1 hp)]

/-! ## A label that is misread -/

/-- A document with one message, whose label has three quotes in a row and a
character of two units. -/
def quotedDocument : Document :=
  .value (.obj [("version", .int 4), ("contract", .obj [("name", .str "c"), ("version", .str "1")]),
    ("types", .arr []),
    ("spec", .obj [
      ("constructors", .arr []),
      ("messages", .arr [
        .obj [("label", .str "a\"\"\"b::𝄞"), ("args", .arr []), ("mutates", .bool true),
          ("selector", .str "0x0a0b0c0d")]]),
      ("events", .arr [])])])

/-- The unit of the document. -/
def quotedUnit : CompilationUnit :=
  { contractName := "c", contractVersion := "1", registry := ⟨[], []⟩, constructors := []
    messages := [{ kind := .message, label := "a\"\"\"b::𝄞", name := .grouped "a\"\"\"b" "𝄞",
                   selector := [0x0a, 0x0b, 0x0c, 0x0d], args := [], returnType := none, mutates := true,
                   payable := false, docs := [] }]
    events := [], codeHash := none, bytecode := none }

theorem quoted_compile : quotedDocument.compile id transferSettings none = .ok quotedUnit := by
  cbv

/-- The docstring in its module ends within the name of the interface, with the
rest of the line behind it, and the key in its table is not the label but has
the two halves of the last character. -/
theorem quoted_misread :
    ∃ m i p, quotedDocument.compile id transferSettings none = .ok quotedUnit ∧
      quotedUnit.client "inkgen.runtime" "Instance" = .ok m ∧ i ∈ m.interfaces ∧ p ∈ m.selectors ∧
      i.interface = "a\"\"\"b" ∧ p.1 = "a\"\"\"b::𝄞" ∧
      interfaceDocstring i.interface ∈ m.lines ∧ ClientModule.selectorLine p.1 p.2 ∈ m.lines ∧ ∀ named,
        Literal.read named ((interfaceDocstring i.interface).toList.drop 4) =
          some (codes "Messages of the a".toList, "b interface.\"\"\"".toList) ∧
        Literal.read named ((ClientModule.selectorLine p.1 p.2).toList.drop 4) =
          some (codes "a\"\"\"b::".toList ++ [0xd834, 0xdd1e], (behindKey p.2).toList) ∧
        codes "a\"\"\"b::".toList ++ [0xd834, 0xdd1e] ≠ codes p.1.toList := by
  have hlabels : (quotedUnit.client "inkgen.runtime" "Instance").toOption.map
      (fun m => (m.interfaces.map (·.interface), m.selectors.map (·.1))) =
        some (["a\"\"\"b"], ["a\"\"\"b::𝄞"]) := by
    decide +kernel
  obtain ⟨m, hm, heq⟩ := Option.map_eq_some_iff.1 hlabels
  obtain ⟨hinterfaces, hkeys⟩ := Prod.mk.inj heq
  have hclient : quotedUnit.client "inkgen.runtime" "Instance" = .ok m := toOption_eq_some_iff.1 hm
  obtain ⟨i, hi, hinterface⟩ := List.mem_map.1 (hinterfaces ▸ List.mem_singleton_self "a\"\"\"b")
  obtain ⟨p, hp, hlabel⟩ := List.mem_map.1 (hkeys ▸ List.mem_singleton_self "a\"\"\"b::𝄞")
  refine ⟨m, i, p, quoted_compile, hclient, hi, hp, hinterface, hlabel, ?_, ?_, fun named => ⟨?_, ?_, ?_⟩⟩
  · exact (ClientModule.docstring_below_class hi).subset (by simp)
  · refine m.selectorLines_infix.subset ?_
    exact List.mem_append_left _ (List.mem_cons_of_mem _ (List.mem_map_of_mem hp))
  · have hverbatim : Verbatim "Messages of the a".toList := by decide
    have hline : (interfaceDocstring "a\"\"\"b").toList.drop 4 = '"' :: '"' :: '"' ::
        ("Messages of the a".toList ++ (closing true ++ "b interface.\"\"\"".toList)) := by decide
    rw [hinterface, hline, Literal.read]
    exact (readBody_triple_iff "b interface.\"\"\"".toList (by decide) (by decide)).2 hverbatim
  · rw [read_selectorLine, hlabel]
    rfl
  · rw [hlabel]
    decide

end ContractClient
