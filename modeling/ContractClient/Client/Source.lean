/-
The text of a client module.

Blocks stand two blank lines apart and the statements of a class body one. The
header names the generator and imports what all modules use; it is followed by
the constants, of which the selectors are keyed by the labels of the
constructors and messages, written as ASCII literals.
-/
import ContractClient.Client.Statement
import ContractClient.Client.TypeHint
import ContractClient.Text.Quoted

set_option autoImplicit false

namespace ContractClient

/-- The version of the generator that headers name. -/
def generatorVersion : String := "0.3.0"

/-! ## Classes of records -/

/-- The lines of a field. -/
def ClientField.line (f : ClientField) : String :=
  "    " ++ f.name ++ ": " ++ f.type.hint.text

/-- The constant that lists the indexed fields of an event. -/
def indexedLine (names : List String) : String :=
  "    INDEXED = (" ++ " ".intercalate (names.map fun n => Text.literal n ++ ",") ++ ")"

/-- The lines of a class of records. -/
def RecordClass.lines (record : RecordClass) (parent : String) (index : Option Nat) (indexed : List String) :
    List String :=
  let docs := Docstring.lines "    " record.docs
  let constants :=
    (match index with
      | some n => ["    INDEX = " ++ toString n]
      | none => []) ++
    (if indexed.isEmpty then [] else [indexedLine indexed])
  let fields := record.fields.map ClientField.line
  let parts := [docs, constants, fields].filter fun part => !part.isEmpty
  ["@dataclass(frozen=True)", "class " ++ record.name ++ "(" ++ parent ++ "):"] ++
    if parts.isEmpty then ["    pass"] else [""].intercalate parts

/-! ## Codecs -/

/-- Fields with their codecs in writing. -/
def fieldList (fields : List (String × CodecExpr)) : String :=
  "[" ++ ", ".intercalate (fields.map fun (name, c) => "(\"" ++ name ++ "\", " ++ c.text ++ ")") ++ "]"

/-- The lines of the codec of a variant. -/
def wireEnumLines (name : String) (arms : List (Nat × String × List (String × CodecExpr))) : List String :=
  [name ++ ".CODEC = scale.Enum(", "    " ++ name ++ ",", "    ["] ++
    arms.map (fun (index, cls, fields) =>
      "        (" ++ toString index ++ ", " ++ cls ++ ", " ++ fieldList fields ++ "),") ++
    ["    ],", ")"]

/-! ## Methods -/

/-- A parameter in a signature. -/
def Parameter.text (p : Parameter) : String :=
  p.name ++ ": " ++ p.type.hint.text

/-- The expression for the data of a call: the selector, and the arguments
behind it if there are any. -/
def ClientMethod.payload (m : ClientMethod) : String :=
  let selector := "SELECTORS[" ++ Text.jsonLiteral m.label ++ "]"
  if m.parameters.isEmpty then selector
  else
    let pairs := m.parameters.map fun p => "(" ++ (p.type.codecExpr false).text ++ ", " ++ p.name ++ ")"
    selector ++ " + scale.encode_args(" ++ ", ".intercalate pairs ++ ")"

/-- The amount in a call, for methods that take one. -/
def ClientMethod.amount (m : ClientMethod) : String :=
  if m.payable then ", value=value" else ""

/-- The parameter for the amount. -/
def ClientMethod.amountParameter (m : ClientMethod) : List String :=
  if m.payable then ["value: int = 0"] else []

/-- The lines of a signature and of what every body begins with. -/
def ClientMethod.opening (m : ClientMethod) (signature : List String) (returns : String) : List String :=
  ("    async def " ++ m.name ++ "(" ++ ", ".intercalate signature ++ ") -> " ++ returns ++ ":") ::
    Docstring.lines "        " m.docs ++ ["        _data = " ++ m.payload]

/-- The lines of a constructor. -/
def constructorLines (handle : String) (defaultCode : Bool) (m : ClientMethod) : List String :=
  let code := if defaultCode then "code_hash: Hash = CODE_HASH" else "code_hash: Hash"
  let signature := ["cls", "conn: SignedConnection", "salt: bytes"] ++ m.parameters.map Parameter.text ++
    ["*", code] ++ m.amountParameter
  "    @classmethod" :: m.opening signature handle ++
    ["        _account_id = await conn.instantiate(code_hash, salt, _data" ++ m.amount ++ ")",
      "        return cls.from_address(_account_id)"]

/-- The parameters of a message behind the connection. -/
def ClientMethod.signature (m : ClientMethod) (connection : String) : List String :=
  ["self", "conn: " ++ connection] ++ m.parameters.map Parameter.text ++
    (if m.payable then ["*"] else []) ++ m.amountParameter

/-- The lines of a message. -/
def messageLines (m : ClientMethod) : List String :=
  match m.action with
  | .read none =>
    m.opening (m.signature "Connection") "NoValue" ++
      ["        await conn.read(self.account_id, _data)", "        return NO_VALUE"]
  | .read (some type) =>
    m.opening (m.signature "Connection") type.hint.text ++
      ["        _raw = await conn.read(self.account_id, _data)",
        "        return " ++ (type.codecExpr false).text ++ ".decode(_raw)"]
  | _ =>
    m.opening (m.signature "SignedConnection") "Any" ++
      ["        return await conn.exec(self.account_id, _data" ++ m.amount ++ ")"]

/-- The lines of a statement in a class body. -/
def BodyStatement.lines : BodyStatement → List String
  | .account => ["    account_id: AccountId"]
  | .eventType => ["    EVENT_TYPE = Event"]
  | .fromAddress handle =>
    ["    @classmethod", "    def from_address(cls, address: Union[bytes, str]) -> " ++ handle ++ ":",
      "        return cls(AccountId(address))"]
  | .constructor handle defaultCode method => constructorLines handle defaultCode method
  | .message method => messageLines method
  | .accessor name cls =>
    ["    @property", "    def " ++ name ++ "(self) -> " ++ cls ++ ":",
      "        return " ++ cls ++ "(self.account_id)"]

/-! ## The module -/

/-- The lines of a statement. -/
def Statement.lines : Statement → List String
  | .baseClass name parent docs =>
    let doc := Docstring.lines "    " docs
    ("class " ++ name ++ "(" ++ parent ++ "):") :: if doc.isEmpty then ["    pass"] else doc
  | .recordClass record parent index indexed => record.lines parent index indexed
  | .offer base offeredAs cls => [base ++ "." ++ offeredAs ++ " = " ++ cls]
  | .wireStruct name fields => [name ++ ".CODEC = scale.Struct(" ++ name ++ ", " ++ fieldList fields ++ ")"]
  | .wireEnum name arms => wireEnumLines name arms
  | .methodClass _ opening body => "@dataclass(frozen=True)" :: opening ++ body.flatMap fun s => "" :: s.lines
  | .upload =>
    ["async def upload(conn: SignedConnection, wasm: bytes) -> Any:",
      "    \"\"\"Upload the contract code; an already-stored code hash counts as success.\"\"\"",
      "    return await upload_code(conn, wasm, CODE_HASH, CODE_LEN)"]

namespace ClientModule

/-- A selector in the table of selectors. -/
def selectorLine (label : String) (selector : Bytes) : String :=
  "    " ++ Text.jsonLiteral label ++ ": bytes.fromhex(\"" ++ Bytes.toHex selector ++ "\"),"

/-- The lines of the constants. -/
def constantLines (m : ClientModule) : List String :=
  (match m.codeHash with
    | some h => ["CODE_HASH = Hash(\"" ++ Bytes.toHex0x h ++ "\")"]
    | none => []) ++
  (match m.codeLength with
    | some n => ["CODE_LEN = " ++ toString n]
    | none => []) ++
  "SELECTORS = \x7b" :: m.selectors.map (fun (label, selector) => selectorLine label selector) ++ ["\x7d"]

/-- The lines of the header and the constants. -/
def headerLines (m : ClientModule) : List String :=
  let names := importedNames ++ if m.codeLength.isSome then ["upload_code"] else []
  "# This file was generated by inkgen. Do not edit by hand." ::
    Docstring.lines "" ["Client for the " ++ m.title ++ " contract (inkgen " ++ generatorVersion ++ ")."] ++
    ["", "from __future__ import annotations", "", "from dataclasses import dataclass",
      "from typing import Any, List, Optional, Tuple, Union", "", "from " ++ m.runtimeModule ++ " import ("] ++
    names.map (fun n => "    " ++ n ++ ",") ++ [")", ""] ++ m.constantLines

/-- The lines of a module. -/
def lines (m : ClientModule) : List String :=
  ["", ""].intercalate (m.headerLines :: m.blocks.map fun block => block.flatMap Statement.lines)

/-- **The source text of a module.** -/
def source (m : ClientModule) : String :=
  String.join (m.lines.map fun line => line ++ "\n")

end ClientModule

end ContractClient
