/-
Connections to a chain.

A connection answers four kinds of calls, one at a time, and keeps a state of
its own between them. Clients are written against this interface alone; what
stands behind it may be a node, or the small chain in memory that is defined
here. That chain writes down every call that it gets, hands out numbered
receipts, and knows the code that it stores.
-/
import ContractClient.Bytes.Basic

set_option autoImplicit false

namespace ContractClient

/-- Why code was not stored. -/
inductive UploadError (ε τ : Type)
  /-- The chain has the code already. -/
  | alreadyStored (receipt : τ)
  | failed (error : ε)

/-- A connection with states `σ`, receipts `τ` and failures `ε`. An amount is
passed only by methods that take one. -/
structure Transport (σ τ ε : Type) where
  /-- Runs a message without lasting effect and gives the reply. -/
  read : (account data : Bytes) → σ → Except ε Bytes × σ
  /-- Submits a message. -/
  exec : (account data : Bytes) → (amount : Option Int) → σ → Except ε τ × σ
  /-- Creates a contract and gives its account. -/
  instantiate : (codeHash salt data : Bytes) → (amount : Option Int) → σ → Except ε Bytes × σ
  /-- Stores code. -/
  upload : (code codeHash : Bytes) → σ → Except (UploadError ε τ) τ × σ

/-- A call of a connection. -/
inductive TransportCall
  | read (account data : Bytes)
  | exec (account data : Bytes) (amount : Option Int)
  | instantiate (codeHash salt data : Bytes) (amount : Option Int)
  | upload (code codeHash : Bytes)
  deriving DecidableEq, Repr

/-- A chain in memory. -/
structure MemoryChain where
  /-- The calls so far, the latest first. -/
  calls : List TransportCall := []
  /-- The number of receipts that were handed out. -/
  receipts : Nat := 0
  /-- The hashes of the stored code. -/
  stored : List Bytes := []
  /-- What reading answers. -/
  reply : Bytes := []
  /-- The failure that calls end in, if they do. -/
  failure : Option String := none
  deriving Repr

namespace MemoryChain

/-- Writes down a call. -/
def record (chain : MemoryChain) (call : TransportCall) : MemoryChain :=
  { chain with calls := call :: chain.calls }

/-- The next receipt. -/
def receipt (chain : MemoryChain) : String × MemoryChain :=
  (s!"tx-{chain.receipts + 1}", { chain with receipts := chain.receipts + 1 })

/-- The account of every contract that the chain creates. -/
def createdAccount : Bytes := List.replicate 32 0x11

/-- The connection to a chain in memory. A call is written down before anything
else happens, and one that fails changes nothing else. Code that is stored
already has no receipt. -/
def transport : Transport MemoryChain (Option String) String where
  read account data chain :=
    let chain := chain.record (.read account data)
    match chain.failure with
    | some text => (.error text, chain)
    | none => (.ok chain.reply, chain)
  exec account data amount chain :=
    let chain := chain.record (.exec account data amount)
    match chain.failure with
    | some text => (.error text, chain)
    | none =>
      let (receipt, chain) := chain.receipt
      (.ok (some receipt), chain)
  instantiate codeHash salt data amount chain :=
    let chain := chain.record (.instantiate codeHash salt data amount)
    match chain.failure with
    | some text => (.error text, chain)
    | none => (.ok createdAccount, chain)
  upload code codeHash chain :=
    let chain := chain.record (.upload code codeHash)
    match chain.failure with
    | some text => (.error (.failed text), chain)
    | none =>
      if chain.stored.contains codeHash then (.error (.alreadyStored none), chain)
      else
        let (receipt, chain) := chain.receipt
        (.ok (some receipt), { chain with stored := codeHash :: chain.stored })

end MemoryChain

end ContractClient
