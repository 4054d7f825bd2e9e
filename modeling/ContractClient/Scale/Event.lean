/-
Events of a contract, as they are emitted and as they are decoded.

A raw event is a byte that says which event it is, and its fields. A contract's
events are decoded one by one, and what is wrong with one of them is part of the
answer; only a fault that is no fault of the bytes ends the decoding of all.
-/
import ContractClient.Scale.Display

set_option autoImplicit false

namespace ContractClient

/-- An event that a contract emitted. -/
structure ContractEvent where
  account : Bytes
  discriminant : Int
  data : Bytes
  deriving DecidableEq, Repr

/-- An event split into its discriminant and its fields. The account is looked
at when there is a discriminant. -/
def ContractEvent.ofRaw (account : Except NewtypeError Bytes) (raw : Bytes) : Except DecodeError ContractEvent :=
  match raw with
  | [] => Codec.fault .emptyEvent 0
  | d :: data =>
    match account with
    | .ok account => .ok ⟨account, d.toNat, data⟩
    | .error e => .error (.newtype e)

/-- An account as it is given: its bytes, or a text in hexadecimal. -/
def accountOf : Bytes ⊕ String → Except NewtypeError Bytes
  | .inl b => Newtype.accountId.ofBytes b
  | .inr text => Newtype.accountId.ofText text

/-- The events in the records of a transaction, each of which is an account and
what it emitted. -/
def ContractEvent.ofRecords (records : List ((Bytes ⊕ String) × Bytes)) : Except DecodeError (List ContractEvent) :=
  records.mapM fun (account, raw) => ContractEvent.ofRaw (accountOf account) raw

/-- An event decoded from its discriminant and its fields. -/
def Codec.decodeEvent (env : Environment) (c : Codec) (discriminant : Int) (payload : Bytes) :
    Except DecodeError Value :=
  match c with
  | .enum base arms =>
    if (indices arms).any fun i => (i : Int) == discriminant then
      decodeVariant env base arms discriminant.toNat payload true
    else .error (.unknownEvent discriminant (indices arms))
  | _ => .error (.unknownEvent discriminant [])

/-- Whether an error is about the bytes of an event. -/
def DecodeError.ofBytes : DecodeError → Bool
  | .malformed _ _ => true
  | .unknownEvent _ _ => true
  | _ => false

/-- The events of one account, each decoded or refused. -/
def Codec.eventsOf (env : Environment) (c : Codec) (account : Bytes) :
    List ContractEvent → Except DecodeError (List (Except DecodeError Value))
  | [] => .ok []
  | e :: rest =>
    if e.account = account then
      match c.decodeEvent env e.discriminant e.data with
      | .ok v => (c.eventsOf env account rest).map (.ok v :: ·)
      | .error error =>
        if error.ofBytes then (c.eventsOf env account rest).map (.error error :: ·) else .error error
    else c.eventsOf env account rest

end ContractClient
