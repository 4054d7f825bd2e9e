/-
The events of an account, one by one.

An event is decoded from a discriminant and a payload. Its fields are read in
turn, and with what they give the class of the event makes an instance; nothing
of the payload may be left. Where reading comes to an end, and it does for
codecs that are founded, what goes wrong is about the bytes or about the codec,
as it is for every codec. Only the former is an answer. So the events of an
account go over one by one into answers, or the codec of one of them is to
blame.

Nothing is carried from one event to the next. What is done with two lists of
events in a row is done with each of them.
-/
import ContractClient.Scale.Event
import ContractClient.Proofs.Scale.Canonical
import ContractClient.Proofs.Scale.Termination
import Mathlib.Data.List.Sort

set_option autoImplicit false

namespace ContractClient

open Codec Relation

/-- What is made of a value does not change a failure. -/
theorem map_error_iff {ε α β : Type} {x : Except ε α} {f : α → β} {e : ε} : x.map f = .error e ↔ x = .error e := by
  cases x <;> simp [Except.map]

/-! ## Variants without an index -/

namespace Codec

variable {env : Environment} {base : String} {arms : List Arm} {arm : Arm} {payload : Bytes}

/-- Codecs in turn are a tuple. -/
theorem decodeInTurn_eq (cs : List Codec) (buf : Bytes) (o : Nat) :
    decodeInTurn env cs buf o = decodeTuple (follow env) cs buf o := by
  induction cs generalizing o with
  | nil => rw [decodeInTurn, decodeTuple_nil]
  | cons c cs ih =>
    rw [decodeInTurn, decodeTuple_cons, decodeFrom_eq]
    cases decodeWith (follow env) c buf o with
    | error e => rfl
    | ok r =>
      obtain ⟨v, i⟩ := r
      simp only [bind, Except.bind, ih]
      cases decodeTuple (follow env) cs buf i <;> rfl

/-- A variant of which the index is known is the record of its fields, and takes
all bytes. -/
theorem decodeVariant_eq {index : Nat} (hfind : (arms.find? fun a => a.1 == index) = some arm) :
    decodeVariant env base arms index payload true =
      decodeFrom env (.struct arm.2.1 arm.2.2) payload 0 >>=
        closing payload s!"{base} variant {index}" := by
  unfold decodeVariant
  rw [decodeArm_eq, hfind, decodeFrom, decodeWith_struct]
  rfl

/-- A payload closes exactly at its end: bytes that are left over are a fault,
and the value is what was read before them. -/
theorem closing_ok_iff {shown : String} {r : Value × Nat} {v : Value} :
    closing payload shown r = .ok v ↔ r = (v, payload.length) := by
  obtain ⟨w, i⟩ := r
  unfold closing
  constructor
  · intro h
    dsimp only at h
    split at h
    · next hi =>
      cases h
      rw [hi]
    · cases h
  · rintro ⟨⟩
    exact if_pos rfl

/-- **When a variant is decoded**: its fields, read in turn, end with the
payload, and its class takes them. -/
theorem decodeVariant_ok_iff {index : Nat} (hfind : (arms.find? fun a => a.1 == index) = some arm) {v : Value} :
    decodeVariant env base arms index payload true = .ok v ↔
      ∃ vs, decodeInTurn env (arm.2.2.map (·.2)) payload 0 = .ok (vs, payload.length) ∧
        instanceOf arm.2.1 ((arm.2.2.map (·.1)).zip vs) = .ok v := by
  rw [decodeVariant_eq hfind, decodeInTurn_eq, ← decodeRecord_ok_iff, ← decodeWith_struct, ← decodeFrom_eq, bind_ok_iff]
  constructor
  · rintro ⟨r, hr, hclosing⟩
    rw [hr, closing_ok_iff.1 hclosing]
  · intro h
    exact ⟨_, h, closing_ok_iff.2 rfl⟩

/-- When the fields end with the payload, only making the instance is left. -/
theorem decodeVariant_of_inTurn {index : Nat} (hfind : (arms.find? fun a => a.1 == index) = some arm)
    {vs : List Value} (h : decodeInTurn env (arm.2.2.map (·.2)) payload 0 = .ok (vs, payload.length)) :
    decodeVariant env base arms index payload true = instanceOf arm.2.1 ((arm.2.2.map (·.1)).zip vs) := by
  rw [decodeInTurn_eq] at h
  rw [decodeVariant_eq hfind, decodeFrom_eq, decodeWith_struct, decodeRecord, h]
  simp only [bind, Except.bind, recordOf]
  cases instanceOf arm.2.1 ((arm.2.2.map (·.1)).zip vs) with
  | error e => rfl
  | ok v => exact closing_ok_iff.2 rfl

/-- Making an instance fails only over its class, by the name of the class. -/
theorem instanceOf_failsAs (shape : Shape) (attributes : List (String × Value)) :
    FailsAs (fun err => ∃ name, err = .shapeMismatch shape.name name) (instanceOf shape attributes) := by
  unfold instanceOf
  split
  · exact .error ⟨_, rfl⟩
  · exact .ok _

/-- What is read in turn is encoded in turn as the bytes that were read. The
induction is on the codecs, with the offset at which the next one begins. -/
theorem encodeArgs_of_decodeInTurn {cs : List Codec} (hcs : ∀ c ∈ cs, Everywhere env (Unambiguous env) c) {buf : Bytes}
    {o e : Nat} {vs : List Value} (ho : o ≤ buf.length) (h : decodeInTurn env cs buf o = .ok (vs, e)) :
    ∃ bs, Between buf o e bs ∧ encodeArgs env (cs.zip vs) = .ok bs := by
  induction cs generalizing o vs with
  | nil =>
    cases h
    exact ⟨[], Between.nil_iff.2 ⟨rfl, ho⟩, rfl⟩
  | cons c cs ih =>
    obtain ⟨hhead, htail⟩ := List.forall_mem_cons.1 hcs
    obtain ⟨⟨v, i⟩, hv, h⟩ := bind_ok_iff.1 h
    obtain ⟨⟨ws, j⟩, hws, heq⟩ := bind_ok_iff.1 h
    cases heq
    obtain ⟨head, hfront, hencode⟩ := writesBack env _ c hhead buf o v i ho hv
    obtain ⟨tail, hback, hrest⟩ := ih htail hfront.2.1 hws
    refine ⟨head ++ tail, hfront.append hback, ?_⟩
    rw [List.zip_cons_cons, encodeArgs]
    exact bind_ok_iff.2 ⟨head, encode_of_fuel env hencode, bind_ok_iff.2 ⟨tail, hrest, rfl⟩⟩

/-! ## Whom a failure blames -/

/-- Whether an error points at something that a codec is built from. -/
def Blamed (env : Environment) (c : Codec) (e : DecodeError) : Prop :=
  ∃ d, ReflTransGen (fun a b => b ∈ parts env a) c d ∧ d.Blames env e

/-- A record is to blame only for a class whose attributes are not its
fields. -/
theorem blames_struct {shape : Shape} {fields : List (String × Codec)} {e : DecodeError}
    (h : (Codec.struct shape fields).Blames env e) :
    ∃ name, e = .shapeMismatch shape.name name ∧ ¬ FieldsFit shape fields := by
  cases e with
  | shapeMismatch cls name =>
    obtain ⟨rfl, hfit⟩ := h
    exact ⟨name, rfl, hfit⟩
  | _ => cases h

/-- Where the demands of an enum end, those of each arm do. The record of the
arm is not itself a part of the enum, but its fields are. -/
theorem founded_of_arm (hfounded : Everywhere env (Founded env) (.enum base arms)) (harm : arm ∈ arms) :
    Everywhere env (Founded env) (.struct arm.2.1 arm.2.2) := by
  have hfield : ∀ d ∈ arm.2.2.map (·.2), Everywhere env (Founded env) d := by
    intro d hd
    obtain ⟨f, hf, rfl⟩ := List.mem_map.1 hd
    exact hfounded.armField harm hf
  intro d hd
  rcases ReflTransGen.cases_head hd with rfl | ⟨b, hb, hd⟩
  · refine Acc.intro _ fun b hb => ?_
    cases hb with
    | part hb => exact (hfield b hb).self
  · exact hfield b hb d hd

/-- **A variant fails over its bytes, or its codec is to blame.** Left over
bytes and an arm that is missing are faults in the bytes; everything else comes
from reading the fields, and for that it was shown codec by codec. -/
theorem decodeVariant_failsAs {index : Nat} (hfind : (arms.find? fun a => a.1 == index) = some arm)
    (hfounded : Everywhere env (Founded env) (.enum base arms)) :
    FailsAs (fun e => e.isFault = true ∨ Blamed env (.enum base arms) e)
      (decodeVariant env base arms index payload true) := by
  have harm := List.mem_of_find?_eq_some hfind
  rw [decodeVariant_eq hfind]
  refine FailsAs.bind ?_ fun r _ => ?_
  · refine (decodeFrom_explained (founded_of_arm hfounded harm) (Nat.zero_le _)).imp ?_
    rintro e (hfault | ⟨d, hd, hblames⟩)
    · exact .inl hfault
    right
    rcases ReflTransGen.cases_head hd with rfl | ⟨b, hb, hd⟩
    · -- The record of the arm is no part of the enum, which answers for the arm itself.
      obtain ⟨name, rfl, hfit⟩ := blames_struct hblames
      exact ⟨.enum base arms, .refl, arm, harm, rfl, hfit⟩
    · exact ⟨d, .head (List.mem_flatMap.2 ⟨arm, harm, hb⟩) hd, hblames⟩
  · unfold closing
    split
    split
    · exact .ok _
    · exact .error (.inl rfl)

/-! ## One event -/

/-- A discriminant that is the index of an arm picks this arm, and the payload
is decoded as a variant of which the index is known. -/
theorem decodeEvent_of_mem {d : Int} (hnodup : (arms.map (·.1)).Nodup) (harm : arm ∈ arms) (hd : (arm.1 : Int) = d) :
    (arms.find? fun a => a.1 == arm.1) = some arm ∧
      (Codec.enum base arms).decodeEvent env d payload = decodeVariant env base arms arm.1 payload true := by
  refine ⟨find?_of_nodup Prod.fst hnodup harm, ?_⟩
  have hany : ((indices arms).any fun i => (i : Int) == d) = true := by
    refine List.any_eq_true.2 ⟨arm.1, ?_, beq_iff_eq.2 hd⟩
    exact List.mem_mergeSort.2 (List.mem_map_of_mem harm)
  rw [decodeEvent, if_pos hany, ← hd]
  rfl

/-- A discriminant that is no index is reported with all indices that there
are. -/
theorem decodeEvent_of_notMem {d : Int} (h : ∀ arm ∈ arms, (arm.1 : Int) ≠ d) :
    (Codec.enum base arms).decodeEvent env d payload = .error (.unknownEvent d (indices arms)) := by
  have hany : ¬ ((indices arms).any fun i => (i : Int) == d) = true := by
    intro hany
    obtain ⟨i, hi, heq⟩ := List.any_eq_true.1 hany
    obtain ⟨arm, harm, rfl⟩ := List.mem_map.1 (List.mem_mergeSort.1 hi)
    exact h arm harm (beq_iff_eq.1 heq)
  rw [decodeEvent, if_neg hany]

/-- The indices that an error lists are those of the arms. -/
theorem indices_perm (arms : List Arm) : (indices arms).Perm (arms.map (·.1)) :=
  List.mergeSort_perm _ _

/-- The indices that an error lists ascend. -/
theorem indices_sorted (hnodup : (arms.map (·.1)).Nodup) : (indices arms).Pairwise (· < ·) := by
  have hle : (indices arms).Pairwise (· ≤ ·) := List.pairwise_mergeSort' (· ≤ ·) _
  have hne : (indices arms).Nodup := (indices_perm arms).nodup_iff.2 hnodup
  exact (hle.and hne).imp fun ⟨hle, hne⟩ => Nat.lt_of_le_of_ne hle hne

/-! ## The events of a list -/

section

variable {c : Codec} {account : Bytes}

/-- The first event of a list gives the first answer, or ends everything, or
belongs to another account. -/
theorem eventsOf_cons (e : ContractEvent) (rest : List ContractEvent) :
    c.eventsOf env account (e :: rest) =
      if e.account = account then
        match c.decodeEvent env e.discriminant e.data with
        | .ok v => (c.eventsOf env account rest).map (.ok v :: ·)
        | .error err =>
          if err.ofBytes then (c.eventsOf env account rest).map (.error err :: ·) else .error err
      else c.eventsOf env account rest :=
  rfl

/-- **What comes of a list of events** is what comes of each one of the account.
Errors about the bytes of an event are answers for it; any other error ends the
list, so where there is a list there was no other error. -/
theorem eventsOf_ok_iff {events : List ContractEvent} {items : List (Except DecodeError Value)} :
    c.eventsOf env account events = .ok items ↔
      List.Forall₂ (fun e item => item = c.decodeEvent env e.discriminant e.data ∧
        FailsAs (fun err => err.ofBytes = true) item) (events.filter (·.account = account)) items := by
  induction events generalizing items with
  | nil =>
    rw [eventsOf, List.filter_nil, List.forall₂_nil_left_iff]
    constructor
    · rintro ⟨⟩
      rfl
    · rintro rfl
      rfl
  | cons e rest ih =>
    rw [eventsOf_cons]
    by_cases hown : e.account = account
    · rw [if_pos hown, List.filter_cons_of_pos (by simpa using hown), List.forall₂_cons_left_iff]
      -- The event gives an answer, or one that says what is wrong with its bytes, or it
      -- ends everything.
      cases hdecode : c.decodeEvent env e.discriminant e.data with
      | ok v =>
        dsimp only
        rw [map_ok_iff]
        constructor
        · rintro ⟨items', hitems, rfl⟩
          exact ⟨_, items', ⟨rfl, .ok v⟩, ih.1 hitems, rfl⟩
        · rintro ⟨_, items', ⟨rfl, -⟩, hitems, rfl⟩
          exact ⟨items', ih.2 hitems, rfl⟩
      | error err =>
        dsimp only
        by_cases hbytes : err.ofBytes = true
        · rw [if_pos hbytes, map_ok_iff]
          constructor
          · rintro ⟨items', hitems, rfl⟩
            exact ⟨_, items', ⟨rfl, .error hbytes⟩, ih.1 hitems, rfl⟩
          · rintro ⟨_, items', ⟨rfl, -⟩, hitems, rfl⟩
            exact ⟨items', ih.2 hitems, rfl⟩
        · rw [if_neg hbytes]
          constructor
          · rintro ⟨⟩
          · rintro ⟨_, items', ⟨rfl, hfails⟩, -, -⟩
            exact absurd (hfails err rfl) hbytes
    · rw [if_neg hown, List.filter_cons_of_neg (by simpa using hown)]
      exact ih

/-- **What ends the decoding of a list** is an event of the account whose error
is not about its bytes. The induction is on the events: of an event that gives
an answer, and of one of another account, the error is that of the events behind
it. -/
theorem exists_of_eventsOf_error {events : List ContractEvent} {err : DecodeError}
    (h : c.eventsOf env account events = .error err) :
    ∃ e ∈ events, e.account = account ∧ c.decodeEvent env e.discriminant e.data = .error err ∧
      err.ofBytes = false := by
  induction events with
  | nil => cases h
  | cons e rest ih =>
    -- In three of four cases the error is that of the events behind this one.
    have hlater : c.eventsOf env account rest = .error err →
        ∃ e' ∈ e :: rest, e'.account = account ∧ c.decodeEvent env e'.discriminant e'.data = .error err ∧
          err.ofBytes = false := by
      intro hrest
      obtain ⟨e', he', hfound⟩ := ih hrest
      exact ⟨e', List.mem_cons_of_mem _ he', hfound⟩
    rw [eventsOf_cons] at h
    by_cases hown : e.account = account
    · rw [if_pos hown] at h
      cases hdecode : c.decodeEvent env e.discriminant e.data with
      | ok v =>
        rw [hdecode] at h
        exact hlater (map_error_iff.1 h)
      | error err' =>
        rw [hdecode] at h
        dsimp only at h
        by_cases hbytes : err'.ofBytes = true
        · rw [if_pos hbytes] at h
          exact hlater (map_error_iff.1 h)
        · rw [if_neg hbytes] at h
          cases h
          exact ⟨e, List.mem_cons_self, hown, hdecode, Bool.eq_false_iff.2 hbytes⟩
    · rw [if_neg hown] at h
      exact hlater h

/-- **Each answer depends on its own event**: what comes of two lists in a row
is what comes of the first one and then what comes of the other one. -/
theorem eventsOf_append (events events' : List ContractEvent) :
    c.eventsOf env account (events ++ events') =
      c.eventsOf env account events >>= fun items =>
        (c.eventsOf env account events').map (items ++ ·) := by
  induction events with
  | nil =>
    rw [List.nil_append, eventsOf]
    cases c.eventsOf env account events' <;> rfl
  | cons e rest ih =>
    have hcons : ∀ item, ((c.eventsOf env account rest >>= fun items =>
        (c.eventsOf env account events').map (items ++ ·)).map (item :: ·)) =
          ((c.eventsOf env account rest).map (item :: ·)) >>= fun items =>
            (c.eventsOf env account events').map (items ++ ·) := by
      intro item
      cases c.eventsOf env account rest with
      | error err => rfl
      | ok items => cases c.eventsOf env account events' <;> rfl
    rw [List.cons_append, eventsOf_cons, eventsOf_cons]
    by_cases hown : e.account = account
    · rw [if_pos hown, if_pos hown, ih]
      cases c.decodeEvent env e.discriminant e.data with
      | ok v => exact hcons (.ok v)
      | error err =>
        dsimp only
        by_cases hbytes : err.ofBytes = true
        · rw [if_pos hbytes, if_pos hbytes]
          exact hcons (.error err)
        · rw [if_neg hbytes, if_neg hbytes]
          rfl
    · rw [if_neg hown, if_neg hown, ih]

end

end Codec

/-! ## The records of a transaction -/

/-- Whether an event is a record split into its first byte and the others. -/
def SplitsInto (record : (Bytes ⊕ String) × Bytes) (e : ContractEvent) : Prop :=
  accountOf record.1 = .ok e.account ∧ ∃ b, record.2 = b :: e.data ∧ e.discriminant = b.toNat

section

variable {record : (Bytes ⊕ String) × Bytes} {records : List ((Bytes ⊕ String) × Bytes)}

/-- A record with a valid account is split exactly if it is not empty. Its first
byte is the discriminant, and what is left is the payload, which may be
empty. -/
theorem ofRaw_ok_iff (haccount : ∃ account, accountOf record.1 = .ok account) {e : ContractEvent} :
    ContractEvent.ofRaw (accountOf record.1) record.2 = .ok e ↔ SplitsInto record e := by
  obtain ⟨account, haccount⟩ := haccount
  rw [SplitsInto, haccount]
  cases record.2 with
  | nil => simp [ContractEvent.ofRaw, fault]
  | cons b data =>
    constructor
    · rintro ⟨⟩
      exact ⟨rfl, b, rfl, rfl⟩
    · rintro ⟨heq, b', hdata, hb⟩
      cases e
      cases heq
      cases hdata
      cases hb
      rfl

/-- The only thing that can be wrong with it is that it is empty. -/
theorem ofRaw_error_iff (haccount : ∃ account, accountOf record.1 = .ok account) {err : DecodeError} :
    ContractEvent.ofRaw (accountOf record.1) record.2 = .error err ↔
      record.2 = [] ∧ err = .malformed .emptyEvent 0 := by
  obtain ⟨account, haccount⟩ := haccount
  rw [haccount]
  cases record.2 with
  | nil => simp [ContractEvent.ofRaw, fault, eq_comm]
  | cons b data => simp [ContractEvent.ofRaw]

/-- **Records with valid accounts** are split, unless one of them is empty. An
event's first byte is its discriminant, so it is only the missing byte that can
be wrong with a record. -/
theorem ofRecords_spec (haccounts : ∀ record ∈ records, ∃ account, accountOf record.1 = .ok account) :
    (∀ err, ContractEvent.ofRecords records = .error err ↔
      (∃ record ∈ records, record.2 = []) ∧ err = .malformed .emptyEvent 0) ∧
      ∀ events, ContractEvent.ofRecords records = .ok events ↔ List.Forall₂ SplitsInto records events := by
  have hok : ∀ events, ContractEvent.ofRecords records = .ok events ↔ List.Forall₂ SplitsInto records events := by
    intro events
    rw [ContractEvent.ofRecords, mapM_ok_iff]
    constructor
    · exact fun h => forall₂_imp_of_mem h fun record hrecord e => (ofRaw_ok_iff (haccounts record hrecord)).1
    · exact fun h => forall₂_imp_of_mem h fun record hrecord e => (ofRaw_ok_iff (haccounts record hrecord)).2
  -- Whatever is wrong with the records is wrong with one of them.
  have herror : FailsAs (fun err => (∃ record ∈ records, record.2 = []) ∧ err = .malformed .emptyEvent 0)
      (ContractEvent.ofRecords records) := by
    refine FailsAs.mapM fun record hrecord err herr => ?_
    obtain ⟨hempty, rfl⟩ := (ofRaw_error_iff (haccounts record hrecord)).1 herr
    exact ⟨⟨record, hrecord, hempty⟩, rfl⟩
  refine ⟨fun err => ⟨herror err, ?_⟩, hok⟩
  rintro ⟨⟨record, hrecord, hempty⟩, rfl⟩
  -- An empty record is split into nothing, so the records are refused, and for this reason.
  cases hall : ContractEvent.ofRecords records with
  | ok events =>
    obtain ⟨e, -, -, b, hsplit, -⟩ := exists_of_forall₂ ((hok events).1 hall).flip hrecord
    rw [hempty] at hsplit
    cases hsplit
  | error err => rw [(herror err hall).2]

end

end ContractClient
