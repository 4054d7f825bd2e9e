/-
Where a buffer begins makes no difference.

Offsets are used in three ways: bytes are read there, faults point there, and a
sequence compares its count with the bytes that are left behind one. None of
them looks at what stands before. So with other bytes in front of a buffer
everything happens as many bytes later and is otherwise the same,
`decodeFrom_relative`: values and their ends, and also failures, at whatever
depth of a codec they come up. The fuel is the same as well, because what is
left of the buffer is.

The two ways to decode an arm of an enum differ in this only. Both read the
fields of the arm in turn, one of them behind the byte that says which arm it
is.
-/
import ContractClient.Proofs.Scale.Events

set_option autoImplicit false

namespace ContractClient

/-- The error as it is with `k` other bytes in front of the buffer. Errors that
are not about bytes have no offset. -/
def DecodeError.later (k : Nat) : DecodeError → DecodeError
  | .malformed f offset => .malformed f (k + offset)
  | e => e

namespace Codec

/-! ## Outcomes behind other bytes -/

/-- The outcome as it is with `k` other bytes in front of the buffer. -/
def later {α : Type} (k : Nat) : Except DecodeError (α × Nat) → Except DecodeError (α × Nat)
  | .ok (a, e) => .ok (a, k + e)
  | .error err => .error (err.later k)

section

variable {α β : Type} {k : Nat}

/-- A value behind other bytes ends as many bytes later than the same value
without them. -/
theorem later_ok_iff {r : Except DecodeError (α × Nat)} {a : α} {e : Nat} :
    later k r = .ok (a, k + e) ↔ r = .ok (a, e) := by
  cases r with
  | error err => simp [later]
  | ok x => simp [later, Prod.ext_iff]

/-- What is made of a value does not change where it ends. -/
theorem later_map (f : α → β) (r : Except DecodeError (α × Nat)) :
    (later k r).map (fun t => (f t.1, t.2)) = later k (r.map fun t => (f t.1, t.2)) := by
  cases r <;> rfl

/-- Steps are later if the first one is and the other ones are where it ends
later. -/
theorem later_bind {r r' : Except DecodeError (α × Nat)} {f f' : α × Nat → Except DecodeError (β × Nat)}
    (h : r' = later k r) (hf : ∀ a i, f' (a, k + i) = later k (f (a, i))) :
    (r' >>= f') = later k (r >>= f) := by
  subst h
  cases r with
  | error err => rfl
  | ok x => exact hf x.1 x.2

/-- A choice is later if both branches are and the condition is the same. -/
theorem later_ite {P P' : Prop} [Decidable P] [Decidable P'] {r r' s s' : Except DecodeError (α × Nat)}
    (hP : P' ↔ P) (hr : r' = later k r) (hs : s' = later k s) :
    (if P' then r' else s') = later k (if P then r else s) := by
  by_cases h : P
  · rw [if_pos h, if_pos (hP.2 h), hr]
  · rw [if_neg h, if_neg (mt hP.1 h), hs]

end

/-- Whether other bytes in front of a buffer only make the outcome later. -/
def Relative {α : Type} (f : Bytes → Nat → Except DecodeError (α × Nat)) : Prop :=
  ∀ p buf o, f (p ++ buf) (p.length + o) = later p.length (f buf o)

/-! ## Leaves -/

/-- Whether enough bytes are left depends on what is behind the offset, and so
do the bytes. A fault names the offset, which is later by as much. -/
theorem readExact_relative (n : Nat) : Relative fun buf o => readExact buf o n := by
  intro p buf o
  have hlength : p.length + o + n ≤ (p ++ buf).length ↔ o + n ≤ buf.length := by
    rw [List.length_append]
    omega
  refine later_ite hlength ?_ ?_
  · have hdrop : (p ++ buf).drop (p.length + o) = buf.drop o := by rw [← List.drop_drop, List.drop_left]
    rw [hdrop, Nat.add_assoc]
    rfl
  · -- what is said to be available is a difference
    have havailable : ((p ++ buf).length : Int) - (p.length + o : Nat) = (buf.length : Int) - o := by
      rw [List.length_append]
      omega
    rw [havailable]
    rfl

/-- The same for one byte. -/
theorem readByte_relative : Relative readByte := fun p buf o =>
  later_bind (readExact_relative 1 p buf o) fun _ _ => rfl

/-- A compact integer is read byte by byte, and its faults name the offset of
its first byte. -/
theorem decodeCompactMode_relative : Relative decodeCompactMode := by
  intro p buf o
  refine later_bind (readByte_relative p buf o) fun head i => ?_
  refine later_ite Iff.rfl rfl ?_
  refine later_ite Iff.rfl ?_ ?_
  · exact later_bind (readExact_relative 2 p buf o) fun raw i => later_ite Iff.rfl rfl rfl
  refine later_ite Iff.rfl ?_ ?_
  · exact later_bind (readExact_relative 4 p buf o) fun raw i => later_ite Iff.rfl rfl rfl
  · exact later_bind (readExact_relative _ p buf (o + 1)) fun raw i => later_ite Iff.rfl rfl rfl

/-- A bound is compared with the integer, which is the same. -/
theorem decodeCompact_relative (bound : Option Nat) : Relative (decodeCompact bound) := by
  intro p buf o
  refine later_bind (decodeCompactMode_relative p buf o) fun v i => ?_
  dsimp only
  cases bound.filter fun b => b < Bytes.bitLength v <;> rfl

/-- Whether bytes make a value of a thirty-two bytes type depends on their
number alone. -/
theorem decodeFixedBytes_relative (length : Nat) (newtype : Option Newtype) :
    Relative (decodeFixedBytes length newtype) := by
  intro p buf o
  refine later_bind (readExact_relative length p buf o) fun raw i => ?_
  cases newtype with
  | none => rfl
  | some kind =>
    dsimp only
    cases kind.ofBytes raw <;> rfl

/-- **Leaves are read alike behind other bytes.** A leaf takes the bytes that it
needs from its offset on, and says of a fault where it is; both move with the
offset. -/
theorem decodeLeaf_relative {c : Codec} (hleaf : c.isLeaf = true) : Relative (decodeLeaf c) := by
  intro p buf o
  cases c <;> simp only [isLeaf, Bool.false_eq_true] at hleaf <;> simp only [decodeLeaf, decodeWith]
  case bool => exact later_bind (readByte_relative p buf o) fun b i => later_ite Iff.rfl rfl rfl
  case int size signed => exact later_bind (readExact_relative _ p buf o) fun raw i => rfl
  case compact bound => exact later_bind (decodeCompact_relative bound p buf o) fun v i => rfl
  case str =>
    refine later_bind (decodeCompact_relative none p buf o) fun n i => ?_
    refine later_bind (readExact_relative n p buf i) fun raw j => ?_
    dsimp only
    -- a fault of the text points behind its count
    cases Utf8.decode raw <;> rfl
  case char =>
    exact later_bind (readExact_relative 4 p buf o) fun raw i => later_ite Iff.rfl rfl rfl
  case bytes =>
    refine later_bind (decodeCompact_relative none p buf o) fun n i => ?_
    exact later_bind (readExact_relative n p buf i) fun raw j => rfl
  case fixedBytes length newtype => exact decodeFixedBytes_relative length newtype p buf o

/-! ## Trees -/

section

variable {deref : Deref}

/-- Parts are read one behind the other, all of them later by as much. The
induction is on the parts, with the offset left free. -/
theorem decodeTuple_relative {codecs : List Codec} (h : ∀ c ∈ codecs, Relative (decodeWith deref c)) :
    Relative (decodeTuple deref codecs) := by
  intro p buf o
  induction codecs generalizing o with
  | nil =>
    rw [decodeTuple_nil, decodeTuple_nil]
    rfl
  | cons c codecs ih =>
    obtain ⟨hc, hcodecs⟩ := List.forall_mem_cons.1 h
    rw [decodeTuple_cons, decodeTuple_cons]
    refine later_bind (hc p buf o) fun v i => ?_
    dsimp only
    rw [ih hcodecs i]
    exact later_map (v :: ·) _

/-- The same for copies of one part. -/
theorem decodeCopies_relative {item : Codec} (h : Relative (decodeWith deref item)) (n : Nat) :
    Relative (decodeTuple deref (List.replicate n item)) :=
  decodeTuple_relative fun _ hc => (List.eq_of_mem_replicate hc).symm ▸ h

/-- Making an instance reads nothing, and its errors have no offset. -/
theorem recordOf_later (shape : Shape) (fields : List (String × Codec)) (vs : List Value) (k e : Nat) :
    recordOf shape fields (vs, k + e) = later k (recordOf shape fields (vs, e)) := by
  unfold recordOf
  cases hinstance : instanceOf shape ((fields.map (·.1)).zip vs) with
  | ok v => rfl
  | error err =>
    obtain ⟨name, rfl⟩ := instanceOf_failsAs shape _ err hinstance
    rfl

/-- A record is later by as much as its fields. Whether its instance can be made
has nothing to do with offsets. -/
theorem decodeRecord_relative {fields : List (String × Codec)} (shape : Shape)
    (h : ∀ f ∈ fields, Relative (decodeWith deref f.2)) :
    Relative fun buf o => decodeRecord deref buf shape fields o := by
  intro p buf o
  refine later_bind (decodeTuple_relative ?_ p buf o) fun vs e => recordOf_later shape fields vs _ e
  intro c hc
  obtain ⟨f, hf, rfl⟩ := List.mem_map.1 hc
  exact h f hf

/-- **Codecs are read alike behind other bytes** if references are. Reading
behind a prefix moves offsets and nothing else, those of errors included. The
induction is on the codec as a tree; the sequence is the one codec that compares
offsets, and both sides of its comparison move. -/
theorem decodeWith_relative (hderef : ∀ name, Relative (deref name)) (c : Codec) :
    Relative (decodeWith deref c) := by
  induction c using tree_induction with
  | leaf c hleaf =>
    intro p buf o
    rw [decodeWith_leaf hleaf, decodeWith_leaf hleaf]
    exact decodeLeaf_relative hleaf p buf o
  | seq item ih =>
    intro p buf o
    rw [decodeWith_seq, decodeWith_seq]
    refine later_bind (decodeCompact_relative none p buf o) fun n i => ?_
    -- The count is compared with what is left, and the end of the probe with its beginning.
    have hleft : (p ++ buf).length < n + (p.length + i) ↔ buf.length < n + i := by
      rw [List.length_append]
      omega
    refine later_ite hleft ?_ ?_
    · refine later_bind (ih p buf i) fun probe j => ?_
      exact later_ite (or_congr_left (not_congr Nat.add_left_cancel_iff)) rfl rfl
    · dsimp only
      rw [decodeCopies_relative ih n p buf i]
      exact later_map Value.list _
  | array item length ih =>
    intro p buf o
    rw [decodeWith_array, decodeWith_array, decodeCopies_relative ih length p buf o]
    exact later_map Value.tuple _
  | tuple codecs ih =>
    intro p buf o
    rw [decodeWith_tuple, decodeWith_tuple, decodeTuple_relative ih p buf o]
    exact later_map Value.tuple _
  | option inner ih =>
    intro p buf o
    rw [decodeWith_option, decodeWith_option]
    refine later_bind (readByte_relative p buf o) fun tag i => ?_
    exact later_ite Iff.rfl rfl (later_ite Iff.rfl (ih p buf i) rfl)
  | result ok err ihok iherr =>
    intro p buf o
    rw [decodeWith_result, decodeWith_result]
    refine later_bind (readByte_relative p buf o) fun tag i => ?_
    refine later_ite Iff.rfl ?_ (later_ite Iff.rfl ?_ rfl)
    · dsimp only
      rw [ihok p buf i]
      exact later_map Value.ok _
    · dsimp only
      rw [iherr p buf i]
      exact later_map Value.err _
  | struct shape fields ih =>
    intro p buf o
    rw [decodeWith_struct, decodeWith_struct]
    exact decodeRecord_relative shape ih p buf o
  | enum base arms ih =>
    intro p buf o
    rw [decodeWith_enum, decodeWith_enum]
    refine later_bind (readByte_relative p buf o) fun tag i => ?_
    dsimp only
    cases hfind : arms.find? fun arm => arm.1 == tag.toNat with
    | none => rfl
    | some arm => exact decodeRecord_relative arm.2.1 (ih arm (List.mem_of_find?_eq_some hfind)) p buf i
  | ref name =>
    intro p buf o
    rw [decodeWith_ref, decodeWith_ref]
    exact hderef name p buf o

end

/-- Following a name is later by as much, with any amount of fuel. -/
theorem derefFuel_relative (env : Environment) (n : Nat) (name : String) : Relative (derefFuel env n name) := by
  induction n generalizing name with
  | zero => exact fun _ _ _ => rfl
  | succ n ih =>
    intro p buf o
    simp only [derefFuel]
    cases env.codec? name with
    | none => rfl
    | some c => exact decodeWith_relative ih c p buf o

/-- **Codecs are read alike behind other bytes**, in success and in failure. -/
theorem decodeFrom_relative (env : Environment) (c : Codec) : Relative (decodeFrom env c) := by
  intro p buf o
  have hfuel : fuelFor env (p ++ buf) (p.length + o) = fuelFor env buf o := by
    rw [fuelFor, fuelFor, List.length_append, Nat.add_sub_add_left]
  rw [decodeFrom, decodeFrom, hfuel]
  exact decodeWith_relative (derefFuel_relative env _) c p buf o

/-! ## Arms with and without their index -/

section

variable {env : Environment} {base : String} {arms : List Arm} {arm : Arm} {d : UInt8} {payload : Bytes}

/-- An enum whose first byte is known is the record of the arm that the byte
picks, read from the second byte on. -/
theorem decodeFrom_tagged :
    decodeFrom env (.enum base arms) (d :: payload) 0 =
      match arms.find? fun a => a.1 == d.toNat with
      | some arm => decodeRecord (follow env) (d :: payload) arm.2.1 arm.2.2 1
      | none => fault (.noVariant base d.toNat) 0 := by
  rw [decodeFrom_eq, decodeWith_enum]
  rfl

/-- Behind its index an arm is decoded as the record that it is, one byte
later. -/
theorem decodeFrom_arm (hfind : (arms.find? fun a => a.1 == d.toNat) = some arm) :
    decodeFrom env (.enum base arms) (d :: payload) 0 =
      later 1 (decodeFrom env (.struct arm.2.1 arm.2.2) payload 0) := by
  have hrelative := decodeFrom_relative env (.struct arm.2.1 arm.2.2) [d] payload 0
  rw [decodeFrom_eq env _ ([d] ++ payload), decodeWith_struct] at hrelative
  rw [decodeFrom_tagged, hfind]
  exact hrelative

/-- Strict decoding by the index and decoding of the variant succeed
together. -/
theorem decodeVariant_ok_iff_decode (flags : List Bool) (v : Value) :
    decodeVariant env base arms d.toNat payload true = .ok v ↔
      (Codec.enum base arms).decode env flags (d :: payload) = .ok v := by
  rw [decode_ok_iff]
  cases hfind : arms.find? fun a => a.1 == d.toNat with
  | none =>
    -- Without such an arm both of them fail.
    rw [decodeFrom_tagged, hfind, decodeVariant, decodeArm_eq, hfind]
    simp [fault]
  | some arm =>
    rw [decodeVariant_eq hfind, decodeFrom_arm hfind, List.length_cons, Nat.add_comm, later_ok_iff, bind_ok_iff]
    constructor
    · rintro ⟨r, hr, hclosing⟩
      rw [hr, closing_ok_iff.1 hclosing]
    · exact fun h => ⟨_, h, closing_ok_iff.2 rfl⟩

/-- A record fails as its fields do. -/
theorem decodeFrom_struct_of_inTurn (shape : Shape) {fields : List (String × Codec)} {err : DecodeError}
    (h : decodeInTurn env (fields.map (·.2)) payload 0 = .error err) :
    decodeFrom env (.struct shape fields) payload 0 = .error err := by
  rw [decodeInTurn_eq] at h
  rw [decodeFrom_eq, decodeWith_struct, decodeRecord, h]
  rfl

end

/-- **An arm is the same with and without its index.** A payload is decoded as a
variant exactly if it is decoded behind the index of this variant, to the same
value. Where a field of an arm fails, both fail as the field does, one of them
one byte later. In general every codec does behind other bytes what it does
without them, as many bytes later. -/
theorem decodeVariant_agrees (env : Environment) :
    (∀ base arms (d : UInt8) payload flags,
      (∀ v, decodeVariant env base arms d.toNat payload true = .ok v ↔
        (Codec.enum base arms).decode env flags (d :: payload) = .ok v) ∧
      ∀ arm, (arms.find? fun a => a.1 == d.toNat) = some arm → ∀ err,
        decodeInTurn env (arm.2.2.map (·.2)) payload 0 = .error err →
          decodeVariant env base arms d.toNat payload true = .error err ∧
            (Codec.enum base arms).decode env flags (d :: payload) = .error (err.later 1)) ∧
    ∀ c p buf o, decodeFrom env c (p ++ buf) (p.length + o) = later p.length (decodeFrom env c buf o) := by
  refine ⟨fun base arms d payload flags => ⟨decodeVariant_ok_iff_decode flags, ?_⟩, decodeFrom_relative env⟩
  intro arm hfind err hfields
  have hrecord := decodeFrom_struct_of_inTurn arm.2.1 hfields
  constructor
  · rw [decodeVariant_eq hfind, hrecord]
    rfl
  · rw [decode, decodeFrom_arm hfind, hrecord]
    rfl

/-- A box in a box has an index that no shape has. It is found behind four bytes
of the payload, and behind five of what begins with the index of the outer
box. -/
theorem decodeVariant_agrees_box :
    decodeVariant boxEnvironment "Shape" boxArms 5 [1, 7, 8, 0, 9] true =
      fault (.noVariant "Shape" 9) 4 ∧
    (Codec.enum "Shape" boxArms).decode boxEnvironment [] [5, 1, 7, 8, 0, 9] =
      fault (.noVariant "Shape" 9) 5 :=
  ((decodeVariant_agrees boxEnvironment).1 "Shape" boxArms 5 [1, 7, 8, 0, 9] []).2 _ (by rfl) _ (by rfl)

end Codec

end ContractClient
