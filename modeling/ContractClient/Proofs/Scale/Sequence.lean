/-
The two ways to read a sequence.

Behind its count a sequence is its items one after another. Items that take
bytes cannot be more than the bytes that are left, so when the count says that
they are, only the first item is read, and the others are taken to be the same
if it took no bytes. This rests on a dichotomy: a codec by which something is
read without bytes reads nothing else, `takesNoBytes_of_still`. For what is read
without bytes is read wherever there is room, so also in place of anything else
that is read.

Otherwise each item takes a byte at least, and reading them one by one runs out
of bytes. The first item therefore decides for all of them, and the one thing
that is lost are very long sequences of nothing.
-/
import ContractClient.Proofs.Scale.Place
import ContractClient.Proofs.Scale.Termination

set_option autoImplicit false

namespace ContractClient.Codec

-- Powers of numbers are those of the core library, where another instance is at hand too.
attribute [local instance (1100)] instPowNat

variable {env : Environment} {item c : Codec} {buf : Bytes} {o i e n : Nat} {v : Value}

/-- A sequence read item by item, whatever its count. -/
def decodeItemByItem (env : Environment) (item : Codec) (buf : Bytes) (offset : Nat) :
    Except DecodeError (Value × Nat) := do
  let (n, i) ← decodeCompact none buf offset
  let (vs, i) ← decodeItems (decodeFrom env item buf) n i
  return (.list vs, i)

/-! ## Codecs without bytes -/

/-- Whether nothing that is read by a codec takes bytes. -/
def TakesNoBytes (env : Environment) (c : Codec) : Prop :=
  ∀ buf o v e, o ≤ buf.length → decodeFrom env c buf o = .ok (v, e) → e = o

/-- **All or none.** If something is read without bytes, then everything is.
Anything else that is read can be moved to where it is, with enough bytes behind
both, and a codec reads one thing at a place. -/
theorem takesNoBytes_of_still (ho : o ≤ buf.length) (h : decodeFrom env c buf o = .ok (v, o)) :
    TakesNoBytes env c := by
  intro buf' o' v' e' ho' h'
  obtain ⟨bs, hbetween, hmoved⟩ := decodeFrom_movable env c buf o v o ho h
  have hnil : bs = [] := by
    have hlen := hbetween.length_eq
    exact List.eq_nil_of_length_eq_zero (by omega)
  subst hnil
  -- The other buffer may end sooner. With more bytes behind it, both values are read in
  -- it at the same offset.
  have hlength : (buf' ++ List.replicate buf.length 0).length = buf'.length + buf.length := by
    rw [List.length_append, List.length_replicate]
  have hother := decodeFrom_append ho' h' (List.replicate buf.length 0)
  have hstill := hmoved (buf' ++ List.replicate buf.length 0) o' o' (Between.nil_iff.2 ⟨rfl, by omega⟩) (by omega)
  exact (Prod.mk.inj (Except.ok.inj (hother.symm.trans hstill))).2

/-- A codec by which something takes bytes reads nothing without a byte. -/
theorem lt_of_takesBytes (hbytes : ¬ TakesNoBytes env c) (ho : o ≤ buf.length)
    (h : decodeFrom env c buf o = .ok (v, e)) : o < e := by
  refine Nat.lt_of_le_of_ne (ends_of_decodeFrom ho h).1 ?_
  rintro rfl
  exact hbytes (takesNoBytes_of_still ho h)

/-- **Items that take bytes are not more than the bytes that are left.** -/
theorem add_le_of_items (hbytes : ¬ TakesNoBytes env item) {vs : List Value} (hi : i ≤ buf.length)
    (h : decodeItems (decodeFrom env item buf) n i = .ok (vs, e)) : n + i ≤ buf.length := by
  induction n generalizing i e vs with
  | zero => omega
  | succ n ih =>
    rw [decodeItems] at h
    obtain ⟨⟨w, j⟩, hw, h⟩ := bind_ok_iff.1 h
    obtain ⟨⟨ws, k⟩, hws, -⟩ := bind_ok_iff.1 h
    have hlt := lt_of_takesBytes hbytes hi hw
    have hrest := ih (ends_of_decodeFrom hi hw).2 hws
    omega

/-! ## Sequences behind their counts -/

/-- Items in turn are a tuple of copies. -/
theorem decodeItems_inTurn (n i : Nat) :
    decodeItems (decodeFrom env item buf) n i = decodeTuple (follow env) (List.replicate n item) buf i := by
  have hitem : decodeFrom env item buf = decodeWith (follow env) item buf := funext (decodeFrom_eq env item buf)
  rw [hitem, decodeItems_eq]

/-- The plain loop behind a count that was read. -/
theorem decodeItemByItem_eq (hcount : decodeCompact none buf o = .ok (n, i)) :
    decodeItemByItem env item buf o =
      (decodeItems (decodeFrom env item buf) n i).map fun t => (.list t.1, t.2) := by
  rw [decodeItemByItem, hcount]
  simp only [bind, Except.bind]
  cases decodeItems (decodeFrom env item buf) n i <;> rfl

/-- A sequence whose items may all have bytes is read item by item. -/
theorem decodeFrom_seq_of_le (hcount : decodeCompact none buf o = .ok (n, i)) (hle : n + i ≤ buf.length) :
    decodeFrom env (.seq item) buf o = decodeItemByItem env item buf o := by
  rw [decodeItemByItem_eq hcount, decodeItems_inTurn, decodeFrom_eq, decodeWith_seq, hcount]
  exact if_neg (Nat.not_lt.2 hle)

/-- A sequence with more items than bytes is what its first item says. -/
theorem decodeFrom_seq_of_lt (hcount : decodeCompact none buf o = .ok (n, i)) (hlt : buf.length < n + i) :
    decodeFrom env (.seq item) buf o =
      decodeFrom env item buf i >>= fun probe =>
        if probe.2 ≠ i ∨ maxZeroSized < n then fault (.sequenceLength n) o
        else .ok (.list (List.replicate n probe.1), i) := by
  rw [decodeFrom_eq, decodeWith_seq, hcount, decodeFrom_eq]
  exact if_pos hlt

/-- What is read without bytes is read as often as one likes. -/
theorem decodeItems_still {w : Value} (h : decodeFrom env item buf i = .ok (w, i)) (n : Nat) :
    decodeItems (decodeFrom env item buf) n i = .ok (List.replicate n w, i) := by
  rw [decodeFrom_eq] at h
  rw [decodeItems_inTurn]
  exact decodeCopies_still h n

/-- **What the first item accepts is read item by item**, with the same list and
the same end. -/
theorem decodeItemByItem_of_seq (hcount : decodeCompact none buf o = .ok (n, i)) (hlt : buf.length < n + i)
    (h : decodeFrom env (.seq item) buf o = .ok (v, e)) : decodeItemByItem env item buf o = .ok (v, e) := by
  rw [decodeFrom_seq_of_lt hcount hlt] at h
  obtain ⟨⟨w, j⟩, hprobe, h⟩ := bind_ok_iff.1 h
  dsimp only at h
  split at h
  · cases h
  · next hgood =>
    have hj : j = i := Decidable.not_not.1 (not_or.1 hgood).1
    subst hj
    cases h
    rw [decodeItemByItem_eq hcount, decodeItems_still hprobe]
    rfl

/-- **What the first item rejects is not read item by item**, unless there are
too many items without bytes. The count exceeds the bytes, so a sequence only
reads a probe; if that takes no bytes the bound on their number decides, and if
it takes some, there are too few bytes for all. -/
theorem decodeItemByItem_of_seq_error (hcount : decodeCompact none buf o = .ok (n, i)) (hlt : buf.length < n + i)
    {err : DecodeError} (h : decodeFrom env (.seq item) buf o = .error err) :
    (∃ err', decodeItemByItem env item buf o = .error err') ∨ TakesNoBytes env item ∧ maxZeroSized < n := by
  have hi := (lt_of_decodeCount hcount).2
  rw [decodeItemByItem_eq hcount]
  cases hprobe : decodeFrom env item buf i with
  | error err' =>
    -- There are items, and the first one fails.
    obtain ⟨n, rfl⟩ : ∃ m, n = m + 1 := ⟨n - 1, by omega⟩
    left
    refine ⟨err', ?_⟩
    rw [decodeItems, hprobe]
    rfl
  | ok r =>
    obtain ⟨w, j⟩ := r
    by_cases hj : j = i
    · subst hj
      right
      refine ⟨takesNoBytes_of_still hi hprobe, ?_⟩
      by_contra hn
      have hread : decodeFrom env (.seq item) buf o = .ok (.list (List.replicate n w), j) := by
        rw [decodeFrom_seq_of_lt hcount hlt, hprobe]
        exact if_neg (not_or.2 ⟨not_not.2 rfl, hn⟩)
      cases h.symm.trans hread
    · -- Each of the items takes a byte, and there are too few of them.
      have hbytes : ¬ TakesNoBytes env item := fun hnone => hj (hnone buf i w j hi hprobe)
      left
      cases hitems : decodeItems (decodeFrom env item buf) n i with
      | error err' => exact ⟨err', rfl⟩
      | ok r => exact absurd (add_le_of_items hbytes hi hitems) (Nat.not_le.2 hlt)

/-- **A sequence is read as if item by item.** If its count does not exceed the
bytes that are left, both ways of reading are the same. If it does, then what is
read is read item by item, as the same list with the same end; and what is not
read is not read item by item either, apart from more than 2²⁰ items without
bytes, which are always rejected there. -/
theorem seq_item_by_item (env : Environment) (item : Codec) (buf : Bytes) (o : Nat) :
    (∀ err, decodeCompact none buf o = .error err →
      decodeFrom env (.seq item) buf o = .error err ∧ decodeItemByItem env item buf o = .error err) ∧
    ∀ n i, decodeCompact none buf o = .ok (n, i) →
      (n ≤ buf.length - i → decodeFrom env (.seq item) buf o = decodeItemByItem env item buf o) ∧
      (buf.length - i < n →
        (∀ v e, decodeFrom env (.seq item) buf o = .ok (v, e) → decodeItemByItem env item buf o = .ok (v, e)) ∧
        (∀ err, decodeFrom env (.seq item) buf o = .error err →
          (∃ err', decodeItemByItem env item buf o = .error err') ∨ TakesNoBytes env item ∧ 2 ^ (20 : Nat) < n) ∧
        (2 ^ (20 : Nat) < n → ∃ err, decodeFrom env (.seq item) buf o = .error err)) := by
  constructor
  · intro err hcount
    constructor
    · rw [decodeFrom_eq, decodeWith_seq, hcount]
      rfl
    · rw [decodeItemByItem, hcount]
      rfl
  · intro n i hcount
    have hi := (lt_of_decodeCount hcount).2
    refine ⟨fun hle => decodeFrom_seq_of_le hcount (by omega), fun hgt => ?_⟩
    have hlt : buf.length < n + i := by omega
    refine ⟨fun v e => decodeItemByItem_of_seq hcount hlt, fun err => decodeItemByItem_of_seq_error hcount hlt, ?_⟩
    intro hn
    rw [decodeFrom_seq_of_lt hcount hlt]
    cases decodeFrom env item buf i with
    | error err => exact ⟨err, rfl⟩
    | ok probe => exact ⟨_, if_pos (.inr hn)⟩

/-- Three units are read by their first one, and so one by one as well; 2²⁰ + 1
units are rejected. -/
theorem seq_item_by_item_units :
    decodeItemByItem ⟨[]⟩ (.tuple []) [12] 0 = .ok (.list [.tuple [], .tuple [], .tuple []], 1) ∧
      ∃ err, decodeFrom ⟨[]⟩ (.seq (.tuple [])) [6, 0, 64, 0] 0 = .error err :=
  ⟨(((seq_item_by_item ⟨[]⟩ (.tuple []) [12] 0).2 3 1 (by rfl)).2 (by decide)).1 _ _ (by rfl),
    (((seq_item_by_item ⟨[]⟩ (.tuple []) [6, 0, 64, 0] 0).2 1048577 4 (by rfl)).2 (by decide)).2.2 (by decide)⟩

end ContractClient.Codec
