/-
Decoding comes to an end.

A codec reaches its parts at the offset where it is read itself or behind it.
Only the former can go on for ever, since a buffer ends: a record may ask for
its first field where it begins, and a reference for its target. `Demands` is
what can be asked for at the same offset. The items of a sequence are never
among it, because their count is read first, and those of an array are if it has
any.

So decoding ends wherever demands do, `Founded`. The induction is on the bytes
that are left, and for one offset on the demands; every step reads something or
follows a demand, `decodeWith_explained`. Where the references that a
declaration exposes rank below it, demands end for all codecs.

What comes out then is a value, or an error that is about the bytes, or one that
points at a part of the codec: a thirty-two bytes type that is given another
number of bytes, a class whose attributes are not the fields, a name that is not
declared.
-/
import ContractClient.Proofs.Scale.Refusals

set_option autoImplicit false

namespace ContractClient.Codec

open Relation

variable {env : Environment} {buf : Bytes} {c d : Codec} {o : Nat}

/-! ## What is asked for at one offset -/

/-- The codecs that a codec is built from, apart from the item of a sequence and
from that of an array without items. -/
def inlineParts : Codec → List Codec
  | .array _ 0 => []
  | .array item (_ + 1) => [item]
  | .tuple codecs => codecs
  | .option inner => [inner]
  | .result ok err => [ok, err]
  | .struct _ fields => fields.map (·.2)
  | .enum _ arms => arms.flatMap fun arm => arm.2.2.map (·.2)
  | _ => []

/-- Whether a reference to a name occurs in a codec outside of all sequences and
all arrays without items. -/
def Exposes (c : Codec) (name : String) : Prop :=
  ReflTransGen (fun a b => b ∈ inlineParts a) c (.ref name)

/-- Whether every reference that a declaration exposes ranks below it. -/
def Ranks (env : Environment) (rank : String → Nat) : Prop :=
  ∀ name c, env.codec? name = some c → ∀ other, c.Exposes other → rank other < rank name

/-- Whether decoding by one codec can ask to decode by the other one at the same
offset. -/
inductive Demands (env : Environment) : Codec → Codec → Prop
  | part {a b : Codec} (h : b ∈ inlineParts a) : Demands env a b
  | target {name : String} {c : Codec} (h : env.codec? name = some c) : Demands env (.ref name) c

/-- Whether demands come to an end. -/
def Founded (env : Environment) (c : Codec) : Prop :=
  Acc (fun b a => Demands env a b) c

/-- What is asked for inline is a part of the codec. -/
theorem mem_parts_of_inline (h : d ∈ inlineParts c) : d ∈ parts env c := by
  cases c with
  | array item length =>
    cases length with
    | zero => cases h
    | succ n => exact h
  | tuple | option | result | struct | enum => exact h
  | _ => cases h

/-- What is asked for at the same offset is a part of the codec, or the codec
that its name leads to. -/
theorem Demands.mem_parts (h : Demands env c d) : d ∈ parts env c := by
  cases h with
  | part h => exact mem_parts_of_inline h
  | target h => simp [parts, h]

/-! ## Ranks -/

/-- **Induction along inline parts**, which are smaller than what they are parts
of. A sequence and a reference have none: a sequence may be empty, so nothing
has to be read to build a value of it. -/
theorem inline_induction {P : Codec → Prop} (h : ∀ c, (∀ d ∈ inlineParts c, P d) → P c) (c : Codec) : P c := by
  induction c using tree_induction with
  | leaf c hleaf =>
    have hnone : inlineParts c = [] := by cases c <;> first | rfl | cases hleaf
    exact h c fun d hd => absurd (hnone ▸ hd) List.not_mem_nil
  | seq item => exact h _ fun d hd => absurd hd List.not_mem_nil
  | array item length ih =>
    refine h _ fun d hd => ?_
    have hitem : d ∈ parts ⟨[]⟩ (.array item length) := mem_parts_of_inline hd
    rwa [List.mem_singleton.1 hitem]
  | tuple codecs ih => exact h _ ih
  | option inner ih => exact h _ fun d hd => List.mem_singleton.1 hd ▸ ih
  | result ok err ihok iherr =>
    refine h _ fun d hd => ?_
    rcases List.mem_cons.1 hd with rfl | hd
    · exact ihok
    · exact List.mem_singleton.1 hd ▸ iherr
  | struct shape fields ih =>
    refine h _ fun d hd => ?_
    obtain ⟨f, hf, rfl⟩ := List.mem_map.1 hd
    exact ih f hf
  | enum base arms ih =>
    refine h _ fun d hd => ?_
    obtain ⟨arm, harm, hd⟩ := List.mem_flatMap.1 hd
    obtain ⟨f, hf, rfl⟩ := List.mem_map.1 hd
    exact ih arm harm f hf
  | ref name => exact h _ fun d hd => absurd hd List.not_mem_nil

/-- Demands of a codec end if those of the references that it exposes do. -/
theorem founded_of_exposed (h : ∀ name, c.Exposes name → Founded env (.ref name)) : Founded env c := by
  induction c using inline_induction with
  | h c ih =>
    refine Acc.intro c fun d hd => ?_
    cases hd with
    | part hd => exact ih d hd fun name hname => h name (.head hd hname)
    | target hc => exact (h _ .refl).inv (.target hc)

/-- **Where declarations rank above what they expose, demands end.** -/
theorem founded_of_ranks {rank : String → Nat} (hranks : Ranks env rank) (c : Codec) : Founded env c := by
  have hnames : ∀ n name, rank name = n → Founded env (.ref name) := by
    intro n
    induction n using Nat.strongRecOn with
    | _ n ih =>
      rintro name rfl
      refine Acc.intro _ fun d hd => ?_
      cases hd with
      | part hd => cases hd
      | target hc => exact founded_of_exposed fun other hother => ih _ (hranks name d hc other hother) other rfl
  exact founded_of_exposed fun name _ => hnames _ name rfl

/-! ## Errors that are explained -/

/-- Whether an error says what is wrong with a codec. -/
def Blames (env : Environment) : Codec → DecodeError → Prop
  | .fixedBytes length (some _), .newtype _ => length ≠ 32
  | .struct shape fields, .shapeMismatch cls _ => cls = shape.name ∧ ¬ FieldsFit shape fields
  | .enum _ arms, .shapeMismatch cls _ => ∃ arm ∈ arms, cls = arm.2.1.name ∧ ¬ FieldsFit arm.2.1 arm.2.2
  | .ref name, .undeclared name' => name' = name ∧ env.codec? name = none
  | _, _ => False

/-- Whether an error says what is wrong with the bytes, or with a part of the
codec. -/
def Explained (env : Environment) (c : Codec) (e : DecodeError) : Prop :=
  e.isFault = true ∨ ∃ d, ReflTransGen (fun a b => b ∈ parts env a) c d ∧ d.Blames env e

namespace Explained

/-- A fault of the bytes explains a failure. -/
theorem of_faulted {α : Type} {r : Except DecodeError α} (h : Faulted r) : FailsAs (Explained env c) r :=
  h.imp fun _ hfault => .inl hfault

/-- What explains the failure of a part explains the failure of the whole. -/
theorem of_part (hd : d ∈ parts env c) (e : DecodeError) (h : Explained env d e) : Explained env c e :=
  h.imp_right fun ⟨b, hb, hblames⟩ => ⟨b, .head hd hb, hblames⟩

/-- References that have no end explain nothing. -/
theorem ne_endless {e : DecodeError} (h : Explained env c e) (n : Nat) : e ≠ .endless n := by
  rintro rfl
  obtain hfault | ⟨d, -, hblames⟩ := h
  · cases hfault
  · unfold Blames at hblames
    split at hblames <;> simp_all

end Explained

/-- A leaf fails over the bytes. The only other way is a type of thirty-two
bytes that is asked for another number of them, which contradicts itself. -/
theorem decodeLeaf_explained (hleaf : c.isLeaf = true) : FailsAs (Explained env c) (decodeLeaf c buf o) := by
  by_cases hground : c.Grounded env
  · exact .of_faulted (decodeLeaf_faulted buf o hleaf hground)
  -- Only a thirty-two bytes type of another length is not grounded.
  cases c with
  | fixedBytes length newtype =>
    cases newtype with
    | none => exact absurd trivial hground
    | some kind =>
      unfold decodeLeaf
      simp only [decodeWith, decodeFixedBytes]
      refine FailsAs.bind (.of_faulted (readExact_faulted _ _ _)) fun raw _ => ?_
      split
      · exact .ok _
      · exact .error (.inr ⟨_, .refl, hground⟩)
  | ref name => cases hleaf
  | _ => exact absurd trivial hground

/-- The instance of a class fails only if the fields are not its attributes. -/
theorem recordOf_failsAs {shape : Shape} {fields : List (String × Codec)} {vs : List Value} {e : Nat}
    (hlen : vs.length = fields.length) :
    FailsAs (fun err => (∃ name, err = .shapeMismatch shape.name name) ∧ ¬ FieldsFit shape fields)
      (recordOf shape fields (vs, e)) := by
  by_cases hfit : FieldsFit shape fields
  · rw [recordOf, instanceOf_fit hfit hlen]
    exact .ok _
  · refine FailsAs.map _ ?_
    unfold instanceOf
    split
    · exact .error ⟨⟨_, rfl⟩, hfit⟩
    · exact .ok _

/-! ## One step -/

/-- Following a name to the end goes onward. -/
theorem follow_onward (env : Environment) (buf : Bytes) (name : String) : EndsOnward buf (follow env name buf) := by
  intro o v e h
  unfold follow at h
  cases hc : env.codec? name with
  | none => simp [hc] at h
  | some c =>
    rw [hc] at h
    exact decodeWith_onward (derefFuel_onward env buf _) c o v e h

/-- A count takes bytes, so what is behind it is behind the offset. -/
theorem lt_of_decodeCount {n e : Nat} (h : decodeCompact none buf o = .ok (n, e)) : o < e ∧ e ≤ buf.length := by
  obtain ⟨bs, hcount, hbetween⟩ := decodeCount_ok_iff.1 h
  have hpos : 0 < bs.length := List.length_pos_iff.2 fun hnil => encodeCount_ne_nil (hnil ▸ hcount)
  exact ⟨by rw [hbetween.length_eq]; omega, hbetween.2.1⟩

/-- A byte that was read is behind the offset, so something is gained by it. -/
theorem lt_of_readByte {b : UInt8} {e : Nat} (h : readByte buf o = .ok (b, e)) : o < e ∧ e ≤ buf.length := by
  have hbetween := readByte_ok_iff.1 h
  exact ⟨by rw [hbetween.length_eq, List.length_singleton]; omega, hbetween.2.1⟩

/-- Whether an offset is behind another one. -/
def Behind (buf : Bytes) (o i : Nat) : Prop :=
  o < i ∧ i ≤ buf.length

/-- What is read behind an offset ends behind it. -/
theorem Behind.ends {i e : Nat} {v : Value} (hi : Behind buf o i)
    (h : decodeWith (follow env) c buf i = .ok (v, e)) : Behind buf o e := by
  have honward := decodeWith_onward (follow_onward env buf) c i v e h
  unfold Onward at honward
  unfold Behind at hi ⊢
  omega

section

variable {P : DecodeError → Prop} {Q : Nat → Prop}

/-- Copies of an item fail as the item does. -/
theorem decodeCopies_failsAs {item : Codec}
    (hends : ∀ i v e, Q i → decodeWith (follow env) item buf i = .ok (v, e) → Q e)
    (h : ∀ i, Q i → FailsAs P (decodeWith (follow env) item buf i)) (n : Nat) (ho : Q o) :
    FailsAs P (decodeTuple (follow env) (List.replicate n item) buf o) := by
  refine decodeTuple_failsAs ?_ ?_ ho
  · exact fun d hd => List.eq_of_mem_replicate hd ▸ hends
  · exact fun d hd => List.eq_of_mem_replicate hd ▸ h

/-- A record fails as its fields do, or because the fields are not the
attributes. -/
theorem decodeRecord_failsAs {shape : Shape} {fields : List (String × Codec)}
    (hends : ∀ f ∈ fields, ∀ i v e, Q i → decodeWith (follow env) f.2 buf i = .ok (v, e) → Q e)
    (h : ∀ f ∈ fields, ∀ i, Q i → FailsAs P (decodeWith (follow env) f.2 buf i))
    (hshape : ∀ name, ¬ FieldsFit shape fields → P (.shapeMismatch shape.name name)) (ho : Q o) :
    FailsAs P (decodeRecord (follow env) buf shape fields o) := by
  have htuple : FailsAs P (decodeTuple (follow env) (fields.map (·.2)) buf o) := by
    refine decodeTuple_failsAs ?_ ?_ ho
    · intro d hd
      obtain ⟨f, hf, rfl⟩ := List.mem_map.1 hd
      exact hends f hf
    · intro d hd
      obtain ⟨f, hf, rfl⟩ := List.mem_map.1 hd
      exact h f hf
  refine htuple.bind ?_
  rintro ⟨vs, e⟩ hvs
  have hlen := length_decodeTuple hvs
  rw [List.length_map] at hlen
  refine (recordOf_failsAs hlen).imp ?_
  rintro err ⟨⟨name, rfl⟩, hfit⟩
  exact hshape name hfit

end

/-- **One step of decoding explains its errors** if following demands where it
stands does, and if decoding its parts does behind it. -/
theorem decodeWith_explained (ho : o ≤ buf.length)
    (hnow : ∀ d, Demands env c d → FailsAs (Explained env d) (decodeWith (follow env) d buf o))
    (hlater : ∀ d ∈ parts env c, ∀ i, Behind buf o i →
      FailsAs (Explained env d) (decodeWith (follow env) d buf i)) :
    FailsAs (Explained env c) (decodeWith (follow env) c buf o) := by
  have hbehind : ∀ d ∈ parts env c, ∀ i, Behind buf o i →
      FailsAs (Explained env c) (decodeWith (follow env) d buf i) :=
    fun d hd i hi => (hlater d hd i hi).imp (Explained.of_part hd)
  -- What is demanded is decoded here, or behind a part that took bytes.
  have hinline : ∀ d ∈ inlineParts c, ∀ i, Onward buf o i →
      FailsAs (Explained env c) (decodeWith (follow env) d buf i) := by
    intro d hd i hi
    rcases hi with rfl | hi
    · exact (hnow d (.part hd)).imp (Explained.of_part (mem_parts_of_inline hd))
    · exact hbehind d (mem_parts_of_inline hd) i hi
  have honward : ∀ (d : Codec) i v e, Onward buf o i → decodeWith (follow env) d buf i = .ok (v, e) →
      Onward buf o e :=
    fun d i v e hi h => hi.trans (decodeWith_onward (follow_onward env buf) d i v e h)
  have hends : ∀ (d : Codec) i v e, Behind buf o i → decodeWith (follow env) d buf i = .ok (v, e) →
      Behind buf o e := fun d i v e hi h => hi.ends h
  cases c with
  | seq item =>
    have hitem := hbehind item List.mem_cons_self
    rw [decodeWith_seq]
    refine FailsAs.bind (.of_faulted (decodeCompact_faulted buf o none)) ?_
    rintro ⟨n, i⟩ hcount
    have hi : Behind buf o i := lt_of_decodeCount hcount
    dsimp only
    split
    · refine (hitem i hi).bind fun probe _ => ?_
      split
      · exact .error (.inl rfl)
      · exact .ok _
    · exact (decodeCopies_failsAs (hends item) hitem n hi).map _
  | array item length =>
    rw [decodeWith_array]
    apply FailsAs.map
    cases length with
    | zero =>
      rw [List.replicate_zero, decodeTuple_nil]
      exact .ok _
    | succ n => exact decodeCopies_failsAs (honward item) (hinline item List.mem_cons_self) (n + 1) (.inl rfl)
  | tuple codecs =>
    rw [decodeWith_tuple]
    apply FailsAs.map
    exact decodeTuple_failsAs (fun d _ => honward d) hinline (.inl rfl)
  | option inner =>
    rw [decodeWith_option]
    refine FailsAs.bind (.of_faulted (readByte_faulted buf o)) ?_
    rintro ⟨tag, i⟩ htag
    dsimp only
    split
    · exact .ok _
    split
    · exact hbehind inner List.mem_cons_self i (lt_of_readByte htag)
    · exact .error (.inl rfl)
  | result ok err =>
    have herr : err ∈ parts env (.result ok err) := List.mem_cons_of_mem _ List.mem_cons_self
    rw [decodeWith_result]
    refine FailsAs.bind (.of_faulted (readByte_faulted buf o)) ?_
    rintro ⟨tag, i⟩ htag
    have hi : Behind buf o i := lt_of_readByte htag
    dsimp only
    split
    · exact (hbehind ok List.mem_cons_self i hi).map _
    split
    · exact (hbehind err herr i hi).map _
    · exact .error (.inl rfl)
  | struct shape fields =>
    have hfield : ∀ f ∈ fields, f.2 ∈ inlineParts (.struct shape fields) := fun f hf => List.mem_map_of_mem hf
    rw [decodeWith_struct]
    refine decodeRecord_failsAs (fun f _ => honward f.2) (fun f hf => hinline f.2 (hfield f hf)) ?_ (.inl rfl)
    exact fun name hfit => .inr ⟨_, .refl, rfl, hfit⟩
  | enum base arms =>
    rw [decodeWith_enum]
    refine FailsAs.bind (.of_faulted (readByte_faulted buf o)) ?_
    rintro ⟨tag, i⟩ htag
    have hi : Behind buf o i := lt_of_readByte htag
    dsimp only
    cases hfind : arms.find? fun arm => arm.1 == tag.toNat with
    | none => exact .error (.inl rfl)
    | some arm =>
      have harm := List.mem_of_find?_eq_some hfind
      have hfield : ∀ f ∈ arm.2.2, f.2 ∈ parts env (.enum base arms) :=
        fun f hf => List.mem_flatMap.2 ⟨arm, harm, List.mem_map_of_mem hf⟩
      refine decodeRecord_failsAs (fun f _ => hends f.2) (fun f hf => hbehind f.2 (hfield f hf)) ?_ hi
      exact fun name hfit => .inr ⟨_, .refl, arm, harm, rfl, hfit⟩
  | ref name =>
    rw [decodeWith_ref]
    unfold follow
    cases hc : env.codec? name with
    | none => exact .error (.inr ⟨_, .refl, rfl, hc⟩)
    | some target =>
      have htarget : target ∈ parts env (.ref name) := (Demands.target hc).mem_parts
      dsimp only
      rw [decodeFrom_eq]
      exact (hnow target (.target hc)).imp (Explained.of_part htarget)
  | _ =>
    rw [decodeWith_leaf rfl]
    exact decodeLeaf_explained rfl

/-! ## A whole run -/

/-- **Decoding explains its errors** where demands come to an end everywhere in
a codec. -/
theorem decodeFrom_explained (hfounded : Everywhere env (Founded env) c) (ho : o ≤ buf.length) :
    FailsAs (Explained env c) (decodeFrom env c buf o) := by
  -- The bytes that are left get less, or else what is asked for follows a demand.
  induction hleft : buf.length - o using Nat.strongRecOn generalizing c o with
  | _ left later =>
    subst hleft
    rw [decodeFrom_eq]
    have hself := hfounded.self
    induction hself with
    | intro c _ now =>
      apply decodeWith_explained ho
      · exact fun d hd => now d hd (hfounded.part hd.mem_parts)
      · intro d hd i hi
        have hless : buf.length - i < buf.length - o := by
          unfold Behind at hi
          omega
        rw [← decodeFrom_eq]
        exact later _ hless (hfounded.part hd) hi.2 rfl

/-- A value ends within the buffer, not before it begins. -/
theorem ends_of_decodeFrom {v : Value} {e : Nat} (ho : o ≤ buf.length) (h : decodeFrom env c buf o = .ok (v, e)) :
    o ≤ e ∧ e ≤ buf.length := by
  have honward := decodeWith_onward (derefFuel_onward env buf _) c o v e h
  unfold Onward at honward
  omega

/-- **Decoding comes to an end.** If every declaration ranks above the
references that occur in it outside of sequences and of arrays without items,
then decoding by any codec, at any offset within any buffer, follows a bounded
number of references inside each other: fuel that is enough for the offset is
never used up, and more of it makes no difference. The outcome is a value that
ends within the buffer, or an error that says what is wrong with the bytes;
codecs that contradict themselves may be blamed instead. -/
theorem decodeFrom_terminates {rank : String → Nat} (hranks : Ranks env rank) (c : Codec) (ho : o ≤ buf.length) :
    (∀ n, fuelFor env buf o ≤ n → decodeWith (derefFuel env n) c buf o = decodeFrom env c buf o) ∧
      ((∃ v e, decodeFrom env c buf o = .ok (v, e) ∧ o ≤ e ∧ e ≤ buf.length) ∨
        ∃ err, decodeFrom env c buf o = .error err ∧ (∀ n, err ≠ .endless n) ∧
          (err.isFault = true ∨ ∃ d, ReflTransGen (fun a b => b ∈ parts env a) c d ∧ d.Blames env err)) := by
  refine ⟨fun n hn => decodeWith_fuel env buf hn c, ?_⟩
  have hfounded : Everywhere env (Founded env) c := fun d _ => founded_of_ranks hranks d
  have hexplained := decodeFrom_explained hfounded ho
  cases hdecode : decodeFrom env c buf o with
  | ok r => exact .inl ⟨r.1, r.2, rfl, ends_of_decodeFrom ho hdecode⟩
  | error err => exact .inr ⟨err, rfl, (hexplained err hdecode).ne_endless, hexplained err hdecode⟩

/-- Folders have an owner and hold folders, and owners hold an array of no
folders and a number. -/
def ownedEnvironment : Environment :=
  ⟨[("Folder", .struct ⟨"Folder", ["owner", "folders"]⟩ [("owner", .ref "Owner"), ("folders", .seq (.ref "Folder"))]),
    ("Owner", .struct ⟨"Owner", ["homes", "id"]⟩ [("homes", .array (.ref "Folder") 0), ("id", .compact none)])]⟩

/-- Folders rank above owners. -/
def ownedRank (name : String) : Nat :=
  if name = "Folder" then 1 else 0

/-- A reference exposes its own name and no other. -/
theorem exposes_ref_iff {name other : String} : (Codec.ref name).Exposes other ↔ name = other := by
  rw [Exposes, ReflTransGen.cases_head_iff]
  simp [inlineParts]

/-- What is no reference exposes what its inline parts expose. -/
theorem exposes_iff_of_ne {name : String} (hc : ∀ n, c ≠ .ref n) :
    c.Exposes name ↔ ∃ d ∈ inlineParts c, d.Exposes name := by
  rw [Exposes, ReflTransGen.cases_head_iff, or_iff_right (hc name)]
  rfl

/-- The ranks of the two declarations are as they have to be: a folder exposes
its owner, and an owner exposes nothing, as it holds an array of no folders. -/
theorem owned_ranks : Ranks ownedEnvironment ownedRank := by
  intro name c hc other hother
  have hcase : name = "Folder" ∨ name = "Owner" := by
    by_contra hnone
    rw [not_or] at hnone
    simp [Environment.codec?, ownedEnvironment, Ne.symm hnone.1, Ne.symm hnone.2] at hc
  rcases hcase with rfl | rfl
  · have hexposed : other = "Owner" := by
      cases hc
      simpa [exposes_iff_of_ne, exposes_ref_iff, inlineParts, eq_comm] using hother
    rw [hexposed]
    decide
  · cases hc
    simp [exposes_iff_of_ne, inlineParts] at hother

/-- Whatever bytes are read as a folder, reading ends. -/
theorem decodeFrom_terminates_owned : Ranks ownedEnvironment ownedRank ∧
    ∀ buf, (∃ v e, decodeFrom ownedEnvironment (.ref "Folder") buf 0 = .ok (v, e) ∧ e ≤ buf.length) ∨
      ∃ err, decodeFrom ownedEnvironment (.ref "Folder") buf 0 = .error err ∧ ∀ n, err ≠ .endless n := by
  refine ⟨owned_ranks, fun buf => ?_⟩
  obtain ⟨v, e, hdecode, -, he⟩ | ⟨err, hdecode, hends, -⟩ :=
    (decodeFrom_terminates owned_ranks (.ref "Folder") (Nat.zero_le buf.length)).2
  · exact .inl ⟨v, e, hdecode, he⟩
  · exact .inr ⟨err, hdecode, hends⟩

end ContractClient.Codec
