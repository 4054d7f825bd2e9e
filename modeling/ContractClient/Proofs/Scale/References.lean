/-
Following references.

Decoding and encoding follow references by fuel, and the fuel they are given is
a formula. Here the formula is shown to be enough: with more fuel the outcome is
the same. What makes it enough is that a part of a codec is read at the offset
where the codec is read or at a later one, and a part of a value is the value or
not as deep, so that `Following.settled` applies with what is left of the
buffer, or the depth, as the size.

With that the fuel disappears. `follow` is the function that decodes by the
declared codecs, it is its own next step, `decodeFrom_eq`, and every outcome
that some fuel gives is the outcome. The development has no other use for the
fuel: what is said of all outcomes is shown for each amount of fuel by
induction, and what relates codecs that are declared to those that are not is
shown from the equation.
-/
import ContractClient.Proofs.Fuel
import ContractClient.Proofs.Scale.Leaves

set_option autoImplicit false

namespace ContractClient.Codec

/-! ## Offsets go onward -/

/-- Whether an offset is one where decoding at `o` can get to. -/
def Onward (buf : Bytes) (o i : Nat) : Prop :=
  i = o ∨ o < i ∧ i ≤ buf.length

/-- Going onward twice is going onward. An offset that does not move is onward
of itself, even behind the end of the buffer, which is why the two cases are
kept apart. -/
theorem Onward.trans {buf : Bytes} {o i j : Nat} (h₁ : Onward buf o i) (h₂ : Onward buf i j) :
    Onward buf o j := by
  unfold Onward at *
  omega

/-- Where bytes were read, the offset behind them is onward of the one in
front. -/
theorem Onward.of_between {buf : Bytes} {o e : Nat} {bs : Bytes} (h : Between buf o e bs) :
    Onward buf o e := by
  obtain ⟨hoe, he, -⟩ := h
  unfold Onward
  omega

/-- One byte was read, so reading went on. -/
theorem Onward.of_readByte {buf : Bytes} {o e : Nat} {b : UInt8} (h : readByte buf o = .ok (b, e)) :
    Onward buf o e :=
  .of_between (readByte_ok_iff.1 h)

/-- A count was read, so reading went on. -/
theorem Onward.of_decodeCount {buf : Bytes} {o n e : Nat} (h : decodeCompact none buf o = .ok (n, e)) :
    Onward buf o e := by
  obtain ⟨bs, -, hbetween⟩ := decodeCount_ok_iff.1 h
  exact .of_between hbetween

/-- Whether decoding ends onward of where it begins. -/
def EndsOnward {α : Type} (buf : Bytes) (decode : Nat → Except DecodeError (α × Nat)) : Prop :=
  ∀ o v e, decode o = .ok (v, e) → Onward buf o e

section

variable {deref deref' : Deref} {buf : Bytes}

/-- Reading one part after the other goes onward if reading each part does.
Where all of them take no bytes it ends where it began, which still is
onward. -/
theorem decodeTuple_onward (codecs : List Codec)
    (h : ∀ c ∈ codecs, EndsOnward buf (decodeWith deref c buf)) :
    EndsOnward buf (decodeTuple deref codecs buf) := by
  induction codecs with
  | nil =>
    intro o vs e hdecode
    rw [decodeTuple_nil] at hdecode
    cases hdecode
    exact .inl rfl
  | cons c codecs ih =>
    intro o vs e hdecode
    obtain ⟨v, i, ws, hhead, htail, -⟩ := decodeTuple_cons_ok_iff.1 hdecode
    have hrest := ih (fun c' hc' => h c' (List.mem_cons_of_mem _ hc')) i ws e htail
    exact (h c List.mem_cons_self o v i hhead).trans hrest

/-- The same for copies of one part, which is how sequences and arrays are
read. -/
theorem decodeCopies_onward {item : Codec} (n : Nat) (h : EndsOnward buf (decodeWith deref item buf)) :
    EndsOnward buf (decodeTuple deref (List.replicate n item) buf) := by
  refine decodeTuple_onward _ fun c hc => ?_
  rw [List.eq_of_mem_replicate hc]
  exact h

/-- A record is read by its fields; making the instance reads nothing more. -/
theorem decodeRecord_onward (shape : Shape) (fields : List (String × Codec))
    (h : ∀ f ∈ fields, EndsOnward buf (decodeWith deref f.2 buf)) :
    EndsOnward buf (decodeRecord deref buf shape fields) := by
  intro o v e hdecode
  obtain ⟨vs, htuple, -⟩ := decodeRecord_ok_iff.1 hdecode
  refine decodeTuple_onward (fields.map (·.2)) ?_ o vs e htuple
  rintro c hc
  obtain ⟨f, hf, rfl⟩ := List.mem_map.1 hc
  exact h f hf

/-- **Decoding ends onward of where it begins** if following references does. A
reference could be followed to itself forever, so for references this is a
hypothesis here; the bound on following them supplies it. -/
theorem decodeWith_onward (hderef : ∀ name, EndsOnward buf (deref name buf)) (c : Codec) :
    EndsOnward buf (decodeWith deref c buf) := by
  -- The induction is on the codec. Names are the one case that it cannot open, and
  -- `hderef` stands in for it.
  induction c using tree_induction with
  | leaf c hleaf =>
    intro o v e h
    rw [decodeWith_leaf hleaf] at h
    obtain ⟨bs, hbetween, -⟩ := encodeLeaf_of_decodeLeaf hleaf h
    exact .of_between hbetween
  | seq item ih =>
    intro o v e h
    obtain ⟨n, i, hcount, ⟨-, -, rfl, -⟩ | ⟨-, vs, htuple, -⟩⟩ := decodeWith_seq_ok_iff.1 h
    · exact .of_decodeCount hcount
    · exact (Onward.of_decodeCount hcount).trans (decodeCopies_onward n ih i vs e htuple)
  | array item length ih =>
    intro o v e h
    obtain ⟨vs, htuple, -⟩ := decodeWith_array_ok_iff.1 h
    exact decodeCopies_onward length ih o vs e htuple
  | tuple codecs ih =>
    intro o v e h
    obtain ⟨vs, htuple, -⟩ := decodeWith_tuple_ok_iff.1 h
    exact decodeTuple_onward codecs ih o vs e htuple
  | option inner ih =>
    intro o v e h
    obtain ⟨htag, -⟩ | ⟨i, htag, hinner⟩ := decodeWith_option_ok_iff.1 h
    · exact .of_between htag
    · exact (Onward.of_between htag).trans (ih i v e hinner)
  | result ok err ihok iherr =>
    intro o v e h
    obtain ⟨i, w, htag, hw, -⟩ | ⟨i, w, htag, hw, -⟩ := decodeWith_result_ok_iff.1 h
    · exact (Onward.of_between htag).trans (ihok i w e hw)
    · exact (Onward.of_between htag).trans (iherr i w e hw)
  | struct shape fields ih =>
    intro o v e h
    rw [decodeWith_struct] at h
    exact decodeRecord_onward shape fields ih o v e h
  | enum base arms ih =>
    intro o v e h
    obtain ⟨tag, i, arm, htag, hfind, hrecord⟩ := decodeWith_enum_ok_iff.1 h
    have harm := ih arm (List.mem_of_find?_eq_some hfind)
    exact (Onward.of_between htag).trans (decodeRecord_onward arm.2.1 arm.2.2 harm i v e hrecord)
  | ref name =>
    intro o v e h
    rw [decodeWith_ref] at h
    exact hderef name o v e h

/-! ## Outcomes depend on references onward -/

/-- Whether two ways of decoding agree wherever decoding at `o` can get to. -/
def AgreeOnward {α : Type} (excused : Prop) (bottom : DecodeError) (buf : Bytes) (o : Nat)
    (decode decode' : Nat → Except DecodeError (α × Nat)) : Prop :=
  ∀ i, Onward buf o i → Agree excused bottom (decode i) (decode' i)

/-- What agrees onward of an offset agrees onward of every later one. -/
theorem AgreeOnward.later {α : Type} {excused : Prop} {bottom : DecodeError} {o i : Nat}
    {decode decode' : Nat → Except DecodeError (α × Nat)}
    (h : AgreeOnward excused bottom buf o decode decode') (hi : Onward buf o i) :
    AgreeOnward excused bottom buf i decode decode' :=
  fun j hj => h j (hi.trans hj)

variable {excused : Prop} {bottom : DecodeError}

/-- **Parts that agree make tuples that agree.** The second part is read at the
offset where the first one ends, so it is asked to agree not at one offset but
at all that can be got to. -/
theorem decodeTuple_agree (hderef : ∀ name, EndsOnward buf (deref name buf)) (codecs : List Codec) {o : Nat}
    (h : ∀ c ∈ codecs, AgreeOnward excused bottom buf o (decodeWith deref c buf) (decodeWith deref' c buf)) :
    AgreeOnward excused bottom buf o (decodeTuple deref codecs buf) (decodeTuple deref' codecs buf) := by
  induction codecs generalizing o with
  | nil =>
    intro i _
    rw [decodeTuple_nil, decodeTuple_nil]
    exact .refl _
  | cons c codecs ih =>
    intro i hi
    rw [decodeTuple_cons, decodeTuple_cons]
    refine (h c List.mem_cons_self i hi).bind ?_
    rintro ⟨v, j⟩ hv
    have hj := hi.trans (decodeWith_onward hderef c i v j hv)
    exact (ih (fun c' hc' => h c' (List.mem_cons_of_mem _ hc')) j hj).map _

/-- Records agree if their fields do: the instance is made of the same
attributes. -/
theorem decodeRecord_agree (hderef : ∀ name, EndsOnward buf (deref name buf)) (shape : Shape)
    (fields : List (String × Codec)) {o : Nat}
    (h : ∀ f ∈ fields,
      AgreeOnward excused bottom buf o (decodeWith deref f.2 buf) (decodeWith deref' f.2 buf)) :
    AgreeOnward excused bottom buf o (decodeRecord deref buf shape fields)
      (decodeRecord deref' buf shape fields) := by
  intro i hi
  refine (decodeTuple_agree hderef (fields.map (·.2)) ?_ i hi).bind fun _ _ => .refl _
  intro c hc
  obtain ⟨f, hf, rfl⟩ := List.mem_map.1 hc
  exact h f hf

/-- Sequences and arrays are tuples of copies. -/
theorem decodeCopies_agree (hderef : ∀ name, EndsOnward buf (deref name buf)) {item : Codec} {o : Nat}
    (h : AgreeOnward excused bottom buf o (decodeWith deref item buf) (decodeWith deref' item buf)) (n : Nat) :
    AgreeOnward excused bottom buf o (decodeTuple deref (List.replicate n item) buf)
      (decodeTuple deref' (List.replicate n item) buf) := by
  refine decodeTuple_agree hderef _ fun c hc => ?_
  rw [List.eq_of_mem_replicate hc]
  exact h

/-- **Outcomes depend on references onward.** If following references agrees
wherever decoding can get to, so does decoding. -/
theorem decodeWith_agree (hderef : ∀ name, EndsOnward buf (deref name buf)) (c : Codec) :
    ∀ o, (∀ name, AgreeOnward excused bottom buf o (deref name buf) (deref' name buf)) →
      AgreeOnward excused bottom buf o (decodeWith deref c buf) (decodeWith deref' c buf) := by
  induction c using tree_induction with
  | leaf c hleaf =>
    intro o _ i _
    rw [decodeWith_leaf hleaf, decodeWith_leaf hleaf]
    exact .refl _
  | seq item ih =>
    intro o h i hi
    rw [decodeWith_seq, decodeWith_seq]
    -- Counts follow no reference. The items begin behind the count, which is onward of `o`.
    refine (Agree.refl _).bind ?_
    rintro ⟨n, j⟩ hcount
    have hj := hi.trans (.of_decodeCount hcount)
    dsimp only
    by_cases hlarge : buf.length < n + j
    · rw [if_pos hlarge, if_pos hlarge]
      -- What follows the probe only compares numbers.
      exact (ih o h j hj).bind fun _ _ => .refl _
    · rw [if_neg hlarge, if_neg hlarge]
      exact (decodeCopies_agree hderef (ih o h) n j hj).map _
  | array item length ih =>
    intro o h i hi
    rw [decodeWith_array, decodeWith_array]
    exact (decodeCopies_agree hderef (ih o h) length i hi).map _
  | tuple codecs ih =>
    intro o h i hi
    rw [decodeWith_tuple, decodeWith_tuple]
    exact (decodeTuple_agree hderef codecs (fun c hc => ih c hc o h) i hi).map _
  | option inner ih =>
    intro o h i hi
    rw [decodeWith_option, decodeWith_option]
    refine (Agree.refl _).bind ?_
    rintro ⟨tag, j⟩ htag
    dsimp only
    split
    · exact .refl _
    split
    · exact ih o h j (hi.trans (.of_readByte htag))
    · exact .refl _
  | result ok err ihok iherr =>
    intro o h i hi
    rw [decodeWith_result, decodeWith_result]
    refine (Agree.refl _).bind ?_
    rintro ⟨tag, j⟩ htag
    have hj := hi.trans (.of_readByte htag)
    dsimp only
    split
    · exact (ihok o h j hj).map _
    split
    · exact (iherr o h j hj).map _
    · exact .refl _
  | struct shape fields ih =>
    intro o h i hi
    rw [decodeWith_struct, decodeWith_struct]
    exact decodeRecord_agree hderef shape fields (fun f hf => ih f hf o h) i hi
  | enum base arms ih =>
    intro o h i hi
    rw [decodeWith_enum, decodeWith_enum]
    refine (Agree.refl _).bind ?_
    rintro ⟨tag, j⟩ htag
    dsimp only
    cases hfind : arms.find? fun arm => arm.1 == tag.toNat with
    | none => exact .refl _
    | some arm =>
      have harm := List.mem_of_find?_eq_some hfind
      exact decodeRecord_agree hderef arm.2.1 arm.2.2 (fun f hf => ih arm harm f hf o h) j
        (hi.trans (.of_readByte htag))
  | ref name =>
    intro o h i hi
    rw [decodeWith_ref, decodeWith_ref]
    exact h name i hi

end

/-! ## Decoding without fuel -/

section

variable (env : Environment) (buf : Bytes)

/-- With any amount of fuel following a name goes onward. Without fuel nothing
is read, and with more the name is decoded by its codec. -/
theorem derefFuel_onward (n : Nat) : ∀ name, EndsOnward buf (derefFuel env n name buf) := by
  induction n with
  | zero =>
    intro name o v e h
    simp [derefFuel] at h
  | succ n ih =>
    intro name o v e h
    simp only [derefFuel] at h
    cases hcodec : env.codec? name with
    | none => simp [hcodec] at h
    | some c =>
      rw [hcodec] at h
      exact decodeWith_onward ih c o v e h

/-- One step of following a name agrees if following agrees onward. -/
theorem derefFuel_succ_agree {excused : Prop} {bottom : DecodeError} {n m o : Nat}
    (h : ∀ name, AgreeOnward excused bottom buf o (derefFuel env n name buf) (derefFuel env m name buf))
    (name : String) :
    AgreeOnward excused bottom buf o (derefFuel env (n + 1) name buf) (derefFuel env (m + 1) name buf) := by
  intro i hi
  simp only [derefFuel]
  cases env.codec? name with
  | none => exact .refl _
  | some c => exact decodeWith_agree (derefFuel_onward env buf n) c o h i hi

/-- Less fuel approximates more fuel. -/
theorem derefFuel_approximates (n k o : Nat) (name : String) :
    AgreeOnward True (.endless env.declarations.length) buf o (derefFuel env n name buf)
      (derefFuel env (n + k) name buf) := by
  induction n generalizing name with
  | zero => exact fun i _ => .inr ⟨trivial, rfl⟩
  | succ n ih =>
    rw [Nat.add_right_comm]
    exact derefFuel_succ_agree env buf ih name

/-- A name that is not declared has no codec. -/
theorem codec?_eq_none {name : String} (h : name ∉ env.declarations.map (·.1)) : env.codec? name = none := by
  have hfind : env.declarations.find? (·.1 == name) = none := by
    rw [List.find?_eq_none]
    intro d hd heq
    exact h (List.mem_map.2 ⟨d, hd, by simpa using heq⟩)
  rw [Environment.codec?, hfind]
  rfl

/-- Decoding follows references to what is left of the buffer. The position is
the number of bytes that are left, and it never gets larger: decoding goes
onward. -/
theorem decode_following : Following (fun n name o => derefFuel env n name buf o)
    (.error (.endless env.declarations.length)) (env.declarations.map (·.1)) (fun o => buf.length - o) where
  keeps n name o := by
    rcases derefFuel_approximates env buf n 1 o name o (.inl rfl) with hsame | ⟨-, hbottom⟩
    · exact .inr hsame.symm
    · exact .inl hbottom
  steps n m o h name := by
    have hsame : ∀ name, AgreeOnward False (.endless 0) buf o (derefFuel env n name buf)
        (derefFuel env m name buf) := by
      intro name i hi
      -- Onward is where less of the buffer is left, or the same offset.
      refine .inl (h i ?_ name)
      unfold Onward at hi
      omega
    exact (derefFuel_succ_agree env buf hsame name o (.inl rfl)).resolve_right fun hfalse => hfalse.1
  others name hname n o := by
    simp only [derefFuel, codec?_eq_none env hname]

/-- Onward of an offset less of the buffer is left, so less fuel is enough. -/
theorem fuelFor_le {o i : Nat} (hi : Onward buf o i) : fuelFor env buf i ≤ fuelFor env buf o := by
  refine Nat.succ_le_succ (Nat.mul_le_mul_left _ ?_)
  unfold Onward at hi
  omega

/-- **More fuel than enough changes nothing,** also at offsets onward of the one
for which it is enough. -/
theorem derefFuel_settled {n o : Nat} (hn : fuelFor env buf o ≤ n) (name : String) {i : Nat}
    (hi : Onward buf o i) : derefFuel env n name buf i = derefFuel env (fuelFor env buf o) name buf i := by
  have hless := fuelFor_le env buf hi
  -- Fuel that is enough at `o` is enough onward of it, so both sides settle at `i`.
  have hsettled : ∀ m, fuelFor env buf o ≤ m →
      derefFuel env m name buf i = derefFuel env (fuelFor env buf i) name buf i := by
    intro m hm
    have hall := (decode_following env buf).settled i (n := m)
    rw [List.length_map] at hall
    exact hall (Nat.le_trans hless hm) name
  rw [hsettled n hn, hsettled _ (Nat.le_refl _)]

/-- **The fuel is enough.** -/
theorem decodeWith_fuel {n o : Nat} (hn : fuelFor env buf o ≤ n) (c : Codec) :
    decodeWith (derefFuel env n) c buf o = decodeFrom env c buf o := by
  have hsame : ∀ name, AgreeOnward False (.endless 0) buf o (derefFuel env n name buf)
      (derefFuel env (fuelFor env buf o) name buf) :=
    fun name i hi => .inl (derefFuel_settled env buf hn name hi)
  have hagree := decodeWith_agree (derefFuel_onward env buf n) c o hsame o (.inl rfl)
  exact hagree.resolve_right fun hfalse => hfalse.1

/-- **What some fuel decodes is decoded.** -/
theorem decodeFrom_of_fuel {n o : Nat} {c : Codec} {r : Value × Nat}
    (h : decodeWith (derefFuel env n) c buf o = .ok r) : decodeFrom env c buf o = .ok r := by
  have hagree := decodeWith_agree (derefFuel_onward env buf n) c o
    (fun name => derefFuel_approximates env buf n (fuelFor env buf o) o name) o (.inl rfl)
  rw [h, decodeWith_fuel env buf (Nat.le_add_left _ n)] at hagree
  rcases hagree with hsame | ⟨-, hbottom⟩
  · exact hsame.symm
  · cases hbottom

end

/-- How references are followed: by the declared codecs. -/
def follow (env : Environment) : Deref := fun name buf offset =>
  match env.codec? name with
  | some c => decodeFrom env c buf offset
  | none => .error (.undeclared name)

/-- **Decoding is its own next step.** The fuel of `decodeFrom` is enough for
one more level, so its outcome is that of one step whose references are followed
by decoding itself. No later proof speaks of fuel. -/
theorem decodeFrom_eq (env : Environment) (c : Codec) (buf : Bytes) (o : Nat) :
    decodeFrom env c buf o = decodeWith (follow env) c buf o := by
  rw [← decodeWith_fuel env buf (Nat.le_succ (fuelFor env buf o)) c]
  have hsame : ∀ name, AgreeOnward False (.endless 0) buf o
      (derefFuel env (fuelFor env buf o + 1) name buf) (follow env name buf) := by
    intro name i hi
    refine .inl ?_
    simp only [derefFuel, follow]
    cases env.codec? name with
    | none => rfl
    | some c' => exact decodeWith_fuel env buf (fuelFor_le env buf hi) c'
  have hagree := decodeWith_agree (derefFuel_onward env buf _) c o hsame o (.inl rfl)
  exact hagree.resolve_right fun hfalse => hfalse.1

/-! ## Values get less deep -/

/-- Whether a value is one where encoding `v` can get to. -/
def Inward (v x : Value) : Prop :=
  x = v ∨ x.depth < v.depth

/-- Going inward twice is going inward. -/
theorem Inward.trans {v x y : Value} (h₁ : Inward v x) (h₂ : Inward x y) : Inward v y := by
  rcases h₁ with rfl | h₁
  · exact h₂
  · rcases h₂ with rfl | h₂
    · exact .inr h₁
    · exact .inr (Nat.lt_trans h₂ h₁)

/-- An item is no deeper than all items. -/
theorem depth_le_depthOfItems {items : List Value} {x : Value} (h : x ∈ items) :
    x.depth ≤ Value.depthOfItems items := by
  induction items with
  | nil => cases h
  | cons v items ih =>
    rw [Value.depthOfItems]
    rcases List.mem_cons.1 h with rfl | h
    · exact Nat.le_max_left _ _
    · exact Nat.le_trans (ih h) (Nat.le_max_right _ _)

/-- An attribute is no deeper than all attributes. -/
theorem depth_le_depthOfAttributes {attributes : List (String × Value)} {a : String × Value}
    (h : a ∈ attributes) : a.2.depth ≤ Value.depthOfAttributes attributes := by
  induction attributes with
  | nil => cases h
  | cons b attributes ih =>
    rw [Value.depthOfAttributes]
    rcases List.mem_cons.1 h with rfl | h
    · exact Nat.le_max_left _ _
    · exact Nat.le_trans (ih h) (Nat.le_max_right _ _)

/-- An item is less deep than the value that has it. The depth of a value is by
one more than that of its deepest part. -/
theorem depth_lt_of_item {v x : Value} {items : List Value} (hv : v.items? = some items) (h : x ∈ items) :
    x.depth < v.depth := by
  have hle := depth_le_depthOfItems h
  cases v with
  | list items' =>
    cases hv
    rw [Value.depth]
    omega
  | tuple items' =>
    cases hv
    rw [Value.depth]
    omega
  | _ => cases hv

/-- An attribute is less deep than the instance that has it. -/
theorem depth_lt_of_attribute {cls name : String} {attributes : List (String × Value)} {x : Value}
    (h : attributeOf cls attributes name = .ok x) : x.depth < (Value.instance cls attributes).depth := by
  unfold attributeOf at h
  cases hfind : attributes.find? (·.1 == name) with
  | none => simp [hfind] at h
  | some a =>
    rw [hfind] at h
    cases h
    have hle := depth_le_depthOfAttributes (List.mem_of_find?_eq_some hfind)
    rw [Value.depth]
    omega

/-- Encoding gets from a value to its items. -/
theorem Inward.of_item {v x : Value} {items : List Value} (hv : v.items? = some items) (h : x ∈ items) :
    Inward v x :=
  .inr (depth_lt_of_item hv h)

/-- Encoding gets from an instance to its attributes. -/
theorem Inward.of_attribute {cls name : String} {attributes : List (String × Value)} {x : Value}
    (h : attributeOf cls attributes name = .ok x) : Inward (.instance cls attributes) x :=
  .inr (depth_lt_of_attribute h)

/-- Every value has a depth, so there is fuel for a first step. -/
theorem depth_pos (v : Value) : 0 < v.depth := by
  cases v <;> simp only [Value.depth] <;> omega

/-! ## Outcomes depend on references inward -/

/-- Whether two ways of encoding agree wherever encoding `v` can get to. -/
def AgreeInward (excused : Prop) (bottom : EncodeError) (v : Value)
    (encode encode' : Value → Except EncodeError Bytes) : Prop :=
  ∀ x, Inward v x → Agree excused bottom (encode x) (encode' x)

section

variable {deref deref' : EncodeDeref} {excused : Prop} {bottom : EncodeError}

/-- Parts that agree make encodings of tuples that agree. Every codec is asked
about every item, as the places do not matter for what is shown. -/
theorem encodeTuple_agree (codecs : List Codec) (items : List Value)
    (h : ∀ c ∈ codecs, ∀ x ∈ items, Agree excused bottom (encodeWith deref c x) (encodeWith deref' c x)) :
    Agree excused bottom (encodeTuple deref codecs items) (encodeTuple deref' codecs items) := by
  induction codecs generalizing items with
  | nil =>
    simp only [encodeTuple]
    exact .refl _
  | cons c codecs ih =>
    cases items with
    | nil =>
      simp only [encodeTuple]
      exact .refl _
    | cons x items =>
      rw [encodeTuple_cons, encodeTuple_cons]
      refine (h c List.mem_cons_self x List.mem_cons_self).bind fun head _ => ?_
      exact (ih items fun c' hc' y hy =>
        h c' (List.mem_cons_of_mem _ hc') y (List.mem_cons_of_mem _ hy)).map _

/-- Fields that agree on what lies inside of the instance make encodings of it
that agree. -/
theorem encodeFields_agree (fields : List (String × Codec)) (cls : String)
    (attributes : List (String × Value))
    (h : ∀ f ∈ fields, ∀ x, Inward (.instance cls attributes) x →
      Agree excused bottom (encodeWith deref f.2 x) (encodeWith deref' f.2 x)) :
    Agree excused bottom (encodeFields deref fields cls attributes)
      (encodeFields deref' fields cls attributes) := by
  induction fields with
  | nil =>
    simp only [encodeFields]
    exact .refl _
  | cons f fields ih =>
    obtain ⟨name, c⟩ := f
    rw [encodeFields_cons, encodeFields_cons]
    refine (Agree.refl _).bind fun x hx => ?_
    refine (h _ List.mem_cons_self x (.of_attribute hx)).bind fun head _ => ?_
    exact (ih fun f hf => h f (List.mem_cons_of_mem _ hf)).map _

/-- As in decoding, but here the items of a value lead inward and not the
offsets onward. -/
theorem encodeCopies_agree {item : Codec} {v x : Value} {items : List Value} (hx : Inward v x)
    (hitems : x.items? = some items)
    (h : AgreeInward excused bottom v (encodeWith deref item) (encodeWith deref' item)) (n : Nat) :
    Agree excused bottom (encodeTuple deref (List.replicate n item) items)
      (encodeTuple deref' (List.replicate n item) items) := by
  refine encodeTuple_agree _ _ fun c hc y hy => ?_
  rw [List.eq_of_mem_replicate hc]
  exact h y (hx.trans (.of_item hitems hy))

/-- **Outcomes depend on references inward.** If following references agrees
wherever encoding can get to, so does encoding. -/
theorem encodeWith_agree (c : Codec) :
    ∀ v, (∀ name, AgreeInward excused bottom v (deref name) (deref' name)) →
      AgreeInward excused bottom v (encodeWith deref c) (encodeWith deref' c) := by
  induction c using tree_induction with
  | leaf c hleaf =>
    intro v _ x _
    rw [encodeWith_leaf hleaf, encodeWith_leaf hleaf]
    exact .refl _
  | seq item ih =>
    intro v h x hx
    rw [encodeWith_seq, encodeWith_seq]
    refine (Agree.refl _).bind fun items hitems => (Agree.refl _).bind fun head _ => ?_
    exact (encodeCopies_agree hx (expectItems_ok_iff.1 hitems) (ih v h) _).map _
  | array item length ih =>
    intro v h x hx
    rw [encodeWith_array, encodeWith_array]
    refine (Agree.refl _).bind fun items hitems => ?_
    split
    · exact encodeCopies_agree hx (expectItems_ok_iff.1 hitems) (ih v h) _
    · exact .refl _
  | tuple codecs ih =>
    intro v h x hx
    simp only [encodeWith]
    refine (Agree.refl _).bind fun items hitems => ?_
    split
    · exact encodeTuple_agree _ _ fun c hc y hy =>
        ih c hc v h y (hx.trans (.of_item (expectItems_ok_iff.1 hitems) hy))
    · exact .refl _
  | option inner ih =>
    intro v h x hx
    -- Absence is written as one byte and asks no reference.
    by_cases hnone : x = .none
    · subst hnone
      simp only [encodeWith]
      exact .refl _
    · rw [encodeWith_option_some hnone, encodeWith_option_some hnone]
      exact (ih v h x hx).map _
  | result ok err ihok iherr =>
    intro v h x hx
    -- Outcomes are opened, so the value inside is less deep.
    have hinside : ∀ y, y.depth < x.depth → Inward v y := fun y hy => hx.trans (.inr hy)
    cases x with
    | ok y =>
      simp only [encodeWith]
      exact (ihok v h y (hinside y (by rw [Value.depth]; omega))).map _
    | err y =>
      simp only [encodeWith]
      exact (iherr v h y (hinside y (by rw [Value.depth]; omega))).map _
    | _ =>
      simp only [encodeWith]
      exact .refl _
  | struct shape fields ih =>
    intro v h x hx
    cases x with
    | «instance» cls attributes =>
      simp only [encodeWith]
      split
      · exact encodeFields_agree fields cls attributes fun f hf y hy => ih f hf v h y (hx.trans hy)
      · exact .refl _
    | _ =>
      simp only [encodeWith]
      exact .refl _
  | enum base arms ih =>
    intro v h x hx
    cases x with
    | «instance» cls attributes =>
      rw [encodeWith_enum, encodeWith_enum]
      cases harm : armOf? arms cls with
      | none => exact .refl _
      | some arm =>
        have hmem : arm ∈ arms := List.mem_reverse.1 (List.mem_of_find?_eq_some harm)
        exact (encodeFields_agree arm.2.2 cls attributes fun f hf y hy =>
          ih arm hmem f hf v h y (hx.trans hy)).map _
    | _ =>
      simp only [encodeWith]
      exact .refl _
  | ref name =>
    intro v h x hx
    simp only [encodeWith]
    exact h name x hx

end

/-! ## Encoding without fuel -/

section

variable (env : Environment)

/-- One step of following a name agrees if following agrees inward. -/
theorem encodeFuel_succ_agree {excused : Prop} {bottom : EncodeError} {n m : Nat} {v : Value}
    (h : ∀ name, AgreeInward excused bottom v (encodeFuel env n name) (encodeFuel env m name))
    (name : String) :
    AgreeInward excused bottom v (encodeFuel env (n + 1) name) (encodeFuel env (m + 1) name) := by
  intro x hx
  simp only [encodeFuel]
  cases env.codec? name with
  | none => exact .refl _
  | some c => exact encodeWith_agree c v h x hx

/-- Less fuel approximates more fuel. -/
theorem encodeFuel_approximates (n k : Nat) (v : Value) (name : String) :
    AgreeInward True (.endless env.declarations.length) v (encodeFuel env n name)
      (encodeFuel env (n + k) name) := by
  induction n generalizing name with
  | zero => exact fun x _ => .inr ⟨trivial, rfl⟩
  | succ n ih =>
    rw [Nat.add_right_comm]
    exact encodeFuel_succ_agree env ih name

/-- Encoding follows references to what is inside of a value. The position is
the depth of the value, which gets smaller with every class that is entered. -/
theorem encode_following : Following (encodeFuel env) (.error (.endless env.declarations.length))
    (env.declarations.map (·.1)) (fun v => v.depth - 1) where
  keeps n name v := by
    rcases encodeFuel_approximates env n 1 v name v (.inl rfl) with hsame | ⟨-, hbottom⟩
    · exact .inr hsame.symm
    · exact .inl hbottom
  steps n m v h name := by
    have hsame : ∀ name, AgreeInward False (.endless 0) v (encodeFuel env n name)
        (encodeFuel env m name) := by
      intro name x hx
      refine .inl (h x ?_ name)
      have hpos := depth_pos x
      exact hx.imp_right fun hdepth => by omega
    exact (encodeFuel_succ_agree env hsame name v (.inl rfl)).resolve_right fun hfalse => hfalse.1
  others name hname n v := by
    simp only [encodeFuel, codec?_eq_none env hname]

/-- Inside of a value less fuel is enough than for the value. -/
theorem encodeFuelFor_le {v x : Value} (hx : Inward v x) : encodeFuelFor env x ≤ encodeFuelFor env v := by
  refine Nat.succ_le_succ (Nat.mul_le_mul_left _ ?_)
  rcases hx with rfl | hdepth
  · exact Nat.le_refl _
  · exact Nat.le_of_lt hdepth

/-- **More fuel than enough changes nothing,** also inside of the value for
which it is enough. -/
theorem encodeFuel_settled {n : Nat} {v : Value} (hn : encodeFuelFor env v ≤ n) (name : String) {x : Value}
    (hx : Inward v x) : encodeFuel env n name x = encodeFuel env (encodeFuelFor env v) name x := by
  have hless := encodeFuelFor_le env hx
  have hsettled : ∀ m, encodeFuelFor env v ≤ m →
      encodeFuel env m name x = encodeFuel env (encodeFuelFor env x) name x := by
    intro m hm
    have hall := (encode_following env).settled x (n := m)
    rw [List.length_map, Nat.sub_add_cancel (depth_pos x)] at hall
    exact hall (Nat.le_trans hless hm) name
  rw [hsettled n hn, hsettled _ (Nat.le_refl _)]

/-- **The fuel is enough.** -/
theorem encodeWith_fuel {n : Nat} {v : Value} (hn : encodeFuelFor env v ≤ n) (c : Codec) :
    encodeWith (encodeFuel env n) c v = encode env c v := by
  have hsame : ∀ name, AgreeInward False (.endless 0) v (encodeFuel env n name)
      (encodeFuel env (encodeFuelFor env v) name) :=
    fun name x hx => .inl (encodeFuel_settled env hn name hx)
  exact (encodeWith_agree c v hsame v (.inl rfl)).resolve_right fun hfalse => hfalse.1

/-- **What some fuel encodes is encoded.** -/
theorem encode_of_fuel {n : Nat} {c : Codec} {v : Value} {bs : Bytes}
    (h : encodeWith (encodeFuel env n) c v = .ok bs) : encode env c v = .ok bs := by
  have hagree := encodeWith_agree c v
    (fun name => encodeFuel_approximates env n (encodeFuelFor env v) v name) v (.inl rfl)
  rw [h, encodeWith_fuel env (Nat.le_add_left _ n)] at hagree
  rcases hagree with hsame | ⟨-, hbottom⟩
  · exact hsame.symm
  · cases hbottom

end

/-- How references are followed: by the declared codecs. -/
def followEncode (env : Environment) : EncodeDeref := fun name v =>
  match env.codec? name with
  | some c => encode env c v
  | none => .error (.undeclared name)

/-- **Encoding is its own next step.** -/
theorem encode_eq (env : Environment) (c : Codec) (v : Value) :
    encode env c v = encodeWith (followEncode env) c v := by
  rw [← encodeWith_fuel env (Nat.le_succ (encodeFuelFor env v)) c]
  have hsame : ∀ name, AgreeInward False (.endless 0) v
      (encodeFuel env (encodeFuelFor env v + 1) name) (followEncode env name) := by
    intro name x hx
    refine .inl ?_
    simp only [encodeFuel, followEncode]
    cases env.codec? name with
    | none => rfl
    | some c' => exact encodeWith_fuel env (encodeFuelFor_le env hx) c'
  exact (encodeWith_agree c v hsame v (.inl rfl)).resolve_right fun hfalse => hfalse.1

end ContractClient.Codec
