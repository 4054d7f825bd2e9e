/-
What a mapper answers.

Asked about a type of the registry, a mapper comes to an end from any stack,
with the same stack and with what spelling gives below the path that the stack
is. This is an induction along spelling, which has a reason to end that mapping
has not: as long as the stack is what it was after every answer, the stack is
the path. So the two say of each step the same, `Leaves` keeps track of the
stack, and one lemma for each kind of step is all that is needed. Questions are
nested no deeper than there are types off the path.

It is shown once for hints and codecs. They differ in one place, where a codec
asks what a compact type wraps.
-/
import ContractClient.Client.TypeMapper
import ContractClient.Proofs.Client.Expansion

set_option autoImplicit false

namespace ContractClient

open Relation

/-! ## Mappings that leave the stack alone -/

section

variable {α β : Type} {active : List TypeId}

/-- Whether a mapping comes to an end with an answer and leaves the stack as it
was. -/
def Leaves (run : Mapping α) (active : List TypeId) (answer : Except MapError α) : Prop :=
  run.run.run active = some (answer, active)

namespace Leaves

/-- An answer at once leaves the stack alone. -/
theorem pure (a : α) : Leaves (Pure.pure a) active (.ok a) := rfl

/-- What is only looked up leaves the stack alone. -/
theorem lift (x : Except MapError α) : Leaves (liftM x) active x := by
  cases x <;> rfl

/-- A mapping comes to one answer. -/
theorem unique {run : Mapping α} {answer answer' : Except MapError α} (h : Leaves run active answer)
    (h' : Leaves run active answer') : answer = answer' :=
  congrArg Prod.fst (Option.some.inj (h.symm.trans h'))

/-- What is found is used. -/
theorem lift_bind {x : Except MapError α} {a : α} (hx : x = .ok a) {next : α → Mapping β} {answer : Except MapError β}
    (h : Leaves (next a) active answer) : Leaves (liftM x >>= next) active answer := by
  subst hx
  exact h

/-- What is asked and then used leaves the stack alone if both steps do. The
answer of the first step is all that the second one depends on. -/
theorem bind {run : Mapping α} {answer : Except MapError α} {next : α → Mapping β} {rest : α → Except MapError β}
    (h : Leaves run active answer) (hnext : ∀ a, answer = .ok a → Leaves (next a) active (rest a)) :
    Leaves (run >>= next) active (answer >>= rest) := by
  unfold Leaves at *
  rw [ExceptT.run_bind, StateT.run_bind, h]
  cases answer with
  | error e => rfl
  | ok a => exact hnext a rfl

/-- So does asking for each of several types in turn. -/
theorem mapM {f : α → Mapping β} {g : α → Except MapError β} {as : List α}
    (h : ∀ a ∈ as, Leaves (f a) active (g a)) : Leaves (as.mapM f) active (as.mapM g) := by
  induction as with
  | nil => exact pure []
  | cons a rest ih =>
    obtain ⟨ha, hrest⟩ := List.forall_mem_cons.1 h
    rw [List.mapM_cons, List.mapM_cons]
    exact ha.bind fun b _ => (ih hrest).bind fun bs _ => pure (b :: bs)

/-- **The guard** takes off the stack what it put there. -/
theorem guarded {id : TypeId} {run : Mapping String} {answer : Except MapError String} (hid : id ∉ active)
    (h : Leaves run (active ++ [id]) answer) : Leaves (guarded id run) active answer := by
  unfold Leaves at *
  have hfree : ¬ active.contains id = true := by simpa using hid
  have hpop : (active ++ [id]).dropLast = active := List.dropLast_concat
  -- The type is taken off after an error just as after an answer, so there is nothing to
  -- tell apart.
  simp only [ContractClient.guarded, ExceptT.run, ExceptT.mk, StateT.run_bind, StateT.run_get, StateT.run_set,
    StateT.run_modify, StateT.run_pure, Option.pure_def, Option.bind_eq_bind, Option.bind_some, if_neg hfree] at h ⊢
  rw [h, Option.bind_some, hpop]

/-- A type that is on the stack is refused. -/
theorem refused {id : TypeId} {run : Mapping String} (hid : id ∈ active) :
    Leaves (ContractClient.guarded id run) active (.error (.recursive id (active.dropWhile (· != id) ++ [id]))) := by
  have hcontains : active.contains id = true := by simpa using hid
  unfold Leaves
  simp only [ContractClient.guarded, ExceptT.run, ExceptT.mk, StateT.run_bind, StateT.run_get, StateT.run_pure,
    Option.pure_def, Option.bind_eq_bind, Option.bind_some, if_pos hcontains]

end Leaves

end

/-! ## Looking types up -/

namespace Registry

variable {r : Registry} {id : TypeId} {e : Entry}

/-- A type that is there is looked up. -/
theorem get_of_entry (he : r.entry? id = some e) : r.get id = .ok e := by
  rw [get, he]

/-- Whether a type is a byte is looked up, where it is there. The question fails
for types that are not there, which a resolved registry does not have. -/
theorem getIsByte_eq (hpresent : ∃ e, r.entry? id = some e) : r.getIsByte id = .ok (r.isByte id) := by
  obtain ⟨e, he⟩ := hpresent
  rw [getIsByte, get_of_entry he, isByte, definition?_of_entry he rfl]
  rfl

/-- Whether fields are thirty-two bytes is looked up, under the same
condition. -/
theorem getIsBytes32_eq (hclosed : r.Closed) {fields : List Field}
    (hpresent : ∀ f ∈ fields, ∃ e, r.entry? f.typeId = some e) : r.getIsBytes32 fields = .ok (r.isBytes32 fields) := by
  rcases fields with _ | ⟨f, _ | ⟨g, rest⟩⟩
  · rfl
  · obtain ⟨e, he⟩ := hpresent f (List.mem_singleton_self f)
    have hitem : ∀ item, e.definition = .array item 32 → r.getIsByte item = .ok (r.isByte item) := by
      intro item hdef
      refine getIsByte_eq (hclosed.present_of_entry he ?_)
      rw [hdef]
      exact List.mem_singleton_self item
    simp only [getIsBytes32, isBytes32, get_of_entry he, definition?_of_entry he rfl, bind, Except.bind]
    split
    next item hdef =>
      rw [hitem item hdef, hdef]
      rfl
    next hne =>
      split
      next item hdef => exact (hne item (Option.some.inj hdef)).elim
      · rfl
  · rfl

/-- **Shapes are recognized** by looking up what is there. A mapper looks at the
fields of a composite through the registry and could find a type missing; in a
closed registry it does not, and comes to the same answer as `wellKnown?`. -/
theorem getWellKnown_eq (hclosed : r.Closed) (he : r.entry? id = some e) :
    r.getWellKnown id = .ok (r.wellKnown? e) := by
  simp only [getWellKnown, get_of_entry he, wellKnown?, bind, Except.bind]
  cases hdef : e.definition with
  | variant arms =>
    dsimp only
    split
    · rfl
    · split <;> rfl
  | composite fields =>
    have hbytes : r.getIsBytes32 fields = .ok (r.isBytes32 fields) := by
      refine getIsBytes32_eq hclosed fun f hf => hclosed.present_of_entry he ?_
      rw [hdef]
      exact List.mem_map_of_mem hf
    dsimp only
    rw [hbytes]
    -- The crate decides first; then the last part of the path, of which two are known.
    by_cases hcrate : (decide (2 ≤ e.path.length) && knownCrates.contains (e.path.headD "")) = true
    · rw [if_pos hcrate, hcrate, Bool.true_and]
      by_cases hacc : e.path.getLast? = some "AccountId"
      · rw [if_pos hacc, hacc]
        rfl
      by_cases hhash : e.path.getLast? = some "Hash"
      · rw [if_neg hacc, if_pos hhash, hhash]
        rfl
      rw [if_neg hacc, if_neg hhash]
      split
      · split
        next hlast => exact (hacc hlast).elim
        next hlast => exact (hhash hlast).elim
        · rfl
      · rfl
    · rw [if_neg hcrate, Bool.eq_false_iff.2 hcrate, Bool.false_and, if_neg Bool.false_ne_true]
      rfl
  | _ => rfl

/-- The payload of a known arm is found. -/
theorem getArm_of_armType (he : r.entry? id = some e) {name : String} {inner : TypeId}
    (h : e.definition.armType? name = some inner) : r.getArm id name = .ok inner := by
  simp only [getArm, get_of_entry he, bind, Except.bind, h]
  rfl

end Registry

/-! ## What answers are made of -/

/-- Whether the pieces of answers make up the text of a type that is spelled. -/
structure Fragments.Renders (F : Fragments) (r : Registry) (text : TypeExpr → String) : Prop where
  named : ∀ name, F.named name = text (.named name)
  newtype : ∀ kind, F.newtype kind = text (.newtype kind)
  primitive : ∀ kind, F.primitive kind = text (.primitive kind)
  compact : ∀ inner width, r.definition? inner = some (.primitive (.unsigned width)) →
    F.compact r inner = .ok (text (.compact width))
  bytes : F.bytes = text .bytes
  fixedBytes : ∀ length, F.fixedBytes length = text (.fixedBytes length)
  seq : ∀ t, F.seq (text t) = text (.seq t)
  array : ∀ t length, F.array (text t) length = text (.array t length)
  tuple : ∀ ts, F.tuple (ts.map text) = text (.tuple ts)
  option : ∀ t, F.option (text t) = text (.option t)
  result : ∀ s t, F.result (text s) (text t) = text (.result s t)

/-- The texts of several hints are those of each. -/
theorem TypeHint.texts_eq_map (hints : List TypeHint) : TypeHint.texts hints = hints.map TypeHint.text := by
  induction hints with
  | nil => rfl
  | cons hint rest ih => rw [TypeHint.texts, List.map_cons, ih]

/-- The texts of several expressions are those of each. -/
theorem CodecExpr.texts_eq_map (es : List CodecExpr) : CodecExpr.texts es = es.map CodecExpr.text := by
  induction es with
  | nil => rfl
  | cons e rest ih => exact congrArg (e.text :: ·) ih

/-- Hints are made of the pieces that a mapper puts together for them. -/
theorem hints_renders (r : Registry) : Fragments.hints.Renders r fun t => t.hint.text where
  named _ := rfl
  newtype _ := rfl
  primitive _ := rfl
  compact _ _ _ := rfl
  bytes := rfl
  fixedBytes _ := rfl
  seq _ := rfl
  array _ _ := rfl
  tuple ts := by
    cases ts with
    | nil => rfl
    | cons t rest =>
      have htexts : (t :: rest).map (fun t => t.hint.text) = TypeHint.texts (TypeExpr.hints (t :: rest)) := by
        rw [TypeExpr.hints_eq_map, TypeHint.texts_eq_map, List.map_map]
        rfl
      exact congrArg (fun texts => "Tuple[" ++ ", ".intercalate texts ++ "]") htexts
  option _ := rfl
  result _ _ := rfl

/-- Codecs are made of the pieces that a mapper puts together for them. A
compact type is the one case in which a look at another type is needed. -/
theorem codecs_renders (r : Registry) (lazy : Bool) :
    (Fragments.codecs lazy).Renders r fun t => (t.codecExpr lazy).text where
  named name := by cases lazy <;> rfl
  newtype _ := rfl
  primitive _ := rfl
  compact inner width h := by
    obtain ⟨e, he, hdef⟩ := Option.map_eq_some_iff.1 h
    simp only [Fragments.codecs, Registry.get_of_entry he, bind, Except.bind, hdef]
    rfl
  bytes := rfl
  fixedBytes _ := rfl
  seq _ := rfl
  array _ _ := rfl
  tuple ts := by
    cases ts with
    | nil => rfl
    | cons t rest =>
      have htexts : (t :: rest).map (fun t => (t.codecExpr lazy).text) =
          CodecExpr.texts (TypeExpr.codecExprs lazy (t :: rest)) := by
        rw [TypeExpr.codecExprs_eq_map, CodecExpr.texts_eq_map, List.map_map]
        rfl
      exact congrArg (fun texts => "scale.Tuple((" ++ ", ".intercalate texts ++ ",))") htexts
  option _ := rfl
  result _ _ := rfl

/-! ## What is spelled, in the words of a mapper -/

/-- A refusal to spell, as a mapper reports it. -/
def MapError.ofSpell : SpellError → MapError
  | .unknown id => .missing id
  | .undeclared id => .undeclared id
  | .recursive id cycle => .recursive id cycle

/-- What a mapper says where spelling comes to an expression or a refusal. -/
def spelledText (text : TypeExpr → String) (spelled : Except SpellError TypeExpr) : Except MapError String :=
  (spelled.mapError .ofSpell).map text

section

variable {text : TypeExpr → String} {x y : Except SpellError TypeExpr}

/-- What is made of one type is made in words as in expressions. -/
theorem spelledText_bind {f : TypeExpr → TypeExpr} {g : String → String} (hg : ∀ t, g (text t) = text (f t)) :
    (spelledText text x >>= fun s => Except.ok (g s)) = spelledText text (do return f (← x)) := by
  cases x with
  | error e => rfl
  | ok t => exact congrArg Except.ok (hg t)

/-- The same for what is made of two types: the first refusal counts on both
sides. -/
theorem spelledText_bind₂ {f : TypeExpr → TypeExpr → TypeExpr} {g : String → String → String}
    (hg : ∀ s t, g (text s) (text t) = text (f s t)) :
    (do
      let s ← spelledText text x
      let t ← spelledText text y
      Except.ok (g s t)) =
    spelledText text (do
      let s ← x
      let t ← y
      return f s t) := by
  cases x with
  | error e => rfl
  | ok s =>
    cases y with
    | error e => rfl
    | ok t => exact congrArg Except.ok (hg s t)

/-- The first refusal counts for a list of types, on both sides. -/
theorem mapM_spelledText (f : TypeId → Except SpellError TypeExpr) (ids : List TypeId) :
    ids.mapM (fun id => spelledText text (f id)) = ((ids.mapM f).mapError .ofSpell).map (List.map text) := by
  induction ids with
  | nil => rfl
  | cons id rest ih =>
    rw [List.mapM_cons, List.mapM_cons, ih]
    cases f id with
    | error e => rfl
    | ok t => cases rest.mapM f <;> rfl

/-- The first refusal counts for the tuple that is made of a list of types. -/
theorem spelledText_mapM {f : TypeId → Except SpellError TypeExpr} {ids : List TypeId}
    {g : List String → String} (hg : ∀ ts, g (ts.map text) = text (.tuple ts)) :
    ((ids.mapM fun id => spelledText text (f id)) >>= fun ss => Except.ok (g ss)) =
      spelledText text (do return .tuple (← ids.mapM f)) := by
  rw [mapM_spelledText]
  cases ids.mapM f with
  | error e => rfl
  | ok ts => exact congrArg Except.ok (hg ts)

end

/-! ## Mapping -/

/-- What is done inside of a type is done one type further down the path. -/
theorem Leaves.inside {path : List TypeId} {id : TypeId} {run : Mapping String} {answer : Except MapError String}
    (hid : ¬ path.contains id = true) (h : Leaves run (id :: path).reverse answer) :
    Leaves (ContractClient.guarded id run) path.reverse answer := by
  rw [List.reverse_cons] at h
  exact .guarded (by simpa using hid) h

namespace Registry

variable {r : Registry} {names : TypeNames}

section

variable (F : Fragments) {path : List TypeId} {id : TypeId} {e : Entry} {depth : Nat} {answer : Except MapError String}

/-- Inside of a type without a name, its shape decides. What is off the path
gets less there, and so may the depth. -/
theorem leaves_of_shape (hclosed : r.Closed) (hn : ¬ path.contains id = true) (hname : names.find? id = none)
    (he : r.entry? id = some e) (hdepth : r.offPath path < depth)
    (h : ∀ d, r.offPath (id :: path) < d →
      Leaves (r.mapShape F (r.mapType names F d) id (r.wellKnown? e)) (id :: path).reverse answer) :
    Leaves (r.mapType names F depth id) path.reverse answer := by
  obtain ⟨d, rfl⟩ := Nat.exists_eq_succ_of_ne_zero (Nat.ne_zero_of_lt hdepth)
  rw [mapType]
  refine .inside hn ?_
  simp only [hname]
  exact .lift_bind (getWellKnown_eq hclosed he) (h d (Nat.lt_of_lt_of_le (offPath_lt he hn) (Nat.le_of_lt_succ hdepth)))

/-- Without a known shape, the definition decides. -/
theorem leaves_of_definition (hclosed : r.Closed) (hn : ¬ path.contains id = true) (hname : names.find? id = none)
    (he : r.entry? id = some e) (hknown : r.wellKnown? e = none) (hdepth : r.offPath path < depth)
    (h : ∀ d, r.offPath (id :: path) < d →
      Leaves (r.mapDefinition F (r.mapType names F d) id e.definition) (id :: path).reverse answer) :
    Leaves (r.mapType names F depth id) path.reverse answer := by
  refine leaves_of_shape F hclosed hn hname he hdepth fun d hd => ?_
  rw [hknown, mapShape]
  exact .lift_bind (get_of_entry he) (h d hd)

end

/-- **A mapper says what is spelled** below the path that its stack is, and
leaves the stack as it was. The induction follows `spellBelow`: where spelling
goes on below a longer path, the mapper has pushed the type, and its depth has
gone down by one as there is one type less off the path. The two last cases are
where a registry without names would fail; `Covers` rules them out. -/
theorem mapType_leaves (hclosed : r.Closed) (hcovers : r.Covers names) {F : Fragments} {text : TypeExpr → String}
    (hF : F.Renders r text) (path : List TypeId) {id : TypeId} (hpresent : ∃ e, r.entry? id = some e) {depth : Nat}
    (hdepth : r.offPath path < depth) :
    Leaves (r.mapType names F depth id) path.reverse (spelledText text (r.spellBelow names path id)) := by
  -- Along spelling, one case for each way out of it. The depth is left free, as it goes
  -- down with what is off the path.
  fun_induction Registry.spellBelow r names path id generalizing depth with
  | case1 path id hn =>
    obtain ⟨d, rfl⟩ := Nat.exists_eq_succ_of_ne_zero (Nat.ne_zero_of_lt hdepth)
    rw [mapType]
    exact .refused (by simpa using hn)
  | case2 path id hn name hname =>
    obtain ⟨d, rfl⟩ := Nat.exists_eq_succ_of_ne_zero (Nat.ne_zero_of_lt hdepth)
    rw [mapType]
    refine .inside hn ?_
    simp only [hname, hF.named]
    exact .pure _
  | case3 path id hn hname hnone =>
    obtain ⟨e, he⟩ := hpresent
    cases hnone.symm.trans he
  | case4 path id hn hname e he hknown =>
    refine leaves_of_shape F hclosed hn hname he hdepth fun d hd => ?_
    rw [hknown, mapShape, hF.newtype]
    exact .pure _
  | case5 path id hn hname e he hknown =>
    refine leaves_of_shape F hclosed hn hname he hdepth fun d hd => ?_
    rw [hknown, mapShape, hF.newtype]
    exact .pure _
  | case6 path id hn hname e he hknown inner hinner ih =>
    have hchild := hclosed.present_of_entry he (mem_references_of_armType hinner)
    refine leaves_of_shape F hclosed hn hname he hdepth fun d hd => ?_
    rw [hknown, mapShape, ← spelledText_bind hF.option]
    exact .lift_bind (getArm_of_armType he hinner) ((ih hchild hd).bind fun s _ => .pure (F.option s))
  | case7 path id hn hname e he hknown hnone =>
    -- No arm is missing from a known shape.
    obtain ⟨inner, hinner⟩ := exists_armType_option hknown
    cases hnone.symm.trans hinner
  | case8 path id hn hname e he hknown ok err herr hok ihok iherr =>
    have hgood := hclosed.present_of_entry he (mem_references_of_armType hok)
    have hbad := hclosed.present_of_entry he (mem_references_of_armType herr)
    refine leaves_of_shape F hclosed hn hname he hdepth fun d hd => ?_
    rw [hknown, mapShape, ← spelledText_bind₂ hF.result]
    refine .lift_bind (getArm_of_armType he hok) ((ihok hgood hd).bind fun s _ => ?_)
    exact .lift_bind (getArm_of_armType he herr) ((iherr hbad hd).bind fun t _ => .pure (F.result s t))
  | case9 path id hn hname e he hknown hnone =>
    obtain ⟨ok, err, hok, herr⟩ := exists_armTypes_result hknown
    exact (hnone ok err hok herr).elim
  | case10 path id hn hname e he hknown kind hdef =>
    refine leaves_of_definition F hclosed hn hname he hknown hdepth fun d hd => ?_
    rw [hdef, mapDefinition, hF.primitive]
    exact .pure _
  | case11 path id hn hname e he hknown inner hdef width hinner =>
    refine leaves_of_definition F hclosed hn hname he hknown hdepth fun d hd => ?_
    rw [hdef, mapDefinition, hF.compact inner width hinner]
    exact .lift _
  | case12 path id hn hname e he hknown inner hdef hwidth =>
    -- What a compact type wraps was checked when the registry was resolved.
    obtain ⟨width, hinner⟩ := hclosed.compact id inner (definition?_of_entry he hdef)
    exact (hwidth width hinner).elim
  | case13 path id hn hname e he hknown item hdef hbyte =>
    have hmem : item ∈ e.definition.references := by simp [hdef, TypeDef.references]
    have hchild := hclosed.present_of_entry he hmem
    refine leaves_of_definition F hclosed hn hname he hknown hdepth fun d hd => ?_
    rw [hdef, mapDefinition, hF.bytes]
    refine .lift_bind (getIsByte_eq hchild) ?_
    rw [if_pos hbyte]
    exact .pure _
  | case14 path id hn hname e he hknown item hdef hbyte ih =>
    have hmem : item ∈ e.definition.references := by simp [hdef, TypeDef.references]
    have hchild := hclosed.present_of_entry he hmem
    refine leaves_of_definition F hclosed hn hname he hknown hdepth fun d hd => ?_
    rw [hdef, mapDefinition, ← spelledText_bind hF.seq]
    refine .lift_bind (getIsByte_eq hchild) ?_
    rw [if_neg hbyte]
    exact (ih hchild hd).bind fun s _ => .pure (F.seq s)
  | case15 path id hn hname e he hknown item length hdef hbyte =>
    have hmem : item ∈ e.definition.references := by simp [hdef, TypeDef.references]
    have hchild := hclosed.present_of_entry he hmem
    refine leaves_of_definition F hclosed hn hname he hknown hdepth fun d hd => ?_
    rw [hdef, mapDefinition, hF.fixedBytes]
    refine .lift_bind (getIsByte_eq hchild) ?_
    rw [if_pos hbyte]
    exact .pure _
  | case16 path id hn hname e he hknown item length hdef hbyte ih =>
    have hmem : item ∈ e.definition.references := by simp [hdef, TypeDef.references]
    have hchild := hclosed.present_of_entry he hmem
    refine leaves_of_definition F hclosed hn hname he hknown hdepth fun d hd => ?_
    rw [hdef, mapDefinition, ← spelledText_bind (g := (F.array · length)) fun t => hF.array t length]
    refine .lift_bind (getIsByte_eq hchild) ?_
    rw [if_neg hbyte]
    exact (ih hchild hd).bind fun s _ => .pure (F.array s length)
  | case17 path id hn hname e he hknown items hdef ih =>
    refine leaves_of_definition F hclosed hn hname he hknown hdepth fun d hd => ?_
    rw [hdef, mapDefinition, ← spelledText_mapM hF.tuple]
    refine (Leaves.mapM fun item hitem => ih item ?_ hd).bind fun ss _ => .pure (F.tuple ss)
    exact hclosed.present_of_entry he (by simp [hdef, TypeDef.references, hitem])
  | case18 path id hn hname e he hknown fields hdef =>
    -- What has to be declared has a name or is known, so the last two cases are none.
    exact (hcovers.known hname he (by rw [hdef]; rfl) hknown).elim
  | case19 path id hn hname e he hknown arms hdef =>
    exact (hcovers.known hname he (by rw [hdef]; rfl) hknown).elim

/-! ## Questions -/

end Registry

/-- The pieces of the answer to a question. -/
def MapRequest.fragments : MapRequest → Fragments
  | .hint _ => .hints
  | .codec lazy _ => .codecs lazy

/-- What is answered about a type that is spelled. -/
def MapRequest.text : MapRequest → TypeExpr → String
  | .hint _, t => t.hint.text
  | .codec lazy _, t => (t.codecExpr lazy).text

/-- The pieces of an answer make up its text, for hints and for codecs. -/
theorem MapRequest.renders (request : MapRequest) (r : Registry) : request.fragments.Renders r request.text := by
  cases request with
  | hint id => exact hints_renders r
  | codec lazy id => exact codecs_renders r lazy

/-- Both questions are answered by one mapping, with different pieces. -/
theorem MapRequest.run_eq (request : MapRequest) (r : Registry) (names : TypeNames) (depth : Nat) :
    request.run r names depth = r.mapType names request.fragments depth request.id := by
  cases request <;> rfl

/-- Whether a mapper comes to an end with an answer to a question, and leaves
its stack as it was. There is no need to nest questions deeper than there are
types, so no greater depth makes a difference. -/
def MapRequest.EndsWith (request : MapRequest) (r : Registry) (names : TypeNames) (active : List TypeId)
    (answer : Except MapError String) : Prop :=
  ∀ depth, r.entries.length < depth → Leaves (request.run r names depth) active answer

namespace Registry

variable (r : Registry) (names : TypeNames) (active : List TypeId) (id : TypeId)

/-- Whether a mapper with a stack answers all questions about a type as an
expression says. -/
def Answers (t : TypeExpr) : Prop :=
  ∀ request : MapRequest, request.id = id → request.EndsWith r names active (.ok (request.text t))

/-- Whether a mapper with a stack refuses all questions about a type because of
a cycle. -/
def Refuses (x : TypeId) (cycle : List TypeId) : Prop :=
  ∀ request : MapRequest, request.id = id → request.EndsWith r names active (.error (.recursive x cycle))

end Registry

section

variable {m : Metadata} {r : Registry} {names : TypeNames}

/-- **Every question is answered** from any stack. -/
theorem request_endsWith (hresolve : m.resolve = .ok r) (hcovers : r.Covers names) (active : List TypeId)
    (request : MapRequest) (hid : m.Reachable request.id) :
    request.EndsWith r names active (spelledText request.text (r.spellBelow names active.reverse request.id)) := by
  intro depth hdepth
  have hoff : r.offPath active.reverse < depth := Nat.lt_of_le_of_lt List.countP_le_length hdepth
  have h := Registry.mapType_leaves (closed_of_resolve hresolve) hcovers (request.renders r)
    active.reverse (entry?_of_reachable hresolve hid) hoff
  rwa [List.reverse_reverse, ← request.run_eq] at h

/-- Where spelling comes to an expression, all questions about the type are
answered as it says. -/
theorem answers_of_spellBelow (hresolve : m.resolve = .ok r) (hcovers : r.Covers names) {active : List TypeId}
    {id : TypeId} (hid : m.Reachable id) {t : TypeExpr} (h : r.spellBelow names active.reverse id = .ok t) :
    r.Answers names active id t := by
  rintro request rfl
  have hends := request_endsWith hresolve hcovers active request hid
  rwa [h] at hends

/-- Where spelling meets a type again, all questions about the type are refused
with the same cycle. -/
theorem refuses_of_spellBelow (hresolve : m.resolve = .ok r) (hcovers : r.Covers names) {active : List TypeId}
    {id : TypeId} (hid : m.Reachable id) {x : TypeId} {cycle : List TypeId}
    (h : r.spellBelow names active.reverse id = .error (.recursive x cycle)) :
    r.Refuses names active id x cycle := by
  rintro request rfl
  have hends := request_endsWith hresolve hcovers active request hid
  rwa [h] at hends

/-- There are no refusals but those of a type that is met again, whatever the
path. -/
theorem spellBelow_refused (hresolve : m.resolve = .ok r) (hcovers : r.Covers names) {path : List TypeId}
    {id : TypeId} (hid : m.Reachable id) :
    FailsAs (fun err => ∃ x cycle, err = .recursive x cycle) (r.spellBelow names path id) :=
  Registry.spellBelow_failsAs (closed_of_resolve hresolve) hcovers (P := fun _ _ => True) (fun _ _ _ _ _ => trivial)
    (fun _ _ _ _ => ⟨_, _, rfl⟩) trivial (entry?_of_reachable hresolve hid)

/-- One question after another, each is answered as if it were the first one.
The stack is left as it was by each answer, and that is all that the next one
could depend on. -/
theorem mapAll_run {requests : List MapRequest} {active : List TypeId} {answer : MapRequest → Except MapError String}
    (h : ∀ request ∈ requests, request.EndsWith r names active (answer request)) {depth : Nat}
    (hdepth : r.entries.length < depth) :
    (r.mapAll names depth requests).run active = some (requests.map answer, active) := by
  unfold Registry.mapAll
  -- Each question finds the stack that the first one found, so the induction needs no
  -- other stacks.
  induction requests with
  | nil => rfl
  | cons request rest ih =>
    obtain ⟨hfirst, hrest⟩ := List.forall_mem_cons.1 h
    have hleaves := hfirst depth hdepth
    unfold Leaves at hleaves
    rw [List.mapM_cons, StateT.run_bind, hleaves]
    simp only [Option.bind_eq_bind, Option.bind_some, StateT.run_bind, ih hrest]
    rfl

/-- **The names of a client cover** its types: what has to be declared, and is
not of a known shape, has a name. The names are handed out for what resolving
has put in the order of declarations. -/
theorem covers_moduleNames (hresolve : m.resolve = .ok r) {u : CompilationUnit} (hu : u.registry = r)
    (handle : String) : r.Covers (u.moduleNames handle).types := by
  subst hu
  intro id e he hdeclaration
  by_cases hknown : u.registry.wellKnown? e = none
  case neg => exact .inr hknown
  case pos =>
    refine .inl (exists_name handle (List.mem_filter.2 ⟨?_, ?_⟩))
    · refine ((Metadata.resolvesTo_of_resolve hresolve).declared id).2 ⟨reachable_of_entry hresolve he, ?_⟩
      rw [Metadata.isDeclaration_of_entry (entry?_of_resolve hresolve he)]
      exact hdeclaration
    · rw [he]
      exact Option.isNone_iff_eq_none.2 hknown

/-- **Mappers come to an end**, with answers or refusals of all questions about
a type. The names of a client cover its types, and wherever types are covered a
fresh mapper answers what is spelled if expanding the type does not come back to
a type on the way, and else refuses with a cycle that expanding it comes to.
There are no other refusals from other stacks either. The stack is left as it
was, so one mapper answers any sequence of questions as fresh mappers do. -/
theorem mapper_settled (hresolve : m.resolve = .ok r) :
    (∀ (u : CompilationUnit) (handle : String), u.registry = r → r.Covers (u.moduleNames handle).types) ∧
    ∀ names, r.Covers names →
      (∀ id, m.Reachable id →
        (¬ r.Loops names id ∧ ∃ t, r.spell names id = .ok t ∧ r.Answers names [] id t) ∨
        (r.Loops names id ∧ ∃ x cycle, r.spell names id = .error (.recursive x cycle) ∧ r.Refuses names [] id x cycle ∧
          r.ExpansionCycle names x cycle ∧ ReflTransGen (r.ExpandsTo names) id x)) ∧
      (∀ active id, m.Reachable id →
        (∃ t, r.Answers names active id t) ∨ ∃ x cycle, r.Refuses names active id x cycle) ∧
      ∀ requests : List MapRequest, (∀ request ∈ requests, m.Reachable request.id) →
        ∃ answers, (∀ depth, r.entries.length < depth → (r.mapAll names depth requests).run [] = some (answers, [])) ∧
          List.Forall₂ (fun request answer => request.EndsWith r names [] answer) requests answers := by
  refine ⟨fun u handle hu => covers_moduleNames hresolve hu handle, fun names hcovers => ⟨?_, ?_, ?_⟩⟩
  case refine_1 =>
    intro id hid
    rcases Registry.spell_cases (closed_of_resolve hresolve) hcovers (entry?_of_reachable hresolve hid) with
      ⟨hends, t, ht⟩ | ⟨hloops, err, herr, x, cycle, rfl, hcycle, hreach⟩
    · exact .inl ⟨hends, t, ht, answers_of_spellBelow hresolve hcovers hid ht⟩
    · exact .inr ⟨hloops, x, cycle, herr, refuses_of_spellBelow hresolve hcovers hid herr, hcycle, hreach⟩
  case refine_2 =>
    intro active id hid
    cases hspell : r.spellBelow names active.reverse id with
    | ok t => exact .inl ⟨t, answers_of_spellBelow hresolve hcovers hid hspell⟩
    | error err =>
      obtain ⟨x, cycle, rfl⟩ := spellBelow_refused hresolve hcovers hid err hspell
      exact .inr ⟨x, cycle, refuses_of_spellBelow hresolve hcovers hid hspell⟩
  case refine_3 =>
    intro requests hids
    have hfresh : ∀ request ∈ requests,
        request.EndsWith r names [] (spelledText request.text (r.spell names request.id)) :=
      fun request hrequest => request_endsWith hresolve hcovers [] request (hids request hrequest)
    exact ⟨_, fun depth hdepth => mapAll_run hfresh hdepth,
      List.forall₂_map_right_iff.2 (List.forall₂_same.2 hfresh)⟩

end

/-- A loop with no declared type in it, of lists of one-item tuples, and bytes
beside it. -/
def loopDocument : Metadata where
  contractName := "loop"
  contractVersion := "1.0"
  types :=
    [⟨0, .sequence 1, [], [], []⟩, ⟨1, .tuple [0], [], [], []⟩, ⟨2, .sequence 3, [], [], []⟩,
      ⟨3, .primitive (.unsigned .w8), [], [], []⟩]
  messages := [{ label := "loop", returnType := some 0 }, { label := "code", returnType := some 2 }]

/-- What the loop resolves to. -/
def loopRegistry : Registry where
  entries := loopDocument.types
  declarationOrder := []

/-- Spelling a loop of two types is refused, with a cycle through both of
them. -/
theorem loopRegistry_spell : loopRegistry.spell [] 0 = .error (.recursive 0 [0, 1, 0]) := by
  have hagain : loopRegistry.spellBelow [] [1, 0] 0 = .error (.recursive 0 [0, 1, 0]) := by
    rw [Registry.spellBelow]
    rfl
  have htuple : loopRegistry.spellBelow [] [0] 1 = .error (.recursive 0 [0, 1, 0]) := by
    rw [Registry.spellBelow]
    show Except.bind (Except.bind (loopRegistry.spellBelow [] [1, 0] 0) _) _ = _
    rw [hagain]
    rfl
  rw [Registry.spell, Registry.spellBelow]
  show Except.bind (loopRegistry.spellBelow [] [0] 1) _ = _
  rw [htuple]
  rfl

/-- The loop is refused, and the bytes are answered by the same mapper
afterwards. The type 0 is a sequence of tuples of itself, the type 2 a sequence
of bytes. That the second request is answered shows that the first one has left
nothing on the stack. -/
theorem mapper_settled_loop : loopDocument.resolve = .ok loopRegistry ∧ loopRegistry.Covers [] ∧
    loopRegistry.Loops [] 0 ∧ loopRegistry.Refuses [] [] 0 0 [0, 1, 0] ∧
    ¬ loopRegistry.Loops [] 2 ∧ loopRegistry.Answers [] [] 2 .bytes ∧
    (loopRegistry.mapAll [] 5 [.codec false 0, .hint 2]).run [] =
      some ([.error (.recursive 0 [0, 1, 0]), .ok "bytes"], []) := by
  have hresolve : loopDocument.resolve = .ok loopRegistry := by cbv
  -- No type of the document is declared, so there is nothing to name.
  have hcovers : loopRegistry.Covers [] := by
    intro id e he hdeclaration
    have hnone : ∀ e ∈ loopRegistry.entries, e.definition.isDeclaration = false := by decide
    cases (hnone e (List.mem_of_find?_eq_some he)).symm.trans hdeclaration
  have hspellBytes : loopRegistry.spell [] 2 = .ok .bytes := by
    rw [Registry.spell, Registry.spellBelow]
    rfl
  have hreached : ∀ id e, loopRegistry.entry? id = some e → loopDocument.Reachable id :=
    fun id e he => reachable_of_entry hresolve he
  have hdepth : loopRegistry.entries.length < 5 := by decide
  obtain ⟨hfresh, -, hsequence⟩ := (mapper_settled hresolve).2 [] hcovers
  obtain ⟨hloops, hrefuses⟩ : loopRegistry.Loops [] 0 ∧ loopRegistry.Refuses [] [] 0 0 [0, 1, 0] := by
    rcases hfresh 0 (hreached 0 _ rfl) with ⟨-, t, ht, -⟩ | ⟨hloops, x, cycle, herr, hrefuses, -⟩
    · cases loopRegistry_spell.symm.trans ht
    · cases loopRegistry_spell.symm.trans herr
      exact ⟨hloops, hrefuses⟩
  obtain ⟨hends, hanswers⟩ : ¬ loopRegistry.Loops [] 2 ∧ loopRegistry.Answers [] [] 2 .bytes := by
    rcases hfresh 2 (hreached 2 _ rfl) with ⟨hends, t, ht, hanswers⟩ | ⟨-, x, cycle, herr, -⟩
    · cases hspellBytes.symm.trans ht
      exact ⟨hends, hanswers⟩
    · cases hspellBytes.symm.trans herr
  refine ⟨hresolve, hcovers, hloops, hrefuses, hends, hanswers, ?_⟩
  -- Any mapper that is deep enough gives these answers, one after the other.
  obtain ⟨answers, hrun, hall⟩ := hsequence [.codec false 0, .hint 2] (by
    simp only [List.forall_mem_cons, List.not_mem_nil, false_implies, implies_true, and_true]
    exact ⟨hreached 0 _ rfl, hreached 2 _ rfl⟩)
  cases hall with
  | cons hfirst hrest =>
    cases hrest with
    | cons hsecond hnil =>
      cases hnil
      have hcodec := (hfirst 5 hdepth).unique (hrefuses (.codec false 0) rfl 5 hdepth)
      have hhint := (hsecond 5 hdepth).unique (hanswers (.hint 2) rfl 5 hdepth)
      rw [hrun 5 hdepth, hcodec, hhint]
      rfl

end ContractClient
