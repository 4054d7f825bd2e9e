/-
What an expression says of the type that it spells.

Spelling goes down a definition with the path it came along, and the path only
decides when to give up. Where it does not give up, the path is forgotten:
`Spells` lists, shape by shape, what the registry says of a type that is spelled
in this way, and what is shown of expressions is shown by induction over that
list.

The expressions are then codecs in two ways, classes being looked up at once or
on first use. Both are `codec`, for two readings of the names of classes, and
evaluation finds it as soon as the names in it can be read.
-/
import ContractClient.Client.CodecExpr
import ContractClient.Client.TypeHint
import ContractClient.Proofs.Outcome

set_option autoImplicit false

namespace ContractClient

/-- The shape of a thirty-two bytes type. -/
def Newtype.wellKnown : Newtype → WellKnown
  | .accountId => .accountId
  | .hash => .hash

namespace Registry

/-- An entry's definition is the definition of its type. -/
theorem definition?_of_entry {r : Registry} {id : TypeId} {e : Entry} {d : TypeDef} (he : r.entry? id = some e)
    (hdef : e.definition = d) : r.definition? id = some d := by
  rw [definition?, he, Option.map_some, hdef]

/-- Whether an expression spells a type. -/
inductive Spells (r : Registry) (names : TypeNames) : TypeId → TypeExpr → Prop
  | named {id : TypeId} {name : String} (hname : names.find? id = some name) : Spells r names id (.named name)
  | newtype {id : TypeId} {e : Entry} {kind : Newtype} (he : r.entry? id = some e)
      (hknown : r.wellKnown? e = some kind.wellKnown) : Spells r names id (.newtype kind)
  | option {id inner : TypeId} {e : Entry} {x : TypeExpr} (he : r.entry? id = some e)
      (hknown : r.wellKnown? e = some .option) (hinner : e.definition.armType? "Some" = some inner)
      (hx : Spells r names inner x) : Spells r names id (.option x)
  | result {id ok err : TypeId} {e : Entry} {x y : TypeExpr} (he : r.entry? id = some e)
      (hknown : r.wellKnown? e = some .result) (hok : e.definition.armType? "Ok" = some ok)
      (herr : e.definition.armType? "Err" = some err) (hx : Spells r names ok x) (hy : Spells r names err y) :
      Spells r names id (.result x y)
  | primitive {id : TypeId} {e : Entry} {kind : Primitive} (he : r.entry? id = some e)
      (hdef : e.definition = .primitive kind) : Spells r names id (.primitive kind)
  | compact {id inner : TypeId} {e : Entry} {width : Width} (he : r.entry? id = some e)
      (hdef : e.definition = .compact inner)
      (hinner : r.definition? inner = some (.primitive (.unsigned width))) : Spells r names id (.compact width)
  | bytes {id item : TypeId} {e : Entry} (he : r.entry? id = some e) (hdef : e.definition = .sequence item)
      (hbyte : r.isByte item = true) : Spells r names id .bytes
  | seq {id item : TypeId} {e : Entry} {x : TypeExpr} (he : r.entry? id = some e)
      (hdef : e.definition = .sequence item) (hbyte : r.isByte item = false) (hx : Spells r names item x) :
      Spells r names id (.seq x)
  | fixedBytes {id item : TypeId} {length : Nat} {e : Entry} (he : r.entry? id = some e)
      (hdef : e.definition = .array item length) (hbyte : r.isByte item = true) :
      Spells r names id (.fixedBytes length)
  | array {id item : TypeId} {length : Nat} {e : Entry} {x : TypeExpr} (he : r.entry? id = some e)
      (hdef : e.definition = .array item length) (hbyte : r.isByte item = false) (hx : Spells r names item x) :
      Spells r names id (.array x length)
  | tuple {id : TypeId} {items : List TypeId} {e : Entry} {xs : List TypeExpr} (he : r.entry? id = some e)
      (hdef : e.definition = .tuple items) (hlen : items.length = xs.length)
      (hxs : ∀ p ∈ items.zip xs, Spells r names p.1 p.2) : Spells r names id (.tuple xs)

variable {r : Registry} {names : TypeNames}

/-- **What is spelled is spelled by its shape**, along whatever path it was
reached. The path only decides whether there is an expression at all; which one
it is depends on the type alone. This is what lets all later proofs do
inductions on `Spells` and forget the path. -/
theorem spells_of_spellBelow {path : List TypeId} {id : TypeId} {t : TypeExpr}
    (h : r.spellBelow names path id = .ok t) : Spells r names id t := by
  -- One case for each way out of spelling; the path is gone from what is shown.
  fun_induction Registry.spellBelow r names path id generalizing t with
  | case2 path id hn name hname =>
    cases h
    exact .named hname
  | case4 path id hn hname e he hknown =>
    cases h
    exact .newtype he hknown
  | case5 path id hn hname e he hknown =>
    cases h
    exact .newtype he hknown
  | case6 path id hn hname e he hknown inner hinner ih =>
    obtain ⟨x, hx, heq⟩ := bind_ok_iff.1 h
    cases heq
    exact .option he hknown hinner (ih hx)
  | case8 path id hn hname e he hknown ok err herr hok ihok iherr =>
    obtain ⟨x, hx, h⟩ := bind_ok_iff.1 h
    obtain ⟨y, hy, heq⟩ := bind_ok_iff.1 h
    cases heq
    exact .result he hknown hok herr (ihok hx) (iherr hy)
  | case10 path id hn hname e he hknown kind hdef =>
    cases h
    exact .primitive he hdef
  | case11 path id hn hname e he hknown inner hdef width hinner =>
    cases h
    exact .compact he hdef hinner
  | case13 path id hn hname e he hknown item hdef hbyte =>
    cases h
    exact .bytes he hdef hbyte
  | case14 path id hn hname e he hknown item hdef hbyte ih =>
    obtain ⟨x, hx, heq⟩ := bind_ok_iff.1 h
    cases heq
    exact .seq he hdef (Bool.eq_false_iff.2 hbyte) (ih hx)
  | case15 path id hn hname e he hknown item length hdef hbyte =>
    cases h
    exact .fixedBytes he hdef hbyte
  | case16 path id hn hname e he hknown item length hdef hbyte ih =>
    obtain ⟨x, hx, heq⟩ := bind_ok_iff.1 h
    cases heq
    exact .array he hdef (Bool.eq_false_iff.2 hbyte) (ih hx)
  | case17 path id hn hname e he hknown items hdef ih =>
    obtain ⟨xs, hxs, heq⟩ := bind_ok_iff.1 h
    cases heq
    obtain ⟨hlen, hall⟩ := List.forall₂_iff_zip.1 (mapM_ok_iff.1 hxs)
    exact .tuple he hdef hlen fun p hp => ih p.1 (hall hp)
  -- The other cases are refusals.
  | _ => cases h

/-- What spelling yields is an expression that spells the type. -/
theorem spells_of_spell {id : TypeId} {t : TypeExpr} (h : r.spell names id = .ok t) : Spells r names id t :=
  spells_of_spellBelow h

end Registry

/-! ## Expressions as codecs -/

namespace TypeExpr

mutual

/-- The codec that an expression denotes, where `named` gives the codecs of
classes. -/
def codec (named : String → Codec) : TypeExpr → Codec
  | .named name => named name
  | .primitive kind => kind.codec
  | .compact width => .compact (some width.bits)
  | .newtype kind => .fixedBytes 32 (some kind)
  | .bytes => .bytes
  | .fixedBytes length => .fixedBytes length none
  | .seq item => .seq (codec named item)
  | .array item length => .array (codec named item) length
  | .tuple items => .tuple (codecs named items)
  | .option inner => .option (codec named inner)
  | .result ok err => .result (codec named ok) (codec named err)

/-- The codecs that several expressions denote. -/
def codecs (named : String → Codec) : List TypeExpr → List Codec
  | [] => []
  | t :: rest => codec named t :: codecs named rest

end

/-- The codecs of several expressions are the codecs of each. -/
theorem codecs_eq_map (named : String → Codec) (ts : List TypeExpr) : codecs named ts = ts.map (codec named) := by
  induction ts with
  | nil => simp only [codecs, List.map_nil]
  | cons t rest ih => simp only [codecs, List.map_cons, ih]

/-- The hints of several expressions are the hints of each. -/
theorem hints_eq_map (ts : List TypeExpr) : hints ts = ts.map hint := by
  induction ts with
  | nil => rw [hints, List.map_nil]
  | cons t rest ih => rw [hints, List.map_cons, ih]

/-- What is written for several expressions is what is written for each. -/
theorem codecExprs_eq_map (lazy : Bool) (ts : List TypeExpr) : codecExprs lazy ts = ts.map (codecExpr lazy) := by
  induction ts with
  | nil => rw [codecExprs, List.map_nil]
  | cons t rest ih => rw [codecExprs, List.map_cons, ih]

end TypeExpr

/-- What evaluates one by one evaluates together. -/
theorem evalAll_of_eval {lazy : Bool} {ε : Type} {ofClass : String → Except ε Codec} {named : String → Codec}
    {ts : List TypeExpr} (h : ∀ t ∈ ts, (t.codecExpr lazy).eval ofClass = .ok (t.codec named)) :
    CodecExpr.evalAll ofClass (TypeExpr.codecExprs lazy ts) = .ok (TypeExpr.codecs named ts) := by
  induction ts with
  | nil => simp only [TypeExpr.codecExprs, CodecExpr.evalAll, TypeExpr.codecs]
  | cons t rest ih =>
    obtain ⟨ht, hrest⟩ := List.forall_mem_cons.1 h
    simp only [TypeExpr.codecExprs, CodecExpr.evalAll, TypeExpr.codecs, ht, ih hrest]
    rfl

/-- **Evaluation finds the codec that is denoted**, at once or late, if it finds
those of the classes. The induction is on how the expression was spelled; only
the case of a name uses the hypothesis. -/
theorem eval_of_spells {r : Registry} {names : TypeNames} {lazy : Bool} {ε : Type}
    {ofClass : String → Except ε Codec} (named : String → Codec)
    (hnamed : ∀ id name, names.find? id = some name →
      ((TypeExpr.named name).codecExpr lazy).eval ofClass = .ok (named name))
    {id : TypeId} {t : TypeExpr} (h : r.Spells names id t) :
    (t.codecExpr lazy).eval ofClass = .ok (t.codec named) := by
  induction h with
  | named hname =>
    simp only [TypeExpr.codec]
    exact hnamed _ _ hname
  | newtype | primitive | compact | bytes | fixedBytes =>
    simp only [TypeExpr.codecExpr, CodecExpr.eval, TypeExpr.codec]
  | seq _ _ _ _ ih | array _ _ _ _ ih | option _ _ _ _ ih =>
    simp only [TypeExpr.codecExpr, CodecExpr.eval, TypeExpr.codec, ih]
    rfl
  | result _ _ _ _ _ _ ihx ihy =>
    simp only [TypeExpr.codecExpr, CodecExpr.eval, TypeExpr.codec, ihx, ihy]
    rfl
  | @tuple id items e xs _ _ hlen _ ih =>
    -- Membership in the list of expressions is membership in the pairs, as the lists have
    -- one length.
    have hall : ∀ t ∈ xs, (TypeExpr.codecExpr lazy t).eval ofClass = .ok (t.codec named) := by
      intro t ht
      rw [← List.map_snd_zip (Nat.le_of_eq hlen.symm)] at ht
      obtain ⟨p, hp, rfl⟩ := List.mem_map.1 ht
      exact ih p hp
    simp only [TypeExpr.codecExpr, CodecExpr.eval, TypeExpr.codec, evalAll_of_eval hall]
    rfl

end ContractClient
