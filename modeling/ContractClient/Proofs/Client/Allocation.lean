/-
Names that are handed out are new.

An allocator searches for a free name among as many candidates as there are
taken names, and one more. The candidates are different names, so not all of
them are taken, and the search cannot fail: `choose_isFree`. Everything else is
bookkeeping, and `HandsOut` does it: it says of some names that they are
different, that none of them was taken and that they are taken now, and it
composes. The names of a module are one run of an allocator, and the names of
the members of a class another one, so both are distinct by composition.
-/
import ContractClient.Client.Names
import ContractClient.Proofs.Keys
import Mathlib.Data.List.Nodup
import Mathlib.Data.List.Pairwise
import Mathlib.Data.List.Perm.Subperm
import Std.Data.String.ToNat

set_option autoImplicit false

namespace ContractClient.NameAllocator

/-! ## One request -/

/-- Different numbers make different names of one base. -/
theorem numbered_injective {base : String} {n k : Nat} (h : numbered base n = numbered base k) : n = k := by
  have htext : toString n = toString k := by
    have hchars := congrArg String.toList h
    rw [numbered, numbered, String.toList_append, String.toList_append] at hchars
    exact String.toList_inj.1 (List.append_cancel_left hchars)
  exact Nat.repr_inj.1 htext

/-- **The search for a free name cannot fail.** It looks at one number more than
there are names taken. Numbers give different names (`numbered_injective`), so
if all of them were taken, more names would be taken than there are. This is why
`choose` may search a bounded range where the program counts on without a
bound. -/
theorem choose_isFree (a : NameAllocator) (base : String) : a.isFree (a.choose base) = true := by
  unfold choose
  by_cases hbase : a.isFree base = true
  · rw [if_pos hbase]
    exact hbase
  rw [if_neg hbase]
  dsimp only
  cases hfind : ((List.range (a.taken.length + 1)).map (· + 2)).find? fun n => a.isFree (numbered base n) with
  | some n =>
    have hfree := List.find?_some hfind
    exact hfree
  | none =>
    -- All candidates would be taken, and there are more of them than taken names.
    have htaken : ((List.range (a.taken.length + 1)).map fun n => numbered base (n + 2)) ⊆ a.taken := by
      intro name hname
      obtain ⟨n, hn, rfl⟩ := List.mem_map.1 hname
      have hnot := List.find?_eq_none.1 hfind (n + 2) (List.mem_map.2 ⟨n, hn, rfl⟩)
      simpa [isFree] using hnot
    have hdistinct : ((List.range (a.taken.length + 1)).map fun n => numbered base (n + 2)).Nodup := by
      refine List.Nodup.map ?_ List.nodup_range
      intro n k h
      exact Nat.add_right_cancel (numbered_injective h)
    have hlength := (hdistinct.subperm htaken).length_le
    rw [List.length_map, List.length_range] at hlength
    omega

/-- A name that is chosen is not taken. -/
theorem choose_notMem (a : NameAllocator) (base : String) : a.choose base ∉ a.taken := by
  simpa [isFree] using choose_isFree a base

/-! ## Several requests -/

/-- Whether an allocator hands out `names` and becomes `b`. -/
structure HandsOut (a : NameAllocator) (names : List String) (b : NameAllocator) : Prop where
  nodup : names.Nodup
  notTaken : ∀ name ∈ names, name ∉ a.taken
  taken : ∀ name, name ∈ b.taken ↔ name ∈ names ∨ name ∈ a.taken

namespace HandsOut

variable {a b c : NameAllocator} {xs ys : List String}

/-- No requests hand out no names. -/
theorem none (a : NameAllocator) : HandsOut a [] a where
  nodup := List.nodup_nil
  notTaken := by simp
  taken := by simp

/-- One request hands out one name, which was not taken. -/
theorem one (a : NameAllocator) (base : String) : HandsOut a [(a.allocate base).1] (a.allocate base).2 where
  nodup := List.nodup_singleton _
  notTaken := by
    intro name hname
    rw [List.mem_singleton.1 hname]
    exact choose_notMem a base
  taken := by simp [allocate]

/-- Handing out composes: what is handed out last avoids what was handed out
before, since that was taken by then. -/
theorem append (h₁ : HandsOut a xs b) (h₂ : HandsOut b ys c) : HandsOut a (xs ++ ys) c where
  nodup := by
    refine List.Nodup.append h₁.nodup h₂.nodup ?_
    intro name hx hy
    exact h₂.notTaken name hy ((h₁.taken name).2 (.inl hx))
  notTaken := by
    intro name hname htaken
    rcases List.mem_append.1 hname with hx | hy
    · exact h₁.notTaken name hx htaken
    · exact h₂.notTaken name hy ((h₁.taken name).2 (.inr htaken))
  taken := by
    intro name
    rw [h₂.taken, h₁.taken, List.mem_append]
    tauto

end HandsOut

/-- Several requests hand out different names, none of which was taken. -/
theorem allocateAll_handsOut (a : NameAllocator) (requests : List String) :
    HandsOut a (a.allocateAll requests).1 (a.allocateAll requests).2 := by
  induction requests generalizing a with
  | nil => exact .none a
  | cons base rest ih => exact (HandsOut.one a base).append (ih (a.allocate base).2)

/-- Each request has its name. -/
theorem length_allocateAll (a : NameAllocator) (requests : List String) :
    (a.allocateAll requests).1.length = requests.length := by
  induction requests generalizing a with
  | nil => rfl
  | cons base rest ih =>
    simp only [allocateAll, List.length_cons]
    rw [ih]

/-- The same for requests in groups: names differ across groups as well. -/
theorem allocateGroups_handsOut (a : NameAllocator) (groups : List (List String)) :
    HandsOut a (a.allocateGroups groups).1.flatten (a.allocateGroups groups).2 := by
  induction groups generalizing a with
  | nil => exact .none a
  | cons group rest ih => exact (allocateAll_handsOut a group).append (ih (a.allocateAll group).2)

/-- Each group has a name for each of its requests. -/
theorem lengths_allocateGroups (a : NameAllocator) (groups : List (List String)) :
    (a.allocateGroups groups).1.map List.length = groups.map List.length := by
  induction groups generalizing a with
  | nil => rfl
  | cons group rest ih =>
    simp only [allocateGroups, List.map_cons, ih]
    rw [length_allocateAll]

end ContractClient.NameAllocator

namespace ContractClient

/-! ## Names within a class -/

/-- **Names within a class are different,** whatever they are made from. -/
theorem distinctNames_nodup (reserved requests : List String) : (distinctNames reserved requests).Nodup :=
  (NameAllocator.allocateAll_handsOut _ requests).nodup

/-- A name that is reserved is not handed out. -/
theorem notMem_distinctNames {reserved requests : List String} {name : String} (h : name ∈ reserved) :
    name ∉ distinctNames reserved requests :=
  fun hmem => (NameAllocator.allocateAll_handsOut _ requests).notTaken name hmem h

/-- There are as many names as requests. -/
theorem length_distinctNames (reserved requests : List String) :
    (distinctNames reserved requests).length = requests.length :=
  NameAllocator.length_allocateAll _ requests

/-- There are as many names of fields as fields. -/
theorem length_fieldNames (names : List (Option String)) : (fieldNames names).length = names.length := by
  rw [fieldNames, length_distinctNames, List.length_mapIdx]

/-! ## Names of a module -/

/-- Whether no two declared types or arms have one name. -/
structure ModuleNames.Distinct (names : ModuleNames) : Prop where
  types : (names.types.map (·.2)).Nodup
  arms : (names.arms.map (·.2)).flatten.Nodup
  apart : ∀ name ∈ names.types.map (·.2), name ∉ (names.arms.map (·.2)).flatten

namespace ModuleNames

variable {names : ModuleNames} {id id' : TypeId} {name : String}

/-- A name of a type is among the names of types. -/
theorem mem_types (h : names.types.find? id = some name) : (id, name) ∈ names.types := by
  unfold TypeNames.find? at h
  obtain ⟨p, hp, rfl⟩ := Option.map_eq_some_iff.1 h
  have hid : p.1 = id := by simpa using List.find?_some hp
  rw [← hid]
  exact List.mem_of_find?_eq_some hp

/-- A name of an arm is in the group of its type. -/
theorem mem_arms (h : name ∈ names.armsOf id) : ∃ group, (id, group) ∈ names.arms ∧ names.armsOf id = group := by
  unfold armsOf at h ⊢
  cases hfind : names.arms.find? (·.1 == id) with
  | none =>
    rw [hfind] at h
    cases h
  | some p =>
    have hid : p.1 = id := by simpa using List.find?_some hfind
    refine ⟨p.2, ?_, rfl⟩
    rw [← hid]
    exact List.mem_of_find?_eq_some hfind

namespace Distinct

/-- The name of a type belongs to one type only. -/
theorem type_unique (hd : names.Distinct) (h : names.types.find? id = some name)
    (h' : names.types.find? id' = some name) : id = id' :=
  congrArg Prod.fst (List.inj_on_of_nodup_map hd.types (mem_types h) (mem_types h') rfl)

/-- The arms of a type have different names. -/
theorem arms_nodup (hd : names.Distinct) (id : TypeId) : (names.armsOf id).Nodup := by
  unfold armsOf
  cases hfind : names.arms.find? (·.1 == id) with
  | none => exact List.nodup_nil
  | some p =>
    exact (List.nodup_flatten.1 hd.arms).1 p.2 (List.mem_map.2 ⟨p, List.mem_of_find?_eq_some hfind, rfl⟩)

/-- The name of an arm belongs to the arms of one type only. -/
theorem arm_unique (hd : names.Distinct) (h : name ∈ names.armsOf id) (h' : name ∈ names.armsOf id') :
    id = id' := by
  obtain ⟨group, hmem, heq⟩ := mem_arms h
  obtain ⟨group', hmem', heq'⟩ := mem_arms h'
  by_contra hne
  have hpairs := List.pairwise_map.1 (List.nodup_flatten.1 hd.arms).2
  have hsymm : Std.Symm fun p q : TypeId × List String => p.2.Disjoint q.2 := ⟨fun _ _ h _ hq hp => h hp hq⟩
  have happart : group.Disjoint group' :=
    hpairs.forall hmem hmem' fun hsame => hne (congrArg Prod.fst hsame)
  exact happart (heq ▸ h) (heq' ▸ h')

/-- A type and an arm have different names. -/
theorem type_ne_arm (hd : names.Distinct) (h : names.types.find? id = some name) : name ∉ names.armsOf id' := by
  intro harm
  obtain ⟨group, hmem, heq⟩ := mem_arms harm
  refine hd.apart name (List.mem_map.2 ⟨_, mem_types h, rfl⟩) ?_
  exact List.mem_flatten.2 ⟨group, List.mem_map.2 ⟨_, hmem, rfl⟩, heq ▸ harm⟩

end Distinct

end ModuleNames

section

variable (u : CompilationUnit) (handle : String)

/-- What the names of types are handed out by, and what is left of it. -/
abbrev typeAllocation : List String × NameAllocator :=
  (NameAllocator.reserving (moduleReserved ++ [handle])).allocateAll
    (u.registry.declared.mergeSort.map u.registry.typeRequest)

/-- What the names of arms are handed out by, and what is left of it. -/
abbrev armAllocation : List (List String) × NameAllocator :=
  (typeAllocation u handle).2.allocateGroups
    ((u.registry.declared.mergeSort.zip (typeAllocation u handle).1).map fun p => u.registry.armRequests p.1 p.2)

/-- The names of types are handed out in the order of their numbers. -/
theorem moduleNames_types :
    (u.moduleNames handle).types = u.registry.declared.mergeSort.zip (typeAllocation u handle).1 :=
  rfl

/-- The names of arms are handed out behind those of all types, in the order of
the types too. -/
theorem moduleNames_arms :
    (u.moduleNames handle).arms = u.registry.declared.mergeSort.zip (armAllocation u handle).1 :=
  rfl

/-- There is a name for each declared type. -/
theorem length_typeAllocation : (typeAllocation u handle).1.length = u.registry.declared.mergeSort.length := by
  rw [NameAllocator.length_allocateAll, List.length_map]

/-- There is a group of names for the arms of each declared type. -/
theorem length_armAllocation : (armAllocation u handle).1.length = u.registry.declared.mergeSort.length := by
  have hlengths := congrArg List.length (NameAllocator.lengths_allocateGroups (typeAllocation u handle).2
    ((u.registry.declared.mergeSort.zip (typeAllocation u handle).1).map fun p =>
      u.registry.armRequests p.1 p.2))
  simpa [length_typeAllocation] using hlengths

/-- **The names of a module are distinct.** All four phases hand out from one
allocator, one after the other, so the names of types, arms, events and
interfaces differ from one another too. -/
theorem moduleNames_distinct : (u.moduleNames handle).Distinct := by
  have htypes : (u.moduleNames handle).types.map (·.2) = (typeAllocation u handle).1 := by
    rw [moduleNames_types]
    exact List.map_snd_zip (Nat.le_of_eq (length_typeAllocation u handle))
  have harms : (u.moduleNames handle).arms.map (·.2) = (armAllocation u handle).1 := by
    rw [moduleNames_arms]
    exact List.map_snd_zip (Nat.le_of_eq (length_armAllocation u handle))
  have hrun := (NameAllocator.allocateAll_handsOut _ _).append
    (NameAllocator.allocateGroups_handsOut (typeAllocation u handle).2
      ((u.registry.declared.mergeSort.zip (typeAllocation u handle).1).map fun p =>
        u.registry.armRequests p.1 p.2))
  obtain ⟨hnodup, hnodup', hdisjoint⟩ := List.nodup_append'.1 hrun.nodup
  refine ⟨htypes ▸ hnodup, harms ▸ hnodup', ?_⟩
  rw [htypes, harms]
  exact fun name hname => hdisjoint hname

variable {u handle}

/-- What has a name is declared. -/
theorem declared_of_name {id : TypeId} {name : String} (h : (u.moduleNames handle).types.find? id = some name) :
    id ∈ u.registry.declared :=
  List.mem_mergeSort.1 (List.of_mem_zip (ModuleNames.mem_types h)).1

/-- What comes out of a search by number in a list of numbers with something
each. -/
theorem exists_find?_zip {α : Type} {ids : List TypeId} {xs : List α} (hlen : xs.length = ids.length)
    {id : TypeId} (h : id ∈ ids) : ∃ p, (ids.zip xs).find? (·.1 == id) = some p := by
  have hmem : id ∈ (ids.zip xs).map (·.1) := by
    rw [List.map_fst_zip (Nat.le_of_eq hlen.symm)]
    exact h
  obtain ⟨p, hp, rfl⟩ := List.mem_map.1 hmem
  exact Option.isSome_iff_exists.1 (List.find?_isSome.2 ⟨p, hp, by simp⟩)

/-- Every declared type has a name. -/
theorem exists_name (handle : String) {id : TypeId} (h : id ∈ u.registry.declared) :
    ∃ name, (u.moduleNames handle).types.find? id = some name := by
  obtain ⟨p, hp⟩ := exists_find?_zip (length_typeAllocation u handle) (List.mem_mergeSort.2 h)
  refine ⟨p.2, ?_⟩
  rw [moduleNames_types, TypeNames.find?, hp]
  rfl

/-- The group of a type has as many names as the type has arms. The groups stand
in the order in which the types were served, by their numbers. -/
theorem map_length_armAllocation : (armAllocation u handle).1.map List.length =
    u.registry.declared.mergeSort.map fun id => (u.registry.armRequests id "").length := by
  have hcount : ∀ id name, (u.registry.armRequests id name).length = (u.registry.armRequests id "").length := by
    intro id name
    unfold Registry.armRequests
    split
    · rw [List.length_map, List.length_map]
    · rfl
  have hids := List.map_fst_zip (Nat.le_of_eq (length_typeAllocation u handle).symm)
  rw [NameAllocator.lengths_allocateGroups]
  nth_rewrite 2 [← hids]
  rw [List.map_map, List.map_map]
  exact List.map_congr_left fun p _ => hcount p.1 p.2

/-- There are as many names of arms as were requested. The group of a type is
looked up by its number, which stands once among those that were served. -/
theorem length_armsOf_requests {id : TypeId} (h : id ∈ u.registry.declared) :
    ((u.moduleNames handle).armsOf id).length = (u.registry.armRequests id "").length := by
  obtain ⟨p, hp⟩ := exists_find?_zip (length_armAllocation u handle) (List.mem_mergeSort.2 h)
  have hid : p.1 = id := by simpa using List.find?_some hp
  -- The lengths of the groups in the order of the types are the numbers of their arms.
  have hlength : (p.1, p.2.length) ∈ u.registry.declared.mergeSort.zip
      ((armAllocation u handle).1.map List.length) := by
    rw [List.zip_map_right]
    exact List.mem_map.2 ⟨p, List.mem_of_find?_eq_some hp, rfl⟩
  rw [map_length_armAllocation, List.zip_map_right] at hlength
  obtain ⟨q, hq, heq⟩ := List.mem_map.1 hlength
  obtain ⟨hfst, hsnd⟩ := Prod.mk.inj heq
  have hsame : q.2 = q.1 := by
    obtain ⟨i, hi, rfl⟩ := List.mem_iff_getElem.1 hq
    rw [List.getElem_zip]
  have hfound : (u.moduleNames handle).armsOf id = p.2 := by
    unfold ModuleNames.armsOf
    rw [moduleNames_arms, hp]
    rfl
  have hqid : q.1 = id := hfst.trans hid
  rw [hfound, ← hsnd, hsame, hqid]

/-- There are as many names of arms as there are arms. -/
theorem length_armsOf {id : TypeId} (h : id ∈ u.registry.declared) {arms : List Arm}
    (hdef : u.registry.definition? id = some (.variant arms)) :
    ((u.moduleNames handle).armsOf id).length = arms.length := by
  rw [length_armsOf_requests h, Registry.armRequests, hdef, List.length_map]

end

end ContractClient
