/-
The number behind a name.

A request gets its base as long as the base is free, and the base with the least
number from two on that makes it free otherwise, `Least`. Whoever looks for that
number without knowing how many names are taken tries one number after the
other, `Search`. Such a search need not come to an end for every notion of free;
here it does, since finitely many names are taken and different numbers make
different names, and it ends with the name that the allocator hands out,
`settles_choose`.

A number makes a name end in a digit. So a base that ends in digits itself is
nothing special: `a` with the number 12 and `a1` with the number 2 are one name,
and the second of two requests for it finds it taken.
-/
import ContractClient.Proofs.Client.Allocation
import Mathlib.Data.Nat.Init
import Mathlib.Logic.Relation

set_option autoImplicit false

namespace ContractClient.NameAllocator

/-! ## Names with numbers -/

/-- A name with a number ends in a digit. -/
theorem numbered_getLast (base : String) (n : Nat) :
    ∃ c, (numbered base n).toList.getLast? = some c ∧ c.isDigit = true := by
  have hdigits : (toString n).toList = Nat.toDigits 10 n := Nat.toList_repr
  cases hlast : (Nat.toDigits 10 n).getLast? with
  | none => exact absurd (List.getLast?_eq_none_iff.1 hlast) Nat.toDigits_ne_nil
  | some c =>
    refine ⟨c, ?_, Nat.isDigit_of_mem_toDigits (by decide) (by decide) (List.mem_of_getLast? hlast)⟩
    rw [numbered, String.toList_append, hdigits, List.getLast?_append, hlast]
    rfl

/-! ## The least number -/

/-- What a request is to get, where `free` says which names are free: its base,
or else the base with the least number from two on that makes it free. -/
inductive Least (free : String → Prop) (base : String) : String → Prop
  | base (hfree : free base) : Least free base base
  | numbered {n : Nat} (htaken : ¬ free base) (hn : 2 ≤ n) (hfree : free (numbered base n))
      (hleast : ∀ k, 2 ≤ k → k < n → ¬ free (numbered base k)) : Least free base (numbered base n)

/-- What is least among the free numbers depends only on which names are
free. -/
theorem Least.congr {free free' : String → Prop} {base name : String} (h : Least free base name)
    (hiff : ∀ x, free x ↔ free' x) : Least free' base name := by
  have heq : free = free' := funext fun x => propext (hiff x)
  exact heq ▸ h

variable {a : NameAllocator} {base name : String}

/-- **A request gets what it is to get.** The search goes through the numbers in
their order, so all before the first free one are taken. It looks at as many
numbers as could be taken, and never fails. -/
theorem choose_least (a : NameAllocator) (base : String) : Least (fun x => x ∉ a.taken) base (a.choose base) := by
  have hchosen := choose_notMem a base
  have hfree : ∀ x, a.isFree x = true ↔ x ∉ a.taken := by simp [isFree]
  unfold choose at hchosen ⊢
  by_cases hbase : a.isFree base = true
  · rw [if_pos hbase]
    exact .base ((hfree base).1 hbase)
  rw [if_neg hbase] at hchosen ⊢
  rw [hfree] at hbase
  dsimp only at hchosen ⊢
  rw [List.find?_map] at hchosen ⊢
  cases hfind : (List.range (a.taken.length + 1)).find? ((fun n => a.isFree (numbered base n)) ∘ (· + 2)) with
  | some n =>
    rw [hfind, Option.map_some, Option.getD_some] at hchosen
    rw [Option.map_some, Option.getD_some]
    -- The first free number was found, so the ones below it are taken.
    obtain ⟨-, -, hbefore⟩ := List.find?_range_eq_some.1 hfind
    refine .numbered hbase (Nat.le_add_left 2 n) hchosen fun k hk hlt => ?_
    have hnot := hbefore (k - 2) (by omega)
    rw [Function.comp_apply, Nat.sub_add_cancel hk, Bool.not_eq_true', ← Bool.not_eq_true, hfree] at hnot
    exact hnot
  | none =>
    -- The name that stands for a failed search is among those that were tried.
    rw [hfind] at hchosen
    have htaken := List.find?_range_eq_none.1 hfind a.taken.length (Nat.lt_succ_self _)
    rw [Function.comp_apply, Bool.not_eq_true', ← Bool.not_eq_true, hfree] at htaken
    exact absurd hchosen htaken

/-- A request gets its base, or its base with a number behind it. -/
theorem choose_cases (a : NameAllocator) (base : String) :
    a.choose base = base ∨ ∃ n, a.choose base = numbered base n := by
  have hleast := choose_least a base
  generalize a.choose base = name at hleast ⊢
  cases hleast with
  | base => exact .inl rfl
  | numbered => exact .inr ⟨_, rfl⟩

/-- Every name that is handed out is one that was asked for, or that name with a
number. -/
theorem allocateAll_cases {a : NameAllocator} {requests : List String} :
    ∀ name ∈ (a.allocateAll requests).1, ∃ base ∈ requests, name = base ∨ ∃ n, name = numbered base n := by
  induction requests generalizing a with
  | nil => exact fun name hname => absurd hname List.not_mem_nil
  | cons base rest ih =>
    intro name hname
    rcases List.mem_cons.1 hname with rfl | hname
    · exact ⟨base, List.mem_cons_self, choose_cases a base⟩
    · obtain ⟨base', hbase, hcases⟩ := ih name hname
      exact ⟨base', List.mem_cons_of_mem _ hbase, hcases⟩

/-! ## Searching without a bound -/

/-- A search under way: the name that is tried, and the number that comes
next. -/
structure Search where
  name : String
  next : Nat

namespace Search

/-- A search tries the base first. -/
def start (base : String) : Search :=
  ⟨base, 2⟩

/-- A turn of a search: a name that is taken gives way to the base with the next
number. None once the name is free. -/
def step (a : NameAllocator) (base : String) (s : Search) : Option Search :=
  if a.isFree s.name then none else some ⟨numbered base s.next, s.next + 1⟩

end Search

/-- A search for a free name comes to its end, with `name`. -/
def Settles (a : NameAllocator) (base name : String) : Prop :=
  ∃ s, Relation.ReflTransGen (fun s t => Search.step a base s = some t) (.start base) s ∧
    s.step a base = none ∧ s.name = name

/-- The search ends where the name is free. -/
theorem step_eq_none_iff {s : Search} : s.step a base = none ↔ s.name ∉ a.taken := by
  simp [Search.step, isFree]

/-- Where it is taken, it goes on with the next number. -/
theorem step_of_taken {name : String} {n : Nat} (h : name ∈ a.taken) :
    Search.step a base ⟨name, n⟩ = some ⟨numbered base n, n + 1⟩ := by
  simp [Search.step, isFree, h]

/-- A search comes by every number, as long as no name is free before. -/
theorem reaches_numbered {n : Nat} (hn : 2 ≤ n) (hbase : base ∈ a.taken)
    (htaken : ∀ k, 2 ≤ k → k < n → numbered base k ∈ a.taken) :
    Relation.ReflTransGen (fun s t => Search.step a base s = some t) (.start base) ⟨numbered base n, n + 1⟩ := by
  induction n, hn using Nat.le_induction with
  | base => exact .single (step_of_taken hbase)
  | succ n hn ih =>
    have hbefore := ih fun k hk hlt => htaken k hk (Nat.lt_succ_of_lt hlt)
    exact hbefore.tail (step_of_taken (htaken n hn (Nat.lt_succ_self n)))

/-- **A search always comes to its end**, and it ends with the name that the
request gets. -/
theorem settles_choose (a : NameAllocator) (base : String) : Settles a base (a.choose base) := by
  have hleast := choose_least a base
  generalize a.choose base = name at hleast ⊢
  cases hleast with
  | base hfree => exact ⟨_, .refl, step_eq_none_iff.2 hfree, rfl⟩
  | @numbered n htaken hn hfree hleast =>
    have hreach := reaches_numbered hn (not_not.1 htaken) fun k hk hlt => not_not.1 (hleast k hk hlt)
    exact ⟨_, hreach, step_eq_none_iff.2 hfree, rfl⟩

/-! ## Requests one after the other -/

/-- A name is free where it is not reserved and was not handed out before. -/
def Free (reserved returned : List String) (name : String) : Prop :=
  name ∉ reserved ∧ name ∉ returned

/-- The name for a request is chosen with what was handed out before it. -/
theorem getElem?_allocateAll (a : NameAllocator) (requests : List String) (i : Nat) :
    (a.allocateAll requests).1[i]? = requests[i]?.map (a.allocateAll (requests.take i)).2.choose := by
  induction requests generalizing a i with
  | nil => rfl
  | cons base rest ih =>
    cases i with
    | zero => rfl
    | succ i => exact ih (a.allocate base).2 i

/-- The requests that come later change none of the names before. -/
theorem take_allocateAll (a : NameAllocator) (requests : List String) (i : Nat) :
    (a.allocateAll (requests.take i)).1 = (a.allocateAll requests).1.take i := by
  induction requests generalizing a i with
  | nil => simp [allocateAll]
  | cons base rest ih =>
    cases i with
    | zero => rfl
    | succ i => exact congrArg (a.choose base :: ·) (ih (a.allocate base).2 i)

/-- What is free for a request is what was neither reserved nor handed out for
the requests before. -/
theorem free_iff (reserved requests : List String) (i : Nat) (name : String) :
    name ∉ ((reserving reserved).allocateAll (requests.take i)).2.taken ↔
      Free reserved (((reserving reserved).allocateAll requests).1.take i) name := by
  have htaken := (allocateAll_handsOut (reserving reserved) (requests.take i)).taken name
  rw [htaken, take_allocateAll, Free, not_or, and_comm]
  rfl

/-- **Requests are served one after the other.** The search for the name of each
comes to its end. It ends with the base where the base is free, and otherwise
with the base and the least number from two on that makes it free; and so all
names are different, and none is reserved. -/
theorem requests_served {reserved requests names : List String}
    (h : ((reserving reserved).allocateAll requests).1 = names) :
    names.length = requests.length ∧
      (∀ i base, requests[i]? = some base → ∃ name, names[i]? = some name ∧
        Settles ((reserving reserved).allocateAll (requests.take i)).2 base name ∧
          Least (Free reserved (names.take i)) base name) ∧
      names.Nodup ∧ ∀ name ∈ names, name ∉ reserved := by
  subst h
  have hrun := allocateAll_handsOut (reserving reserved) requests
  refine ⟨length_allocateAll _ requests, fun i base hbase => ?_, hrun.nodup, hrun.notTaken⟩
  have hname := getElem?_allocateAll (reserving reserved) requests i
  rw [hbase, Option.map_some] at hname
  refine ⟨_, hname, settles_choose _ base, ?_⟩
  exact (choose_least _ base).congr (free_iff reserved requests i)

/-- Requests for names with numbers, before and after the number would have been
handed out. -/
theorem requests_served_numbered :
    ((reserving ["Event"]).allocateAll ["Event", "a", "a2", "a", "a2", "a"]).1 =
        ["Event2", "a", "a2", "a3", "a22", "a4"] ∧
      Least (Free ["Event"] ["Event2", "a", "a2", "a3"]) "a2" "a22" := by
  have hnames : ((reserving ["Event"]).allocateAll ["Event", "a", "a2", "a", "a2", "a"]).1 =
      ["Event2", "a", "a2", "a3", "a22", "a4"] := by decide +kernel
  obtain ⟨name, hname, -, hleast⟩ := (requests_served hnames).2.1 4 "a2" rfl
  cases hname
  exact ⟨hnames, hleast⟩

end ContractClient.NameAllocator
