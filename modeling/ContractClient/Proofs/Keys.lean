/-
Searching lists by keys.

Classes, codecs, selectors and attributes are all kept in lists and found by a
key, the first or the last that has it. Where a key belongs to one member only,
it makes no difference which, and the search finds the member.
-/
import Mathlib.Data.List.Nodup

set_option autoImplicit false

namespace ContractClient

variable {α κ : Type} [BEq κ] [LawfulBEq κ]

/-- Where a key belongs to one member only, a search for it finds this
member. -/
theorem find?_key (key : α → κ) {l : List α} {a : α} (hmem : a ∈ l)
    (hunique : ∀ b ∈ l, key b = key a → b = a) : l.find? (fun b => key b == key a) = some a := by
  cases hfind : l.find? fun b => key b == key a with
  | none =>
    have hnot := List.find?_eq_none.1 hfind a hmem
    simp at hnot
  | some b =>
    have hkey : key b = key a := by simpa using List.find?_some hfind
    rw [hunique b (List.mem_of_find?_eq_some hfind) hkey]

/-- Where keys are distinct, a search for the key of a member finds the
member. -/
theorem find?_of_nodup (key : α → κ) {l : List α} (hnodup : (l.map key).Nodup) {a : α} (hmem : a ∈ l) :
    l.find? (fun b => key b == key a) = some a :=
  find?_key key hmem fun _ hb hkey => List.inj_on_of_nodup_map hnodup hb hmem hkey

/-- The same from the end. -/
theorem find?_reverse_of_nodup (key : α → κ) {l : List α} (hnodup : (l.map key).Nodup) {a : α} (hmem : a ∈ l) :
    l.reverse.find? (fun b => key b == key a) = some a :=
  find?_key key (List.mem_reverse.2 hmem) fun _ hb hkey =>
    List.inj_on_of_nodup_map hnodup (List.mem_reverse.1 hb) hmem hkey

/-- A key that no member has is not found. -/
theorem find?_eq_none_of_key (key : α → κ) {l : List α} {k : κ} (h : ∀ a ∈ l, key a ≠ k) :
    l.find? (fun b => key b == k) = none := by
  rw [List.find?_eq_none]
  intro a ha heq
  exact h a ha (by simpa using heq)

/-- What is not found is no key. -/
theorem find?_eq_none_iff (key : α → κ) {l : List α} {k : κ} :
    l.find? (fun b => key b == k) = none ↔ k ∉ l.map key := by
  rw [List.find?_eq_none, List.mem_map]
  simp only [beq_iff_eq, not_exists, not_and]

/-- A search from the end finds a member exactly if no member behind it has the
same key. -/
theorem find?_reverse_split_iff (key : α → κ) (above : List α) {below : List α} {a : α} (hnot : a ∉ below) :
    (above ++ a :: below).reverse.find? (fun b => key b == key a) = some a ↔ key a ∉ below.map key := by
  rw [List.reverse_append, List.reverse_cons, List.append_assoc, List.find?_append]
  cases hfind : below.reverse.find? fun b => key b == key a with
  | none =>
    have hfree := (find?_eq_none_iff key).1 hfind
    rw [List.map_reverse, List.mem_reverse] at hfree
    simp [hfree]
  | some b =>
    have hb : b ∈ below := List.mem_reverse.1 (List.mem_of_find?_eq_some hfind)
    have hkey : key b = key a := by simpa using List.find?_some hfind
    constructor
    · intro heq
      exact absurd (Option.some.inj heq ▸ hb) hnot
    · intro hfree
      exact absurd (List.mem_map.2 ⟨b, hb, hkey⟩) hfree

/-- A search by the first components of pairs. -/
theorem find?_zip {β : Type} {as : List α} {bs : List β} (hlen : as.length = bs.length) (p : α → Bool) :
    as.find? p = ((as.zip bs).find? fun q => p q.1).map (·.1) := by
  calc as.find? p = ((as.zip bs).map (·.1)).find? p := by rw [List.map_fst_zip (Nat.le_of_eq hlen)]
    _ = ((as.zip bs).find? fun q => p q.1).map (·.1) := List.find?_map

end ContractClient
