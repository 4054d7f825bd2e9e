/-
How much fuel following references takes.

References are followed by fuel: `run n a x` is the outcome of following the
name `a` at the position `x` at most `n` references deep, and it is `bottom`
where that was not deep enough. The outcome under `n + 1` is made of outcomes
under `n` at the same position and at smaller ones, and more fuel never changes
an outcome that is not `bottom`.

Then the number of declared names times the size of the position bounds the fuel
that makes a difference. At a position whose smaller positions are settled, look
at the names that are still pending there. Either one more reference settles
another name, which can happen once for each name, or nothing changes and then
nothing changes ever after, since the next step is made of the same outcomes. So
the argument needs no path, no visited set and no counting of visits; it is a
list that gets shorter.
-/
import ContractClient.Registry.Walk

set_option autoImplicit false

namespace ContractClient

/-- A way of following names by fuel, among the declared `names`, at positions
of a `size`. -/
structure Following {α β ρ : Type} (run : Nat → α → β → ρ) (bottom : ρ) (names : List α) (size : β → Nat) :
    Prop where
  /-- More fuel keeps an outcome. -/
  keeps : ∀ n a x, run n a x = bottom ∨ run (n + 1) a x = run n a x
  /-- One more step is made of outcomes at the same position and at smaller
  ones. -/
  steps : ∀ n m x, (∀ y, y = x ∨ size y < size x → ∀ b, run n b y = run m b y) →
    ∀ a, run (n + 1) a x = run (m + 1) a x
  /-- A name that is not declared is settled at once. -/
  others : ∀ a, a ∉ names → ∀ n x, run (n + 1) a x = run 1 a x

namespace Following

variable {α β ρ : Type} {run : Nat → α → β → ρ} {bottom : ρ} {names : List α} {size : β → Nat}

/-- Where the smaller positions are settled, one level without change is
followed by no change. -/
theorem stable (h : Following run bottom names size) {x : β} {m : Nat}
    (hbelow : ∀ y, size y < size x → ∀ n, m ≤ n → ∀ b, run n b y = run m b y) {k : Nat} (hk : m ≤ k)
    (hstill : ∀ a, run (k + 1) a x = run k a x) (j : Nat) : ∀ a, run (k + j) a x = run k a x := by
  induction j with
  | zero => exact fun a => rfl
  | succ j ih =>
    intro a
    have hnext : run (k + j + 1) a x = run (k + 1) a x := by
      refine h.steps (k + j) k x ?_ a
      rintro y (rfl | hy) b
      · exact ih b
      · rw [hbelow y hy (k + j) (by omega), hbelow y hy k hk]
    rw [← Nat.add_assoc, hnext, hstill]

open Classical in
/-- Each level settles a name, or one of the levels so far changed nothing.
After as many levels as there are names the second must have happened, and from
there on nothing changes: this is what bounds the fuel. -/
theorem progress (h : Following run bottom names size) (x : β) {m : Nat} (hm : 0 < m) (k : Nat) :
    (∃ j, j ≤ k ∧ ∀ a, run (m + j + 1) a x = run (m + j) a x) ∨
      (names.countP fun a => run (m + k) a x = bottom) + k ≤ names.length := by
  induction k with
  | zero => exact Or.inr List.countP_le_length
  | succ k ih =>
    rcases ih with ⟨j, hj, hstill⟩ | ih
    · exact Or.inl ⟨j, by omega, hstill⟩
    by_cases hstill : ∀ a, run (m + k + 1) a x = run (m + k) a x
    · exact Or.inl ⟨k, by omega, hstill⟩
    · obtain ⟨a, ha⟩ := Classical.not_forall.1 hstill
      -- the name that changes was pending and is so no longer
      have hpending : run (m + k) a x = bottom := (h.keeps (m + k) a x).resolve_right ha
      have hsettled : run (m + k + 1) a x ≠ bottom := fun hbottom => ha (hbottom.trans hpending.symm)
      have hmem : a ∈ names := by
        refine Classical.byContradiction fun hnot => ha ?_
        obtain ⟨m', hm'⟩ : ∃ m', m + k = m' + 1 := ⟨m + k - 1, by omega⟩
        rw [h.others a hnot (m + k), hm', h.others a hnot m']
      have hfewer : ∀ b, run (m + k + 1) b x = bottom → run (m + k) b x = bottom := by
        intro b hb
        rcases h.keeps (m + k) b x with hbottom | hkept
        · exact hbottom
        · rw [← hkept, hb]
      have hlt : (names.countP fun b => run (m + k + 1) b x = bottom) <
          names.countP fun b => run (m + k) b x = bottom :=
        Walk.countP_lt_of_mem (by simpa using hfewer) hmem (by simpa using hpending)
          (by simpa using hsettled)
      exact Or.inr (by rw [← Nat.add_assoc m k 1]; omega)

/-- **The bound.** Past one reference for each declared name and each size up to
that of the position, more fuel changes nothing. -/
theorem settled (h : Following run bottom names size) (x : β) {n : Nat}
    (hn : names.length * (size x + 1) + 1 ≤ n) :
    ∀ a, run n a x = run (names.length * (size x + 1) + 1) a x := by
  -- Positions of smaller size are settled by induction, with one reference for each name
  -- less per size.
  induction hs : size x using Nat.strongRecOn generalizing x n with
  | ind s ih =>
    subst hs
    have hmul : names.length * (size x + 1) = names.length * size x + names.length := Nat.mul_succ _ _
    have hbelow : ∀ y, size y < size x → ∀ n, names.length * size x + 1 ≤ n →
        ∀ b, run n b y = run (names.length * size x + 1) b y := by
      intro y hy n hle b
      have hsmaller : names.length * (size y + 1) ≤ names.length * size x := Nat.mul_le_mul_left _ hy
      have hn := ih (size y) hy y (n := n) (by omega) rfl b
      have hm := ih (size y) hy y (n := names.length * size x + 1) (by omega) rfl b
      rw [hn, hm]
    -- once a level changes nothing, all later levels have its outcomes
    have hlevel : ∀ k, k ≤ names.length →
        (∀ a, run (names.length * size x + 1 + k + 1) a x = run (names.length * size x + 1 + k) a x) →
        ∀ a, run n a x = run (names.length * (size x + 1) + 1) a x := by
      intro k hk hstill a
      have hstable := h.stable hbelow (Nat.le_add_right _ k) hstill
      obtain ⟨i, hi⟩ := Nat.exists_eq_add_of_le (show names.length * size x + 1 + k ≤ n by omega)
      obtain ⟨j, hj⟩ := Nat.exists_eq_add_of_le
        (show names.length * size x + 1 + k ≤ names.length * (size x + 1) + 1 by omega)
      rw [hi, hj, hstable i, hstable j]
    -- Either some level was still, or as many names were settled as there are.
    rcases h.progress x (Nat.succ_pos (names.length * size x)) names.length with ⟨j, hj, hstill⟩ | hall
    · exact hlevel j hj hstill
    · refine hlevel names.length (Nat.le_refl _) fun a => ?_
      by_cases hmem : a ∈ names
      · have hnone : ∀ b ∈ names, run (names.length * size x + 1 + names.length) b x ≠ bottom := by
          have hzero := Nat.le_zero.1 (Nat.le_of_add_le_add_right
            (Nat.le_trans hall (Nat.le_of_eq (Nat.zero_add _).symm)))
          simpa using List.countP_eq_zero.1 hzero
        exact (h.keeps _ a x).resolve_left (hnone a hmem)
      · have hpos : names.length * size x + 1 + names.length =
            names.length * size x + names.length + 1 := by omega
        rw [h.others a hmem (names.length * size x + 1 + names.length), hpos,
          h.others a hmem (names.length * size x + names.length)]

end Following

end ContractClient
