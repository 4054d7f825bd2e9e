/-
The compact form among all spellings.

A number has many spellings in the four modes, if one does not ask whether a
mode is the one to use: every mode that has room for it spells it, and the last
mode does so with any number of superfluous bytes. `denoted?` reads them all.
Each mode spells with one length of its own, so the spellings of a number have
different lengths and one of them is the shortest. The thresholds of the writer
are where a mode runs out of room, and what the reader refuses is a mode with
more room than is needed; so writer and reader both pick the shortest spelling,
at each threshold and at each number of bytes of the last mode.
-/
import ContractClient.Proofs.Scale.RoundTrip

set_option autoImplicit false

namespace ContractClient.Codec

-- Powers of numbers are those of the core library, where another instance is at hand too.
attribute [local instance (1100)] instPowNat

variable {env : Environment} {bound : Option Nat} {bs bs' : Bytes} {n : Nat}

/-! ## All spellings -/

/-- The number that a byte string spells, whether or not this is its shortest
spelling. The two low bits of the first byte are the mode. In mode three the
other bits of this byte count the bytes that follow, from four on; in the other
modes the number lies behind the mode in one, two or four bytes. -/
def denoted? : Bytes → Option Nat
  | [] => none
  | b :: rest =>
    if b.toNat % 4 = 3 then
      if rest.length = b.toNat / 4 + 4 then some (Bytes.toNat rest) else none
    else
      if rest.length + 1 = 2 ^ (b.toNat % 4) then some (Bytes.toNat (b :: rest) / 4) else none

/-- Whether a byte string spells a number and all other spellings of the number
are longer. -/
def Shortest (bs : Bytes) (n : Nat) : Prop :=
  denoted? bs = some n ∧ ∀ bs', denoted? bs' = some n → bs' ≠ bs → bs.length < bs'.length

/-- The spelling in a mode of fixed size. -/
def fixedSpelling (mode n : Nat) : Bytes :=
  Bytes.ofNat (2 ^ mode) (4 * n + mode)

/-- The spelling with a number of bytes behind the first one. -/
def sizedSpelling (size n : Nat) : Bytes :=
  Bytes.ofNat 1 (4 * (size - 4) + 3) ++ Bytes.ofNat size n

/-- A spelling in a fixed mode has one, two or four bytes. -/
theorem length_fixedSpelling (mode n : Nat) : (fixedSpelling mode n).length = 2 ^ mode :=
  Bytes.length_ofNat _ _

/-- A spelling with a size has its bytes and the one that says how many they
are. -/
theorem length_sizedSpelling (size n : Nat) : (sizedSpelling size n).length = size + 1 := by
  rw [sizedSpelling, List.length_append, Bytes.length_ofNat, Bytes.length_ofNat, Nat.add_comm]

/-- A mode of fixed size spells what fits behind it. The two low bits of the
first byte are the mode, since the number above them was shifted by two. -/
theorem denoted?_fixedSpelling (mode : Nat) (hmode : mode < 3) (h : 4 * n + mode < 256 ^ (2 : Nat) ^ mode) :
    denoted? (fixedSpelling mode n) = some n := by
  obtain ⟨b, rest, hform⟩ : ∃ b rest, fixedSpelling mode n = b :: rest :=
    List.exists_cons_of_length_pos (by rw [length_fixedSpelling]; exact Nat.two_pow_pos mode)
  have hvalue : Bytes.toNat (b :: rest) = 4 * n + mode := by
    rw [← hform, fixedSpelling, Bytes.toNat_ofNat, Nat.mod_eq_of_lt h]
  -- The reader finds the mode in the first byte and the number above it.
  have hlow : b.toNat % 4 = mode := by
    rw [← Bytes.toNat_mod_four b rest, hvalue]
    omega
  have hlength : rest.length + 1 = 2 ^ mode := by rw [← length_fixedSpelling mode n, hform, List.length_cons]
  have hnumber : (4 * n + mode) / 4 = n := by omega
  rw [hform, denoted?, hlow, hvalue, hnumber, if_neg (by omega), if_pos hlength]

/-- The last mode spells what fits into its bytes. -/
theorem denoted?_sizedSpelling {size : Nat} (hfour : 4 ≤ size) (hsize : size ≤ 67) (h : n < 256 ^ size) :
    denoted? (sizedSpelling size n) = some n := by
  have hform : sizedSpelling size n = UInt8.ofNat ((4 * (size - 4) + 3) % 256) :: Bytes.ofNat size n := rfl
  have hhead : (UInt8.ofNat ((4 * (size - 4) + 3) % 256)).toNat = 4 * (size - 4) + 3 := by
    rw [UInt8.toNat_ofNat']
    omega
  have hlength : (Bytes.ofNat size n).length = (4 * (size - 4) + 3) / 4 + 4 := by
    rw [Bytes.length_ofNat]
    omega
  rw [hform, denoted?, hhead, if_pos (by omega), if_pos hlength, Bytes.toNat_ofNat, Nat.mod_eq_of_lt h]

/-- **All spellings of a number.** There are four modes: in three of them the
number is written with the mode below it, and in the last one behind a count of
its bytes. Nothing is said here about which of the spellings a codec takes. -/
theorem denoted?_eq_some_iff :
    denoted? bs = some n ↔
      (∃ mode < 3, 4 * n + mode < 256 ^ (2 : Nat) ^ mode ∧ bs = fixedSpelling mode n) ∨
        ∃ size, 4 ≤ size ∧ size ≤ 67 ∧ n < 256 ^ size ∧ bs = sizedSpelling size n := by
  constructor
  · intro h
    cases bs with
    | nil => cases h
    | cons b rest =>
      have hb : b.toNat < 256 := b.toNat_lt
      rw [denoted?] at h
      -- Bytes are determined by their number and how many they are, and the first byte
      -- says how many.
      by_cases hlast : b.toNat % 4 = 3
      · rw [if_pos hlast] at h
        obtain ⟨hlength, rfl⟩ : rest.length = b.toNat / 4 + 4 ∧ Bytes.toNat rest = n := by simpa using h
        have hhead : 4 * (rest.length - 4) + 3 = b.toNat := by omega
        refine .inr ⟨rest.length, by omega, by omega, Bytes.toNat_lt rest, ?_⟩
        rw [sizedSpelling, hhead, Bytes.ofNat_one, Bytes.ofNat_toNat]
        rfl
      · rw [if_neg hlast] at h
        obtain ⟨hlength, rfl⟩ : rest.length + 1 = 2 ^ (b.toNat % 4) ∧ Bytes.toNat (b :: rest) / 4 = n := by
          simpa using h
        have hlow := Bytes.toNat_mod_four b rest
        have hvalue : 4 * (Bytes.toNat (b :: rest) / 4) + b.toNat % 4 = Bytes.toNat (b :: rest) := by omega
        refine .inl ⟨b.toNat % 4, by omega, ?_, ?_⟩
        · rw [hvalue, ← hlength]
          exact Bytes.toNat_lt (b :: rest)
        · rw [fixedSpelling, hvalue, ← hlength]
          exact (Bytes.ofNat_toNat (b :: rest)).symm
  · rintro (⟨mode, hmode, hroom, rfl⟩ | ⟨size, hfour, hsize, hroom, rfl⟩)
    · exact denoted?_fixedSpelling mode hmode hroom
    · exact denoted?_sizedSpelling hfour hsize hroom

-- Zero in the mode of two bytes.
example : denoted? [1, 0] = some 0 := by decide

/-- **The length of a spelling is its mode**, so different spellings of a number
have different lengths. -/
theorem denoted?_inj (h : denoted? bs = some n) (h' : denoted? bs' = some n) (hlength : bs.length = bs'.length) :
    bs = bs' := by
  have hfew : ∀ {mode}, mode < 3 → 2 ^ mode ≤ 4 := fun hmode =>
    Nat.pow_le_pow_right (by decide) (Nat.le_of_lt_succ hmode)
  obtain ⟨mode, hmode, -, rfl⟩ | ⟨size, hfour, -, -, rfl⟩ := denoted?_eq_some_iff.1 h <;>
    obtain ⟨mode', hmode', -, rfl⟩ | ⟨size', hfour', -, -, rfl⟩ := denoted?_eq_some_iff.1 h' <;>
    simp only [length_fixedSpelling, length_sizedSpelling] at hlength
  · rw [(Nat.pow_right_inj Nat.one_lt_two).1 hlength]
  · have := hfew hmode
    omega
  · have := hfew hmode'
    omega
  · rw [Nat.succ.inj hlength]

/-! ## The shortest one -/

/-- How long the spelling is that encoding chooses, by the size of the
number. -/
theorem length_compactBytes (n : Nat) :
    (compactBytes n).length =
      if n < 2 ^ (6 : Nat) then 1 else if n < 2 ^ (14 : Nat) then 2 else if n < 2 ^ (30 : Nat) then 4 else
        compactSize n + 1 := by
  rw [compactBytes]
  split
  · exact Bytes.length_ofNat _ _
  split
  · exact Bytes.length_ofNat _ _
  split
  · exact Bytes.length_ofNat _ _
  · exact length_sizedSpelling (compactSize n) n

/-- The compact form is a spelling, in the first mode with room for the
number. -/
theorem denoted?_compactBytes (hsize : compactSize n ≤ 67) : denoted? (compactBytes n) = some n := by
  rw [compactBytes]
  split
  · exact denoted?_fixedSpelling 0 (by omega) (by omega)
  split
  · exact denoted?_fixedSpelling 1 (by omega) (by omega)
  split
  · exact denoted?_fixedSpelling 2 (by omega) (by omega)
  · obtain ⟨hfour, hroom⟩ := (compactSize_le_iff n _).1 (Nat.le_refl (compactSize n))
    exact denoted?_sizedSpelling hfour hsize hroom

/-- **No spelling is shorter than the compact form**, and only numbers that have
one are spelled. -/
theorem length_compactBytes_le (h : denoted? bs = some n) :
    compactSize n ≤ 67 ∧ (compactBytes n).length ≤ bs.length := by
  rw [length_compactBytes]
  obtain ⟨mode, hmode, hroom, rfl⟩ | ⟨size, hfour, hsize, hroom, rfl⟩ := denoted?_eq_some_iff.1 h
  · rw [length_fixedSpelling]
    -- A number with room in a mode is below the threshold of this mode.
    obtain rfl | rfl | rfl : mode = 0 ∨ mode = 1 ∨ mode = 2 := by omega
    all_goals
      refine ⟨(compactSize_le_iff n 67).2 ⟨by omega, by omega⟩, ?_⟩
      split_ifs <;> omega
  · have hleast := (compactSize_le_iff n size).2 ⟨hfour, hroom⟩
    rw [length_sizedSpelling]
    refine ⟨by omega, ?_⟩
    split_ifs <;> omega

/-- **The shortest spelling is the compact form.** -/
theorem shortest_iff : Shortest bs n ↔ compactSize n ≤ 67 ∧ bs = compactBytes n := by
  constructor
  · rintro ⟨hspells, hleast⟩
    obtain ⟨hsize, hle⟩ := length_compactBytes_le hspells
    refine ⟨hsize, Eq.symm ?_⟩
    by_contra hne
    exact Nat.not_lt.2 hle (hleast _ (denoted?_compactBytes hsize) hne)
  · rintro ⟨hsize, rfl⟩
    have hspells := denoted?_compactBytes hsize
    refine ⟨hspells, fun bs' hspells' hne => ?_⟩
    refine Nat.lt_of_le_of_ne (length_compactBytes_le hspells').2 fun hlength => hne ?_
    exact denoted?_inj hspells' hspells hlength.symm

/-- The numbers that have a spelling. -/
theorem exists_shortest_iff : (∃ bs, Shortest bs n) ↔ n < 2 ^ (536 : Nat) := by
  have hpow : ∀ size bits, 8 * size = bits → (256 : Nat) ^ size = 2 ^ bits := by
    rintro size _ rfl
    rw [Nat.pow_mul]
  simp only [shortest_iff, exists_and_left, exists_eq, and_true, compactSize_le_iff]
  rw [hpow 67 536 rfl]
  exact and_iff_right (by decide)

/-! ## Writing and reading -/

/-- A number keeps to a bound exactly if it has no more bits. -/
theorem filter_bitLength_iff :
    (bound.filter fun b => b < Bytes.bitLength n) = none ↔ ∀ bits ∈ bound, n < 2 ^ bits := by
  simp only [Option.filter_eq_none_iff, decide_eq_true_eq, Nat.not_lt, Bytes.bitLength_le_iff, Option.mem_def]

/-- **What is written** is the shortest spelling of a number within the
bound. -/
theorem encode_compact_ok_iff {v : Value} :
    encode env (.compact bound) v = .ok bs ↔
      ∃ n : Nat, v = .int n ∧ (∀ bits ∈ bound, n < 2 ^ bits) ∧ Shortest bs n := by
  have hleaf : encode env (.compact bound) v = encodeCompact bound v := by
    rw [encode_eq, encodeWith]
  simp only [hleaf, encodeCompact_ok_iff, filter_bitLength_iff, encodeCount_ok_iff, shortest_iff]

/-- **What is read** is the shortest spelling of a number within the bound.
Strict decoding ends at the end of the bytes, so the spelling is all of them. -/
theorem decode_compact_ok_iff {flags : List Bool} {v : Value} :
    (Codec.compact bound).decode env flags bs = .ok v ↔
      ∃ n : Nat, v = .int n ∧ (∀ bits ∈ bound, n < 2 ^ bits) ∧ Shortest bs n := by
  rw [decode_ok_iff, decodeFrom_eq, decodeWith, bind_ok_iff]
  constructor
  · rintro ⟨⟨n, e⟩, hread, heq⟩
    cases heq
    obtain ⟨hbound, hsize, hbetween⟩ := decodeCompact_ok_iff.1 hread
    exact ⟨n, rfl, filter_bitLength_iff.1 hbound, shortest_iff.2 ⟨hsize, Between.whole_iff.1 hbetween⟩⟩
  · rintro ⟨n, rfl, hbound, hshortest⟩
    obtain ⟨hsize, hform⟩ := shortest_iff.1 hshortest
    have hread := decodeCompact_ok_iff.2 ⟨filter_bitLength_iff.2 hbound, hsize, Between.whole_iff.2 hform⟩
    exact ⟨(n, bs.length), hread, rfl⟩

/-- **Compact numbers have one form.** A number is written if it is below 2⁵³⁶
and within the bound, as the shortest of its spellings. Of all that spells a
number this one is read, if the number is within the bound, and nothing else is
read at all. -/
theorem compact_shortest (env : Environment) (bound : Option Nat) (flags : List Bool) :
    (∀ v : Int, (∃ bs, encode env (.compact bound) (.int v) = .ok bs) ↔
      0 ≤ v ∧ v < (2 ^ (536 : Nat) : Nat) ∧ ∀ bits ∈ bound, v < (2 ^ bits : Nat)) ∧
    (∀ v bs, encode env (.compact bound) (.int v) = .ok bs → ∃ n : Nat, v = n ∧ Shortest bs n) ∧
    (∀ bs n, denoted? bs = some n → ∀ w, (Codec.compact bound).decode env flags bs = .ok w ↔
      w = .int n ∧ Shortest bs n ∧ ∀ bits ∈ bound, n < 2 ^ bits) ∧
    (∀ bs, denoted? bs = none → ∃ err, (Codec.compact bound).decode env flags bs = .error err) := by
  refine ⟨fun v => ?_, fun v bs h => ?_, fun bs n hspells w => ?_, fun bs hnone => ?_⟩
  · constructor
    · rintro ⟨bs, h⟩
      obtain ⟨n, heq, hbound, hshortest⟩ := encode_compact_ok_iff.1 h
      cases heq
      have hlt := exists_shortest_iff.1 ⟨bs, hshortest⟩
      exact ⟨Int.natCast_nonneg n, Int.ofNat_lt.2 hlt, fun bits hbits => Int.ofNat_lt.2 (hbound bits hbits)⟩
    · rintro ⟨hnonneg, hlt, hbound⟩
      obtain ⟨n, rfl⟩ := Int.eq_ofNat_of_zero_le hnonneg
      obtain ⟨bs, hshortest⟩ := exists_shortest_iff.2 (Int.ofNat_lt.1 hlt)
      exact ⟨bs, encode_compact_ok_iff.2 ⟨n, rfl, fun bits hbits => Int.ofNat_lt.1 (hbound bits hbits), hshortest⟩⟩
  · obtain ⟨n, heq, -, hshortest⟩ := encode_compact_ok_iff.1 h
    cases heq
    exact ⟨n, rfl, hshortest⟩
  · rw [decode_compact_ok_iff]
    constructor
    · rintro ⟨m, rfl, hbound, hshortest⟩
      -- bytes spell one number at most
      obtain rfl : m = n := Option.some.inj (hshortest.1.symm.trans hspells)
      exact ⟨rfl, hshortest, hbound⟩
    · rintro ⟨rfl, hshortest, hbound⟩
      exact ⟨n, rfl, hbound, hshortest⟩
  · cases hdecode : (Codec.compact bound).decode env flags bs with
    | error err => exact ⟨err, rfl⟩
    | ok w =>
      obtain ⟨n, -, -, hspells, -⟩ := decode_compact_ok_iff.1 hdecode
      cases hnone.symm.trans hspells

/-- The first number that needs the last mode, and its predecessor, which fills
the mode of four bytes. -/
theorem compact_shortest_two_pow_thirty :
    (∃ n : Nat, (2 ^ (30 : Nat) : Int) = n ∧ Shortest [3, 0, 0, 0, 64] n) ∧
      (Codec.compact (some 30)).decode ⟨[]⟩ [] [254, 255, 255, 255] = .ok (.int (2 ^ (30 : Nat) - 1)) :=
  ⟨(compact_shortest ⟨[]⟩ (some 32) []).2.1 (2 ^ (30 : Nat)) [3, 0, 0, 0, 64] (by rfl),
    (((compact_shortest ⟨[]⟩ (some 30) []).2.2.1 [254, 255, 255, 255] (2 ^ (30 : Nat) - 1) (by rfl)) _).2
      ⟨by rfl, shortest_iff.2 ⟨by decide, by decide⟩, by decide⟩⟩

end ContractClient.Codec
