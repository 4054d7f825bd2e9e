/-
Byte strings and the little-endian numbers in them.

A byte string is a list: every format of the library is read front to back, and
a list has the induction that such readings need. A number of `size` bytes is
written by taking remainders modulo 256 and read by Horner's rule, so that each
undoes the other without a word about bits.
-/

set_option autoImplicit false

namespace ContractClient

-- Powers of numbers are those of the core library, where another instance is at hand too.
attribute [local instance (1100)] instPowNat

/-- A byte string. -/
abbrev Bytes := List UInt8

/-- A function from byte strings to digests, such as the one that names contract
code. -/
abbrev HashFunction := Bytes → Bytes

namespace Bytes

/-- The lowest `size` bytes of `n`, least significant first. -/
def ofNat : (size : Nat) → (n : Nat) → Bytes
  | 0, _ => []
  | size + 1, n => UInt8.ofNat (n % 256) :: ofNat size (n / 256)

/-- The number whose bytes are `bs`, least significant first. -/
def toNat : Bytes → Nat
  | [] => 0
  | b :: bs => b.toNat + 256 * toNat bs

/-- `v` in two's complement on `size` bytes. -/
def ofInt (size : Nat) (v : Int) : Bytes :=
  ofNat size (v % (256 ^ size : Nat)).toNat

/-- The number that `bs` denotes in two's complement: the top bit counts
negatively. -/
def toInt (bs : Bytes) : Int :=
  if 2 * toNat bs < 256 ^ bs.length then toNat bs else (toNat bs : Int) - (256 ^ bs.length : Nat)

/-- The number of bits that `n` needs; none for zero. -/
def bitLength (n : Nat) : Nat :=
  if n = 0 then 0 else n.log2 + 1

theorem length_ofNat (size n : Nat) : (ofNat size n).length = size := by
  induction size generalizing n with
  | zero => rfl
  | succ size ih => simp [ofNat, ih]

/-- **Reading undoes writing,** up to the bytes that were cut off. -/
theorem toNat_ofNat (size n : Nat) : toNat (ofNat size n) = n % 256 ^ size := by
  induction size generalizing n with
  | zero => simp [ofNat, toNat, Nat.mod_one]
  | succ size ih =>
    have hb : (UInt8.ofNat (n % 256)).toNat = n % 256 := by
      simp only [UInt8.toNat_ofNat']
      omega
    simp only [ofNat, toNat, ih, hb]
    rw [Nat.pow_succ, Nat.mul_comm (256 ^ size) 256, Nat.mod_mul]

/-- **Writing undoes reading:** a byte string is the only one of its length with
its number. -/
theorem ofNat_toNat (bs : Bytes) : ofNat bs.length (toNat bs) = bs := by
  induction bs with
  | nil => rfl
  | cons b bs ih =>
    have hb : b.toNat < 256 := b.toNat_lt
    have hlow : (b.toNat + 256 * toNat bs) % 256 = b.toNat := by omega
    have hhigh : (b.toNat + 256 * toNat bs) / 256 = toNat bs := by omega
    simp [ofNat, toNat, hlow, hhigh, ih]

/-- A byte string denotes less than `256` to its length. -/
theorem toNat_lt (bs : Bytes) : toNat bs < 256 ^ bs.length := by
  induction bs with
  | nil => simp [toNat]
  | cons b bs ih =>
    have hb : b.toNat < 256 := b.toNat_lt
    simp only [toNat, List.length_cons, Nat.pow_succ]
    omega

end Bytes

end ContractClient
