/-
Numbers of the binary64 format, and the nearest of them to a decimal.

A finite number is `mantissa * 2 ^ exponent` with a mantissa below `2 ^ 53`; it
is kept in lowest position, that is, the exponent is `-1074` or the mantissa is
at least `2 ^ 52`. Nothing here is done in floating point: a decimal is a
fraction of natural numbers, and rounding is one division.
-/

set_option autoImplicit false

namespace ContractClient

-- Powers of numbers are those of the core library, where another instance is at hand too.
attribute [local instance (1100)] instPowNat

/-- A number of the binary64 format. -/
inductive Binary64
  | nan
  | infinite (negative : Bool)
  | finite (negative : Bool) (mantissa : Nat) (exponent : Int)
  deriving DecidableEq, Repr

namespace Binary64

/-- `n / d` rounded to the nearest natural number, a half to the even one. -/
def roundDiv (n d : Nat) : Nat :=
  let q := n / d
  let r := n % d
  if 2 * r < d then q
  else if d < 2 * r then q + 1
  else q + q % 2

/-- The number of decimal digits of `n`. -/
def digitCount (n : Nat) : Nat :=
  (Nat.toDigits 10 n).length

/-- `n / d * 2 ^ (-e)` as a fraction of natural numbers. -/
def scaled (n d : Nat) (e : Int) : Nat × Nat :=
  if 0 ≤ e then (n, d * 2 ^ e.toNat) else (n * 2 ^ (-e).toNat, d)

/-- The nearest finite number to `n / d`, or an infinity when it lies beyond the
largest one. The exponent is chosen so that the quotient has 53 bits, unless
that would go below `-1074`; the first guess from the lengths of `n` and `d` is
at most one too large. -/
def ofFraction (negative : Bool) (n d : Nat) : Binary64 :=
  if n = 0 then .finite negative 0 (-1074)
  else
    let guess : Int := max ((n.log2 : Int) - d.log2 - 52) (-1074)
    let (n₁, d₁) := scaled n d guess
    let e := if n₁ / d₁ < 2 ^ (52 : Nat) then max (guess - 1) (-1074) else guess
    let (n₂, d₂) := scaled n d e
    let m := roundDiv n₂ d₂
    let (m, e) := if m = 2 ^ (53 : Nat) then (2 ^ (52 : Nat), e + 1) else (m, e)
    if 971 < e then .infinite negative else .finite negative m e

/-- The nearest number to `digits * 10 ^ exponent`. A decimal far beyond the
format's range is decided by its length, before any power is taken. -/
def ofDecimal (negative : Bool) (digits : Nat) (exponent : Int) : Binary64 :=
  let magnitude := (digitCount digits : Int) + exponent
  if digits = 0 || magnitude < -400 then .finite negative 0 (-1074)
  else if 400 < magnitude then .infinite negative
  else if 0 ≤ exponent then ofFraction negative (digits * 10 ^ exponent.toNat) 1
  else ofFraction negative digits (10 ^ (-exponent).toNat)

/-- Whether the number is an integer. -/
def isIntegral : Binary64 → Bool
  | .nan => false
  | .infinite _ => false
  | .finite _ m e => 0 ≤ e || m % 2 ^ (-e).toNat == 0

/-- Whether the number lies strictly below an integer. -/
def ltInt : Binary64 → Int → Bool
  | .nan, _ => false
  | .infinite negative, _ => negative
  | .finite negative m e, k =>
    let v : Int := if negative then -m else m
    if 0 ≤ e then v * 2 ^ e.toNat < k else v < k * 2 ^ (-e).toNat

/-- Whether the number lies strictly above an integer. -/
def gtInt : Binary64 → Int → Bool
  | .nan, _ => false
  | .infinite negative, _ => !negative
  | .finite negative m e, k =>
    let v : Int := if negative then -m else m
    if 0 ≤ e then k < v * 2 ^ e.toNat else k * 2 ^ (-e).toNat < v

end Binary64

end ContractClient
