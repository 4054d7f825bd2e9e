/-
The shortest decimal that reads back as a given binary64 number, and its text.

The reals that round to `m * 2 ^ e` form an interval around it, which holds its
ends iff `m` is even. For one, two, … seventeen digits the two neighbours of the
number on that decimal grid are tested against the interval; the first grid with
a hit wins, of two hits the nearer one, and of two equally near the one with the
even last digit. Seventeen digits always suffice.
-/
import ContractClient.Decimal.Binary64

set_option autoImplicit false

namespace ContractClient.Binary64

-- Powers of numbers are those of the core library, where another instance is at hand too.
attribute [local instance (1100)] instPowNat

/-- A fraction `n * 2 ^ e` or its reciprocal part: numerator and denominator
over which comparisons are made. -/
structure Interval where
  /-- Four times the number, its lower end and its upper end, over one
  denominator. -/
  value : Nat
  low : Nat
  high : Nat
  denominator : Nat
  closed : Bool

/-- The interval of reals that round to `m * 2 ^ e`. Below a power of two the
spacing halves, so the lower end is nearer there. -/
def interval (m : Nat) (e : Int) : Interval :=
  let below := if m = 2 ^ (52 : Nat) ∧ -1074 < e then 1 else 2
  let scale := if 0 ≤ e then 2 ^ e.toNat else 1
  { value := 4 * m * scale
    low := (4 * m - below) * scale
    high := (4 * m + 2) * scale
    denominator := 4 * (if 0 ≤ e then 1 else 2 ^ (-e).toNat)
    closed := m % 2 == 0 }

/-- Whether `c * 10 ^ k` lies in the interval. -/
def Interval.holds (i : Interval) (c : Nat) (k : Int) : Bool :=
  let p := c * (if 0 ≤ k then 10 ^ k.toNat else 1) * i.denominator
  let t := if 0 ≤ k then 1 else 10 ^ (-k).toNat
  if i.closed then i.low * t ≤ p && p ≤ i.high * t else i.low * t < p && p < i.high * t

/-- The number on the grid of step `10 ^ k`: the grid point at or below it, and
twice the distance to that point compared with one step. -/
def Interval.neighbour (i : Interval) (k : Int) : Nat × Ordering :=
  let n := i.value * (if 0 ≤ k then 1 else 10 ^ (-k).toNat)
  let d := i.denominator * (if 0 ≤ k then 10 ^ k.toNat else 1)
  (n / d, compare (2 * (n % d)) d)

/-- The point of the grid of step `10 ^ k` that is shown, if the grid has one in
the interval. -/
def Interval.choose? (i : Interval) (k : Int) : Option Nat :=
  let (c, side) := i.neighbour k
  let up := match side with
    | .lt => false
    | .gt => true
    | .eq => c % 2 == 1
  let (near, far) := if up then (c + 1, c) else (c, c + 1)
  if i.holds near k then some near
  else if i.holds far k then some far
  else none

/-- The decimal exponent of the leading digit of `n / d`, from a first guess
that is corrected by comparison. -/
def leadingExponent (n d : Nat) : Int :=
  let guess : Int := (digitCount n : Int) - digitCount d
  let atLeast (k : Int) : Bool :=
    if 0 ≤ k then d * 10 ^ k.toNat ≤ n else d ≤ n * 10 ^ (-k).toNat
  if atLeast guess then guess else guess - 1

/-- The first grid with a hit: the digits shown and the exponent of the last of
them. -/
def Interval.shortest (i : Interval) (leading : Int) : Nat → Nat → Nat × Int
  | digits, 0 => ((i.neighbour (leading - digits)).1, leading - digits)
  | digits, more + 1 =>
    match i.choose? (leading - digits) with
    | some c => (c, leading - digits)
    | none => i.shortest leading (digits + 1) more

/-- The digits of a finite positive number and the exponent of its leading
digit. -/
def shortestDigits (m : Nat) (e : Int) : List Char × Int :=
  let i := interval m e
  let (c, k) := i.shortest (leadingExponent i.value i.denominator) 0 17
  let digits := Nat.toDigits 10 c
  let trimmed := (digits.reverse.dropWhile (· == '0')).reverse
  (trimmed, k + (digits.length - 1))

/-- Where notation turns: exponents of the leading digit from `firstPositional`
up to, but not including, `firstScientific` are written out. -/
structure Layout where
  firstPositional : Int
  firstScientific : Int
  exponentDigits : Nat

/-- Numbers are written out from `0.0001` up to below `10 ^ 16`; exponents have
a sign and two digits. -/
def layout : Layout := ⟨-4, 16, 2⟩

/-- Digits with the leading one at `10 ^ k`. -/
def arrange (digits : List Char) (k : Int) : String :=
  if layout.firstPositional ≤ k ∧ k < layout.firstScientific then
    if k < 0 then String.ofList ('0' :: '.' :: List.replicate ((-k).toNat - 1) '0' ++ digits)
    else
      let whole := digits.take (k.toNat + 1)
      let padded := whole ++ List.replicate (k.toNat + 1 - whole.length) '0'
      let rest := digits.drop (k.toNat + 1)
      String.ofList (padded ++ '.' :: (if rest.isEmpty then ['0'] else rest))
  else
    let exponent := Nat.toDigits 10 k.natAbs
    let padded := List.replicate (layout.exponentDigits - exponent.length) '0' ++ exponent
    let sign := if k < 0 then '-' else '+'
    let head := match digits with
      | [] => []
      | [d] => [d]
      | d :: rest => d :: '.' :: rest
    String.ofList (head ++ 'e' :: sign :: padded)

/-- The text of a binary64 number. -/
def text : Binary64 → String
  | .nan => "nan"
  | .infinite negative => if negative then "-inf" else "inf"
  | .finite negative m e =>
    let sign := if negative then "-" else ""
    if m = 0 then sign ++ "0.0"
    else
      let (digits, k) := shortestDigits m e
      sign ++ arrange digits k

end ContractClient.Binary64
