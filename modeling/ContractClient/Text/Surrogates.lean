/-
Texts with lone surrogates.

A surrogate is a code point that stands for no character by itself; UTF-16
writes two of them for a character beyond the first plane. A text can hold them
all the same: an escape can write one, and so can a program. A `String` cannot,
since its characters are Unicode scalar values. What a `String` cannot hold is a
`BrokenText`, so that every text is either the one or the other and none is
both.

A broken text is still a list of code points, and it can be shown; but UTF-8 has
no bytes for it.
-/
import ContractClient.Text.Quoted

set_option autoImplicit false

namespace ContractClient

/-- Whether a code point is a surrogate. -/
def isSurrogate (n : Nat) : Bool :=
  0xd800 ≤ n && n ≤ 0xdfff

/-- A run of surrogates in a text, at which its bytes in UTF-8 break off: where
it begins, with which code point, and how long it is. -/
structure SurrogateRun where
  position : Nat
  first : Nat
  length : Nat
  deriving DecidableEq, Repr

namespace SurrogateRun

/-- The first run of surrogates among code points. -/
def first? (points : List Nat) : Option SurrogateRun :=
  match points.dropWhile (!isSurrogate ·) with
  | [] => none
  | n :: rest => some ⟨(points.takeWhile (!isSurrogate ·)).length, n, (rest.takeWhile isSurrogate).length + 1⟩

/-- The run in words: one surrogate is shown, several are named by their
positions. -/
def message (run : SurrogateRun) : String :=
  let place :=
    if run.length ≤ 1 then s!"character '\\u{String.ofList (Text.hexPadded 4 run.first)}' in position {run.position}"
    else s!"characters in position {run.position}-{run.position + run.length - 1}"
  s!"'utf-8' codec can't encode {place}: surrogates not allowed"

end SurrogateRun

/-- A text that holds a surrogate: its code points. -/
structure BrokenText where
  points : List Nat
  /-- All of them are code points. -/
  bounded : ∀ n ∈ points, n ≤ 0x10ffff
  /-- At least one is a surrogate, or the text would be a `String`. -/
  broken : points.any isSurrogate = true
  deriving DecidableEq, Repr

namespace BrokenText

/-- One code point of a literal between quotes `q`. A surrogate is never
printable. -/
def escapePoint (q : Char) (n : Nat) : List Char :=
  if isSurrogate n then '\\' :: 'u' :: Text.hexPadded 4 n else Text.escapeChar q (Char.ofNat n)

/-- The text as a quoted literal, under the rules of `Text.literal`. -/
def literal (t : BrokenText) : String :=
  let q := Text.quoteFor (t.points.map Char.ofNat)
  String.ofList (q :: t.points.flatMap (escapePoint q) ++ [q])

/-- The text of a single surrogate. -/
def single (n : Nat) (h : isSurrogate n = true) : BrokenText where
  points := [n]
  bounded := by
    intro m hm
    rw [List.mem_singleton.1 hm]
    simp only [isSurrogate, Bool.and_eq_true, decide_eq_true_iff] at h
    omega
  broken := by rw [List.any_cons, h, Bool.true_or]

end BrokenText

end ContractClient
