/-
BLAKE2b without a key, with digests of thirty-two bytes.

The working state is a function of sixteen words, given as a vector whose
indices are checked when the module is compiled. A message is cut into blocks of
128 bytes, of which the last one, possibly empty, is filled up with zeros and
marked.
-/
import ContractClient.Bytes.Basic

set_option autoImplicit false

namespace ContractClient.Blake2b

-- Powers of numbers are those of the core library, where another instance is at hand too.
attribute [local instance (1100)] instPowNat

/-- The initial words, the fractional parts of the square roots of the first
eight primes. -/
def initial : Vector UInt64 8 :=
  #v[0x6a09e667f3bcc908, 0xbb67ae8584caa73b, 0x3c6ef372fe94f82b, 0xa54ff53a5f1d36f1,
    0x510e527fade682d1, 0x9b05688c2b3e6c1f, 0x1f83d9abfb41bd6b, 0x5be0cd19137e2179]

/-- In which order the words of a block enter each of the ten different
rounds. -/
def schedule : Vector (Vector (Fin 16) 16) 10 :=
  #v[#v[0, 1, 2, 3, 4, 5, 6, 7, 8, 9, 10, 11, 12, 13, 14, 15],
    #v[14, 10, 4, 8, 9, 15, 13, 6, 1, 12, 0, 2, 11, 7, 5, 3],
    #v[11, 8, 12, 0, 5, 2, 15, 13, 10, 14, 3, 6, 7, 1, 9, 4],
    #v[7, 9, 3, 1, 13, 12, 11, 14, 2, 6, 5, 10, 4, 0, 15, 8],
    #v[9, 0, 5, 7, 2, 4, 10, 15, 14, 1, 11, 12, 6, 8, 3, 13],
    #v[2, 12, 6, 10, 0, 11, 8, 3, 4, 13, 7, 5, 15, 14, 1, 9],
    #v[12, 5, 1, 15, 14, 13, 4, 10, 0, 7, 6, 3, 9, 2, 8, 11],
    #v[13, 11, 7, 14, 12, 1, 3, 9, 5, 0, 15, 4, 8, 6, 2, 10],
    #v[6, 15, 14, 9, 11, 3, 0, 8, 12, 2, 13, 7, 1, 4, 10, 5],
    #v[10, 2, 8, 4, 7, 6, 1, 5, 15, 11, 9, 14, 3, 12, 13, 0]]

/-- A word turned right by `n` bits. -/
def rotateRight (x : UInt64) (n : UInt64) : UInt64 :=
  (x >>> n) ||| (x <<< (64 - n))

/-- The four positions of the state that one mixing step touches, columns first
and then diagonals. -/
def quarters : Vector (Fin 16 × Fin 16 × Fin 16 × Fin 16) 8 :=
  #v[(0, 4, 8, 12), (1, 5, 9, 13), (2, 6, 10, 14), (3, 7, 11, 15),
    (0, 5, 10, 15), (1, 6, 11, 12), (2, 7, 8, 13), (3, 4, 9, 14)]

/-- One mixing step with two message words. -/
def mix (v : Vector UInt64 16) (q : Fin 16 × Fin 16 × Fin 16 × Fin 16) (x y : UInt64) : Vector UInt64 16 :=
  let (ia, ib, ic, id) := q
  let a := v[ia] + v[ib] + x
  let d := rotateRight (v[id] ^^^ a) 32
  let c := v[ic] + d
  let b := rotateRight (v[ib] ^^^ c) 24
  let a := a + b + y
  let d := rotateRight (d ^^^ a) 16
  let c := c + d
  let b := rotateRight (b ^^^ c) 63
  (((v.set ia a).set ib b).set ic c).set id d

/-- One round: eight mixing steps, each with the next two scheduled words. -/
def round (block : Vector UInt64 16) (v : Vector UInt64 16) (r : Fin 10) : Vector UInt64 16 :=
  let order := schedule[r]
  (List.finRange 8).foldl (fun v (i : Fin 8) =>
    mix v quarters[i] block[order[2 * i.val]] block[order[2 * i.val + 1]]) v

/-- The rounds of a compression: all ten schedules, and the first two again. -/
def rounds : List (Fin 10) := [0, 1, 2, 3, 4, 5, 6, 7, 8, 9, 0, 1]

/-- The state after one block of which the message has seen `count` bytes. -/
def compress (h : Vector UInt64 8) (block : Vector UInt64 16) (count : Nat) (last : Bool) : Vector UInt64 8 :=
  let start : Vector UInt64 16 := Vector.ofFn fun i =>
    if hi : i.val < 8 then h[i.val] else
      let word := initial[i.val - 8]
      if i.val = 12 then word ^^^ UInt64.ofNat count
      else if i.val = 13 then word ^^^ UInt64.ofNat (count / 2 ^ (64 : Nat))
      else if i.val = 14 ∧ last then word ^^^ 0xffffffffffffffff
      else word
  let v := rounds.foldl (round block) start
  Vector.ofFn fun i => h[i] ^^^ v[i.val] ^^^ v[i.val + 8]

/-- Sixteen words from at most 128 bytes, filled up with zeros. -/
def words (bytes : Bytes) : Vector UInt64 16 :=
  Vector.ofFn fun i => UInt64.ofNat (Bytes.toNat ((bytes.drop (8 * i.val)).take 8))

/-- The state after the rest of a message, of which `count` bytes came
before. -/
def absorb (h : Vector UInt64 8) (count : Nat) (bytes : Bytes) : Vector UInt64 8 :=
  if bytes.length ≤ 128 then compress h (words bytes) (count + bytes.length) true
  else absorb (compress h (words (bytes.take 128)) (count + 128) false) (count + 128) (bytes.drop 128)
termination_by bytes.length
decreasing_by simp; omega

/-- The digest of a message: the first half of the last state. The first word
starts out marked with the length of the digest. -/
def digest (message : Bytes) : Bytes :=
  let h := absorb (initial.set 0 (initial[0] ^^^ 0x01010020)) 0 message
  (h.toList.take 4).flatMap fun word => Bytes.ofNat 8 word.toNat

/-- A digest has thirty-two bytes. -/
theorem length_digest (message : Bytes) : (digest message).length = 32 := by
  simp [digest, List.length_flatMap, Bytes.length_ofNat, List.map_const']

end ContractClient.Blake2b
