/-
String literals, read as Python reads them.

A literal stands between double quotes, one or three on each side, and what
counts here is a literal on one line. Its value is a list of code points, since
an escape can write any of them, halves of surrogate pairs too. A backslash
opens an escape if what follows is one of a few characters; in front of any
other character it stands for itself. The names of characters are not part of
the text, so `readBody` takes a table of them.

Two ways of writing a text are compared with this. Written as it is between
three quotes, a text reads as itself exactly if it is verbatim:
`readBody_triple_iff`. An escape makes the value shorter than the text, whatever
it stands for, so nothing that has one can read as itself. Written as a JSON
literal, any text reads as its UTF-16 units, and these tell texts apart:
`readBody_jsonEscapes` and `utf16_injective`.
-/
import ContractClient.Proofs.Keys
import ContractClient.Text.Quoted
import Mathlib.Data.List.Infix
import Mathlib.Data.Nat.Digits.Defs

set_option autoImplicit false

namespace ContractClient.Literal

/-! ## Reading -/

/-- The characters that no literal on one line holds. -/
def lineEnds : List Char :=
  ['\x00', '\n', '\r']

/-- The characters that stand for a code point behind a backslash. -/
def shortEscapes : List (Char × Nat) :=
  [('\\', 0x5c), ('\'', 0x27), ('"', 0x22), ('a', 0x07), ('b', 0x08), ('f', 0x0c), ('n', 0x0a), ('r', 0x0d),
    ('t', 0x09), ('v', 0x0b)]

/-- The octal digits. -/
def octalDigits : List Char :=
  ['0', '1', '2', '3', '4', '5', '6', '7']

/-- The characters that open an escape behind a backslash. -/
def escapeChars : List Char :=
  shortEscapes.map (·.1) ++ octalDigits ++ ['x', 'u', 'U', 'N']

/-- The number that digits of a base up to sixteen write. -/
def number? (base : Nat) (digits : List Char) : Option Nat :=
  digits.foldlM (fun n c => (Bytes.hexValue? c).map (base * n + ·)) 0

/-- The code point that exactly `count` hexadecimal digits write. -/
def readHex (count : Nat) (cs : List Char) : Option (List Nat × List Char) := do
  let n ← number? 16 (cs.take count)
  if count ≤ cs.length ∧ n ≤ 0x10ffff then return ([n], cs.drop count) else none

/-- The code point that up to three octal digits write. -/
def readOctal (cs : List Char) : Option (List Nat × List Char) := do
  let digits := (cs.take 3).takeWhile octalDigits.contains
  return ([← number? 8 digits], cs.drop digits.length)

/-- The code point of a character by its name in braces. -/
def readName (named : String → Option Nat) : List Char → Option (List Nat × List Char)
  | '{' :: cs =>
    match cs.dropWhile (· != '}') with
    | _ :: rest => do return ([← named (String.ofList (cs.takeWhile (· != '}')))], rest)
    | [] => none
  | _ => none

/-- What stands behind a backslash: the code points that it makes with the
backslash, and what is left. -/
def readEscape (named : String → Option Nat) : List Char → Option (List Nat × List Char)
  | [] => none
  | c :: rest =>
    match shortEscapes.find? (·.1 == c) with
    | some (_, n) => some ([n], rest)
    | none =>
      if octalDigits.contains c then readOctal (c :: rest)
      else if c == 'x' then readHex 2 rest
      else if c == 'u' then readHex 4 rest
      else if c == 'U' then readHex 8 rest
      else if c == 'N' then readName named rest
      else if lineEnds.contains c then none
      else some (['\\'.toNat, c.toNat], rest)

/-- The quotes that close a literal. -/
def closing (triple : Bool) : List Char :=
  if triple then ['"', '"', '"'] else ['"']

/-- What is left of a text that closes a literal. -/
def closed? (triple : Bool) (cs : List Char) : Option (List Char) :=
  if (closing triple).isPrefixOf cs then some (cs.drop (closing triple).length) else none

/-- An octal escape gives one value and uses up no more than the text has. This
and the next lemmas are what makes reading end: every step leaves less of the
text. -/
theorem readOctal_length {c : Char} {cs after : List Char} {values : List Nat} (hc : octalDigits.contains c = true)
    (h : readOctal (c :: cs) = some (values, after)) : values.length = 1 ∧ after.length ≤ cs.length := by
  obtain ⟨n, -, heq⟩ := Option.bind_eq_some_iff.1 h
  cases heq
  -- The first digit at least is read.
  have hdigits : ((c :: cs).take 3).takeWhile octalDigits.contains =
      c :: (cs.take 2).takeWhile octalDigits.contains := by
    rw [List.take_succ_cons, List.takeWhile_cons, if_pos hc]
  refine ⟨rfl, ?_⟩
  rw [hdigits, List.length_cons, List.drop_succ_cons, List.length_drop]
  omega

/-- An escape with a fixed number of hexadecimal digits gives one value and uses
up these digits. -/
theorem readHex_length {count : Nat} {cs after : List Char} {values : List Nat}
    (h : readHex count cs = some (values, after)) : values.length = 1 ∧ after.length ≤ cs.length := by
  obtain ⟨n, -, h⟩ := Option.bind_eq_some_iff.1 h
  split at h
  · cases h
    refine ⟨rfl, ?_⟩
    rw [List.length_drop]
    omega
  · cases h

/-- An escape by name gives one value and uses up the name with its braces. So
the value is shorter than what was read, whatever the name is. -/
theorem readName_length {named : String → Option Nat} {cs after : List Char} {values : List Nat}
    (h : readName named cs = some (values, after)) : values.length = 1 ∧ after.length ≤ cs.length := by
  unfold readName at h
  split at h
  · next cs =>
    split at h
    · next c rest hrest =>
      obtain ⟨n, -, heq⟩ := Option.bind_eq_some_iff.1 h
      cases heq
      have hdrop := congrArg List.length hrest
      have hshort := (List.dropWhile_sublist (· != '}') (l := cs)).length_le
      rw [List.length_cons] at hdrop
      refine ⟨rfl, ?_⟩
      rw [List.length_cons]
      omega
    · cases h
  · cases h

/-- An escape makes one code point of two characters or more. The kinds of
escapes are told apart by the character behind the backslash, of which there are
no others than `escapeChars`. -/
theorem readEscape_of_mem {named : String → Option Nat} {c : Char} {cs after : List Char} {values : List Nat}
    (hc : c ∈ escapeChars) (h : readEscape named (c :: cs) = some (values, after)) :
    values.length = 1 ∧ after.length ≤ cs.length := by
  rw [readEscape] at h
  cases hshort : shortEscapes.find? (·.1 == c) with
  | some p =>
    rw [hshort] at h
    cases h
    exact ⟨rfl, Nat.le_refl _⟩
  | none =>
    rw [hshort] at h
    dsimp only at h
    by_cases hoctal : octalDigits.contains c = true
    · rw [if_pos hoctal] at h
      exact readOctal_length hoctal h
    rw [if_neg hoctal] at h
    split at h
    · exact readHex_length h
    split at h
    · exact readHex_length h
    split at h
    · exact readHex_length h
    split at h
    · exact readName_length h
    next hx hu hU hN =>
    -- There is no other character that opens an escape.
    have hnone := (find?_eq_none_iff Prod.fst).1 hshort
    simp only [escapeChars, List.mem_append, List.mem_cons, List.not_mem_nil, or_false] at hc
    rcases hc with (hc | hc) | hc | hc | hc | hc
    · exact absurd hc hnone
    · exact absurd (List.contains_iff_mem.2 hc) hoctal
    · exact absurd (beq_iff_eq.2 hc) hx
    · exact absurd (beq_iff_eq.2 hc) hu
    · exact absurd (beq_iff_eq.2 hc) hU
    · exact absurd (beq_iff_eq.2 hc) hN

/-- In front of any other character a backslash stands for itself. -/
theorem readEscape_of_notMem {named : String → Option Nat} {c : Char} {cs : List Char} (hc : c ∉ escapeChars) :
    readEscape named (c :: cs) = if c ∈ lineEnds then none else some (['\\'.toNat, c.toNat], cs) := by
  simp only [escapeChars, List.mem_append, List.mem_cons, List.not_mem_nil, or_false, not_or] at hc
  obtain ⟨⟨hshort, hoctal⟩, hx, hu, hU, hN⟩ := hc
  rw [readEscape, (find?_eq_none_iff Prod.fst).2 hshort]
  simp only [List.contains_eq_mem, hoctal, hx, hu, hU, hN, beq_iff_eq, decide_false, Bool.false_eq_true, if_false,
    decide_eq_true_eq]

/-- **An escape never leaves more than it found,** and the values that it gives
are no more than the characters it used up. A backslash at the end of a line
gives none. -/
theorem readEscape_length {named : String → Option Nat} {cs after : List Char} {values : List Nat}
    (h : readEscape named cs = some (values, after)) : after.length ≤ cs.length ∧
      values.length + after.length ≤ cs.length + 1 := by
  cases cs with
  | nil => cases h
  | cons c cs =>
    rw [List.length_cons]
    by_cases hc : c ∈ escapeChars
    · obtain ⟨hone, hrest⟩ := readEscape_of_mem hc h
      omega
    · rw [readEscape_of_notMem hc] at h
      split at h
      · cases h
      · cases h
        simp only [List.length_cons, List.length_nil]
        omega

/-- The value of a literal behind its opening quotes, and what is left behind
the closing ones. -/
def readBody (named : String → Option Nat) (triple : Bool) (cs : List Char) : Option (List Nat × List Char) :=
  match closed? triple cs with
  | some rest => some ([], rest)
  | none =>
    match cs with
    | [] => none
    | c :: rest =>
      if c = '\\' then
        match hescape : readEscape named rest with
        | none => none
        | some (values, after) =>
          have := (readEscape_length hescape).1
          (readBody named triple after).map fun (more, last) => (values ++ more, last)
      else if c ∈ lineEnds then none
      else (readBody named triple rest).map fun (more, last) => (c.toNat :: more, last)
termination_by cs.length

/-- **The value of a literal**, and what is left behind it. -/
def read (named : String → Option Nat) : List Char → Option (List Nat × List Char)
  | '"' :: '"' :: '"' :: cs => readBody named true cs
  | '"' :: cs => readBody named false cs
  | _ => none

section

variable {named : String → Option Nat} {triple : Bool} {c : Char} {cs last : List Char} {values : List Nat}

/-- Quotes that close are recognized in front of anything. -/
theorem closed?_closing (triple : Bool) (cs : List Char) : closed? triple (closing triple ++ cs) = some cs := by
  rw [closed?, if_pos (List.isPrefixOf_iff_prefix.2 (List.prefix_append _ _)), List.drop_left]

/-- Nothing closes where the closing quotes do not stand in front. -/
theorem closed?_eq_none_iff : closed? triple cs = none ↔ ¬ closing triple <+: cs := by
  rw [closed?, ← List.isPrefixOf_iff_prefix]
  by_cases h : (closing triple).isPrefixOf cs = true <;> simp [h]

/-- Only a quote closes a literal. -/
theorem closed?_cons_of_ne (hc : c ≠ '"') : closed? triple (c :: cs) = none := by
  rw [closed?_eq_none_iff]
  intro hprefix
  apply hc
  cases triple
  · exact (List.cons_prefix_cons.1 hprefix).1.symm
  · exact (List.cons_prefix_cons.1 hprefix).1.symm

/-- The body ends at the quotes that close it, and what follows is not
touched. -/
theorem readBody_closing : readBody named triple (closing triple ++ cs) = some ([], cs) := by
  rw [readBody.eq_def, closed?_closing]

/-- At a backslash an escape is read, whatever follows it. It cannot be mistaken
for the end, as closing quotes have no backslash. -/
theorem readBody_escape : readBody named triple ('\\' :: cs) =
    (readEscape named cs).bind fun p => (readBody named triple p.2).map fun q => (p.1 ++ q.1, q.2) := by
  rw [readBody, closed?_cons_of_ne (by decide)]
  dsimp only
  rw [if_pos rfl]
  split
  · next hnone => rw [hnone, Option.bind_none]
  · next hsome => rw [hsome, Option.bind_some]

/-- Any other character stands for itself, unless it ends a line: literals are
read on one line only. -/
theorem readBody_cons (hclosed : closed? triple (c :: cs) = none) (hc : c ≠ '\\') :
    readBody named triple (c :: cs) =
      if c ∈ lineEnds then none else (readBody named triple cs).map fun q => (c.toNat :: q.1, q.2) := by
  rw [readBody, hclosed]
  dsimp only
  rw [if_neg hc]

/-- A literal is longer than its value, by the quotes at least. So where an
escape has made one code point of two characters, what is left cannot make up
for it, and the value is not the text. The induction is on the length, since an
escape takes several characters. -/
theorem readBody_length (h : readBody named triple cs = some (values, last)) :
    values.length + (closing triple).length + last.length ≤ cs.length := by
  -- On the length, since an escape takes several characters.
  induction hlength : cs.length using Nat.strong_induction_on generalizing cs values last with
  | _ n ih =>
    subst hlength
    cases hclosed : closed? triple cs with
    | some rest =>
      rw [readBody.eq_def, hclosed] at h
      cases h
      unfold closed? at hclosed
      split at hclosed
      · next hprefix =>
        cases hclosed
        have hshort := (List.isPrefixOf_iff_prefix.1 hprefix).length_le
        rw [List.length_nil, List.length_drop]
        omega
      · cases hclosed
    | none =>
      cases cs with
      | nil =>
        rw [readBody, hclosed] at h
        cases h
      | cons c cs =>
        by_cases hc : c = '\\'
        · subst hc
          rw [readBody_escape] at h
          obtain ⟨⟨made, after⟩, hescape, h⟩ := Option.bind_eq_some_iff.1 h
          obtain ⟨⟨more, rest⟩, hbody, heq⟩ := Option.map_eq_some_iff.1 h
          cases heq
          obtain ⟨hafter, hmade⟩ := readEscape_length hescape
          have hrest := ih after.length (by rw [List.length_cons]; omega) hbody rfl
          simp only [List.length_append, List.length_cons]
          omega
        · rw [readBody_cons hclosed hc] at h
          split at h
          · cases h
          · obtain ⟨⟨more, rest⟩, hbody, heq⟩ := Option.map_eq_some_iff.1 h
            cases heq
            have hrest := ih cs.length (by rw [List.length_cons]; omega) hbody rfl
            simp only [List.length_cons]
            omega

end

/-! ## A text as it is -/

/-- The code points of a text. -/
def codes (cs : List Char) : List Nat :=
  cs.map Char.toNat

/-- Whether a text has nothing that a literal in three quotes reads otherwise:
no end of a line, no three quotes in a row, and no escape. -/
structure Verbatim (cs : List Char) : Prop where
  oneLine : ∀ c ∈ cs, c ∉ lineEnds
  unclosed : ¬ closing true <:+: cs
  unescaped : ∀ e ∈ escapeChars, ¬ ['\\', e] <:+: cs

-- The text is searched and not the alphabet: Batteries decides a statement about all
-- characters by trying each.
instance decidableForallMem (p : Char → Prop) [DecidablePred p] (cs : List Char) : Decidable (∀ c ∈ cs, p c) :=
  List.decidableBAll p cs

instance : DecidablePred Verbatim := fun cs =>
  decidable_of_iff
    ((∀ c ∈ cs, c ∉ lineEnds) ∧ ¬ closing true <:+: cs ∧ ∀ e ∈ escapeChars, ¬ ['\\', e] <:+: cs)
    ⟨fun ⟨hline, hclosing, hescape⟩ => ⟨hline, hclosing, hescape⟩,
      fun ⟨hline, hclosing, hescape⟩ => ⟨hline, hclosing, hescape⟩⟩

/-- Parts of verbatim texts are verbatim. -/
theorem Verbatim.part {cs ds : List Char} (h : Verbatim cs) (hpart : ds <:+: cs) : Verbatim ds where
  oneLine c hc := h.oneLine c (hpart.subset hc)
  unclosed hclosing := h.unclosed (hclosing.trans hpart)
  unescaped e he hescape := h.unescaped e he (hescape.trans hpart)

/-- The empty text reads as it is. -/
theorem verbatim_nil : Verbatim [] where
  oneLine := by simp
  unclosed := by simp [closing]
  unescaped := by simp

/-- **A text reads as it is from its first character on.** The character ends no
line and starts neither closing quotes nor an escape, and what follows reads as
it is. -/
theorem verbatim_cons_iff {c : Char} {cs : List Char} : Verbatim (c :: cs) ↔
    c ∉ lineEnds ∧ ¬ closing true <+: c :: cs ∧ (∀ e ∈ escapeChars, ¬ ['\\', e] <+: c :: cs) ∧ Verbatim cs := by
  constructor
  · intro h
    refine ⟨h.oneLine c List.mem_cons_self, fun hclosing => h.unclosed hclosing.isInfix,
      fun e he hescape => h.unescaped e he hescape.isInfix, h.part (List.suffix_cons c cs).isInfix⟩
  · rintro ⟨hc, hclosing, hescape, hcs⟩
    refine ⟨List.forall_mem_cons.2 ⟨hc, hcs.oneLine⟩, fun hinfix => ?_, fun e he hinfix => ?_⟩
    · exact (List.infix_cons_iff.1 hinfix).elim hclosing hcs.unclosed
    · exact (List.infix_cons_iff.1 hinfix).elim (hescape e he) (hcs.unescaped e he)

/-- A backslash in front of a character that opens no escape changes nothing:
both characters stand for themselves, unless the second one ends the line. -/
theorem verbatim_backslash_iff {e : Char} {cs : List Char} (he : e ∉ escapeChars) :
    Verbatim ('\\' :: e :: cs) ↔ e ∉ lineEnds ∧ Verbatim cs := by
  have hquote : e ≠ '"' := fun heq => he (heq ▸ by decide)
  have hbackslash : e ≠ '\\' := fun heq => he (heq ▸ by decide)
  rw [verbatim_cons_iff, verbatim_cons_iff]
  constructor
  · rintro ⟨-, -, -, hline, -, -, hcs⟩
    exact ⟨hline, hcs⟩
  · rintro ⟨hline, hcs⟩
    refine ⟨by decide, fun h => ?_, fun e' he' h => ?_, hline, fun h => ?_, fun e' he' h => ?_, hcs⟩
    · cases (List.cons_prefix_cons.1 h).1
    · have heq := (List.cons_prefix_cons.1 (List.cons_prefix_cons.1 h).2).1
      exact he (heq ▸ he')
    · exact hquote (List.cons_prefix_cons.1 h).1.symm
    · exact hbackslash (List.cons_prefix_cons.1 h).1.symm

/-- For a character that starts neither, only the ends of lines matter. -/
theorem verbatim_char_iff {c : Char} {cs : List Char} (hclosing : ¬ closing true <+: c :: cs) (hc : c ≠ '\\') :
    Verbatim (c :: cs) ↔ c ∉ lineEnds ∧ Verbatim cs := by
  rw [verbatim_cons_iff]
  constructor
  · rintro ⟨hline, -, -, hcs⟩
    exact ⟨hline, hcs⟩
  · rintro ⟨hline, hcs⟩
    exact ⟨hline, hclosing, fun e _ h => hc (List.cons_prefix_cons.1 h).1.symm, hcs⟩

/-- Closing quotes behind a text that does not end in a quote do not close it
earlier. -/
theorem closed?_append_closing {c : Char} {cs : List Char} (after : List Char)
    (hquote : (c :: cs).getLast? ≠ some '"') (hclosing : ¬ closing true <+: c :: cs) :
    closed? true (c :: (cs ++ (closing true ++ after))) = none := by
  rw [closed?_eq_none_iff]
  intro hprefix
  have hfirst := List.cons_prefix_cons.1 hprefix
  match cs, hquote, hclosing, hfirst.2 with
  | [], hquote, _, _ =>
    rw [← hfirst.1] at hquote
    exact hquote rfl
  | [d], hquote, _, hrest =>
    rw [← (List.cons_prefix_cons.1 hrest).1] at hquote
    exact hquote rfl
  | d :: e :: more, _, hclosing, hrest =>
    have hsecond := List.cons_prefix_cons.1 hrest
    have hthird := List.cons_prefix_cons.1 hsecond.2
    apply hclosing
    rw [← hfirst.1, ← hsecond.1, ← hthird.1]
    exact ⟨more, rfl⟩

/-- Of a text around a separator, a pattern without the separator lies on one
side. The patterns in question are three quotes and the escapes, and the
separator is a space. -/
theorem infix_append_cons_iff {pattern cs ds : List Char} {s : Char} (hs : s ∉ pattern) :
    pattern <:+: cs ++ s :: ds ↔ pattern <:+: cs ∨ pattern <:+: ds := by
  constructor
  · rintro ⟨before, behind, heq⟩
    rw [List.append_assoc, List.append_eq_append_iff] at heq
    -- The pattern begins in the text before the separator, or behind it.
    rcases heq with ⟨gap, rfl, heq⟩ | ⟨gap, rfl, heq⟩
    · rcases List.append_eq_append_iff.1 heq with ⟨more, rfl, -⟩ | ⟨more, rfl, hmore⟩
      · exact .inl ⟨before, more, by rw [List.append_assoc]⟩
      · cases more with
        | nil => exact .inl ⟨before, [], by simp⟩
        | cons x more =>
          obtain rfl := (List.cons.inj hmore).1
          exact absurd (by simp) hs
    · cases gap with
      | nil =>
        obtain _ | ⟨x, pattern⟩ := pattern
        · exact .inl (List.nil_infix)
        · obtain rfl := (List.cons.inj heq).1
          exact absurd List.mem_cons_self hs
      | cons x gap =>
        exact .inr ⟨gap, behind, by rw [List.append_assoc]; exact (List.cons.inj heq).2.symm⟩
  · rintro (h | h)
    · exact h.trans (List.prefix_append _ _).isInfix
    · exact h.trans ⟨cs ++ [s], [], by simp⟩

/-- Texts with a space between them are verbatim if each of them is. A space is
in no escape and no quotes, so nothing goes across it. -/
theorem verbatim_spaced_iff {cs ds : List Char} : Verbatim (cs ++ ' ' :: ds) ↔ Verbatim cs ∧ Verbatim ds := by
  have hescapes : ∀ e ∈ escapeChars, ' ' ∉ ['\\', e] := by decide
  constructor
  · exact fun h => ⟨h.part (List.prefix_append _ _).isInfix, h.part ⟨cs ++ [' '], [], by simp⟩⟩
  · rintro ⟨hcs, hds⟩
    refine ⟨fun c hc => ?_, fun hin => ?_, fun e he hin => ?_⟩
    · rcases List.mem_append.1 hc with hc | hc
      · exact hcs.oneLine c hc
      · rcases List.mem_cons.1 hc with rfl | hc
        · decide
        · exact hds.oneLine c hc
    · exact ((infix_append_cons_iff (by decide)).1 hin).elim hcs.unclosed hds.unclosed
    · exact ((infix_append_cons_iff (hescapes e he)).1 hin).elim (hcs.unescaped e he) (hds.unescaped e he)

/-- What a longer text does not end in, a shorter one with the same end does not
either. -/
theorem getLast?_ne_of_cons {c x : Char} {cs : List Char} (h : (c :: cs).getLast? ≠ some x) : cs.getLast? ≠ some x := by
  cases cs with
  | nil => simp
  | cons d cs => rwa [List.getLast?_cons_cons] at h

/-- Values in front can be taken off on both sides. -/
theorem map_prepend_iff {x : Option (List Nat × List Char)} {made values : List Nat} {last : List Char} :
    (x.map fun q => (made ++ q.1, q.2)) = some (made ++ values, last) ↔ x = some (values, last) := by
  rw [Option.map_eq_some_iff]
  constructor
  · rintro ⟨⟨more, rest⟩, rfl, heq⟩
    obtain ⟨hvalues, hlast⟩ := Prod.mk.inj heq
    exact congrArg some (Prod.ext (List.append_cancel_left hvalues) hlast)
  · intro h
    exact ⟨_, h, rfl⟩

/-- **A text between three quotes reads as itself exactly if it is verbatim**,
if it does not end in a quote or a backslash. What stands behind the quotes does
not matter. -/
theorem readBody_triple_iff {named : String → Option Nat} {cs : List Char} (after : List Char)
    (hquote : cs.getLast? ≠ some '"') (hbackslash : cs.getLast? ≠ some '\\') :
    readBody named true (cs ++ (closing true ++ after)) = some (codes cs, after) ↔ Verbatim cs := by
  -- On the length, because a backslash is read together with what stands behind it.
  induction hlength : cs.length using Nat.strong_induction_on generalizing cs with
  | _ n ih =>
    subst hlength
    cases cs with
    | nil => exact ⟨fun _ => verbatim_nil, fun _ => readBody_closing⟩
    | cons c cs =>
    by_cases hclosing : closing true <+: c :: cs
    · -- The literal closes before its first character.
      constructor
      · intro h
        obtain ⟨more, hmore⟩ := hclosing
        rw [← hmore, List.append_assoc, readBody_closing] at h
        cases congrArg Prod.fst (Option.some.inj h)
      · exact fun h => absurd hclosing (verbatim_cons_iff.1 h).2.1
    have hopen := closed?_append_closing after hquote hclosing
    have hquote' := getLast?_ne_of_cons hquote
    have hbackslash' := getLast?_ne_of_cons hbackslash
    by_cases hc : c = '\\'
    · subst hc
      cases cs with
      | nil => exact absurd rfl hbackslash
      | cons e cs =>
      rw [List.cons_append, readBody_escape, List.cons_append]
      by_cases he : e ∈ escapeChars
      · -- The escape makes the value shorter than the text.
        refine ⟨fun h => ?_, fun h => absurd ⟨cs, rfl⟩ ((verbatim_cons_iff.1 h).2.2.1 e he)⟩
        obtain ⟨⟨made, left⟩, hescape, h⟩ := Option.bind_eq_some_iff.1 h
        obtain ⟨⟨more, rest⟩, hbody, heq⟩ := Option.map_eq_some_iff.1 h
        obtain ⟨hone, hleft⟩ := readEscape_of_mem he hescape
        have hmore := readBody_length hbody
        obtain ⟨hvalue, rfl⟩ := Prod.mk.inj heq
        have hvalue := congrArg List.length hvalue
        simp only [codes, closing, if_true, List.length_append, List.length_map, List.length_cons,
          List.length_nil] at hleft hmore hvalue
        omega
      · rw [readEscape_of_notMem he, verbatim_backslash_iff he]
        by_cases hline : e ∈ lineEnds
        · rw [if_pos hline]
          exact ⟨nofun, fun h => absurd hline h.1⟩
        · have hrest := ih cs.length (by simp only [List.length_cons]; omega) (getLast?_ne_of_cons hquote')
            (getLast?_ne_of_cons hbackslash') rfl
          rw [if_neg hline, Option.bind_some, ← hrest, and_iff_right hline]
          exact map_prepend_iff
    · rw [verbatim_char_iff hclosing hc, List.cons_append, readBody_cons hopen hc]
      by_cases hline : c ∈ lineEnds
      · rw [if_pos hline]
        exact ⟨nofun, fun h => absurd hline h.1⟩
      · have hrest := ih cs.length (by rw [List.length_cons]; omega) hquote' hbackslash' rfl
        rw [if_neg hline, ← hrest, and_iff_right hline]
        exact @map_prepend_iff _ [c.toNat] _ _

/-! ## Hexadecimal digits -/

/-- Numbers are read digit by digit from the left. -/
theorem number?_append_singleton {base : Nat} {cs : List Char} {c : Char} :
    number? base (cs ++ [c]) = (number? base cs).bind fun n => (Bytes.hexValue? c).map (base * n + ·) := by
  simp only [number?, List.foldlM_append, List.foldlM_cons, List.foldlM_nil, bind_pure]
  rfl

/-- Zeros in front do not count, which is why numbers may be padded with
them. -/
theorem number?_replicate_zero {base k : Nat} {cs : List Char} :
    number? base (List.replicate k '0' ++ cs) = number? base cs := by
  induction k with
  | zero => rfl
  | succ k ih =>
    rw [← ih, List.replicate_succ, List.cons_append, number?, List.foldlM_cons]
    rfl

/-- A digit that was written is read back. -/
theorem hexValue?_digitChar {n : Nat} (h : n < 16) : Bytes.hexValue? n.digitChar = some n := by
  have hall : ∀ i : Fin 16, Bytes.hexValue? (Nat.digitChar i) = some i.1 := by decide
  exact hall ⟨n, h⟩

/-- A number that was written in digits is read back. The induction takes off
the last digit, as writing does. -/
theorem number?_toDigits (n : Nat) : number? 16 (Nat.toDigits 16 n) = some n := by
  induction n using Nat.strong_induction_on with
  | _ n ih =>
    rw [Nat.toDigits_eq_if (by decide)]
    split
    · next h =>
      have hdigit : number? 16 ([] ++ [n.digitChar]) = some n := by
        rw [number?_append_singleton, hexValue?_digitChar h]
        exact congrArg some (Nat.zero_add n)
      exact hdigit
    · next h =>
      rw [number?_append_singleton, ih (n / 16) (by omega), hexValue?_digitChar (Nat.mod_lt _ (by decide)),
        Option.bind_some, Option.map_some, Nat.div_add_mod]

/-- A number that was padded is read back. -/
theorem number?_hexPadded (width n : Nat) : number? 16 (Text.hexPadded width n) = some n := by
  rw [Text.hexPadded, number?_replicate_zero, number?_toDigits]

/-- A number that fits in a width has this width when it is padded, no more and
no less. -/
theorem length_hexPadded {width n : Nat} (hwidth : 0 < width) (h : n < 16 ^ width) :
    (Text.hexPadded width n).length = width := by
  have hshort := (Nat.length_toDigits_le_iff (by decide) hwidth).2 h
  rw [Text.hexPadded, List.length_append, List.length_replicate]
  omega

/-- Four digits of a unit are read back as the unit, whatever stands behind
them. -/
theorem readHex_hexPadded {n : Nat} (h : n < 0x10000) (cs : List Char) :
    readHex 4 (Text.hexPadded 4 n ++ cs) = some ([n], cs) := by
  have hlength : (Text.hexPadded 4 n).length = 4 := length_hexPadded (by decide) h
  rw [readHex, List.take_left' hlength, number?_hexPadded, List.drop_left' hlength, List.length_append, hlength]
  exact if_pos ⟨by omega, by omega⟩

/-! ## JSON literals -/

section

variable {named : String → Option Nat} {triple : Bool} {cs : List Char}

/-- The short escapes, of a backslash and a letter, are read as what they stand
for. -/
theorem readBody_shortEscape {p : Char × Nat} (h : p ∈ shortEscapes) : readBody named triple ('\\' :: p.1 :: cs) =
    (readBody named triple cs).map fun q => (p.2 :: q.1, q.2) := by
  have hfind : ∀ p ∈ shortEscapes, shortEscapes.find? (·.1 == p.1) = some p := by decide
  rw [readBody_escape, readEscape, hfind p h]
  rfl

/-- Escapes of units are read one after the other, each as a value of its own:
the reader does not put halves of a pair together. -/
theorem readBody_units {units : List Nat} (h : ∀ n ∈ units, n < 0x10000) :
    readBody named triple ((units.flatMap fun n => '\\' :: 'u' :: Text.hexPadded 4 n) ++ cs) =
      (readBody named triple cs).map fun q => (units ++ q.1, q.2) := by
  induction units with
  | nil => exact (congrFun Option.map_id _).symm
  | cons n units ih =>
    have hfirst : readEscape named ('u' :: (Text.hexPadded 4 n ++
        ((units.flatMap fun n => '\\' :: 'u' :: Text.hexPadded 4 n) ++ cs))) =
          some ([n], (units.flatMap fun n => '\\' :: 'u' :: Text.hexPadded 4 n) ++ cs) :=
      readHex_hexPadded (h n List.mem_cons_self) _
    simp only [List.flatMap_cons, List.cons_append, List.append_assoc]
    rw [readBody_escape, hfirst, Option.bind_some, ih fun n hn => h n (List.mem_cons_of_mem _ hn), Option.map_map]
    rfl

/-- A character is below the surrogates or above them. -/
theorem toNat_valid (c : Char) : c.toNat < 0xd800 ∨ 0xdfff < c.toNat ∧ c.toNat < 0x110000 :=
  c.valid

/-- A character of the first plane is one unit. -/
theorem utf16Units_of_lt {c : Char} (h : c.toNat < 0x10000) : Text.utf16Units c = [c.toNat] :=
  if_pos h

/-- A character of any other plane is two, the halves of a surrogate pair. -/
theorem utf16Units_of_ge {c : Char} (h : ¬ c.toNat < 0x10000) : Text.utf16Units c =
    [0xd800 + (c.toNat - 0x10000) / 0x400, 0xdc00 + (c.toNat - 0x10000) % 0x400] :=
  if_neg h

/-- Units have sixteen bits, so that four digits are enough for each. -/
theorem utf16Units_lt {c : Char} : ∀ n ∈ Text.utf16Units c, n < 0x10000 := by
  intro n hn
  have hvalid := toNat_valid c
  by_cases h : c.toNat < 0x10000
  · rw [utf16Units_of_lt h, List.mem_singleton] at hn
    omega
  · simp only [utf16Units_of_ge h, List.mem_cons, List.not_mem_nil, or_false] at hn
    omega

/-- A character is at least one unit. -/
theorem utf16Units_ne_nil (c : Char) : Text.utf16Units c ≠ [] := by
  unfold Text.utf16Units
  dsimp only
  split <;> exact List.cons_ne_nil _ _

/-- A character in a JSON literal, in three ways: as a short escape, as it is,
or as its units. The first two are read again as the character; of units there
may be two, and a reader of literals makes two code points of them. -/
theorem jsonEscapeChar_cases (c : Char) :
    ((∃ p ∈ shortEscapes, Text.jsonEscapeChar c = ['\\', p.1] ∧ p.2 = c.toNat) ∧ c.toNat < 0x10000) ∨
    (Text.jsonEscapeChar c = [c] ∧ c ≠ '"' ∧ c ≠ '\\' ∧ 0x20 ≤ c.toNat ∧ c.toNat < 0x7f) ∨
    (Text.jsonEscapeChar c = (Text.utf16Units c).flatMap fun n => '\\' :: 'u' :: Text.hexPadded 4 n) := by
  unfold Text.jsonEscapeChar
  split
  · next h =>
    left
    rcases Bool.or_eq_true_iff.1 h with h | h <;> obtain rfl := beq_iff_eq.1 h
    · exact ⟨⟨('"', 0x22), by decide, rfl, rfl⟩, by decide⟩
    · exact ⟨⟨('\\', 0x5c), by decide, rfl, rfl⟩, by decide⟩
  next hplain =>
  split
  · next h => exact .inl (beq_iff_eq.1 h ▸ ⟨⟨('n', 0x0a), by decide, rfl, rfl⟩, by decide⟩)
  split
  · next h => exact .inl (beq_iff_eq.1 h ▸ ⟨⟨('r', 0x0d), by decide, rfl, rfl⟩, by decide⟩)
  split
  · next h => exact .inl (beq_iff_eq.1 h ▸ ⟨⟨('t', 0x09), by decide, rfl, rfl⟩, by decide⟩)
  split
  · next h => exact .inl (beq_iff_eq.1 h ▸ ⟨⟨('b', 0x08), by decide, rfl, rfl⟩, by decide⟩)
  split
  · next h => exact .inl (beq_iff_eq.1 h ▸ ⟨⟨('f', 0x0c), by decide, rfl, rfl⟩, by decide⟩)
  simp only [Bool.or_eq_true, beq_iff_eq, not_or] at hplain
  split
  · next h =>
    simp only [Bool.and_eq_true, decide_eq_true_eq] at h
    exact .inr (.inl ⟨rfl, hplain.1, hplain.2, h.1, h.2⟩)
  · exact .inr (.inr rfl)

/-- **A character that was escaped for JSON is read as its units.** Most
characters stand for themselves and are one unit; the short escapes stand for
one too; and what is escaped by its digits is one unit or two. That it may be
two is what goes wrong with such a literal: it is read as two characters
then. -/
theorem readBody_jsonEscape (c : Char) : readBody named false (Text.jsonEscapeChar c ++ cs) =
    (readBody named false cs).map fun q => (Text.utf16Units c ++ q.1, q.2) := by
  rcases jsonEscapeChar_cases c with ⟨⟨p, hp, heq, hcode⟩, hlt⟩ | ⟨heq, hquote, hbackslash, hlow, hhigh⟩ | heq
  · rw [heq, utf16Units_of_lt hlt, ← hcode]
    exact readBody_shortEscape hp
  · have hline : c ∉ lineEnds := by
      intro hc
      have hall : ∀ c ∈ lineEnds, c.toNat < 0x20 := by decide
      exact absurd (hall c hc) (by omega)
    rw [heq, utf16Units_of_lt (by omega)]
    show readBody named false (c :: cs) = _
    rw [readBody_cons (closed?_cons_of_ne hquote) hbackslash, if_neg hline]
    rfl
  · rw [heq, readBody_units utf16Units_lt]

/-- **A text in JSON escapes reads as its UTF-16 units.** -/
theorem readBody_jsonEscapes (cs after : List Char) :
    readBody named false (cs.flatMap Text.jsonEscapeChar ++ '"' :: after) =
      some (cs.flatMap Text.utf16Units, after) := by
  induction cs with
  | nil => exact readBody_closing
  | cons c cs ih => rw [List.flatMap_cons, List.append_assoc, readBody_jsonEscape, ih, List.flatMap_cons]; rfl

end

/-- No character is in the way of the quotes: an escaped text does not begin
with one. -/
theorem jsonEscapeChar_cons (c : Char) : ∃ d ds, Text.jsonEscapeChar c = d :: ds ∧ d ≠ '"' := by
  rcases jsonEscapeChar_cases c with ⟨⟨p, -, heq, -⟩, -⟩ | ⟨heq, hquote, -⟩ | heq
  · exact ⟨_, _, heq, by decide⟩
  · exact ⟨_, _, heq, hquote⟩
  · obtain ⟨n, units, hunits⟩ := List.exists_cons_of_ne_nil (utf16Units_ne_nil c)
    rw [hunits, List.flatMap_cons, List.cons_append] at heq
    exact ⟨_, _, heq, by decide⟩

/-- A literal that does not start with three quotes is closed by one. -/
theorem read_single {named : String → Option Nat} {cs : List Char} (h : ¬ ['"', '"'] <+: cs) :
    read named ('"' :: cs) = readBody named false cs := by
  unfold read
  split
  · next heq =>
    cases heq
    exact absurd ⟨_, rfl⟩ h
  · next heq =>
    cases heq
    rfl
  · next hnone => exact absurd rfl (hnone cs)

/-- **A JSON literal reads as the units of its text.** What follows is no quote,
so that the literal of the empty text does not open three. -/
theorem read_jsonLiteral {named : String → Option Nat} {after : List Char} (s : String) (h : after.head? ≠ some '"') :
    read named ((Text.jsonLiteral s).toList ++ after) = some (s.toList.flatMap Text.utf16Units, after) := by
  have hchars : (Text.jsonLiteral s).toList ++ after =
      '"' :: (s.toList.flatMap Text.jsonEscapeChar ++ '"' :: after) := by
    rw [Text.jsonLiteral, String.toList_ofList, List.cons_append, List.cons_append, List.append_assoc]
    rfl
  rw [hchars, read_single, readBody_jsonEscapes]
  cases s.toList with
  | nil =>
    intro hprefix
    obtain ⟨more, rfl⟩ := (List.cons_prefix_cons.1 hprefix).2
    exact h rfl
  | cons c cs =>
    obtain ⟨d, ds, heq, hd⟩ := jsonEscapeChar_cons c
    rw [List.flatMap_cons, heq]
    exact fun hprefix => hd (List.cons_prefix_cons.1 hprefix).1.symm

/-! ## Units and code points -/

/-- The units of a character tell it apart, with anything behind them. The first
unit says whether there is a second one, as the halves of a pair are no
characters. -/
theorem utf16Units_append_inj {c d : Char} {xs ys : List Nat}
    (h : Text.utf16Units c ++ xs = Text.utf16Units d ++ ys) : c = d ∧ xs = ys := by
  have hc := toNat_valid c
  have hd := toNat_valid d
  -- No character stands where the first units of pairs are.
  by_cases hshort : c.toNat < 0x10000 <;> by_cases hshort' : d.toNat < 0x10000
  · rw [utf16Units_of_lt hshort, utf16Units_of_lt hshort'] at h
    obtain ⟨heq, hrest⟩ := List.cons.inj h
    exact ⟨Char.toNat_inj.1 heq, hrest⟩
  · rw [utf16Units_of_lt hshort, utf16Units_of_ge hshort'] at h
    have heq := (List.cons.inj h).1
    omega
  · rw [utf16Units_of_ge hshort, utf16Units_of_lt hshort'] at h
    have heq := (List.cons.inj h).1
    omega
  · rw [utf16Units_of_ge hshort, utf16Units_of_ge hshort'] at h
    obtain ⟨hhigh, h⟩ := List.cons.inj h
    obtain ⟨hlow, hrest⟩ := List.cons.inj h
    exact ⟨Char.toNat_inj.1 (by omega), hrest⟩

/-- **Units tell texts apart.** Character by character, since the units of each
one end where those of the next one begin. The keys of the table of selectors
are compared by this. -/
theorem utf16_injective {cs ds : List Char} (h : cs.flatMap Text.utf16Units = ds.flatMap Text.utf16Units) :
    cs = ds := by
  induction cs generalizing ds with
  | nil =>
    cases ds with
    | nil => rfl
    | cons d ds => exact absurd (List.append_eq_nil_iff.1 h.symm).1 (utf16Units_ne_nil d)
  | cons c cs ih =>
    cases ds with
    | nil => exact absurd (List.append_eq_nil_iff.1 h).1 (utf16Units_ne_nil c)
    | cons d ds =>
      obtain ⟨rfl, hrest⟩ := utf16Units_append_inj h
      rw [ih hrest]

/-- **The units of a text are its code points** exactly if each character is one
unit. -/
theorem utf16_eq_codes_iff {cs : List Char} :
    cs.flatMap Text.utf16Units = codes cs ↔ ∀ c ∈ cs, c.toNat < 0x10000 := by
  induction cs with
  | nil => exact ⟨fun _ c hc => absurd hc List.not_mem_nil, fun _ => rfl⟩
  | cons c cs ih =>
    rw [List.flatMap_cons, List.forall_mem_cons, ← ih]
    by_cases h : c.toNat < 0x10000
    · rw [utf16Units_of_lt h, and_iff_right h]
      exact List.cons_inj_right _
    · refine ⟨fun heq => ?_, fun hall => absurd hall.1 h⟩
      rw [utf16Units_of_ge h] at heq
      have hvalid := toNat_valid c
      have hfirst : _ = c.toNat := (List.cons.inj heq).1
      omega

/-! ## ASCII -/

/-- Whether a character is printable ASCII. -/
def Ascii (c : Char) : Prop :=
  0x20 ≤ c.toNat ∧ c.toNat < 0x7f

instance : DecidablePred Ascii := fun c => inferInstanceAs (Decidable (0x20 ≤ c.toNat ∧ c.toNat < 0x7f))

/-- Digits are ASCII characters. -/
theorem ascii_toDigits (n : Nat) : ∀ c ∈ Nat.toDigits 16 n, Ascii c := by
  have hdigit : ∀ i : Fin 16, Ascii (Nat.digitChar i) := by decide
  induction n using Nat.strong_induction_on with
  | _ n ih =>
    rw [Nat.toDigits_eq_if (by decide)]
    split
    · next h => exact List.forall_mem_singleton.2 (hdigit ⟨n, h⟩)
    · next h =>
      rw [List.forall_mem_append]
      exact ⟨ih (n / 16) (by omega), List.forall_mem_singleton.2 (hdigit ⟨n % 16, Nat.mod_lt _ (by decide)⟩)⟩

/-- Padded digits are ASCII characters. -/
theorem ascii_hexPadded (width n : Nat) : ∀ c ∈ Text.hexPadded width n, Ascii c := by
  rw [Text.hexPadded, List.forall_mem_append]
  refine ⟨fun c hc => ?_, ascii_toDigits n⟩
  rw [(List.mem_replicate.1 hc).2]
  decide

/-- Whatever a character is escaped to is ASCII. A literal for JSON therefore
has no character in it that Python could read in another way. -/
theorem ascii_jsonEscapeChar (c : Char) : ∀ d ∈ Text.jsonEscapeChar c, Ascii d := by
  rcases jsonEscapeChar_cases c with ⟨⟨p, hp, heq, -⟩, -⟩ | ⟨heq, -, -, hrange⟩ | heq
  · have hall : ∀ p ∈ shortEscapes, Ascii p.1 := by decide
    rw [heq, List.forall_mem_cons, List.forall_mem_singleton]
    exact ⟨by decide, hall p hp⟩
  · rw [heq, List.forall_mem_singleton]
    exact hrange
  · rw [heq, List.forall_mem_flatMap]
    intro n _
    rw [List.forall_mem_cons, List.forall_mem_cons]
    exact ⟨by decide, by decide, ascii_hexPadded 4 n⟩

/-- **A JSON literal is printable ASCII**, so it is on one line. -/
theorem ascii_jsonLiteral (s : String) : ∀ c ∈ (Text.jsonLiteral s).toList, Ascii c := by
  rw [Text.jsonLiteral, String.toList_ofList, List.forall_mem_append, List.forall_mem_cons, List.forall_mem_flatMap,
    List.forall_mem_singleton]
  exact ⟨⟨by decide, fun c _ => ascii_jsonEscapeChar c⟩, by decide⟩

end ContractClient.Literal
