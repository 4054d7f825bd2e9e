/-
Docstrings, read again.

The lines of a docstring are one literal in three quotes. It is read in two
steps. First the end of the literal is looked for, and a backslash keeps the
character behind it from counting: `scan`. Then the escapes are undone, as
Python undoes them: `unescape`. What comes out is the documentation as it is
laid out below the opening quotes, `laidOut`.

Both steps undo what escaping does, and escaping and laying out do not get into
each other's way: the one changes quotes and backslashes, the other one line
breaks, and what the layout puts in is made of neither. So the text between the
quotes is the escaped layout, `escape_laid`, and all that is left is its end: a
text in front of the closing quotes must not end in a quote.

A null character is not looked at here. No source may have one, inside of
literals or elsewhere, and a module that would get one from its document is
refused as a whole.
-/
import ContractClient.Client.Docstring
import ContractClient.Proofs.Text.Literal

set_option autoImplicit false

namespace ContractClient

namespace Literal

/-! ## Reading several lines -/

/-- What stands in front of the first three quotes in a row that count, and what
stands behind them. -/
def scan : List Char → Option (List Char × List Char)
  | '"' :: '"' :: '"' :: rest => some ([], rest)
  | '\\' :: c :: rest => (scan rest).map fun p => ('\\' :: c :: p.1, p.2)
  | c :: rest => (scan rest).map fun p => (c :: p.1, p.2)
  | [] => none

/-- The code points that the text of a literal stands for. -/
def unescape (named : String → Option Nat) : List Char → Option (List Nat)
  | [] => some []
  | c :: rest =>
    if c = '\\' then
      match hescape : readEscape named rest with
      | none => none
      | some (values, after) =>
        have := (readEscape_length hescape).1
        (unescape named after).map (values ++ ·)
    else (unescape named rest).map (c.toNat :: ·)
termination_by cs => cs.length

section

variable {named : String → Option Nat} {c : Char} {cs : List Char}

-- Made here once, the equations of reading and escaping are at hand wherever one of the
-- two is unfolded.
attribute [local simp] scan unescape Docstring.escape in
/-- A backslash starts an escape; what is left of the text behind it is read on.
The values of the escape come in front, and there may be none of them. -/
theorem unescape_backslash : unescape named ('\\' :: cs) =
    (readEscape named cs).bind fun p => (unescape named p.2).map (p.1 ++ ·) := by
  rw [unescape, if_pos rfl]
  split
  · next hnone => simp only [hnone, Option.bind_none]
  · next hsome => simp only [hsome, Option.bind_some]

/-- Any other character stands for itself. -/
theorem unescape_cons (hc : c ≠ '\\') : unescape named (c :: cs) = (unescape named cs).map (c.toNat :: ·) := by
  rw [unescape, if_neg hc]

/-- A backslash in front of a backslash or a quote is an escape for it. -/
theorem unescape_escaped (hc : c = '\\' ∨ c = '"') :
    unescape named ('\\' :: c :: cs) = (unescape named cs).map (c.toNat :: ·) := by
  have hread : readEscape named (c :: cs) = some ([c.toNat], cs) := by
    rcases hc with rfl | rfl <;> rfl
  rw [unescape_backslash, hread]
  rfl

end

end Literal

namespace Docstring

open Literal

/-! ## Escaping -/

/-- Whether escaping leaves a character alone wherever it stands. -/
def Plain (c : Char) : Prop :=
  c ≠ '"' ∧ c ≠ '\\'

/-- Characters that are nothing special are left alone. -/
theorem escape_cons_plain {c : Char} {cs : List Char} (hc : Plain c) : escape (c :: cs) = c :: escape cs := by
  rw [escape]
  · exact hc.2
  · exact fun _ heq => absurd heq hc.1

/-- An escaped text opens with its first character or with a backslash. The
backslash is put in front of backslashes, and of quotes that would be one of
three. -/
theorem escape_cons_cases (c : Char) (cs : List Char) :
    (¬ Plain c ∧ ∃ ds, escape (c :: cs) = '\\' :: ds) ∨ escape (c :: cs) = c :: escape cs := by
  by_cases hplain : Plain c
  · exact .inr (escape_cons_plain hplain)
  by_cases hbackslash : c = '\\'
  · subst hbackslash
    exact .inl ⟨hplain, _, rfl⟩
  -- What is left is a quote, and it is escaped if it opens three.
  by_cases hquotes : ∃ rest, c = '"' ∧ cs = '"' :: '"' :: rest
  · obtain ⟨rest, rfl, rfl⟩ := hquotes
    exact .inl ⟨hplain, _, rfl⟩
  · refine .inr (escape.eq_4 c cs hbackslash fun rest hc heq => ?_)
    exact hquotes ⟨rest, hc, heq⟩

/-- Escaping keeps the last character. -/
theorem getLast?_escape (cs : List Char) : (escape cs).getLast? = cs.getLast? := by
  fun_induction escape cs with
  | case1 => rfl
  | case2 rest ih => simp only [List.getLast?_cons, ih, Option.getD_some]
  | case3 rest ih => simp only [List.getLast?_cons, ih, Option.getD_some]
  | case4 c rest _ _ ih => simp only [List.getLast?_cons, ih]

/-- What stands in front of a plain character is escaped on its own. A plain
character is no backslash and no quote, so no three quotes go across it. -/
theorem escape_append_plain {c : Char} (hc : Plain c) (cs ds : List Char) :
    escape (cs ++ c :: ds) = escape cs ++ c :: escape ds := by
  fun_induction escape cs with
  | case1 => exact escape_cons_plain hc
  | case2 rest ih => simp only [List.cons_append, escape, ih]
  | case3 rest ih => simp only [List.cons_append, escape, ih]
  | case4 e rest hbackslash hquotes ih =>
    rw [List.cons_append, escape, ih, List.cons_append]
    · exact hbackslash
    · -- Three quotes in a row cannot reach over the plain character.
      intro more he heq
      match rest, heq with
      | [], heq => exact hc.1 (List.cons.inj heq).1
      | [_], heq => exact hc.1 (List.cons.inj (List.cons.inj heq).2).1
      | d :: e :: rest, heq =>
        obtain ⟨hd, heq⟩ := List.cons.inj heq
        have he' := (List.cons.inj heq).1
        exact hquotes rest he (by rw [hd, he'])

/-- Escaping passes over a run of plain characters. Quotes are looked at three
at a time, so this would not hold for the text in front in general. -/
theorem escape_plain_append {cs : List Char} (hplain : ∀ c ∈ cs, Plain c) (ds : List Char) :
    escape (cs ++ ds) = cs ++ escape ds := by
  induction cs with
  | nil => rfl
  | cons c cs ih =>
    obtain ⟨hc, hcs⟩ := List.forall_mem_cons.1 hplain
    rw [List.cons_append, escape_cons_plain hc, ih hcs, List.cons_append]

/-- A plain text is its own escape. -/
theorem escape_plain {cs : List Char} (hplain : ∀ c ∈ cs, Plain c) : escape cs = cs := by
  have h := escape_plain_append hplain []
  rwa [List.append_nil, escape, List.append_nil] at h

/-- The blank at the end can be put in front of the escaping. -/
theorem guardEnd_escape (cs : List Char) : guardEnd (escape cs) = escape (guardEnd cs) := by
  unfold guardEnd
  rw [getLast?_escape]
  split
  · rw [escape_append_plain ⟨by decide, by decide⟩, escape]
  · rfl

/-- What guards the end of a docstring only adds to it, so nothing of the text
is lost. -/
theorem prefix_guardEnd (cs : List Char) : cs <+: guardEnd cs := by
  unfold guardEnd
  split
  · exact List.prefix_append _ _
  · exact List.prefix_rfl

/-- **A guarded text does not end with a quote.** A quote at the end would run
together with the three that close the docstring, and the scan would stop one
character too early. -/
theorem getLast?_guardEnd (cs : List Char) : (guardEnd cs).getLast? ≠ some '"' := by
  unfold guardEnd
  split
  · rw [List.getLast?_append_cons]
    exact fun h => absurd (Option.some.inj h) (by decide)
  · next h => exact fun hlast => h (beq_iff_eq.2 hlast)

/-! ## Reading what was escaped -/

/-- **Escapes are undone.** A backslash was put in front of backslashes and of
three quotes, which stand for themselves behind one; all else is as it was. -/
theorem unescape_escape (named : String → Option Nat) (cs : List Char) :
    unescape named (escape cs) = some (codes cs) := by
  fun_induction escape cs with
  | case1 => rw [unescape]; rfl
  | case2 rest ih =>
    rw [unescape_escaped (.inl rfl), ih]
    rfl
  | case3 rest ih =>
    rw [unescape_escaped (.inr rfl), unescape_escaped (.inr rfl), unescape_escaped (.inr rfl), ih]
    rfl
  | case4 c rest hbackslash _ ih =>
    rw [unescape_cons hbackslash, ih]
    rfl

/-- Where a text does not have three quotes in a row and does not end in one,
escaping and closing it does not make three. -/
theorem escape_not_closing {cs more : List Char} (hlast : ('"' :: cs).getLast? ≠ some '"')
    (hquotes : ∀ rest, cs ≠ '"' :: '"' :: rest) : ∀ rest, escape cs ++ more ≠ '"' :: '"' :: rest := by
  intro rest heq
  match cs with
  | [] => exact hlast rfl
  | d :: ds =>
    rcases escape_cons_cases d ds with ⟨-, es, hd⟩ | hd
    · rw [hd] at heq
      exact absurd (List.cons.inj heq).1 (by decide)
    · rw [hd] at heq
      obtain ⟨hquote, hnext⟩ := List.cons.inj heq
      subst hquote
      cases ds with
      | nil => exact hlast rfl
      | cons e es =>
        rcases escape_cons_cases e es with ⟨-, fs, he⟩ | he
        · rw [he] at hnext
          exact absurd (List.cons.inj hnext).1 (by decide)
        · rw [he] at hnext
          exact hquotes es (by rw [(List.cons.inj hnext).1])

/-- **The literal ends where it was closed.** Within an escaped text there are
no three quotes in a row, and a quote at its end would be taken for one of the
closing three, so `hlast` is needed. The induction is along the escaping. -/
theorem scan_escape {cs : List Char} (hlast : cs.getLast? ≠ some '"') (more : List Char) :
    scan (escape cs ++ (closing true ++ more)) = some (escape cs, more) := by
  -- The induction is along the escaping; what is left of a text has the last character of
  -- the text.
  fun_induction escape cs with
  | case1 => rfl
  | case2 rest ih =>
    have hrest : rest.getLast? ≠ some '"' := by
      intro h
      apply hlast
      rw [List.getLast?_cons, h, Option.getD_some]
    simp only [List.cons_append, scan, ih hrest, Option.map_some]
  | case3 rest ih =>
    have hrest : rest.getLast? ≠ some '"' := by
      intro h
      apply hlast
      simp only [List.getLast?_cons, h, Option.getD_some]
    simp only [List.cons_append, scan, ih hrest, Option.map_some]
  | case4 c rest hbackslash hquotes ih =>
    have hrest : rest.getLast? ≠ some '"' := by
      intro h
      apply hlast
      rw [List.getLast?_cons, h, Option.getD_some]
    rw [List.cons_append, scan, ih hrest]
    · rfl
    · intro ds hc
      subst hc
      exact escape_not_closing hlast (fun ds heq => hquotes ds rfl heq) ds
    · exact fun _ _ hc => absurd hc hbackslash

/-! ## Laying out -/

/-- What is put in front of the line that a text opens with: nothing if this
line is empty. -/
def margin (indent : List Char) : List Char → List Char
  | [] => []
  | c :: _ => if Text.isLineBreak c then [] else indent

/-- A text with a line feed for each of its line breaks, and the indent in front
of all lines but the first and the empty ones. -/
def laid (indent : List Char) : List Char → List Char
  | '\r' :: '\n' :: rest => '\n' :: (margin indent rest ++ laid indent rest)
  | c :: rest =>
    if Text.isLineBreak c then '\n' :: (margin indent rest ++ laid indent rest) else c :: laid indent rest
  | [] => []

/-- What stands behind the last line: the closing quotes of several lines are on
a line of their own. -/
def lastLine (indent cs : List Char) : List Char :=
  if cs.any Text.isLineBreak then '\n' :: indent else []

/-- **The documentation as it is laid out**: without the blanks around its
pieces, with a blank behind a quote at its end, line by line behind the
indent. -/
def laidOut (indent : List Char) (docs : List String) : List Char :=
  let cs := guardEnd (text docs).toList
  laid indent cs ++ lastLine indent cs

/-- A line break is nothing special to escaping: it is neither a quote nor a
backslash. -/
theorem plain_of_isLineBreak {c : Char} (h : Text.isLineBreak c = true) : Plain c := by
  constructor
  · rintro rfl
    exact absurd h (by decide)
  · rintro rfl
    exact absurd h (by decide)

section

variable {indent : List Char}

-- And so are those of the layout.
attribute [local simp] laid in
/-- Between line breaks the layout keeps every character. -/
theorem laid_cons {c : Char} {cs : List Char} (hc : Text.isLineBreak c = false) :
    laid indent (c :: cs) = c :: laid indent cs := by
  rw [laid, hc]
  · rfl
  · rintro rest rfl
    exact absurd hc (by decide)

/-- A line break becomes a line feed and the margin of the next line. A carriage
return in front of a line feed is left out here, as the two make one break. -/
theorem laid_break {c : Char} {cs : List Char} (hc : Text.isLineBreak c = true)
    (hfeed : c = '\r' → cs.head? ≠ some '\n') :
    laid indent (c :: cs) = '\n' :: (margin indent cs ++ laid indent cs) := by
  rw [laid, if_pos hc]
  rintro rest hreturn rfl
  exact hfeed hreturn rfl

/-- A quote in a layout was a quote of the text. -/
theorem eq_of_laid_eq_quote {cs ds : List Char} (h : laid indent cs = '"' :: ds) :
    ∃ rest, cs = '"' :: rest ∧ ds = laid indent rest := by
  unfold laid at h
  split at h
  · exact absurd (List.cons.inj h).1 (by decide)
  · split_ifs at h
    · exact absurd (List.cons.inj h).1 (by decide)
    · obtain ⟨rfl, rfl⟩ := List.cons.inj h
      exact ⟨_, rfl, rfl⟩
  · cases h

/-- One line has no layout: it stands as it is. -/
theorem laid_eq_self {cs : List Char} (h : cs.any Text.isLineBreak = false) : laid indent cs = cs := by
  induction cs with
  | nil => rfl
  | cons c cs ih =>
    obtain ⟨hc, hcs⟩ := Bool.or_eq_false_iff.1 h
    rw [laid_cons hc, ih hcs]

/-- Escaping keeps a plain character in front, and puts none there: an escape
starts with a backslash. -/
theorem head?_escape {c : Char} (hc : Plain c) (cs : List Char) : (escape cs).head? = some c ↔ cs.head? = some c := by
  match cs with
  | [] => rfl
  | d :: ds =>
    rcases escape_cons_cases d ds with ⟨hd, es, heq⟩ | heq
    · rw [heq, List.head?_cons, List.head?_cons, Option.some_inj, Option.some_inj]
      exact ⟨fun h => absurd h.symm hc.2, fun h => absurd (h ▸ hc) hd⟩
    · rw [heq, List.head?_cons, List.head?_cons]

/-- The margin of a line depends on how the line begins, which escaping does not
change as far as blank lines go. -/
theorem margin_escape (cs : List Char) : margin indent (escape cs) = margin indent cs := by
  match cs with
  | [] => rfl
  | c :: cs =>
    rcases escape_cons_cases c cs with ⟨hc, ds, heq⟩ | heq
    · -- Neither a backslash nor what is escaped by one breaks a line.
      have hbreak : ¬ Text.isLineBreak c = true := fun h => hc (plain_of_isLineBreak h)
      rw [heq, margin, margin, if_neg hbreak, if_neg (by decide)]
    · rw [heq, margin, margin]

/-- A margin of plain characters has nothing in it to be escaped. -/
theorem plain_margin (hindent : ∀ c ∈ indent, Plain c) (cs : List Char) : ∀ c ∈ margin indent cs, Plain c := by
  intro c hc
  unfold margin at hc
  split at hc
  · cases hc
  · split_ifs at hc
    · cases hc
    · exact hindent c hc

/-- **Escaping a text and laying it out commute.** Layout adds blanks behind
line breaks, and escaping changes backslashes and three quotes in a row; neither
makes or takes away anything that the other looks for. -/
theorem escape_laid (hindent : ∀ c ∈ indent, Plain c) (cs : List Char) :
    escape (laid indent cs) = laid indent (escape cs) := by
  -- Along escaping, which reads three quotes at a time and all else by single characters.
  fun_induction escape cs with
  | case1 => rfl
  | case2 rest ih =>
    rw [laid_cons (by decide), laid_cons (by decide), laid_cons (by decide), escape, ih]
  | case3 rest ih =>
    simp only [laid_cons (show Text.isLineBreak '\\' = false by decide),
      laid_cons (show Text.isLineBreak '"' = false by decide), escape, ih]
  | case4 c rest hbackslash hquotes ih =>
    by_cases hbreak : Text.isLineBreak c = true
    · by_cases hfeed : c = '\r' ∧ rest.head? = some '\n'
      · obtain ⟨rfl, hhead⟩ := hfeed
        obtain ⟨more, rfl⟩ := List.head?_eq_some_iff.1 hhead
        rw [escape_cons_plain ⟨by decide, by decide⟩] at ih ⊢
        exact ih
      · have hkept : c = '\r' → (escape rest).head? ≠ some '\n' := fun hc hhead =>
          hfeed ⟨hc, (head?_escape ⟨by decide, by decide⟩ rest).1 hhead⟩
        rw [laid_break hbreak fun hc hhead => hfeed ⟨hc, hhead⟩, laid_break hbreak hkept,
          escape_cons_plain ⟨by decide, by decide⟩, escape_plain_append (plain_margin hindent rest), margin_escape, ih]
    · rw [laid_cons (Bool.eq_false_iff.2 hbreak), laid_cons (Bool.eq_false_iff.2 hbreak), escape.eq_4, ih]
      · exact hbackslash
      · -- Three quotes in the layout would be three in the text.
        intro ds hc heq
        obtain ⟨es, rfl, hes⟩ := eq_of_laid_eq_quote heq
        obtain ⟨fs, rfl, -⟩ := eq_of_laid_eq_quote hes.symm
        exact hquotes fs hc rfl

/-- **The layout does not run into the closing quotes.** It ends in the indent
where it has several lines, and otherwise in its text, where a quote at the end
has got a blank behind it. -/
theorem getLast?_laidOut (hindent : ∀ c ∈ indent, Plain c) (docs : List String) :
    (laidOut indent docs).getLast? ≠ some '"' := by
  intro hlast
  unfold laidOut lastLine at hlast
  dsimp only at hlast
  split_ifs at hlast with hbreaks
  · -- The last line is made of the indent.
    rw [List.getLast?_append_cons] at hlast
    rcases List.mem_cons.1 (List.mem_of_getLast? hlast) with hquote | hquote
    · exact absurd hquote (by decide)
    · exact (hindent _ hquote).1 rfl
  · rw [List.append_nil, laid_eq_self (Bool.eq_false_iff.2 hbreaks)] at hlast
    exact getLast?_guardEnd _ hlast

end

/-! ## The lines -/

/-- A text that does not end in a line break, so that its lines are all that
there is of it. -/
def Ended (cs : List Char) : Prop :=
  ∀ c, cs.getLast? = some c → Text.isLineBreak c = false

/-- A line below another one. -/
def below (indent line : List Char) : List Char :=
  '\n' :: if line.isEmpty then [] else indent ++ line

section

variable {indent : List Char} {c : Char} {cs line : List Char} {rest : List (List Char)}

/-- How a text ends does not depend on what it begins with. -/
theorem ended_of_cons (h : Ended (c :: cs)) : Ended cs := by
  intro d hd
  apply h
  rw [List.getLast?_cons, hd, Option.getD_some]

/-- A line break is not the end. -/
theorem ne_nil_of_ended (h : Ended (c :: cs)) (hc : Text.isLineBreak c = true) : cs ≠ [] := by
  rintro rfl
  exact Bool.false_ne_true ((h c rfl).symm.trans hc)

/-- The first line is empty exactly if the text opens with a line break. A text
that is not empty has a first line in any case. -/
theorem exists_linesOf_cons (c : Char) (cs : List Char) :
    ∃ line rest, Text.linesOf (c :: cs) = line :: rest ∧ line.isEmpty = Text.isLineBreak c := by
  unfold Text.linesOf
  split
  · next heq => cases heq
  · next heq =>
    cases heq
    exact ⟨[], _, rfl, by decide⟩
  · next heq =>
    cases heq
    split_ifs with hbreak
    · exact ⟨[], _, rfl, hbreak.symm⟩
    · split
      · exact ⟨[c], [], rfl, (Bool.eq_false_iff.2 hbreak).symm⟩
      · exact ⟨_, _, rfl, (Bool.eq_false_iff.2 hbreak).symm⟩

/-- Only the empty text has no lines. -/
theorem linesOf_eq_nil_iff : Text.linesOf cs = [] ↔ cs = [] := by
  cases cs with
  | nil => exact ⟨fun _ => rfl, fun _ => rfl⟩
  | cons c cs =>
    obtain ⟨line, rest, heq, -⟩ := exists_linesOf_cons c cs
    rw [heq]
    exact ⟨fun h => absurd h (List.cons_ne_nil _ _), fun h => absurd h (List.cons_ne_nil _ _)⟩

/-- A first line below another one goes by the margin of the text. -/
theorem below_first (h : Text.linesOf cs = line :: rest) : below indent line = '\n' :: (margin indent cs ++ line) := by
  cases cs with
  | nil => cases h
  | cons c cs =>
    obtain ⟨first, more, hlines, hempty⟩ := exists_linesOf_cons c cs
    obtain ⟨rfl, -⟩ := List.cons.inj (hlines.symm.trans h)
    rw [below, margin, hempty]
    split_ifs with hbreak
    · rw [List.isEmpty_iff.1 (hempty.trans hbreak), List.append_nil]
    · rfl

/-- Lines below others are the layout behind a break, if the first of them
together with the others is the layout of the text. This is the step from one
line to the next. -/
theorem flatMap_below (h : Text.linesOf cs = line :: rest)
    (hlaid : line ++ rest.flatMap (below indent) = laid indent cs) :
    (Text.linesOf cs).flatMap (below indent) = '\n' :: (margin indent cs ++ laid indent cs) := by
  rw [h, List.flatMap_cons, below_first h, List.cons_append, List.append_assoc, hlaid]

/-- A text that is not empty has a first line. -/
theorem exists_linesOf (h : cs ≠ []) : ∃ line rest, Text.linesOf cs = line :: rest :=
  List.exists_cons_of_ne_nil fun hnil => h (linesOf_eq_nil_iff.1 hnil)

/-- **The lines of a text, each but the first one below another, are its
layout.** The text does not end in a line break (`Ended`), so behind each break
there is a line, and the indent stands before it. -/
theorem laid_of_linesOf (hend : Ended cs) (h : Text.linesOf cs = line :: rest) :
    line ++ rest.flatMap (below indent) = laid indent cs := by
  -- The induction is along the lines. Behind a line break there is a line, since the
  -- break is not the end.
  fun_induction Text.linesOf cs generalizing line rest with
  | case1 => cases h
  | case2 more ih =>
    cases h
    have hmore := ended_of_cons hend
    obtain ⟨first, others, hlines⟩ := exists_linesOf (ne_nil_of_ended hmore (by decide))
    exact flatMap_below hlines (ih (ended_of_cons hmore) hlines)
  | case3 c more hfeed hbreak ih =>
    cases h
    obtain ⟨first, others, hlines⟩ := exists_linesOf (ne_nil_of_ended hend hbreak)
    rw [laid_break hbreak]
    · exact flatMap_below hlines (ih (ended_of_cons hend) hlines)
    · rintro hreturn hhead
      obtain ⟨rest, rfl⟩ := List.head?_eq_some_iff.1 hhead
      exact hfeed rest hreturn rfl
  | case4 c more hfeed hbreak hnil =>
    cases h
    rw [linesOf_eq_nil_iff.1 hnil, laid_cons (Bool.eq_false_iff.2 hbreak)]
    rfl
  | case5 c more hfeed hbreak first others hlines ih =>
    cases h
    rw [laid_cons (Bool.eq_false_iff.2 hbreak), List.cons_append, ih (ended_of_cons hend) hlines]

/-- There is one line exactly if there is no line break. Without `Ended` a break
at the end would be there without a line behind it. -/
theorem tail_eq_nil_iff (hend : Ended cs) (h : Text.linesOf cs = line :: rest) :
    rest = [] ↔ cs.any Text.isLineBreak = false := by
  fun_induction Text.linesOf cs generalizing line rest with
  | case1 => cases h
  | case2 more ih =>
    cases h
    have hmore := ne_nil_of_ended (ended_of_cons hend) (by decide)
    exact ⟨fun hnil => absurd (linesOf_eq_nil_iff.1 hnil) hmore, fun hnone => absurd hnone.symm Bool.false_ne_true⟩
  | case3 c more hfeed hbreak ih =>
    cases h
    have hmore := ne_nil_of_ended hend hbreak
    rw [List.any_cons, hbreak, Bool.true_or]
    exact ⟨fun hnil => absurd (linesOf_eq_nil_iff.1 hnil) hmore, fun hnone => absurd hnone.symm Bool.false_ne_true⟩
  | case4 c more hfeed hbreak hnil =>
    cases h
    rw [linesOf_eq_nil_iff.1 hnil, List.any_cons, Bool.eq_false_iff.2 hbreak]
    exact ⟨fun _ => rfl, fun _ => rfl⟩
  | case5 c more hfeed hbreak first others hlines ih =>
    cases h
    rw [ih (ended_of_cons hend) hlines, List.any_cons, Bool.eq_false_iff.2 hbreak, Bool.false_or]

/-- No line holds a line break: lines are cut at each of them. The induction is
along the cutting, whose cases are a return with a feed, any other break, and a
character that is none. -/
theorem isLineBreak_of_mem_linesOf (h : line ∈ Text.linesOf cs) : ∀ c ∈ line, Text.isLineBreak c = false := by
  intro d hd
  fun_induction Text.linesOf cs generalizing line with
  | case1 => cases h
  | case2 more ih =>
    rcases List.mem_cons.1 h with rfl | h
    · cases hd
    · exact ih h hd
  | case3 c more hfeed hbreak ih =>
    rcases List.mem_cons.1 h with rfl | h
    · cases hd
    · exact ih h hd
  | case4 c more hfeed hbreak hnil ih =>
    obtain rfl := List.mem_singleton.1 h
    obtain rfl := List.mem_singleton.1 hd
    exact Bool.eq_false_iff.2 hbreak
  | case5 c more hfeed hbreak first others hlines ih =>
    rcases List.mem_cons.1 h with rfl | h
    · rcases List.mem_cons.1 hd with rfl | hd
      · exact Bool.eq_false_iff.2 hbreak
      · exact ih (hlines ▸ List.mem_cons_self) hd
    · exact ih (hlines ▸ List.mem_cons_of_mem _ h) hd

/-- Guarding the end keeps the text from ending in a line break. -/
theorem ended_guardEnd (h : Ended cs) : Ended (guardEnd cs) := by
  intro c hc
  unfold guardEnd at hc
  split at hc
  · rw [List.getLast?_append_cons] at hc
    cases hc
    decide
  · exact h c hc

/-- Escaping neither adds a line break nor takes one away, so a text has one
line before if it has one after. -/
theorem any_escape (cs : List Char) : (escape cs).any Text.isLineBreak = cs.any Text.isLineBreak := by
  -- What is escaped is no line break, and neither is the backslash in front of it.
  fun_induction escape cs with
  | case1 => rfl
  | case2 rest ih => exact ih
  | case3 rest ih => exact ih
  | case4 c rest _ _ ih => rw [List.any_cons, List.any_cons, ih]

end

/-! ## The docstring -/

/-- Line breaks count as blanks, so they are stripped from the ends of the
documentation. -/
theorem isBlank_of_isLineBreak {c : Char} (h : Text.isLineBreak c = true) : Text.isBlank c = true := by
  simp only [Text.isLineBreak, Text.isBlank, Bool.or_eq_true, Bool.and_eq_true, decide_eq_true_eq, beq_iff_eq] at h ⊢
  omega

/-- Documentation has no blank at its end. -/
theorem ended_text (docs : List String) : Ended (text docs).toList := by
  intro c hc
  rw [text, Text.strip, String.toList_ofList, List.getLast?_reverse] at hc
  have hblank := List.head?_dropWhile_not Text.isBlank
    (((("\n".intercalate (docs.map Text.strip)).toList).dropWhile Text.isBlank).reverse)
  rw [hc] at hblank
  exact Bool.eq_false_iff.2 fun hbreak => Bool.false_ne_true (hblank.symm.trans (isBlank_of_isLineBreak hbreak))

/-- The text between the quotes. -/
def escaped (docs : List String) : List Char :=
  guardEnd (escape (text docs).toList)

/-- What stands in a docstring does not end in a line break, since the text is
stripped before it is escaped. -/
theorem ended_escaped (docs : List String) : Ended (escaped docs) := by
  apply ended_guardEnd
  intro c hc
  exact ended_text docs c (getLast?_escape _ ▸ hc)

/-- Nothing stands in a docstring exactly if nothing is left of the
documentation. -/
theorem escaped_eq_nil_iff {docs : List String} : escaped docs = [] ↔ text docs = "" := by
  rw [← String.toList_eq_nil_iff]
  constructor
  · intro h
    have hescape : escape (text docs).toList = [] := List.prefix_nil.1 (h ▸ prefix_guardEnd _)
    rw [← List.getLast?_eq_none_iff, ← getLast?_escape, hescape]
    rfl
  · intro h
    rw [escaped, h]
    rfl

/-- The lines of the body are those of the escaped text. -/
theorem body_eq (docs : List String) : body docs = (Text.linesOf (escaped docs)).map String.ofList :=
  rfl

/-- Lines with line feeds between them are the first one and the others with a
feed in front of each. -/
theorem intercalate_feed (line : List Char) (rest : List (List Char)) :
    ['\n'].intercalate (line :: rest) = line ++ rest.flatMap ('\n' :: ·) := by
  induction rest generalizing line with
  | nil => rw [List.intercalate_singleton, List.flatMap_nil, List.append_nil]
  | cons next rest ih =>
    rw [List.intercalate_cons_cons, ih, List.flatMap_cons, List.append_assoc]
    rfl

/-- A line below another one is a feed, its margin and itself. Blank lines have
no margin. -/
theorem below_eq (indent line : List Char) :
    '\n' :: (indented (String.ofList indent) (String.ofList line)).toList = below indent line := by
  have hempty : (String.ofList line).isEmpty = line.isEmpty := by
    rw [Bool.eq_iff_iff, String.isEmpty_iff, List.isEmpty_iff, ← String.toList_eq_nil_iff, String.toList_ofList]
  rw [indented, below, hempty]
  split
  · rfl
  · rw [String.toList_append, String.toList_ofList, String.toList_ofList]

section

variable {indent : List Char}

/-- The escaped layout, as the lines have it. -/
theorem escape_laidOut (hindent : ∀ c ∈ indent, Plain c) (docs : List String) :
    escape (laidOut indent docs) = laid indent (escaped docs) ++ lastLine indent (escaped docs) := by
  have hlast : lastLine indent (escaped docs) = lastLine indent (guardEnd (text docs).toList) := by
    rw [lastLine, lastLine, escaped, guardEnd_escape, any_escape]
  rw [hlast, escaped, guardEnd_escape, ← escape_laid hindent, laidOut]
  unfold lastLine
  split
  · rw [escape_append_plain ⟨by decide, by decide⟩, escape_plain hindent]
  · rw [List.append_nil, List.append_nil]

/-- **The lines, joined**: the escaped layout between quotes. On one line the
closing quotes stand behind the text; on several they have a line of their own,
which the layout has as a break and an indent at its end. -/
theorem toList_joined (hindent : ∀ c ∈ indent, Plain c) {docs : List String} (h : text docs ≠ "") :
    ("\n".intercalate (lines (String.ofList indent) docs)).toList =
      indent ++ (closing true ++ (escape (laidOut indent docs) ++ closing true)) := by
  obtain ⟨line, rest, hlines⟩ := exists_linesOf fun hnil => h (escaped_eq_nil_iff.1 hnil)
  have hlaid : line ++ rest.flatMap (below indent) = laid indent (escaped docs) :=
    laid_of_linesOf (ended_escaped docs) hlines
  have hone := tail_eq_nil_iff (ended_escaped docs) hlines
  rw [String.toList_intercalate, escape_laidOut hindent, ← hlaid, lines, body_eq, hlines]
  -- One line, or several: the closing quotes stand behind the text, or below it.
  cases rest with
  | nil =>
    have hnone : (escaped docs).any Text.isLineBreak = false := hone.1 rfl
    rw [lastLine, hnone]
    show ['\n'].intercalate [(String.ofList indent ++ "\"\"\"" ++ String.ofList line ++ "\"\"\"").toList] = _
    simp only [List.intercalate_singleton, String.toList_append, String.toList_ofList, List.flatMap_nil,
      List.append_nil, List.append_assoc]
    rfl
  | cons next rest =>
    have hsome : (escaped docs).any Text.isLineBreak = true :=
      Bool.eq_true_of_not_eq_false fun hnone => List.cons_ne_nil _ _ (hone.2 hnone)
    rw [lastLine, hsome]
    show ['\n'].intercalate ((String.ofList indent ++ "\"\"\"" ++ String.ofList line).toList ::
      (((next :: rest).map String.ofList).map (indented (String.ofList indent)) ++
        [String.ofList indent ++ "\"\"\""]).map String.toList) = _
    rw [intercalate_feed]
    simp only [List.map_append, List.map_map, List.flatMap_append, List.flatMap_map, Function.comp_apply, below_eq,
      String.toList_append, String.toList_ofList, List.map_singleton, List.flatMap_singleton, List.append_assoc,
      List.cons_append, if_true]
    rfl

/-- No line of a docstring holds a line break. So a docstring has as many lines
as the module has for it, whatever the documentation says. -/
theorem isLineBreak_of_mem_lines (hindent : ∀ c ∈ indent, Text.isLineBreak c = false) {docs : List String}
    {line : String} (h : line ∈ lines (String.ofList indent) docs) :
    ∀ c ∈ line.toList, Text.isLineBreak c = false := by
  have hquotes : ∀ c ∈ "\"\"\"".toList, Text.isLineBreak c = false := by decide
  have hbody : ∀ line ∈ body docs, ∀ c ∈ line.toList, Text.isLineBreak c = false := by
    intro line hline
    obtain ⟨cs, hcs, rfl⟩ := List.mem_map.1 hline
    rw [String.toList_ofList]
    exact isLineBreak_of_mem_linesOf hcs
  unfold lines at h
  -- No documentation, one line of it, or several; only in the last case is there an
  -- indent to look at.
  split at h
  · cases h
  · next only hone =>
    obtain rfl := List.mem_singleton.1 h
    simp only [String.toList_append, String.toList_ofList, List.forall_mem_append]
    exact ⟨⟨⟨hindent, hquotes⟩, hbody only (hone ▸ List.mem_singleton_self _)⟩, hquotes⟩
  · next first rest _ hmany =>
    rw [List.cons_append, List.mem_cons, List.mem_append, List.mem_singleton] at h
    rcases h with rfl | h | rfl
    · simp only [String.toList_append, String.toList_ofList, List.forall_mem_append]
      exact ⟨⟨hindent, hquotes⟩, hbody first (hmany ▸ List.mem_cons_self)⟩
    · obtain ⟨below, hbelow, rfl⟩ := List.mem_map.1 h
      unfold indented
      split
      · exact fun c hc => absurd hc List.not_mem_nil
      · rw [String.toList_append, String.toList_ofList, List.forall_mem_append]
        exact ⟨hindent, hbody below (hmany ▸ List.mem_cons_of_mem _ hbelow)⟩
    · rw [String.toList_append, String.toList_ofList, List.forall_mem_append]
      exact ⟨hindent, hquotes⟩

end

/-- **A docstring reads as the documentation, laid out.** Without documentation
there are no lines. Otherwise they are one literal: it is opened behind the
indent, the first three quotes in a row that count are at its very end, and what
stands between them stands for the layout, whatever the characters are named. -/
theorem lines_read (named : String → Option Nat) (n : Nat) (docs : List String) :
    (text docs = "" ∧ lines (String.ofList (List.replicate n ' ')) docs = []) ∨
    (text docs ≠ "" ∧
      (∃ behind raw, ("\n".intercalate (lines (String.ofList (List.replicate n ' ')) docs)).toList =
          List.replicate n ' ' ++ (closing true ++ behind) ∧ scan behind = some (raw, []) ∧
        unescape named raw = some (codes (laidOut (List.replicate n ' ') docs))) ∧
      ∀ line ∈ lines (String.ofList (List.replicate n ' ')) docs, ∀ c ∈ line.toList, Text.isLineBreak c = false) := by
  have hspace : ∀ c ∈ List.replicate n ' ', c = ' ' := fun c hc => List.eq_of_mem_replicate hc
  have hplain : ∀ c ∈ List.replicate n ' ', Plain c := fun c hc => hspace c hc ▸ ⟨by decide, by decide⟩
  have hbreak : ∀ c ∈ List.replicate n ' ', Text.isLineBreak c = false := fun c hc => hspace c hc ▸ by decide
  by_cases h : text docs = ""
  · refine .inl ⟨h, ?_⟩
    rw [lines, body_eq, escaped_eq_nil_iff.2 h]
    rfl
  · refine .inr ⟨h, ⟨_, _, toList_joined hplain h, ?_, unescape_escape named _⟩, fun line hline =>
      isLineBreak_of_mem_lines hbreak hline⟩
    exact scan_escape (getLast?_laidOut hplain docs) []

-- A backslash in front of three quotes, a line separator, and a quote at the end.
example : lines "    " ["\\\"\"\"\u2028x\""] =
    ["    \"\"\"\\\\\\\"\\\"\\\"", "    x\" ", "    \"\"\""] := by decide

end Docstring

end ContractClient
