/-
What labels make.

A label is any text, and whatever is made of it is a name: a word of ASCII
letters, digits and underscores that does not open with a digit and is no
keyword, so that it can be bound. All functions that make identifiers end in
`ofLabel`, which leaves every name as it is and changes everything else,
`ofLabel_eq_self_iff`. Its repairs do not undo one another, because every
keyword consists of letters: with an underscore or a digit added anywhere, no
word is one.

That is also why names stay names when something is added to them later: the
number of an allocator, or the name of an arm behind that of its type. And as
every reserved attribute and every variable of the generated bodies ends in a
letter, none of them is made by a number or by an underscore at the end.
-/
import ContractClient.Proofs.Client.Namespaces
import ContractClient.Proofs.Client.Numbering

set_option autoImplicit false

namespace ContractClient

open NameAllocator (numbered numbered_getLast allocateAll_cases)

variable {c : Char} {s t : String}

/-! ## Characters of words -/

/-- Which characters make words: digits, letters of either case and underscores,
by their numbers. -/
theorem isAsciiWord_iff : Text.isAsciiWord c = true ↔
    ((0x30 ≤ c.toNat ∧ c.toNat ≤ 0x39) ∨ (0x41 ≤ c.toNat ∧ c.toNat ≤ 0x5a) ∨
      0x61 ≤ c.toNat ∧ c.toNat ≤ 0x7a) ∨ c = '_' := by
  simp only [Text.isAsciiWord, Char.isAlphanum, Char.isAlpha, Char.isUpper, Char.isLower, Char.isDigit,
    Bool.or_eq_true, Bool.and_eq_true, decide_eq_true_eq, beq_iff_eq, ge_iff_le, UInt32.le_iff_toNat_le, Char.toNat]
  show ((65 ≤ c.val.toNat ∧ c.val.toNat ≤ 90 ∨ 97 ≤ c.val.toNat ∧ c.val.toNat ≤ 122) ∨
    48 ≤ c.val.toNat ∧ c.val.toNat ≤ 57) ∨ c = '_' ↔ _
  tauto

/-- A character of a word is an ASCII character. -/
theorem ascii_of_isAsciiWord (h : Text.isAsciiWord c = true) : c.toNat < 0x80 := by
  rcases isAsciiWord_iff.1 h with h | rfl
  · omega
  · decide

/-- A character of a word is no blank. -/
theorem isBlank_of_isAsciiWord (h : Text.isAsciiWord c = true) : Text.isBlank c = false := by
  rcases isAsciiWord_iff.1 h with h | rfl
  · simp [Text.isBlank]
    omega
  · rfl

/-- Digits make words. -/
theorem isAsciiWord_of_isDigit (h : c.isDigit = true) : Text.isAsciiWord c = true := by
  simp [Text.isAsciiWord, Char.isAlphanum, h]

/-- Digits are no letters. -/
theorem not_isAlpha_of_isDigit (h : c.isDigit = true) : c.isAlpha = false := by
  simp only [Char.isDigit, Bool.and_eq_true, decide_eq_true_eq, ge_iff_le, UInt32.le_iff_toNat_le] at h
  simp only [Char.isAlpha, Char.isUpper, Char.isLower, Bool.or_eq_false_iff, Bool.and_eq_false_iff,
    decide_eq_false_iff_not, ge_iff_le, UInt32.le_iff_toNat_le]
  have hle : c.val.toNat ≤ 57 := h.2
  show ¬ (65 ≤ c.val.toNat ∧ c.val.toNat ≤ 90) ∧ (¬ 97 ≤ c.val.toNat ∨ ¬ c.val.toNat ≤ 122)
  omega

/-- Among ASCII characters an identifier goes on with those that make words. -/
theorem isIdentifierContinue_iff (h : c.toNat < 0x80) :
    Text.isIdentifierContinue c = true ↔ Text.isAsciiWord c = true := by
  rw [Text.isIdentifierContinue, Text.inClass, if_pos h, Text.isAsciiWord]

/-- Among ASCII characters an identifier begins with those that make words and
are no digits. -/
theorem isIdentifierStart_iff (h : c.toNat < 0x80) :
    Text.isIdentifierStart c = true ↔ Text.isAsciiWord c = true ∧ c.isDigit = false := by
  rw [Text.isIdentifierStart, Text.inClass, if_pos h, Text.isAsciiWord, Char.isAlphanum]
  cases hdigit : c.isDigit with
  | false => simp
  | true =>
    have hunderscore : c ≠ '_' := by
      rintro rfl
      cases hdigit
    simp [not_isAlpha_of_isDigit hdigit, hunderscore]

/-! ## Words that are not listed -/

/-- No keyword holds anything but letters. -/
theorem notMem_keywords (hc : c ∈ s.toList) (hnot : c.isAlpha = false) : s ∉ keywords := by
  have hletters : ∀ word ∈ keywords, word.toList.all Char.isAlpha = true := by decide +kernel
  intro hmem
  have halpha := List.all_eq_true.1 (hletters s hmem) c hc
  rw [hnot] at halpha
  cases halpha

/-- Whether every word of a list ends in a letter. -/
def EndInLetters (words : List String) : Prop :=
  ∀ word ∈ words, word.toList.getLast?.any Char.isAlpha = true

/-- Every keyword ends in a letter, so no word with another character at its end
is one. This and the next two lemmas are what appending an underscore rests
on. -/
theorem keywords_endInLetters : EndInLetters keywords := by
  unfold EndInLetters
  decide +kernel

/-- Every reserved name of a member ends in a letter too. -/
theorem memberReserved_endInLetters : EndInLetters memberReserved := by
  unfold EndInLetters
  decide +kernel

/-- Every reserved name of an argument ends in a letter too. -/
theorem argumentReserved_endInLetters : EndInLetters argumentReserved := by
  unfold EndInLetters
  decide +kernel

namespace EndInLetters

variable {words : List String}

/-- What does not end in a letter is none of such words. -/
theorem notMem (h : EndInLetters words) (hlast : s.toList.getLast? = some c) (hnot : c.isAlpha = false) :
    s ∉ words := by
  intro hmem
  have halpha := h s hmem
  rw [hlast, Option.any_some, hnot] at halpha
  cases halpha

/-- None of the words is made by a number. -/
theorem numbered_notMem (h : EndInLetters words) (base : String) (n : Nat) : numbered base n ∉ words := by
  obtain ⟨c, hlast, hdigit⟩ := numbered_getLast base n
  exact h.notMem hlast (not_isAlpha_of_isDigit hdigit)

/-- None of the words is made by an underscore, so a word that avoids them is
none of them. -/
theorem avoid_notMem (h : EndInLetters words) (s : String) : Identifier.avoid words s ∉ words := by
  unfold Identifier.avoid
  by_cases hword : words.contains s = true
  · rw [if_pos hword]
    have hlast : (s ++ "_").toList.getLast? = some '_' := by simp
    exact h.notMem hlast (by decide)
  · rw [if_neg hword]
    exact fun hmem => hword (List.contains_iff_mem.2 hmem)

end EndInLetters

/-! ## Names -/

namespace Identifier

/-- A word: not empty, and of ASCII letters, digits and underscores only. -/
structure IsWord (s : String) : Prop where
  nonempty : s.toList ≠ []
  chars : ∀ c ∈ s.toList, Text.isAsciiWord c = true

/-- A name in ASCII: an identifier that is no keyword. -/
structure IsAsciiName (s : String) : Prop where
  isName : Settings.isName s = true
  ascii : ∀ c ∈ s.toList, c.toNat < 0x80

/-- **A name in ASCII is a word** that does not open with a digit and is no
keyword. Outside of ASCII it depends on tables of characters what an identifier
is; the names that are made here are all in ASCII, and for those three simple
conditions are enough. -/
theorem isAsciiName_iff : IsAsciiName s ↔ IsWord s ∧ (∀ c ∈ s.toList.head?, c.isDigit = false) ∧ s ∉ keywords := by
  -- Being a name is being an identifier and no keyword; the tables are looked at below,
  -- one character at a time.
  have hname : Settings.isName s = true ↔ Text.isIdentifier s = true ∧ s ∉ keywords := by
    simp [Settings.isName, isKeyword]
  unfold Text.isIdentifier at hname
  constructor
  · rintro ⟨hs, hascii⟩
    obtain ⟨hid, hkey⟩ := hname.1 hs
    cases hchars : s.toList with
    | nil => simp [hchars] at hid
    | cons d ds =>
      rw [hchars] at hid hascii
      obtain ⟨hd, hds⟩ := List.forall_mem_cons.1 hascii
      obtain ⟨hstart, hrest⟩ := Bool.and_eq_true_iff.1 hid
      obtain ⟨hword, hdigit⟩ := (isIdentifierStart_iff hd).1 hstart
      have hwords : ∀ e ∈ ds, Text.isAsciiWord e = true := fun e he =>
        (isIdentifierContinue_iff (hds e he)).1 (List.all_eq_true.1 hrest e he)
      refine ⟨⟨by simp [hchars], ?_⟩, by simpa using hdigit, hkey⟩
      rw [hchars]
      exact List.forall_mem_cons.2 ⟨hword, hwords⟩
  · rintro ⟨hword, hopen, hkey⟩
    refine ⟨hname.2 ⟨?_, hkey⟩, fun d hd => ascii_of_isAsciiWord (hword.chars d hd)⟩
    cases hchars : s.toList with
    | nil => exact absurd hchars hword.nonempty
    | cons d ds =>
      have hall := hword.chars
      rw [hchars] at hall hopen
      obtain ⟨hd, hds⟩ := List.forall_mem_cons.1 hall
      refine Bool.and_eq_true_iff.2 ⟨?_, List.all_eq_true.2 fun e he => ?_⟩
      · exact (isIdentifierStart_iff (ascii_of_isAsciiWord hd)).2 ⟨hd, hopen d rfl⟩
      · exact (isIdentifierContinue_iff (ascii_of_isAsciiWord (hds e he))).2 (hds e he)

/-- An underscore makes words. -/
theorem isAsciiWord_underscore : ∀ c ∈ "_".toList, Text.isAsciiWord c = true := by
  simp [Text.isAsciiWord]

/-- A word goes on with more characters of words. -/
theorem IsWord.append (h : IsWord s) (ht : ∀ c ∈ t.toList, Text.isAsciiWord c = true) : IsWord (s ++ t) where
  nonempty := by simp [h.nonempty]
  chars := by
    rw [String.toList_append]
    exact List.forall_mem_append.2 ⟨h.chars, ht⟩

/-- What is put behind a name leaves it a name, unless that makes it a
keyword. -/
theorem IsAsciiName.append (h : IsAsciiName s) (ht : ∀ c ∈ t.toList, Text.isAsciiWord c = true)
    (hkey : s ++ t ∉ keywords) : IsAsciiName (s ++ t) := by
  obtain ⟨hword, hopen, -⟩ := isAsciiName_iff.1 h
  refine isAsciiName_iff.2 ⟨hword.append ht, ?_, hkey⟩
  rwa [String.toList_append, List.head?_append_of_ne_nil _ hword.nonempty]

/-- A name with a number is a name. -/
theorem IsAsciiName.numbered (h : IsAsciiName s) (n : Nat) : IsAsciiName (numbered s n) := by
  refine h.append (fun c hc => ?_) (keywords_endInLetters.numbered_notMem s n)
  have hdigits : (toString n).toList = Nat.toDigits 10 n := Nat.toList_repr
  rw [hdigits] at hc
  exact isAsciiWord_of_isDigit (Nat.isDigit_of_mem_toDigits (by decide) (by decide) hc)

/-- Two names with an underscore between them are a name. -/
theorem IsAsciiName.joined (h : IsAsciiName s) (ht : IsAsciiName t) : IsAsciiName (s ++ "_" ++ t) := by
  have hchars := (isAsciiName_iff.1 ht).1.chars
  rw [String.append_assoc]
  refine h.append ?_ (notMem_keywords (c := '_') (by simp) (by decide))
  rw [String.toList_append]
  exact List.forall_mem_append.2 ⟨isAsciiWord_underscore, hchars⟩

/-! ## What is made of a label -/

/-- Whatever a character of a label is replaced by makes words. -/
theorem isAsciiWord_wordChar (c : Char) : Text.isAsciiWord (wordChar c) = true := by
  unfold wordChar
  by_cases hword : Text.isAsciiWord c = true
  · rw [if_pos hword]
    exact hword
  · rw [if_neg hword]
    decide

/-- Avoiding names keeps a word a word. -/
theorem IsWord.avoid (h : IsWord s) (words : List String) : IsWord (avoid words s) := by
  unfold Identifier.avoid
  by_cases hword : words.contains s = true
  · rw [if_pos hword]
    exact h.append isAsciiWord_underscore
  · rw [if_neg hword]
    exact h

/-- Avoiding names keeps an ASCII name one. -/
theorem IsAsciiName.avoid (h : IsAsciiName s) (words : List String) : IsAsciiName (avoid words s) := by
  unfold Identifier.avoid
  by_cases hword : words.contains s = true
  · rw [if_pos hword]
    exact h.append isAsciiWord_underscore (notMem_keywords (c := '_') (by simp) (by decide))
  · rw [if_neg hword]
    exact h

/-- A word that is no keyword becomes a name once it is guarded against a digit
in front. -/
theorem IsWord.guardDigit (h : IsWord s) (hkey : s ∉ keywords) : IsAsciiName (guardDigit s) := by
  unfold Identifier.guardDigit
  cases hchars : s.toList with
  | nil => exact absurd hchars h.nonempty
  | cons d ds =>
    by_cases hdigit : d.isDigit = true
    · have hguarded : IsWord ("_" ++ s) := IsWord.append ⟨by simp, isAsciiWord_underscore⟩ h.chars
      simp only [hdigit, if_true]
      exact isAsciiName_iff.2 ⟨hguarded, by simp, notMem_keywords (c := '_') (by simp) (by decide)⟩
    · simp only [hdigit]
      refine isAsciiName_iff.2 ⟨h, ?_, hkey⟩
      simpa [hchars] using hdigit

/-- **A label makes a name.** -/
theorem ofLabel_isAsciiName (label : String) : IsAsciiName (ofLabel label) := by
  unfold ofLabel
  dsimp only
  refine IsWord.guardDigit (IsWord.avoid ?_ keywords) (keywords_endInLetters.avoid_notMem _)
  by_cases hempty : (String.ofList ((Text.strip label).toList.map wordChar)).isEmpty = true
  · rw [if_pos hempty]
    exact ⟨by simp, by simp [Text.isAsciiWord]⟩
  · rw [if_neg hempty]
    refine ⟨fun hnil => hempty (String.isEmpty_iff.2 (String.toList_eq_nil_iff.1 hnil)), ?_⟩
    rw [String.toList_ofList]
    exact List.forall_mem_map.2 fun c _ => isAsciiWord_wordChar c

/-- Blanks are stripped off the ends, and there is none in a word. -/
theorem strip_eq_self (h : ∀ c ∈ s.toList, Text.isBlank c = false) : Text.strip s = s := by
  have hdrop : ∀ cs : List Char, (∀ c ∈ cs, Text.isBlank c = false) → cs.dropWhile Text.isBlank = cs := by
    intro cs hcs
    cases cs with
    | nil => rfl
    | cons c cs => exact List.dropWhile_cons_of_neg (by simp [hcs c List.mem_cons_self])
  rw [Text.strip, hdrop s.toList h, hdrop s.toList.reverse (by simpa using h), List.reverse_reverse,
    String.ofList_toList]

/-- **Names are left as they are**, and everything else is changed. What is made
is a name in ASCII in any case, so no text that is none can come back as it
was. -/
theorem ofLabel_eq_self_iff : ofLabel s = s ↔ IsAsciiName s := by
  refine ⟨fun h => h ▸ ofLabel_isAsciiName s, fun h => ?_⟩
  obtain ⟨hword, hopen, hkey⟩ := isAsciiName_iff.1 h
  have hstrip : Text.strip s = s := strip_eq_self fun c hc => isBlank_of_isAsciiWord (hword.chars c hc)
  have hmap : s.toList.map wordChar = s.toList := by
    have hsame : s.toList.map wordChar = s.toList.map id :=
      List.map_congr_left fun c hc => if_pos (hword.chars c hc)
    rw [hsame, List.map_id]
  have hempty : ¬ s.isEmpty = true := fun hempty => hword.nonempty (by rw [String.isEmpty_iff.1 hempty]; rfl)
  have havoid : avoid keywords s = s := if_neg fun hmem => hkey (List.contains_iff_mem.1 hmem)
  unfold ofLabel
  dsimp only
  rw [hstrip, hmap, String.ofList_toList, if_neg hempty, havoid, guardDigit]
  cases hchars : s.toList with
  | nil => rfl
  | cons d ds =>
    rw [hchars] at hopen
    simp [hopen d rfl]

/-- This lemma and the next three say that each maker of names makes ASCII names
from all labels. Here it is the one for members and arguments, before what is
reserved is avoided. -/
theorem snake_isAsciiName (label : String) : IsAsciiName (snake label) := by
  unfold snake
  exact ofLabel_isAsciiName _

/-- The names made for classes are ASCII names. -/
theorem ofClass_isAsciiName (label : String) : IsAsciiName (ofClass label) := by
  unfold ofClass
  exact ofLabel_isAsciiName _

/-- The names made for members, which avoid what is reserved, are ASCII
names. -/
theorem ofMember_isAsciiName (label : String) : IsAsciiName (ofMember label) :=
  (ofLabel_isAsciiName label).avoid memberReserved

/-- The names made for arguments, which avoid what is reserved, are ASCII
names. -/
theorem ofArgument_isAsciiName (label : String) : IsAsciiName (ofArgument label) :=
  (ofLabel_isAsciiName label).avoid argumentReserved

/-- The functions that make identifiers of labels. -/
def makers : List (String → String) :=
  [ofLabel, snake, ofClass, ofMember, ofArgument]

/-- So do all of them. -/
theorem isAsciiName_of_maker {make : String → String} (h : make ∈ makers) (label : String) :
    IsAsciiName (make label) := by
  simp only [makers, List.mem_cons, List.not_mem_nil, or_false] at h
  rcases h with rfl | rfl | rfl | rfl | rfl
  · exact ofLabel_isAsciiName label
  · exact snake_isAsciiName label
  · exact ofClass_isAsciiName label
  · exact ofMember_isAsciiName label
  · exact ofArgument_isAsciiName label

end Identifier

/-! ## The names of classes -/

open Identifier (IsAsciiName ofClass ofClass_isAsciiName)

/-- What is handed out for names are names. -/
theorem allocateAll_isAsciiName {a : NameAllocator} {requests : List String}
    (h : ∀ base ∈ requests, IsAsciiName base) : ∀ name ∈ (a.allocateAll requests).1, IsAsciiName name := by
  intro name hname
  obtain ⟨base, hbase, hcases⟩ := allocateAll_cases name hname
  rcases hcases with rfl | ⟨n, rfl⟩
  · exact h name hbase
  · exact (h base hbase).numbered n

/-- A name that is handed out is an ASCII name if its request is one: a number
at the end changes nothing about that. -/
theorem allocateGroups_isAsciiName {a : NameAllocator} {groups : List (List String)}
    (h : ∀ group ∈ groups, ∀ base ∈ group, IsAsciiName base) :
    ∀ name ∈ (a.allocateGroups groups).1.flatten, IsAsciiName name := by
  induction groups generalizing a with
  | nil => simp [NameAllocator.allocateGroups]
  | cons group rest ih =>
    obtain ⟨hgroup, hrest⟩ := List.forall_mem_cons.1 h
    intro name hname
    rcases List.mem_append.1 hname with hname | hname
    · exact allocateAll_isAsciiName hgroup name hname
    · exact ih hrest name hname

/-- The names of types are asked for as ASCII names. -/
theorem typeRequest_isAsciiName (r : Registry) (id : TypeId) : IsAsciiName (r.typeRequest id) := by
  unfold Registry.typeRequest
  cases (r.entry? id).bind fun e => e.path.getLast? with
  | some segment => exact ofClass_isAsciiName segment
  | none =>
    have hword : IsAsciiName "Type" := Identifier.ofLabel_eq_self_iff.1 (by decide +kernel)
    exact hword.numbered id

/-- The names of arms are asked for as ASCII names. The name of the type stands
in front of each. -/
theorem armRequests_isAsciiName (r : Registry) (id : TypeId) {name : String} (h : IsAsciiName name) :
    ∀ base ∈ r.armRequests id name, IsAsciiName base := by
  intro base hbase
  unfold Registry.armRequests at hbase
  split at hbase
  · obtain ⟨arm, -, rfl⟩ := List.mem_map.1 hbase
    exact h.joined (ofClass_isAsciiName arm.name)
  · cases hbase

/-- **The classes of a module have names**: those of types, of arms, of events
and of interfaces. -/
theorem classes_isAsciiName (u : CompilationUnit) (handle : String) :
    ∀ name ∈ (u.moduleNames handle).classes, IsAsciiName name := by
  have htypes : ∀ name ∈ (typeAllocation u handle).1, IsAsciiName name :=
    allocateAll_isAsciiName (List.forall_mem_map.2 fun id _ => typeRequest_isAsciiName u.registry id)
  have harms : ∀ name ∈ (armAllocation u handle).1.flatten, IsAsciiName name := by
    refine allocateGroups_isAsciiName (List.forall_mem_map.2 fun p hp => ?_)
    exact armRequests_isAsciiName u.registry p.1 (htypes p.2 (List.of_mem_zip hp).2)
  have hevents : ∀ name ∈ (eventAllocation u handle).1, IsAsciiName name := by
    have hword : IsAsciiName "Event" := Identifier.ofLabel_eq_self_iff.1 (by decide +kernel)
    exact allocateAll_isAsciiName (List.forall_mem_map.2 fun e _ => hword.joined (ofClass_isAsciiName e.name))
  have hinterfaces : ∀ name ∈ (interfaceAllocation u handle).1, IsAsciiName name :=
    allocateAll_isAsciiName (List.forall_mem_map.2 fun label _ => ofClass_isAsciiName label)
  rw [classes_eq]
  intro name hname
  simp only [List.mem_append] at hname
  rcases hname with ((hname | hname) | hname) | hname
  · exact htypes name hname
  · exact harms name hname
  · exact hevents name hname
  · exact hinterfaces name hname

namespace Identifier

/-- **Labels make names**, whatever they are, and names they stay: with the
number of an allocator, which also makes none of the reserved names, and between
the name of a class and an underscore. A member avoids the attributes that every
declaration has, and an argument the variables of the generated bodies. -/
theorem labels_named :
    (∀ make ∈ makers, ∀ label, IsAsciiName (make label) ∧
      ∀ n, IsAsciiName (numbered (make label) n) ∧ numbered (make label) n ∉ memberReserved ++ argumentReserved) ∧
    (∀ label, ofMember label ∉ memberReserved ∧ ofArgument label ∉ argumentReserved) ∧
    (∀ label, ofLabel (ofLabel label) = ofLabel label) ∧
    (∀ cls, IsAsciiName cls → ∀ label, IsAsciiName (cls ++ "_" ++ ofClass label)) ∧
    ∀ (u : CompilationUnit) (handle : String), ∀ name ∈ (u.moduleNames handle).classes, IsAsciiName name := by
  refine ⟨fun make hmake label => ?_, fun label => ?_, fun label => ?_, fun cls hcls label => ?_, classes_isAsciiName⟩
  · have hname := isAsciiName_of_maker hmake label
    refine ⟨hname, fun n => ⟨hname.numbered n, fun hmem => ?_⟩⟩
    rcases List.mem_append.1 hmem with hmem | hmem
    · exact memberReserved_endInLetters.numbered_notMem _ n hmem
    · exact argumentReserved_endInLetters.numbered_notMem _ n hmem
  · exact ⟨memberReserved_endInLetters.avoid_notMem _, argumentReserved_endInLetters.avoid_notMem _⟩
  · exact ofLabel_eq_self_iff.2 (ofLabel_isAsciiName label)
  · exact hcls.joined (ofClass_isAsciiName label)

/-- A member that is called like an attribute, an arm behind its class, and the
second of two arms that ask for one name. -/
theorem labels_named_codec :
    ofMember ∈ makers ∧ ofMember "CODEC" = "CODEC_" ∧ IsAsciiName (numbered "CODEC_" 2) ∧
      IsAsciiName "CODEC_" ∧ ofClass "a::2nd" = "a_2nd" ∧ IsAsciiName ("CODEC_" ++ "_" ++ "a_2nd") ∧
      "Hash2_x_y2" ∈ (crowdedUnit.moduleNames "Instance").classes ∧ IsAsciiName "Hash2_x_y2" := by
  have hmem : ofMember ∈ makers := by simp [makers]
  have hmember : ofMember "CODEC" = "CODEC_" := by decide +kernel
  have hclass : ofClass "a::2nd" = "a_2nd" := by decide +kernel
  have harm : "Hash2_x_y2" ∈ (crowdedUnit.moduleNames "Instance").classes := by decide +kernel
  obtain ⟨hmakers, -, -, hjoined, hclasses⟩ := labels_named
  obtain ⟨hname, hnumbered⟩ := hmember ▸ hmakers ofMember hmem "CODEC"
  exact ⟨hmem, hmember, (hnumbered 2).1, hname, hclass, hclass ▸ hjoined "CODEC_" hname "a::2nd", harm,
    hclasses crowdedUnit "Instance" _ harm⟩

end Identifier

end ContractClient
