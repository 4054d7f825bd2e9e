/-
The compatibility forms of identifiers, as far as they lead into ASCII.

Python takes an identifier for its compatibility form (NFKC), so names that are
written differently can be one name: letters of full width, of the mathematical
alphabets, above or below the line, ligatures and roman numerals stand for the
plain letters that they are made of. Everything that a generated module binds by
itself is an ASCII word, and a form is an ASCII word exactly if each character
of the name has a form in ASCII. Only these characters are taken for their forms
here. The others stay as they are, and so the form of a name that holds one of
them is no ASCII word, which is true of its full form as well.
-/

set_option autoImplicit false

namespace ContractClient.Text

/-- The letters of an alphabet, the capitals first. -/
def alphabet : List Char :=
  "ABCDEFGHIJKLMNOPQRSTUVWXYZabcdefghijklmnopqrstuvwxyz".toList

/-- The digits. -/
def digits : List Char :=
  "0123456789".toList

/-- Plain letters, each with the characters that stand for it. These are the
characters outside the blocks of whole alphabets. -/
def styledLetters : List (String × String) :=
  [("_", "︳︴﹍﹎﹏"), ("A", "ᴬ"), ("a", "ªᵃₐ"), ("B", "ᴮℬ"), ("b", "ᵇ"), ("C", "ℂℭⅭꟲ"), ("c", "ᶜⅽ"),
    ("D", "ᴰⅅⅮ"), ("d", "ᵈⅆⅾ"), ("E", "ᴱℰ"), ("e", "ᵉₑℯⅇ"), ("F", "ℱꟳ"), ("f", "ᶠ"), ("G", "ᴳ"),
    ("g", "ᵍℊ"), ("H", "ᴴℋℌℍ"), ("h", "ʰₕℎ"), ("I", "ᴵℐℑⅠ"), ("i", "ᵢⁱℹⅈⅰ"), ("J", "ᴶ"), ("j", "ʲⅉⱼ"),
    ("K", "ᴷ\u212a"), ("k", "ᵏₖ"), ("L", "ᴸℒⅬ"), ("l", "ˡₗℓⅼ"), ("M", "ᴹℳⅯ"), ("m", "ᵐₘⅿ"), ("N", "ᴺℕ"),
    ("n", "ⁿₙ"), ("O", "ᴼ"), ("o", "ºᵒₒℴ"), ("P", "ᴾℙ"), ("p", "ᵖₚ"), ("Q", "ℚꟴ"), ("q", "𐞥"),
    ("R", "ᴿℛℜℝ"), ("r", "ʳᵣ"), ("s", "ſˢₛ"), ("T", "ᵀ"), ("t", "ᵗₜ"), ("U", "ᵁ"), ("u", "ᵘᵤ"),
    ("V", "Ⅴⱽ"), ("v", "ᵛᵥⅴ"), ("W", "ᵂ"), ("w", "ʷ"), ("X", "Ⅹ"), ("x", "ˣₓⅹ"), ("y", "ʸ"), ("Z", "ℤℨ"),
    ("z", "ᶻ"), ("DZ", "Ǳ"), ("Dz", "ǲ"), ("dz", "ǳ"), ("ff", "ﬀ"), ("fi", "ﬁ"), ("fl", "ﬂ"),
    ("II", "Ⅱ"), ("ii", "ⅱ"), ("IJ", "Ĳ"), ("ij", "ĳ"), ("IV", "Ⅳ"), ("iv", "ⅳ"), ("IX", "Ⅸ"),
    ("ix", "ⅸ"), ("LJ", "Ǉ"), ("Lj", "ǈ"), ("lj", "ǉ"), ("NJ", "Ǌ"), ("Nj", "ǋ"), ("nj", "ǌ"),
    ("st", "ﬅﬆ"), ("VI", "Ⅵ"), ("vi", "ⅵ"), ("XI", "Ⅺ"), ("xi", "ⅺ"), ("ffi", "ﬃ"), ("ffl", "ﬄ"),
    ("III", "Ⅲ"), ("iii", "ⅲ"), ("VII", "Ⅶ"), ("vii", "ⅶ"), ("XII", "Ⅻ"), ("xii", "ⅻ"), ("VIII", "Ⅷ"),
    ("viii", "ⅷ")]

/-- What a character stands for in an identifier, if that is in ASCII, and else
the character. -/
def asciiForm (c : Char) : List Char :=
  let n := c.toNat
  if n < 0x80 then [c]
  -- The characters of full width are in the order of ASCII.
  else if 0xff01 ≤ n && n ≤ 0xff5e then [Char.ofNat (n - 0xfee0)]
  -- The mathematical alphabets follow each other, capitals before small letters, and so
  -- do the digits.
  else if 0x1d400 ≤ n && n < 0x1d6a4 then [alphabet.getD ((n - 0x1d400) % 52) c]
  else if 0x1d7ce ≤ n && n < 0x1d800 then [digits.getD ((n - 0x1d7ce) % 10) c]
  else if 0x1fbf0 ≤ n && n < 0x1fbfa then [digits.getD (n - 0x1fbf0) c]
  else match styledLetters.find? fun (_, styled) => styled.toList.contains c with
    | some (plain, _) => plain.toList
    | none => [c]

/-- **The name that an identifier stands for.** -/
def normalForm (s : String) : String :=
  String.ofList (s.toList.flatMap asciiForm)

end ContractClient.Text
