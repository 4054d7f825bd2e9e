/-
Kinds of texts.

The names in a document are texts, and which texts there are depends on who
reads the document. The library reads it into `String`s. A reader that keeps
what the escapes of JSON can write has code points, surrogates on their own
among them, and two texts that differ in a surrogate are different texts to it.
What is done with names needs little of either: their characters, the colon
among them, and their bytes in UTF-8, which a text with a surrogate does not
have.
-/
import ContractClient.Bytes.Utf8
import ContractClient.Text.Surrogates

set_option autoImplicit false

namespace ContractClient

/-- A kind of texts `τ`, each of which is a list of characters `γ`. -/
class Wording (τ : Type) (γ : outParam Type) where
  characters : τ → List γ
  ofCharacters : List γ → τ
  /-- A text is known by its characters. -/
  ofCharacters_characters : ∀ t, ofCharacters (characters t) = t
  /-- All lists of characters are texts. -/
  characters_ofCharacters : ∀ cs, characters (ofCharacters cs) = cs
  colon : γ
  /-- The bytes of a text, or the surrogates that have none. -/
  utf8 : τ → Except SurrogateRun Bytes

namespace Wording

section

variable {τ γ : Type} [Wording τ γ]

/-- Whether a text has bytes in UTF-8. -/
def Encodable (t : τ) : Prop :=
  ∃ bs, utf8 t = .ok bs

end

end Wording

/-- The texts that the library reads documents into. All of them have bytes. -/
instance : Wording String Char where
  characters := String.toList
  ofCharacters := String.ofList
  ofCharacters_characters _ := String.ofList_toList
  characters_ofCharacters _ := String.toList_ofList
  colon := ':'
  utf8 s := .ok (Utf8.encode s)

/-- A code point, surrogates included. -/
abbrev CodePoint := Fin 0x110000

/-- A text as its code points, whether or not they are characters. -/
structure CodePoints where
  points : List CodePoint
  deriving DecidableEq, Repr

namespace CodePoints

/-- The code points as numbers. -/
def numbers (t : CodePoints) : List Nat :=
  t.points.map Fin.val

/-- The bytes of a text of code points, or its first surrogates. -/
def utf8 (t : CodePoints) : Except SurrogateRun Bytes :=
  match SurrogateRun.first? t.numbers with
  | some run => .error run
  | none => .ok (Utf8.encode (String.ofList (t.numbers.map Char.ofNat)))

end CodePoints

/-- The texts of a reader that keeps all escapes. -/
instance : Wording CodePoints CodePoint where
  characters := CodePoints.points
  ofCharacters := CodePoints.mk
  ofCharacters_characters _ := rfl
  characters_ofCharacters _ := rfl
  colon := ⟨0x3a, by decide⟩
  utf8 := CodePoints.utf8

end ContractClient
