import Funlet.Text.Quoted

/-!
# Code points

The texts that trees and plain data hold.  A string is a sequence of characters; the host's own
texts are sequences of code points, in which surrogates may stand as well.
-/

set_option autoImplicit false

namespace Funlet

abbrev CodePoints := List (Fin 0x110000)

/-- A kind of text that has a code for each place and holds all strings. -/
class Wording (Text : Type) where
  codes : Text → List Nat
  ofString : String → Text
  /-- The string that a text is, if there is one. -/
  toString? : Text → Option String
  quoted : Text → String
  codes_ofString (text : String) : codes (ofString text) = text.toList.map Char.toNat
  toString?_eq_some_iff {text : Text} {string : String} :
    toString? text = some string ↔ text = ofString string
  quoted_ofString (text : String) : quoted (ofString text) = Funlet.Text.quoted text

@[simp]
theorem Wording.toString?_ofString {Text : Type} [Wording Text] (text : String) :
    Wording.toString? (Wording.ofString text : Text) = some text :=
  Wording.toString?_eq_some_iff.mpr rfl

@[simp]
theorem Wording.ofString_inj {Text : Type} [Wording Text] {first second : String} :
    (Wording.ofString first : Text) = Wording.ofString second ↔ first = second := by
  rw [← Wording.toString?_eq_some_iff, Wording.toString?_ofString, Option.some_inj]

instance : Wording String where
  codes text := text.toList.map Char.toNat
  ofString text := text
  toString? text := some text
  quoted := Text.quoted
  codes_ofString _ := rfl
  toString?_eq_some_iff := Option.some_inj
  quoted_ofString _ := rfl

@[simp]
theorem Wording.ofString_string (text : String) : (Wording.ofString text : String) = text := rfl

@[simp]
theorem Wording.toString?_string (text : String) : Wording.toString? text = some text := rfl

namespace CodePoints

def ofChar (c : Char) : Fin 0x110000 :=
  ⟨c.toNat, by
    rcases c.valid with low | high
    · exact Nat.lt_trans low (by decide)
    · exact high.2⟩

def char? (point : Fin 0x110000) : Option Char :=
  if point.val.isValidChar then some (Char.ofNat point.val) else none

theorem ofChar_ofNat {point : Fin 0x110000} (valid : point.val.isValidChar) :
    ofChar (Char.ofNat point.val) = point := by
  refine Fin.ext ?_
  rw [ofChar, Char.ofNat, dif_pos valid]
  rfl

@[simp]
theorem char?_ofChar (c : Char) : char? (ofChar c) = some c := by
  have valid : c.toNat.isValidChar := c.valid
  simp [char?, ofChar, valid, Char.ofNat_toNat]

theorem char?_eq_some_iff {point : Fin 0x110000} {c : Char} :
    char? point = some c ↔ point = ofChar c := by
  constructor
  · unfold char?
    split
    · rename_i valid
      rintro ⟨⟩
      exact (ofChar_ofNat valid).symm
    · rintro ⟨⟩
  · rintro rfl
    exact char?_ofChar c

theorem mapM_char?_eq_some_iff {points : CodePoints} {text : List Char} :
    points.mapM char? = some text ↔ points = text.map ofChar := by
  induction points generalizing text with
  | nil => cases text <;> simp
  | cons point rest ih =>
    simp only [List.mapM_cons, Option.bind_eq_bind, Option.bind_eq_some_iff, char?_eq_some_iff, ih]
    cases text <;> simp

/-- How a code point stands between quotes.  A surrogate has no printed form. -/
def quotedPoint (quote : Char) (point : Fin 0x110000) : List Char :=
  match char? point with
  | some c => Text.quotedChar quote c
  | none => '\\' :: 'u' :: Digits.hex 4 point.val

def quoted (text : CodePoints) : String :=
  let quote := Text.quoteFor (text.filterMap char?)
  String.ofList (quote :: text.flatMap (quotedPoint quote) ++ [quote])

theorem quoted_map_ofChar (text : List Char) :
    quoted (text.map ofChar) = Text.quoted (String.ofList text) := by
  have chars : (text.map ofChar).filterMap char? = text := by
    simp [List.filterMap_map, Function.comp_def]
  have shown (quote : Char) :
      (text.map ofChar).flatMap (quotedPoint quote) = text.flatMap (Text.quotedChar quote) := by
    simp [List.flatMap_map, quotedPoint]
  simp only [quoted, Text.quoted, chars, shown, String.toList_ofList]

end CodePoints

instance : Wording CodePoints where
  codes text := text.map Fin.val
  ofString text := text.toList.map CodePoints.ofChar
  toString? text := (text.mapM CodePoints.char?).map String.ofList
  quoted := CodePoints.quoted
  codes_ofString text := by simp [CodePoints.ofChar, Function.comp_def]
  toString?_eq_some_iff {text string} := by
    rw [Option.map_eq_some_iff]
    constructor
    · rintro ⟨chars, read, rfl⟩
      rw [CodePoints.mapM_char?_eq_some_iff.mp read, String.toList_ofList]
    · rintro rfl
      exact ⟨string.toList, CodePoints.mapM_char?_eq_some_iff.mpr rfl, String.ofList_toList⟩
  quoted_ofString text := by
    rw [CodePoints.quoted_map_ofChar, String.ofList_toList]

end Funlet
