import Funlet.Proofs.Data.Layout
import Funlet.Proofs.Outcome

/-!
# Reading back JSON text

The JSON text of a value is ASCII and is read back as the value, whatever its layout: the symbols of
the text are those of the value, and putting them together gives the value.  Only surrogates that
stand side by side in a text are read back as one code point.
-/

set_option autoImplicit false

namespace Funlet

namespace Data

variable {Text Text' : Type} (f : Text → Text')

mutual

def mapText : Data Text → Data Text'
  | .null => .null
  | .bool value => .bool value
  | .int value => .int value
  | .float value => .float value
  | .text value => .text (f value)
  | .list items => .list (mapItems items)
  | .map entries => .map (mapEntries entries)

def mapItems : List (Data Text) → List (Data Text')
  | [] => []
  | item :: rest => mapText item :: mapItems rest

def mapEntries : List (Text × Data Text) → List (Text' × Data Text')
  | [] => []
  | (key, value) :: rest => (f key, mapText value) :: mapEntries rest

end

end Data

namespace Json

open CodePoints

/-! ## Values -/

theorem spells_integer {value : Int} {text : String} (written : integer value = .ok text) :
    Spells text.toList [.scalar (.int value)] := by
  unfold integer Data.integerText at written
  split at written
  · rename_i spelled signed
    obtain rfl := Except.ok.inj written
    split_ifs at signed with long
    obtain rfl := Except.ok.inj signed
    have numeral : ∀ c ∈ (Digits.signed value).toList, IsNumeralChar c := by
      rw [Digits.signed_eq, String.toList_ofList]
      intro c member
      rcases List.mem_append.mp member with sign | digit
      · exact Numeral.isNumeralChar_of_mem_signText sign
      · exact .inl (.inl (Digits.isDigit_of_mem_ofNat digit))
    have filled : (Digits.signed value).toList ≠ [] := by
      rw [Digits.signed_eq, String.toList_ofList]
      simp [Digits.ofNat_ne_nil]
    exact spells_number filled numeral (readNumber?_signed (Nat.not_le.mp long))
  · cases written

theorem spells_float {value : Binary64} (finite : value.isFinite = true) :
    Spells value.text.toList [.scalar (.float value)] := by
  cases value with
  | infinite negative => simp [Binary64.isFinite] at finite
  | nan => simp [Binary64.isFinite] at finite
  | finite negative size =>
    obtain ⟨f, shape, bounded, rounded⟩ := size.exists_fraction
    have read := readNumber?_fraction bounded negative
    rw [rounded] at read
    have textIs : (Binary64.finite negative size).text.toList =
        Numeral.signText negative ++ f.text := by
      rw [Binary64.text, String.toList_ofList, shape]
      rfl
    rw [textIs]
    refine spells_number ?_ ?_ read
    · simp [Fraction.text, literalText, f.before_ne_nil]
    · exact Numeral.isNumeralChar_of_mem_append f.beforeDigits f.afterDigits negative
        fun _ => f.isNumeralChar_of_mem_exponent

mutual

def symbolsOf : Document → List Symbol
  | .null => [.scalar .null]
  | .bool value => [.scalar (.bool value)]
  | .int value => [.scalar (.int value)]
  | .float value => [.scalar (.float value)]
  | .text value => [.scalar (.text value)]
  | .list items => .beginList :: between .endList (symbolsOfItems items)
  | .map entries => .beginMap :: between .endMap (symbolsOfEntries entries)

def symbolsOfItems : List Document → List (List Symbol)
  | [] => []
  | item :: rest => symbolsOf item :: symbolsOfItems rest

def symbolsOfEntries : List (CodePoints × Document) → List (List Symbol)
  | [] => []
  | (key, value) :: rest =>
    (.scalar (.text key) :: .colon :: symbolsOf value) :: symbolsOfEntries rest

end

theorem spells_entry {key : CodePoints} {part : String} {symbols : List Symbol}
    (spells : Spells part.toList symbols) :
    Spells (string key ++ ": " ++ part).toList
      (.scalar (.text (joined key)) :: .colon :: symbols) := by
  have colon : Solid [':'] [.colon] := solid_structural (by decide) (by decide) rfl
  have space : Solid [' '] [] := solid_spaces (by simp)
  have entry := (solid_string key).append (colon.append (space.append spells))
  simpa using entry

mutual

theorem spells_write (indent : Option Int) (depth : Nat) (data : Document) {text : String}
    (written : write indent depth data = .ok text) :
    Spells text.toList (symbolsOf (data.mapText joined)) := by
  cases data with
  | null =>
    rw [write] at written
    obtain rfl := Except.ok.inj written
    exact spells_keyword (by simp) rfl rfl
  | bool value =>
    rw [write] at written
    obtain rfl := Except.ok.inj written
    cases value with
    | true => exact spells_keyword (by simp) rfl rfl
    | false => exact spells_keyword (by simp) rfl rfl
  | int value =>
    rw [write] at written
    exact spells_integer written
  | float value =>
    rw [write] at written
    split_ifs at written with finite
    obtain rfl := Except.ok.inj written
    exact spells_float finite
  | text value =>
    rw [write] at written
    obtain rfl := Except.ok.inj written
    exact (solid_string value).spells
  | list items =>
    rw [write] at written
    obtain ⟨parts, wrote, done⟩ := Except.bind_eq_ok_iff.mp written
    obtain rfl := Except.pure_eq_ok_iff.mp done
    rw [Data.mapText, symbolsOf]
    exact (solid_list indent depth (spells_writeItems indent (depth + 1) items wrote)).spells
  | map entries =>
    rw [write] at written
    obtain ⟨parts, wrote, done⟩ := Except.bind_eq_ok_iff.mp written
    obtain rfl := Except.pure_eq_ok_iff.mp done
    rw [Data.mapText, symbolsOf]
    exact (solid_map indent depth (spells_writeEntries indent (depth + 1) entries wrote)).spells

theorem spells_writeItems (indent : Option Int) (depth : Nat) (items : List Document)
    {parts : List String} (written : writeItems indent depth items = .ok parts) :
    List.Forall₂ (fun part item => Spells (String.toList part) item) parts
      (symbolsOfItems (Data.mapItems joined items)) := by
  cases items with
  | nil =>
    rw [writeItems] at written
    obtain rfl := Except.ok.inj written
    rw [Data.mapItems, symbolsOfItems]
    exact .nil
  | cons item rest =>
    rw [writeItems] at written
    obtain ⟨part, wrote, written⟩ := Except.bind_eq_ok_iff.mp written
    obtain ⟨others, wroteRest, done⟩ := Except.bind_eq_ok_iff.mp written
    obtain rfl := Except.pure_eq_ok_iff.mp done
    rw [Data.mapItems, symbolsOfItems]
    exact .cons (spells_write indent depth item wrote)
      (spells_writeItems indent depth rest wroteRest)

theorem spells_writeEntries (indent : Option Int) (depth : Nat)
    (entries : List (CodePoints × Document)) {parts : List String}
    (written : writeEntries indent depth entries = .ok parts) :
    List.Forall₂ (fun part item => Spells (String.toList part) item) parts
      (symbolsOfEntries (Data.mapEntries joined entries)) := by
  cases entries with
  | nil =>
    rw [writeEntries] at written
    obtain rfl := Except.ok.inj written
    rw [Data.mapEntries, symbolsOfEntries]
    exact .nil
  | cons entry rest =>
    obtain ⟨key, value⟩ := entry
    rw [writeEntries] at written
    obtain ⟨part, wrote, written⟩ := Except.bind_eq_ok_iff.mp written
    obtain ⟨others, wroteRest, done⟩ := Except.bind_eq_ok_iff.mp written
    obtain rfl := Except.pure_eq_ok_iff.mp done
    rw [Data.mapEntries, symbolsOfEntries]
    exact .cons (spells_entry (spells_write indent depth value wrote))
      (spells_writeEntries indent depth rest wroteRest)

end

/-! ## Documents -/

theorem readValue?_list {fuel : Nat} {symbols : List Symbol}
    (begins : ∀ rest, symbols ≠ .endList :: rest) :
    readValue? (fuel + 1) (.beginList :: symbols) =
      (readItems? fuel symbols).map fun read => (.list read.1, read.2) := by
  rw [readValue?]
  exact begins

theorem readValue?_map {fuel : Nat} {symbols : List Symbol}
    (begins : ∀ rest, symbols ≠ .endMap :: rest) :
    readValue? (fuel + 1) (.beginMap :: symbols) =
      (readEntries? fuel symbols).map fun read => (.map read.1, read.2) := by
  rw [readValue?]
  exact begins

theorem exists_between_cons (closing : Symbol) (item : List Symbol) (rest : List (List Symbol)) :
    ∃ tail, between closing (item :: rest) = item ++ tail := by
  cases rest with
  | nil => exact ⟨_, rfl⟩
  | cons next more => exact ⟨_, rfl⟩

theorem between_length_pos (closing : Symbol) (items : List (List Symbol)) :
    0 < (between closing items).length := by
  cases items with
  | nil => simp [between]
  | cons item rest => cases rest <;> simp [between]

theorem symbolsOf_ne_endList (data : Document) (tail rest : List Symbol) :
    symbolsOf data ++ tail ≠ .endList :: rest := by
  cases data <;> simp [symbolsOf]

mutual

theorem readValue?_symbolsOf (data : Document) {fuel : Nat}
    (enough : (symbolsOf data).length ≤ fuel) (rest : List Symbol) :
    readValue? fuel (symbolsOf data ++ rest) = some (data, rest) := by
  cases fuel with
  | zero => cases data <;> simp [symbolsOf] at enough
  | succ fuel =>
    cases data with
    | null | bool | int | float | text =>
      rw [symbolsOf, List.singleton_append, readValue?]
    | list items =>
      cases items with
      | nil => rw [symbolsOf, symbolsOfItems, between, List.cons_append, List.cons_append,
          List.nil_append, readValue?]
      | cons item more =>
        rw [symbolsOf, List.length_cons, Nat.add_le_add_iff_right] at enough
        have read := readItems?_symbolsOfItems (item :: more) (by simp) enough rest
        rw [symbolsOf, List.cons_append, readValue?_list, read]
        · rfl
        · intro behind
          rw [symbolsOfItems]
          obtain ⟨tail, shape⟩ := exists_between_cons .endList (symbolsOf item)
            (symbolsOfItems more)
          rw [shape, List.append_assoc]
          exact symbolsOf_ne_endList item _ behind
    | map entries =>
      cases entries with
      | nil => rw [symbolsOf, symbolsOfEntries, between, List.cons_append, List.cons_append,
          List.nil_append, readValue?]
      | cons entry more =>
        obtain ⟨key, value⟩ := entry
        rw [symbolsOf, List.length_cons, Nat.add_le_add_iff_right] at enough
        have read := readEntries?_symbolsOfEntries ((key, value) :: more) (by simp) enough rest
        rw [symbolsOf, List.cons_append, readValue?_map, read]
        · rfl
        · intro behind
          rw [symbolsOfEntries]
          obtain ⟨tail, shape⟩ := exists_between_cons .endMap
            (.scalar (.text key) :: .colon :: symbolsOf value)
            (symbolsOfEntries more)
          rw [shape]
          simp

theorem readItems?_symbolsOfItems (items : List Document) {fuel : Nat} (filled : items ≠ [])
    (enough : (between .endList (symbolsOfItems items)).length ≤ fuel) (rest : List Symbol) :
    readItems? fuel (between .endList (symbolsOfItems items) ++ rest) = some (items, rest) := by
  cases items with
  | nil => exact absurd rfl filled
  | cons item more =>
    cases fuel with
    | zero => exact absurd enough (Nat.not_le.mpr (between_length_pos _ _))
    | succ fuel =>
      rw [symbolsOfItems] at enough ⊢
      cases more with
      | nil =>
        rw [symbolsOfItems, between] at enough ⊢
        have read := readValue?_symbolsOf item (by simpa using enough) (.endList :: rest)
        rw [List.append_assoc, readItems?]
        simp only [List.singleton_append, read]
      | cons next others =>
        rw [symbolsOfItems, between, ← symbolsOfItems] at enough ⊢
        rw [List.length_append, List.length_cons] at enough
        have fits : (symbolsOf item).length ≤ fuel := by omega
        have fitsRest : (between .endList (symbolsOfItems (next :: others))).length ≤ fuel := by
          omega
        have read := readValue?_symbolsOf item fits
          (.comma :: (between .endList (symbolsOfItems (next :: others)) ++ rest))
        have readRest := readItems?_symbolsOfItems (next :: others) (by simp) fitsRest rest
        rw [List.append_assoc, List.cons_append, readItems?]
        simp only [read, readRest, Option.map_some]

theorem readEntries?_symbolsOfEntries (entries : List (CodePoints × Document)) {fuel : Nat}
    (filled : entries ≠ [])
    (enough : (between .endMap (symbolsOfEntries entries)).length ≤ fuel) (rest : List Symbol) :
    readEntries? fuel (between .endMap (symbolsOfEntries entries) ++ rest) =
      some (entries, rest) := by
  cases entries with
  | nil => exact absurd rfl filled
  | cons entry more =>
    obtain ⟨key, value⟩ := entry
    cases fuel with
    | zero => exact absurd enough (Nat.not_le.mpr (between_length_pos _ _))
    | succ fuel =>
      rw [symbolsOfEntries] at enough ⊢
      cases more with
      | nil =>
        rw [symbolsOfEntries, between] at enough ⊢
        simp only [List.length_append, List.length_cons, List.length_nil] at enough
        have fits : (symbolsOf value).length ≤ fuel := by omega
        have read := readValue?_symbolsOf value fits (.endMap :: rest)
        simp only [List.cons_append, List.append_assoc, readEntries?]
        simp only [List.nil_append, read]
      | cons next others =>
        obtain ⟨nextKey, nextValue⟩ := next
        rw [symbolsOfEntries, between, ← symbolsOfEntries] at enough ⊢
        simp only [List.length_append, List.length_cons] at enough
        have fits : (symbolsOf value).length ≤ fuel := by omega
        have fitsRest : (between .endMap
            (symbolsOfEntries ((nextKey, nextValue) :: others))).length ≤ fuel := by omega
        have read := readValue?_symbolsOf value fits
          (.comma :: (between .endMap (symbolsOfEntries ((nextKey, nextValue) :: others)) ++ rest))
        have readRest := readEntries?_symbolsOfEntries ((nextKey, nextValue) :: others) (by simp)
          fitsRest rest
        simp only [List.cons_append, List.append_assoc, readEntries?]
        simp only [read, readRest, Option.map_some]

end

theorem decode?_write {indent : Option Int} {data : Document} {text : String}
    (written : write indent 0 data = .ok text) : decode? text = some (data.mapText joined) := by
  have symbols := (spells_write indent 0 data written).reads [] (by simp [Stops])
  have read := readValue?_symbolsOf (data.mapText joined) (Nat.le_refl _) []
  rw [List.append_nil] at symbols read
  have none : symbols? [] = some [] := by rw [symbols?]
  rw [none, Option.map_some, List.append_nil] at symbols
  rw [decode?, symbols]
  simp only [read]

end Json

namespace Json

section MapText

variable {Text Text' : Type} [Wording Text] [Wording Text'] {f : Text → Text'} {indent : Option Int}

mutual

theorem write_mapText (same : ∀ text, string (f text) = string text) (depth : Nat)
    (data : Data Text) : write indent depth (data.mapText f) = write indent depth data := by
  cases data with
  | null => rfl
  | bool value => rfl
  | int value => rfl
  | float value => rfl
  | text value => rw [Data.mapText, write, write, same]
  | list items =>
    rw [Data.mapText, write, write, writeItems_mapItems same (depth + 1) items]
  | map entries =>
    rw [Data.mapText, write, write, writeEntries_mapEntries same (depth + 1) entries]

theorem writeItems_mapItems (same : ∀ text, string (f text) = string text) (depth : Nat)
    (items : List (Data Text)) :
    writeItems indent depth (Data.mapItems f items) = writeItems indent depth items := by
  cases items with
  | nil => rfl
  | cons item rest =>
    rw [Data.mapItems, writeItems, writeItems, write_mapText same depth item,
      writeItems_mapItems same depth rest]

theorem writeEntries_mapEntries (same : ∀ text, string (f text) = string text) (depth : Nat)
    (entries : List (Text × Data Text)) :
    writeEntries indent depth (Data.mapEntries f entries) =
      writeEntries indent depth entries := by
  cases entries with
  | nil => rfl
  | cons entry rest =>
    obtain ⟨key, value⟩ := entry
    rw [Data.mapEntries, writeEntries, writeEntries, same, write_mapText same depth value,
      writeEntries_mapEntries same depth rest]

end

end MapText

end Json

namespace Data

theorem json_mapText_ofString [Host] (indent : Option Int) (data : Data) :
    (data.mapText Wording.ofString : Json.Document).json indent = data.json indent := by
  have same (text : String) :
      Json.string (Wording.ofString text : CodePoints) = Json.string text := by
    rw [Json.string, Json.string, Wording.codes_ofString]
    rfl
  unfold json
  rw [Json.write_mapText same]

theorem json_mapText_joined [Host] (indent : Option Int) (data : Json.Document) :
    (data.mapText CodePoints.joined).json indent = data.json indent := by
  unfold json
  rw [Json.write_mapText Json.string_joined]

/-- The JSON text of a value is ASCII, and in every layout it is read as the value, with surrogates
joined. -/
theorem decode?_json [Host] {indent : Option Int} {data : Json.Document} {text : String}
    (written : data.json indent = .ok text) :
    (∀ c ∈ text.toList, c.toNat < 128) ∧
      Json.decode? text = some (data.mapText CodePoints.joined) := by
  unfold json at written
  split at written
  · exact ⟨(Json.spells_write indent 0 data written).ascii, Json.decode?_write written⟩
  · cases written

end Data

end Funlet
