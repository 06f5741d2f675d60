import Funlet.Proofs.Data.Scalars
import Funlet.Proofs.Data.Strings
import Mathlib.Data.List.Forall2

/-!
# Layouts of JSON text

A text is composed of parts that are read as symbols of their own.  Blanks and line breaks stand for
no symbol, strings and structural characters are read whatever follows them, and a word ends where
something follows it that is no word.  So the symbols of items in brackets are the same in every
layout.
-/

set_option autoImplicit false

namespace Funlet.Json

/-! ## Symbols of a text -/

/-- The text is ASCII and is read as these symbols, if what follows it fits. -/
structure Reads (fits : List Char → Prop) (text : List Char) (symbols : List Symbol) : Prop where
  ascii : ∀ c ∈ text, c.toNat < 128
  reads : ∀ rest, fits rest → symbols? (text ++ rest) = (symbols? rest).map (symbols ++ ·)

def Stops (rest : List Char) : Prop := ∀ c ∈ rest.head?, isWordChar c = false

/-- The text is read as these symbols whatever follows it. -/
abbrev Solid : List Char → List Symbol → Prop := Reads fun _ => True

/-- The text is read as these symbols if no word goes on behind it. -/
abbrev Spells : List Char → List Symbol → Prop := Reads Stops

theorem Reads.append {fits fits' : List Char → Prop} {first second : List Char}
    {symbols symbols' : List Symbol} (reads : Reads fits first symbols)
    (more : Reads fits' second symbols') (follows : ∀ rest, fits' rest → fits (second ++ rest)) :
    Reads fits' (first ++ second) (symbols ++ symbols') := by
  refine ⟨fun c member => ?_, fun rest fit => ?_⟩
  · rcases List.mem_append.mp member with front | back
    · exact reads.ascii c front
    · exact more.ascii c back
  · rw [List.append_assoc, reads.reads _ (follows rest fit), more.reads rest fit, Option.map_map]
    simp only [Function.comp_def, List.append_assoc]

theorem Solid.append {fits : List Char → Prop} {first second : List Char}
    {symbols symbols' : List Symbol} (solid : Solid first symbols)
    (more : Reads fits second symbols') : Reads fits (first ++ second) (symbols ++ symbols') :=
  Reads.append solid more fun _ _ => trivial

theorem Solid.spells {text : List Char} {symbols : List Symbol} (solid : Solid text symbols) :
    Spells text symbols :=
  ⟨solid.ascii, fun rest _ => solid.reads rest trivial⟩

def Delimits (text : List Char) : Prop :=
  ∃ c rest, text = c :: rest ∧ isWordChar c = false

/-- A text is closed by one that begins with no part of a word. -/
theorem Spells.append {first second : List Char} {symbols symbols' : List Symbol}
    (spells : Spells first symbols) (more : Solid second symbols')
    (delimits : Delimits second) : Solid (first ++ second) (symbols ++ symbols') := by
  refine Reads.append spells more fun rest _ c head => ?_
  obtain ⟨d, tail, rfl, noWord⟩ := delimits
  obtain rfl : d = c := Option.some.inj head
  exact noWord

theorem solid_nil : Solid [] [] := ⟨by simp, by simp⟩

theorem solid_spaces {text : List Char} (spaces : ∀ c ∈ text, c = ' ' ∨ c = '\n') :
    Solid text [] := by
  induction text with
  | nil => exact solid_nil
  | cons c rest ih =>
    obtain ⟨space, spaces⟩ := List.forall_mem_cons.mp spaces
    have solid : Solid [c] [] := by
      refine ⟨fun d member => ?_, fun behind _ => ?_⟩
      · rw [List.mem_singleton.mp member]
        rcases space with rfl | rfl <;> decide
      · have isSpace : isSpace c = true := by rcases space with rfl | rfl <;> decide
        rw [List.singleton_append, symbols?, if_pos isSpace]
        simp
    exact solid.append (ih spaces)

theorem solid_structural {c : Char} {symbol : Symbol} (noSpace : isSpace c = false)
    (ascii : c.toNat < 128) (known : structural? c = some symbol) : Solid [c] [symbol] := by
  refine ⟨fun d member => ?_, fun rest _ => ?_⟩
  · rwa [List.mem_singleton.mp member]
  · rw [List.singleton_append, symbols?]
    simp only [noSpace, Bool.false_eq_true, if_false, known, List.singleton_append]

theorem solid_string (text : CodePoints) :
    Solid (string text).toList [.scalar (.text (CodePoints.joined text))] := by
  refine ⟨fun c => toNat_lt_of_mem_string, fun rest _ => ?_⟩
  have read := readString?_escaped text rest
  have shape : (string text).toList ++ rest =
      '"' :: ((text.map Fin.val).flatMap escapedCode ++ '"' :: rest) := by
    simp [string, Wording.codes]
  have noSpace : isSpace '"' = false := by decide
  have noMark : structural? '"' = none := rfl
  rw [shape, symbols?]
  simp only [noSpace, noMark, Bool.false_eq_true, if_false, if_true]
  split
  · rename_i value behind found
    obtain ⟨rfl, rfl⟩ := Prod.mk.inj (Option.some.inj (found.symm.trans read))
    rfl
  · rename_i missing
    exact absurd (missing.symm.trans read) (by simp)

theorem spells_word {word : List Char} {value : Document} (filled : word ≠ [])
    (ascii : ∀ c ∈ word, c.toNat < 128) (isWord : ∀ c ∈ word, isWordChar c = true)
    (read : readWord? word = some value) : Spells word [.scalar value] := by
  refine ⟨ascii, fun rest stops => ?_⟩
  cases word with
  | nil => exact absurd rfl filled
  | cons c more =>
    obtain ⟨first, others⟩ := List.forall_mem_cons.mp isWord
    have differs {d : Char} (noWord : isWordChar d = false) : c ≠ d := by
      rintro rfl
      rw [noWord] at first
      exact absurd first (by decide)
    have noSpace : isSpace c = false := by
      simp [isSpace, differs (by decide : isWordChar ' ' = false),
        differs (by decide : isWordChar '\t' = false),
        differs (by decide : isWordChar '\n' = false),
        differs (by decide : isWordChar '\r' = false)]
    have noMark : structural? c = none := by
      unfold structural?
      split
      · exact absurd rfl (differs (by decide : isWordChar '[' = false))
      · exact absurd rfl (differs (by decide : isWordChar ']' = false))
      · exact absurd rfl (differs (by decide : isWordChar '\x7b' = false))
      · exact absurd rfl (differs (by decide : isWordChar '\x7d' = false))
      · exact absurd rfl (differs (by decide : isWordChar ':' = false))
      · exact absurd rfl (differs (by decide : isWordChar ',' = false))
      · rfl
    have noQuote : c ≠ '"' := differs (by decide)
    rw [List.cons_append, symbols?]
    simp only [noSpace, noMark, noQuote, first, Bool.false_eq_true, if_false, if_true,
      takeWhile_append_of_stops others stops, dropWhile_append_of_stops others stops, read]
    rfl

theorem spells_keyword {word : List Char} {value : Document} (filled : word ≠ [])
    (letters : word.all (fun c => isWordChar c && decide (c.toNat < 128)) = true)
    (read : readWord? word = some value) : Spells word [.scalar value] := by
  simp only [List.all_eq_true, Bool.and_eq_true, decide_eq_true_eq] at letters
  exact spells_word filled (fun c member => (letters c member).2)
    (fun c member => (letters c member).1) read

theorem isAscii_of_isNumeralChar {word : List Char} (numeral : ∀ c ∈ word, IsNumeralChar c) :
    ∀ c ∈ word, c.toNat < 128 := by
  intro c member
  have := (numeral c member).toNat_bounds
  omega

theorem spells_number {word : List Char} {value : Document} (filled : word ≠ [])
    (numeral : ∀ c ∈ word, IsNumeralChar c) (read : readNumber? word = some value) :
    Spells word [.scalar value] :=
  spells_word filled (isAscii_of_isNumeralChar numeral)
    (fun c member => isWordChar_of_isNumeralChar (numeral c member))
    (readWord?_of_number numeral read)

/-! ## Layout -/

theorem spaces_of_lineBreak (indent : Option Int) (depth : Nat) :
    ∀ c ∈ (lineBreak indent depth).toList, c = ' ' ∨ c = '\n' := by
  intro c member
  cases indent with
  | none => simp [lineBreak] at member
  | some width =>
    simp only [lineBreak, String.toList_ofList, List.mem_cons] at member
    rcases member with newline | space
    · exact .inr newline
    · exact .inl (List.eq_of_mem_replicate space)

/-- A line break may be missing, but what stands behind it is no part of a word. -/
theorem delimits_lineBreak (indent : Option Int) (depth : Nat) {rest : List Char}
    (delimits : Delimits rest) : Delimits ((lineBreak indent depth).toList ++ rest) := by
  cases indent with
  | none => exact delimits
  | some width =>
    refine ⟨'\n', List.replicate (width.toNat * depth) ' ' ++ rest, ?_, by decide⟩
    simp [lineBreak]

theorem solid_comma : Solid [','] [.comma] := solid_structural (by decide) (by decide) rfl

theorem solid_separator (indent : Option Int) (depth : Nat) :
    Solid (separator indent depth).toList [.comma] := by
  cases indent with
  | none =>
    have space : Solid [' '] [] := solid_spaces (by simp)
    simpa [separator] using solid_comma.append space
  | some width =>
    rw [separator, String.toList_append]
    exact solid_comma.append (solid_spaces (spaces_of_lineBreak (some width) depth))

theorem delimits_separator (indent : Option Int) (depth : Nat) (rest : List Char) :
    Delimits ((separator indent depth).toList ++ rest) := by
  cases indent with
  | none => exact ⟨',', ' ' :: rest, by simp [separator], by decide⟩
  | some width =>
    refine ⟨',', (lineBreak (some width) depth).toList ++ rest, ?_, by decide⟩
    simp [separator]

/-! ## Brackets -/

def between (closing : Symbol) : List (List Symbol) → List Symbol
  | [] => [closing]
  | [item] => item ++ [closing]
  | item :: next :: rest => item ++ .comma :: between closing (next :: rest)

section Brackets

variable {closing : List Char} {symbol : Symbol} (closes : Solid closing [symbol])
  (delimits : Delimits closing)

include closes delimits

theorem solid_intercalate (indent : Option Int) (depth : Nat) {parts : List String}
    {items : List (List Symbol)} (filled : parts ≠ [])
    (spells : List.Forall₂ (fun part item => Spells (String.toList part) item) parts items) :
    Solid (((separator indent depth).intercalate parts).toList ++ closing)
      (between symbol items) := by
  induction spells with
  | nil => exact absurd rfl filled
  | @cons part item parts items first others ih =>
    cases others with
    | nil =>
      rw [String.intercalate_singleton]
      exact first.append closes delimits
    | @cons next nextItem more moreItems second rest =>
      have tail := ih (by simp)
      rw [String.intercalate_cons_cons, String.toList_append, String.toList_append,
        List.append_assoc, List.append_assoc]
      exact first.append ((solid_separator indent depth).append tail)
        (delimits_separator indent depth _)

end Brackets

theorem solid_enclose (indent : Option Int) (depth : Nat) {opening closing : String}
    {begins ends : Symbol} (opens : Solid opening.toList [begins])
    (closes : Solid closing.toList [ends]) (delimits : Delimits closing.toList)
    {parts : List String} {items : List (List Symbol)}
    (spells : List.Forall₂ (fun part item => Spells (String.toList part) item) parts items) :
    Solid (enclose indent depth opening closing parts).toList (begins :: between ends items) := by
  have broken (level : Nat) : Solid (lineBreak indent level).toList [] :=
    solid_spaces (spaces_of_lineBreak indent level)
  cases spells with
  | nil => simpa [enclose, between] using opens.append closes
  | @cons part item more moreItems first others =>
    have inside := solid_intercalate ((broken depth).append closes)
      (delimits_lineBreak indent depth delimits) indent (depth + 1) (by simp)
      (List.Forall₂.cons first others)
    simpa [enclose] using opens.append ((broken (depth + 1)).append inside)

theorem solid_list (indent : Option Int) (depth : Nat) {parts : List String}
    {items : List (List Symbol)}
    (spells : List.Forall₂ (fun part item => Spells (String.toList part) item) parts items) :
    Solid (enclose indent depth "[" "]" parts).toList (.beginList :: between .endList items) := by
  have opens : Solid "[".toList [.beginList] := solid_structural (by decide) (by decide) rfl
  have closes : Solid "]".toList [.endList] := solid_structural (by decide) (by decide) rfl
  exact solid_enclose indent depth opens closes ⟨']', [], rfl, by decide⟩ spells

theorem solid_map (indent : Option Int) (depth : Nat) {parts : List String}
    {items : List (List Symbol)}
    (spells : List.Forall₂ (fun part item => Spells (String.toList part) item) parts items) :
    Solid (enclose indent depth "\x7b" "\x7d" parts).toList
      (.beginMap :: between .endMap items) := by
  have opens : Solid "\x7b".toList [.beginMap] := solid_structural (by decide) (by decide) rfl
  have closes : Solid "\x7d".toList [.endMap] := solid_structural (by decide) (by decide) rfl
  exact solid_enclose indent depth opens closes ⟨'\x7d', [], rfl, by decide⟩ spells

end Funlet.Json
