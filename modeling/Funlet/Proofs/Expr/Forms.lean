import Funlet.Expr.Record
import Mathlib.Data.List.Forall2

/-!
# The forms of a record

A record says which form of expression it holds and gives each field of that form under a key, which
is the field's name without the blanks between its words.  From the table of the forms follows which
values are records of trees of at most a given height, and what is left of a record when the keys
that its form does not have are dropped and its number is replaced by a floating-point one.
-/

set_option autoImplicit false

namespace Funlet

/-! ## The table -/

inductive Content where
  | number
  | text
  | tree
  deriving DecidableEq

structure Field where
  words : List String
  content : Content
  deriving DecidableEq

namespace Field

/-- The words of the name joined, every word after the first with a capital. -/
def key (field : Field) : String :=
  match field.words with
  | [] => ""
  | first :: more => first ++ String.join (more.map String.capitalize)

@[simp]
theorem key_of_word (word : String) (content : Content) : key ⟨[word], content⟩ = word := by
  simp [key, String.join]

@[simp]
theorem key_of_two_words :
    key ⟨["node", "type"], .text⟩ = "nodeType" ∧
    key ⟨["parameter", "name"], .text⟩ = "parameterName" ∧
    key ⟨["variable", "name"], .text⟩ = "variableName" ∧
    key ⟨["in", "expression"], .tree⟩ = "inExpression" ∧
    key ⟨["then", "branch"], .tree⟩ = "thenBranch" ∧
    key ⟨["else", "branch"], .tree⟩ = "elseBranch" := by
  decide +kernel

end Field

structure Form where
  tag : String
  fields : List Field
  deriving DecidableEq

namespace Form

def all : List Form := [
  ⟨"Number", [⟨["value"], .number⟩]⟩,
  ⟨"Variable", [⟨["name"], .text⟩]⟩,
  ⟨"BinaryOp", [⟨["operator"], .text⟩, ⟨["left"], .tree⟩, ⟨["right"], .tree⟩]⟩,
  ⟨"Function", [⟨["parameter", "name"], .text⟩, ⟨["body"], .tree⟩]⟩,
  ⟨"Application", [⟨["function"], .tree⟩, ⟨["argument"], .tree⟩]⟩,
  ⟨"Let", [⟨["variable", "name"], .text⟩, ⟨["value"], .tree⟩, ⟨["in", "expression"], .tree⟩]⟩,
  ⟨"If", [⟨["condition"], .tree⟩, ⟨["then", "branch"], .tree⟩, ⟨["else", "branch"], .tree⟩]⟩]

def withTag? (tag : String) : Option Form := all.find? (fun form => form.tag == tag)

theorem withTag?_eq_some_iff {tag : String} {form : Form} :
    withTag? tag = some form ↔ form ∈ all ∧ form.tag = tag := by
  constructor
  · intro found
    have same : (form.tag == tag) = true :=
      List.find?_some (p := fun form : Form => form.tag == tag) found
    exact ⟨List.mem_of_find?_eq_some found, by simpa using same⟩
  · rintro ⟨listed, rfl⟩
    revert form
    decide +kernel

def slots (form : Form) : List Field := ⟨["node", "type"], .text⟩ :: form.fields

/-- The record of the form that gives its tag and then these values of its fields. -/
def record {Text : Type} [Wording Text] (form : Form) (values : List (Data Text)) : Data Text :=
  .map ((form.slots.map fun field => Wording.ofString field.key).zip
    (.text (Wording.ofString form.tag) :: values))

end Form

/-! ## Values that are records -/

variable {Text : Type}

namespace Data

/-- The number of a numeric value as a floating-point one, infinite for an integer that is too
large.  A truth value is no number. -/
def asReal? : Data Text → Option Binary64
  | .float value => some value
  | .int value => some (.ofInt value)
  | _ => none

end Data

/-- The value may stand in a field of this content; which values are trees is given. -/
def Content.Admits (isTree : Data Text → Prop) : Content → Data Text → Prop
  | .number, value => ∃ real, value.asReal? = some real ∧ real.isFinite = true
  | .text, value => ∃ text, value = .text text
  | .tree, value => isTree value

namespace Data

section Records

variable [DecidableEq Text] [Wording Text]

/-- The value is the record of a tree that has at most so many levels: a map that gives the tag of a
form and holds every key of the form with an admitted value.  It may hold any other keys. -/
def IsRecord : (levels : Nat) → Data Text → Prop
  | 0, _ => False
  | levels + 1, value =>
    ∃ entries, value = .map entries ∧
      ∃ form ∈ Form.all,
        entry? entries "nodeType" = some (.text (Wording.ofString form.tag)) ∧
        ∀ field ∈ form.fields,
          ∃ held, entry? entries field.key = some held ∧ field.content.Admits (IsRecord levels) held

/-! ## What a record says -/

def formOf? (entries : List (Text × Data Text)) : Option Form :=
  match entry? entries "nodeType" with
  | some (.text tag) => (Wording.toString? tag).bind Form.withTag?
  | _ => none

theorem formOf?_eq_some_iff {entries : List (Text × Data Text)} {form : Form} :
    formOf? entries = some form ↔
      form ∈ Form.all ∧
        entry? entries "nodeType" = some (.text (Wording.ofString form.tag)) := by
  unfold formOf?
  split
  · rename_i tag given
    simp only [Option.bind_eq_some_iff, Form.withTag?_eq_some_iff, Wording.toString?_eq_some_iff,
      given, Option.some.injEq, text.injEq]
    constructor
    · rintro ⟨_, rfl, listed, rfl⟩
      exact ⟨listed, rfl⟩
    · rintro ⟨listed, rfl⟩
      exact ⟨_, rfl, listed, rfl⟩
  · rename_i noText
    simp only [reduceCtorEq, false_iff, not_and]
    intro _ given
    exact noText _ given

/-- What is left of the value of a field: a number as a floating-point one, a text as it is, and of
a tree what is given. -/
def remainder (content : Content) (value pruned : Data Text) : Data Text :=
  match content with
  | .number => (value.asReal?.map float).getD value
  | .text => value
  | .tree => pruned

mutual

/-- The record without the keys that its form does not have, at every node, and with floating-point
numbers only. -/
def pruned : Data Text → Data Text
  | .map entries =>
    match formOf? entries with
    | some form => .map (prunedEntries form entries)
    | none => .map entries
  | value => value

def prunedEntries (form : Form) : List (Text × Data Text) → List (Text × Data Text)
  | [] => []
  | (key, value) :: rest =>
    match form.slots.find? (fun field => Wording.ofString field.key == key) with
    | some field =>
      (key, remainder field.content value value.pruned) :: prunedEntries form rest
    | none => prunedEntries form rest

end

/-- Equality of values as they stand in records: numbers are compared by value, and maps by what
they hold under each key, in any order. -/
inductive Equal : Data Text → Data Text → Prop
  | text (value : Text) : Equal (.text value) (.text value)
  | float {first second : Binary64} (same : first.same second = true) :
      Equal (.float first) (.float second)
  | map {first second : List (Text × Data Text)}
      (keys : ∀ key, held? first key = none ↔ held? second key = none)
      (values : ∀ key value value', held? first key = some value →
        held? second key = some value' → Equal value value') :
      Equal (.map first) (.map second)

theorem pruned_map {entries : List (Text × Data Text)} {form : Form}
    (tagged : formOf? entries = some form) :
    (map entries).pruned = map (prunedEntries form entries) := by
  simp only [pruned, tagged]

/-- A key of the form keeps what is left of its value, and every other key is dropped. -/
theorem held?_prunedEntries (form : Form) (entries : List (Text × Data Text)) (key : Text) :
    held? (prunedEntries form entries) key =
      (form.slots.find? (fun field => Wording.ofString field.key == key)).bind fun field => do
        let value ← held? entries key
        return remainder field.content value value.pruned := by
  induction entries with
  | nil =>
    cases form.slots.find? (fun field => Wording.ofString field.key == key) <;>
      simp [prunedEntries, held?]
  | cons entry rest ih =>
    obtain ⟨name, value⟩ := entry
    rw [prunedEntries, held?_cons]
    by_cases here : name = key
    · subst here
      cases found : form.slots.find? (fun field => Wording.ofString field.key == name) with
      | none => simp [found, ih]
      | some field => simp [held?_cons]
    · cases found : form.slots.find? (fun field => Wording.ofString field.key == name) with
      | none => simp [ih, here]
      | some field => simp [held?_cons, ih, here]

/-- Fields paired with values hold under each key the value of the first field that has it. -/
theorem held?_zip {holds : Field → Data Text → Prop} {fields : List Field}
    {values : List (Data Text)} (held : List.Forall₂ holds fields values) (key : Text) :
    (fields.find? (fun field => Wording.ofString field.key == key) = none ∧
        held? ((fields.map fun field => Wording.ofString field.key).zip values) key = none) ∨
      ∃ field value, fields.find? (fun field => Wording.ofString field.key == key) = some field ∧
        Wording.ofString field.key = key ∧
        held? ((fields.map fun field => Wording.ofString field.key).zip values) key = some value ∧
        holds field value := by
  induction held with
  | nil => exact .inl ⟨rfl, rfl⟩
  | @cons field value fields values first more ih =>
    rw [List.map_cons, List.zip_cons_cons, held?_cons]
    by_cases here : Wording.ofString field.key = key
    · exact .inr ⟨field, value, by simp [here], here, by simp [here], first⟩
    · simpa [here] using ih

/-- A map that gives each key of a form what is left of its value among the entries equals what is
left of the entries. -/
theorem equal_pruned {entries : List (Text × Data Text)} {form : Form}
    {values : List (Data Text)}
    (tagged : formOf? entries = some form)
    (held : List.Forall₂ (fun field value => ∃ original,
      entry? entries field.key = some original ∧
        Equal value (remainder field.content original original.pruned)) form.slots values) :
    Equal (map ((form.slots.map fun field => Wording.ofString field.key).zip values))
      (map entries).pruned := by
  rw [pruned_map tagged]
  refine .map (fun key => ?_) (fun key value value' first second => ?_)
  · rw [held?_prunedEntries]
    obtain ⟨unknown, missing⟩ | ⟨field, value, known, rfl, present, original, given, _⟩ :=
      held?_zip held key
    · simp [unknown, missing]
    · rw [ entry?] at given
      simp [known, present, given]
  · rw [held?_prunedEntries] at second
    obtain ⟨_, missing⟩ | ⟨field, held, known, rfl, present, original, given, equal⟩ :=
      held?_zip held key
    · simp [missing] at first
    · rw [ entry?] at given
      obtain rfl : held = value := by simpa [present] using first
      obtain rfl : remainder field.content original original.pruned = value' := by
        simpa [known, given] using second
      exact equal

end Records

end Data

/-! ## Trees from their parts -/

inductive Part (Text : Type) where
  | number (value : Binary64)
  | text (value : Text)
  | tree (value : Expr Text)

namespace Part

def content : Part Text → Content
  | .number _ => .number
  | .text _ => .text
  | .tree _ => .tree

@[simp]
theorem content_eq_number_iff {part : Part Text} :
    part.content = .number ↔ ∃ value, part = .number value := by
  cases part <;> simp [content]

@[simp]
theorem content_eq_text_iff {part : Part Text} :
    part.content = .text ↔ ∃ value, part = .text value := by
  cases part <;> simp [content]

@[simp]
theorem content_eq_tree_iff {part : Part Text} :
    part.content = .tree ↔ ∃ value, part = .tree value := by
  cases part <;> simp [content]

def toData [Wording Text] : Part Text → Option (Data Text)
  | .number value => some (.float value)
  | .text value => some (.text value)
  | .tree value => value.toData

end Part

namespace Expr

def ofParts? : (tag : String) → List (Part Text) → Option (Expr Text)
  | "Number", [.number value] => some (.number value)
  | "Variable", [.text text] => some (.name text)
  | "BinaryOp", [.text operator, .tree left, .tree right] => some (.binary operator left right)
  | "Function", [.text parameter, .tree body] => some (.lambda parameter body)
  | "Application", [.tree function, .tree argument] => some (.apply function argument)
  | "Let", [.text bound, .tree value, .tree body] => some (.letIn bound value body)
  | "If", [.tree condition, .tree thenBranch, .tree elseBranch] =>
    some (.ifThen condition thenBranch elseBranch)
  | _, _ => none

def parts : Expr Text → List (Part Text)
  | .number value => [.number value]
  | .name text => [.text text]
  | .binary operator left right => [.text operator, .tree left, .tree right]
  | .lambda parameter body => [.text parameter, .tree body]
  | .apply function argument => [.tree function, .tree argument]
  | .letIn bound value body => [.text bound, .tree value, .tree body]
  | .ifThen condition thenBranch elseBranch =>
    [.tree condition, .tree thenBranch, .tree elseBranch]
  | .hole => []

variable [Wording Text]

/-- A tree has the parts of a form, and its record is the record of that form with what the parts
say. -/
theorem exists_form {tree : Expr Text} (isForm : tree ≠ .hole) :
    ∃ form ∈ Form.all, form.tag = tree.tag ∧
      tree.parts.map Part.content = form.fields.map Field.content ∧
      ∀ data, tree.toData = some data ↔
        ∃ values, List.Forall₂ (fun part value => Part.toData part = some value) tree.parts values ∧
          form.record values = data := by
  cases tree with
  | number value =>
    refine ⟨⟨"Number", [⟨["value"], .number⟩]⟩, by simp [Form.all], rfl, rfl, fun data => ?_⟩
    simp [toData, parts, Part.toData, List.forall₂_cons_left_iff, Form.record, Form.slots]
  | name text =>
    refine ⟨⟨"Variable", [⟨["name"], .text⟩]⟩, by simp [Form.all], rfl, rfl, fun data => ?_⟩
    simp [toData, parts, Part.toData, List.forall₂_cons_left_iff, Form.record, Form.slots]
  | binary operator left right =>
    refine ⟨⟨"BinaryOp", [⟨["operator"], .text⟩, ⟨["left"], .tree⟩, ⟨["right"], .tree⟩]⟩,
      by simp [Form.all], rfl, rfl, fun data => ?_⟩
    simp [toData, parts, Part.toData, List.forall₂_cons_left_iff, Form.record, Form.slots,
      Option.bind_eq_some_iff, and_assoc]
  | lambda parameter body =>
    refine ⟨⟨"Function", [⟨["parameter", "name"], .text⟩, ⟨["body"], .tree⟩]⟩,
      by simp [Form.all], rfl, rfl, fun data => ?_⟩
    simp [toData, parts, Part.toData, List.forall₂_cons_left_iff, Form.record, Form.slots,
      Option.bind_eq_some_iff]
  | apply function argument =>
    refine ⟨⟨"Application", [⟨["function"], .tree⟩, ⟨["argument"], .tree⟩]⟩,
      by simp [Form.all], rfl, rfl, fun data => ?_⟩
    simp [toData, parts, Part.toData, List.forall₂_cons_left_iff, Form.record, Form.slots,
      Option.bind_eq_some_iff, and_assoc]
  | letIn bound value body =>
    refine ⟨⟨"Let", [⟨["variable", "name"], .text⟩, ⟨["value"], .tree⟩,
      ⟨["in", "expression"], .tree⟩]⟩, by simp [Form.all], rfl, rfl, fun data => ?_⟩
    simp [toData, parts, Part.toData, List.forall₂_cons_left_iff, Form.record, Form.slots,
      Option.bind_eq_some_iff, and_assoc]
  | ifThen condition thenBranch elseBranch =>
    refine ⟨⟨"If", [⟨["condition"], .tree⟩, ⟨["then", "branch"], .tree⟩,
      ⟨["else", "branch"], .tree⟩]⟩, by simp [Form.all], rfl, rfl, fun data => ?_⟩
    simp [toData, parts, Part.toData, List.forall₂_cons_left_iff, Form.record, Form.slots,
      Option.bind_eq_some_iff, and_assoc]
  | hole => exact absurd rfl isForm

/-- The record of a tree has the tag first, and then the fields of the form in their order. -/
theorem exists_form_of_toData {tree : Expr Text} {data : Data Text}
    (recorded : tree.toData = some data) :
    ∃ form ∈ Form.all, ∃ values, form.tag = tree.tag ∧ values.length = form.fields.length ∧
      data = form.record values := by
  have isForm : tree ≠ .hole := by
    rintro rfl
    cases recorded
  obtain ⟨form, listed, tagged, fit, records⟩ := exists_form isForm
  obtain ⟨values, held, rfl⟩ := (records data).mp recorded
  have sameLength : tree.parts.length = form.fields.length := by
    simpa using congrArg List.length fit
  exact ⟨form, listed, values, tagged, held.length_eq.symm.trans sameLength, rfl⟩

omit [Wording Text] in
/-- Parts with the contents of a form's fields make a tree of that form. -/
theorem exists_ofParts? {form : Form} (listed : form ∈ Form.all) {parts : List (Part Text)}
    (fit : parts.map Part.content = form.fields.map Field.content) :
    ∃ tree, ofParts? form.tag parts = some tree ∧ tree.tag = form.tag ∧ tree.parts = parts := by
  simp only [Form.all, List.mem_cons, List.not_mem_nil, or_false] at listed
  rcases listed with rfl | rfl | rfl | rfl | rfl | rfl | rfl
  · obtain ⟨value, rfl⟩ : ∃ value, parts = [.number value] := by
      simpa [List.map_eq_cons_iff] using fit
    exact ⟨.number value, rfl, rfl, rfl⟩
  · obtain ⟨text, rfl⟩ : ∃ text, parts = [.text text] := by
      simpa [List.map_eq_cons_iff] using fit
    exact ⟨.name text, rfl, rfl, rfl⟩
  · obtain ⟨operator, left, right, rfl⟩ : ∃ operator left right,
        parts = [.text operator, .tree left, .tree right] := by
      simpa [List.map_eq_cons_iff] using fit
    exact ⟨.binary operator left right, rfl, rfl, rfl⟩
  · obtain ⟨parameter, body, rfl⟩ : ∃ parameter body, parts = [.text parameter, .tree body] := by
      simpa [List.map_eq_cons_iff] using fit
    exact ⟨.lambda parameter body, rfl, rfl, rfl⟩
  · obtain ⟨function, argument, rfl⟩ : ∃ function argument,
        parts = [.tree function, .tree argument] := by
      simpa [List.map_eq_cons_iff] using fit
    exact ⟨.apply function argument, rfl, rfl, rfl⟩
  · obtain ⟨bound, value, body, rfl⟩ : ∃ bound value body,
        parts = [.text bound, .tree value, .tree body] := by
      simpa [List.map_eq_cons_iff] using fit
    exact ⟨.letIn bound value body, rfl, rfl, rfl⟩
  · obtain ⟨condition, thenBranch, elseBranch, rfl⟩ : ∃ condition thenBranch elseBranch,
        parts = [.tree condition, .tree thenBranch, .tree elseBranch] := by
      simpa [List.map_eq_cons_iff] using fit
    exact ⟨.ifThen condition thenBranch elseBranch, rfl, rfl, rfl⟩

/-- The record of a tree that was made of parts gives the tag and what each part says. -/
theorem toData_of_ofParts? {form : Form} (listed : form ∈ Form.all) {parts : List (Part Text)}
    (fit : parts.map Part.content = form.fields.map Field.content) {tree : Expr Text}
    (made : ofParts? form.tag parts = some tree) {values : List (Data Text)}
    (held : List.Forall₂ (fun part value => Part.toData part = some value) parts values) :
    tree.toData = some (form.record values) := by
  obtain ⟨_, madeToo, tagged, rfl⟩ := exists_ofParts? listed fit
  obtain rfl := Option.some.inj (made.symm.trans madeToo)
  have isForm : tree ≠ .hole := by
    rintro rfl
    have named : ∀ form ∈ Form.all, form.tag ≠ "" := by simp [Form.all]
    exact named form listed tagged.symm
  obtain ⟨other, otherListed, otherTagged, _, records⟩ := exists_form isForm
  have same : some other = some form :=
    (Form.withTag?_eq_some_iff.mpr ⟨otherListed, otherTagged⟩).symm.trans
      (Form.withTag?_eq_some_iff.mpr ⟨listed, tagged.symm⟩)
  obtain rfl := Option.some.inj same
  exact (records _).mpr ⟨values, held, rfl⟩

end Expr

end Funlet
