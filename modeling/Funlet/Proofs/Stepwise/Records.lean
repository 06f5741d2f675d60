import Funlet.Proofs.Expr.Forms
import Funlet.Proofs.Source.Writable

/-!
# Reading a record one step at a time

A record is read once more by the table of forms, with every step that can go wrong: asking a value
that is no map for a key, looking a tag up that is no text, converting a value to a number, making a
tree from parts that do not fit, and spelling a value for the message of an error.  The levels are
counted from the top, and the recursion has a bound.  Only errors that reading reports occur, unless
the value in a message is nested deeper than the host bears, and what is read is what `ofData`
gives.  It is read from records and nothing else, and the record of the tree is what the value says.
-/

set_option autoImplicit false

namespace Funlet.Stepwise

inductive RecordHazard where
  /-- A value that is no map was asked for a key. -/
  | notMap
  /-- The value of a key was taken that the map does not have. -/
  | noKey (key : String)
  /-- A value that is no text was looked up among the tags. -/
  | notTag
  /-- A value that is no number was converted to one. -/
  | notNumber
  /-- An integer is too large for a floating-point number. -/
  | overflow
  /-- A tree was made of parts that do not fit its form. -/
  | wrongParts
  /-- A value for a message is nested too deep to be spelled. -/
  | tooNested
  /-- The recursion did not end within its bound. -/
  | endless
  deriving DecidableEq

inductive RecordFailure (Text : Type) where
  | reported (error : RecordError Text) (message : String)
  | hazard (hazard : RecordHazard)

abbrev Decoder (Text : Type) := Except (RecordFailure Text)

variable {Text : Type} [DecidableEq Text] [Wording Text]

def meet {α : Type} (hazard : RecordHazard) : Decoder Text α := .error (.hazard hazard)

def report [Host] {α : Type} (error : RecordError Text) : Decoder Text α :=
  match error.message with
  | .ok message => .error (.reported error message)
  | .error _ => meet .tooNested

/-! ## Requests -/

def isMap : Data Text → Bool
  | .map _ => true
  | _ => false

def lookup (value : Data Text) (key : String) : Decoder Text (Option (Data Text)) :=
  match value with
  | .map entries => .ok <| Data.entry? entries key
  | _ => meet .notMap

def item (value : Data Text) (key : String) : Decoder Text (Data Text) := do
  match ← lookup value key with
  | some held => return held
  | none => meet (.noKey key)

def isText : Data Text → Bool
  | .text _ => true
  | _ => false

def formOf (tag : Data Text) : Decoder Text (Option Form) :=
  match tag with
  | .text tag => .ok ((Wording.toString? tag).bind Form.withTag?)
  | _ => meet .notTag

def formFor (tag : Data Text) : Decoder Text (Option Form) :=
  if isText tag then formOf tag else .ok none

def isNumeric : Data Text → Bool
  | .int _ => true
  | .float _ => true
  | _ => false

def toReal (value : Data Text) : Decoder Text Binary64 :=
  match value with
  | .float value => .ok value
  | .int value =>
    if (Binary64.ofInt value).isFinite then .ok (.ofInt value) else meet .overflow
  | _ => meet .notNumber

/-- An integer that is too large counts as infinite. -/
def toRealOrInfinite (value : Data Text) : Decoder Text Binary64 :=
  match toReal value with
  | .error (.hazard .overflow) => .ok (.infinite false)
  | outcome => outcome

/-! ## Records -/

section Host

variable [Host]

def numberPart (left : Nat) (value : Data Text) : Decoder Text (Part Text) :=
  if isNumeric value then do
    let number ← toRealOrInfinite value
    if number.isFinite then return .number number else report (.notFinite ⟨left, value⟩)
  else report (.notNumeric ⟨left, value⟩)

def textPart (left : Nat) (tag key : String) (value : Data Text) : Decoder Text (Part Text) :=
  match value with
  | .text text => return .text text
  | _ => report (.notText tag key ⟨left, value⟩)

def heldPart (tree : Data Text → Decoder Text (Expr Text)) (left : Nat) (tag : String)
    (field : Field) (held : Data Text) : Decoder Text (Part Text) := do
  match field.content with
  | .tree => return .tree (← tree held)
  | .number => numberPart left held
  | .text => textPart left tag field.key held

def part (tree : Data Text → Decoder Text (Expr Text)) (left : Nat) (tag : String)
    (record : Data Text) (field : Field) : Decoder Text (Part Text) := do
  if (← lookup record field.key).isNone then report (.missingField tag field.key)
  let held ← item record field.key
  heldPart tree left tag field held

def parts (tree : Data Text → Decoder Text (Expr Text)) (left : Nat) (tag : String)
    (record : Data Text) : List Field → Decoder Text (List (Part Text))
  | [] => return []
  | field :: more => do
    let first ← part tree left tag record field
    let rest ← parts tree left tag record more
    return first :: rest

def ofParts (tag : String) (parts : List (Part Text)) : Decoder Text (Expr Text) :=
  match Expr.ofParts? tag parts with
  | some tree => .ok tree
  | none => meet .wrongParts

/-- Reads the record of a tree whose root is at a level, counted from one at the top. -/
def record : (bound level : Nat) → Data Text → Decoder Text (Expr Text)
  | 0, _, _ => meet .endless
  | bound + 1, level, value => do
    if Expr.maxHeight < level then report .tooDeep
    if !isMap value then report (.notRecord value)
    let left := Expr.maxHeight - level
    let tag := (← lookup value "nodeType").getD .null
    match ← formFor tag with
    | none => report (.unknownTag ⟨left, tag⟩)
    | some form =>
      let parts ← parts (record bound (level + 1)) left form.tag value form.fields
      ofParts form.tag parts

def ofRecord (value : Data Text) : Decoder Text (Expr Text) := record (Expr.maxHeight + 1) 1 value

/-! ## Agreement -/

section Reports

omit [DecidableEq Text]

@[simp]
theorem report_ne_ok {α : Type} {error : RecordError Text} {value : α} :
    report error ≠ .ok value := by
  unfold report meet
  split <;> simp

theorem report_of_ok {α : Type} {error : RecordError Text} {message : String}
    (made : error.message = .ok message) :
    (report error : Decoder Text α) = .error (.reported error message) := by
  rw [report, made]

theorem report_of_error {α : Type} {error : RecordError Text} {limit : TooNested}
    (failed : error.message = .error limit) :
    (report error : Decoder Text α) = .error (.hazard .tooNested) := by
  rw [report, failed]
  rfl

theorem report_bind {α β : Type} (error : RecordError Text) (next : α → Decoder Text β) :
    (report error >>= next) = report error := by
  unfold report meet
  split <;> rfl

def reporting {α : Type} (reading : Except (RecordError Text) α) : Decoder Text α :=
  match reading with
  | .ok value => .ok value
  | .error error => report error

@[simp]
theorem reporting_ok {α : Type} (value : α) :
    reporting (.ok value : Except (RecordError Text) α) = .ok value := rfl

@[simp]
theorem reporting_pure {α : Type} (value : α) :
    reporting (pure value : Except (RecordError Text) α) = .ok value := rfl

@[simp]
theorem reporting_error {α : Type} (error : RecordError Text) :
    reporting (.error error : Except (RecordError Text) α) = report error := rfl

@[simp]
theorem reporting_bind {α β : Type} (first : Except (RecordError Text) α)
    (next : α → Except (RecordError Text) β) :
    reporting (first >>= next) = reporting first >>= fun value => reporting (next value) := by
  cases first with
  | ok value => rfl
  | error error => exact (report_bind _ _).symm

@[simp]
theorem reporting_map {α β : Type} (f : α → β) (reading : Except (RecordError Text) α) :
    reporting (f <$> reading) = reporting reading >>= fun value => .ok (f value) := by
  cases reading with
  | ok value => rfl
  | error error => exact (report_bind _ _).symm

theorem reporting_eq_ok_iff {α : Type} {reading : Except (RecordError Text) α} {value : α} :
    reporting reading = .ok value ↔ reading = .ok value := by
  cases reading <;> simp

variable {left : Nat}

omit [Wording Text] [Host] in
theorem toRealOrInfinite_int {value : Int} {real : Binary64}
    (converted : Binary64.ofInt value = real) :
    toRealOrInfinite (.int value : Data Text) =
      .ok (if real.isFinite then real else .infinite false) := by
  -- The number stands for its conversion, which is not to be evaluated here.
  have step : toReal (.int value : Data Text) =
      if real.isFinite then .ok real else meet .overflow := by
    rw [← converted]
    rfl
  rw [toRealOrInfinite, step]
  cases real <;> rfl

theorem numberPart_int {value : Int} {real : Binary64} (converted : Binary64.ofInt value = real) :
    numberPart left (.int value : Data Text) =
      if real.isFinite then .ok (.number real) else report (.notFinite ⟨left, .int value⟩) := by
  rw [numberPart, toRealOrInfinite_int converted]
  cases real <;> rfl

theorem numberPart_float (value : Binary64) :
    numberPart left (.float value : Data Text) =
      if value.isFinite then .ok (.number value)
      else report (.notFinite ⟨left, .float value⟩) := rfl

end Reports

section Fields

variable {tree : Data Text → Decoder Text (Expr Text)} {left : Nat}
  {entries : List (Text × Data Text)}

theorem part_eq (tag : String) (field : Field) :
    part tree left tag (.map entries) field =
      reporting (Expr.field tag field.key entries) >>= heldPart tree left tag field := by
  cases present : Data.entry? entries field.key with
  | none => simp [part, lookup, Expr.field, present, Except.ok_bind, report_bind]
  | some held => simp [part, lookup, item, Expr.field, present, Except.ok_bind]

theorem part_text (tag : String) (words : List String) :
    part tree left tag (.map entries) ⟨words, .text⟩ =
      reporting (Expr.textField left tag (Field.key ⟨words, .text⟩) entries) >>= fun text =>
        .ok (.text text) := by
  rw [part_eq, Expr.textField, reporting_bind, bind_assoc]
  congr 1
  funext held
  cases held with
  | text value => rfl
  | _ => exact (report_bind _ _).symm

theorem part_number :
    part tree left "Number" (.map entries) ⟨["value"], .number⟩ =
      reporting (Expr.numberField left entries) >>= fun number => .ok (.number number) := by
  rw [part_eq, Expr.numberField, reporting_bind, bind_assoc, Field.key_of_word]
  congr 1
  funext held
  cases held with
  | int value =>
    obtain ⟨real, converted⟩ : ∃ real, Binary64.ofInt value = real := ⟨_, rfl⟩
    simp only [heldPart, numberPart_int converted, converted]
    cases real with
    | finite negative size => rfl
    | _ => exact (report_bind _ _).symm
  | float value =>
    simp only [heldPart, numberPart_float]
    cases value with
    | finite negative size => rfl
    | _ => exact (report_bind _ _).symm
  | _ => exact (report_bind _ _).symm

theorem part_tree (tag : String) (words : List String) :
    part tree left tag (.map entries) ⟨words, .tree⟩ =
      reporting (Expr.field tag (Field.key ⟨words, .tree⟩) entries) >>= fun held =>
        tree held >>= fun subtree => .ok (.tree subtree) := part_eq _ _

end Fields

section Levels

variable {bound level : Nat} {entries : List (Text × Data Text)}

theorem record_too_deep (outside : Expr.maxHeight < level) (value : Data Text) :
    record (bound + 1) level value = report .tooDeep := by
  rw [record, if_pos outside]
  exact report_bind _ _

theorem record_of_not_map (inside : level ≤ Expr.maxHeight) {value : Data Text}
    (notMap : isMap value = false) :
    record (bound + 1) level value = report (.notRecord value) := by
  rw [record, if_neg (Nat.not_lt.mpr inside)]
  simp [notMap, report_bind]

theorem record_of_form (inside : level ≤ Expr.maxHeight) {form : Form}
    (tagged : Data.formOf? entries = some form) :
    record (bound + 1) level (.map entries) =
      parts (record bound (level + 1)) (Expr.maxHeight - level) form.tag (.map entries)
          form.fields >>=
        ofParts form.tag := by
  obtain ⟨listed, given⟩ := Data.formOf?_eq_some_iff.mp tagged
  have known : Form.withTag? form.tag = some form := Form.withTag?_eq_some_iff.mpr ⟨listed, rfl⟩
  rw [record, if_neg (Nat.not_lt.mpr inside)]
  simp [isMap, lookup, given, Except.ok_bind, formFor, isText, formOf, known]

theorem record_of_no_form (inside : level ≤ Expr.maxHeight) {given : Option (Data Text)}
    (held : Data.entry? entries "nodeType" = given) (untagged : Data.formOf? entries = none) :
    record (bound + 1) level (.map entries) =
      report (.unknownTag ⟨Expr.maxHeight - level, given.getD .null⟩) := by
  have noForm : formFor (given.getD .null) = .ok none := by
    cases given with
    | none => rfl
    | some tag =>
      cases tag with
      | text tag =>
        have unknown : (Wording.toString? tag).bind Form.withTag? = none := by
          simpa only [Data.formOf?, held] using untagged
        simp [formFor, isText, formOf, unknown]
      | _ => rfl
  rw [record, if_neg (Nat.not_lt.mpr inside)]
  simp [isMap, lookup, held, Except.ok_bind, noForm]

omit [Host] in
theorem ofDataWithin_of_no_form (levels : Nat) {given : Option (Data Text)}
    (held : Data.entry? entries "nodeType" = given) (untagged : Data.formOf? entries = none) :
    Expr.ofDataWithin (levels + 1) (.map entries) =
      .error (.unknownTag ⟨levels, given.getD .null⟩) := by
  have noForm : ∀ form ∈ Form.all, Expr.tag? entries ≠ some form.tag := by
    intro form listed tagged
    rw [Data.formOf?_eq_some_iff.mpr ⟨listed, Expr.tag?_eq_some_iff.mp tagged⟩] at untagged
    simp at untagged
  simp only [Form.all, List.forall_mem_cons] at noForm
  rw [Expr.ofDataWithin, held]
  split <;> simp_all

theorem parts_of_form {levels : Nat} {tree : Data Text → Decoder Text (Expr Text)}
    (subtrees : ∀ value, tree value = reporting (Expr.ofDataWithin levels value)) {form : Form}
    (tagged : Data.formOf? entries = some form) :
    parts tree levels form.tag (.map entries) form.fields >>= ofParts form.tag =
      reporting (Expr.ofDataWithin (levels + 1) (.map entries)) := by
  obtain ⟨listed, given⟩ := Data.formOf?_eq_some_iff.mp tagged
  simp only [Form.all, List.mem_cons, List.not_mem_nil, or_false] at listed
  rcases listed with rfl | rfl | rfl | rfl | rfl | rfl | rfl
  · simp [parts, part_number, given, Expr.tag?, Expr.ofDataWithin, ofParts, Expr.ofParts?,
      Except.ok_bind]
  · simp [parts, part_text, given, Expr.tag?, Expr.ofDataWithin, ofParts, Expr.ofParts?,
      Except.ok_bind]
  all_goals
    simp [parts, part_text, part_tree, subtrees, given, Expr.tag?, Expr.ofDataWithin, ofParts,
      Expr.ofParts?, Except.ok_bind]

end Levels

theorem record_eq {bound level : Nat} (counted : level + bound = Expr.maxHeight + 1)
    (value : Data Text) :
    record (bound + 1) level value = reporting (Expr.ofDataWithin bound value) := by
  induction bound generalizing level value with
  | zero =>
    rw [record_too_deep (by omega)]
    rfl
  | succ bound ih =>
    have inside : level ≤ Expr.maxHeight := by omega
    have left : Expr.maxHeight - level = bound := by omega
    cases value with
    | map entries =>
      cases tagged : Data.formOf? entries with
      | none =>
        rw [record_of_no_form inside rfl tagged, ofDataWithin_of_no_form bound rfl tagged,
          reporting_error, left]
      | some form =>
        rw [record_of_form inside tagged, left]
        exact parts_of_form (ih (by omega)) tagged
    | _ =>
      rw [record_of_not_map inside rfl]
      rfl

theorem ofRecord_eq (value : Data Text) : ofRecord value = reporting (Expr.ofData value) :=
  record_eq (Nat.add_comm _ _) value

/-! ## What is read -/

omit [DecidableEq Text] in
theorem numberPart_eq_ok_iff {left : Nat} {held : Data Text} {read : Part Text} :
    numberPart left held = .ok read ↔
      ∃ real, held.asReal? = some real ∧ real.isFinite = true ∧ .number real = read := by
  cases held with
  | int value =>
    obtain ⟨real, converted⟩ : ∃ real, Binary64.ofInt value = real := ⟨_, rfl⟩
    rw [numberPart_int converted, Data.asReal?, converted]
    cases finite : real.isFinite <;> simp [finite]
  | float value =>
    rw [numberPart_float, Data.asReal?]
    cases finite : value.isFinite <;> simp [finite]
  | _ => simp [numberPart, isNumeric, Data.asReal?]

omit [DecidableEq Text] in
theorem textPart_eq_ok_iff {left : Nat} {tag key : String} {held : Data Text} {read : Part Text} :
    textPart left tag key held = .ok read ↔ ∃ text, held = .text text ∧ .text text = read := by
  cases held with
  | text value => simp [textPart]
  | _ => simp [textPart]

theorem part_eq_ok_iff {tree : Data Text → Decoder Text (Expr Text)} {left : Nat} {tag : String}
    {entries : List (Text × Data Text)} {field : Field} {read : Part Text} :
    part tree left tag (.map entries) field = .ok read ↔
      ∃ held, Data.entry? entries field.key = some held ∧
        heldPart tree left tag field held = .ok read := by
  rw [part_eq]
  cases present : Data.entry? entries field.key with
  | none => simp [Expr.field, present, report_bind]
  | some held => simp [Expr.field, present, Except.ok_bind]

theorem record_eq_ok_iff {bound level : Nat} (inside : level ≤ Expr.maxHeight) {value : Data Text}
    {tree : Expr Text} :
    record (bound + 1) level value = .ok tree ↔
      ∃ entries, value = .map entries ∧ ∃ form, Data.formOf? entries = some form ∧
        ∃ read, parts (record bound (level + 1)) (Expr.maxHeight - level) form.tag value
              form.fields = .ok read ∧
          Expr.ofParts? form.tag read = some tree := by
  cases value with
  | map entries =>
    cases tagged : Data.formOf? entries with
    | none =>
      rw [record_of_no_form inside rfl tagged]
      simp [tagged]
    | some form =>
      rw [record_of_form inside tagged]
      simp only [Except.bind_eq_ok_iff, ofParts, Data.map.injEq, exists_eq_left', tagged,
        Option.some.injEq]
      constructor
      · rintro ⟨read, done, made⟩
        refine ⟨read, done, ?_⟩
        cases result : Expr.ofParts? form.tag read with
        | none => simp [result, meet] at made
        | some other => simpa [result] using made
      · rintro ⟨read, done, made⟩
        exact ⟨read, done, by rw [made]⟩
  | _ =>
    rw [record_of_not_map inside rfl]
    simp

section Held

variable {tree : Data Text → Decoder Text (Expr Text)} {isTree : Data Text → Prop} {left : Nat}
  {tag : String} {field : Field} {held : Data Text} {entries : List (Text × Data Text)}
  {fields : List Field}

omit [DecidableEq Text] in
theorem exists_heldPart (reads : ∀ value, isTree value → ∃ subtree, tree value = .ok subtree)
    (admitted : field.content.Admits isTree held) :
    ∃ read, heldPart tree left tag field held = .ok read := by
  unfold heldPart
  cases content : field.content with
  | number =>
    rw [content] at admitted
    obtain ⟨real, isReal, finite⟩ := admitted
    exact ⟨.number real, numberPart_eq_ok_iff.mpr ⟨real, isReal, finite, rfl⟩⟩
  | text =>
    rw [content] at admitted
    obtain ⟨text, rfl⟩ := admitted
    exact ⟨.text text, rfl⟩
  | tree =>
    rw [content] at admitted
    obtain ⟨subtree, done⟩ := reads held admitted
    exact ⟨.tree subtree, by simp [done]⟩

theorem exists_parts (reads : ∀ value, isTree value → ∃ subtree, tree value = .ok subtree)
    (admitted : ∀ field ∈ fields, ∃ held, Data.entry? entries field.key = some held ∧
      field.content.Admits isTree held) :
    ∃ read, parts tree left tag (.map entries) fields = .ok read := by
  induction fields with
  | nil => exact ⟨[], rfl⟩
  | cons field more ih =>
    obtain ⟨⟨held, present, fits⟩, others⟩ := List.forall_mem_cons.mp admitted
    obtain ⟨first, doneFirst⟩ := exists_heldPart reads fits
    obtain ⟨rest, doneRest⟩ := ih others
    refine ⟨first :: rest, ?_⟩
    rw [parts, part_eq_ok_iff.mpr ⟨held, present, doneFirst⟩, doneRest]
    rfl

omit [DecidableEq Text] in
theorem content_of_heldPart {read : Part Text}
    (done : heldPart tree left tag field held = .ok read) : read.content = field.content := by
  unfold heldPart at done
  cases content : field.content with
  | number =>
    rw [content] at done
    obtain ⟨real, _, _, rfl⟩ := numberPart_eq_ok_iff.mp done
    rfl
  | text =>
    rw [content] at done
    obtain ⟨text, _, rfl⟩ := textPart_eq_ok_iff.mp done
    rfl
  | tree =>
    rw [content] at done
    obtain ⟨subtree, _, made⟩ := Except.bind_eq_ok_iff.mp done
    obtain rfl := Except.pure_eq_ok_iff.mp made
    rfl

theorem content_of_parts {read : List (Part Text)}
    (done : parts tree left tag (.map entries) fields = .ok read) :
    read.map Part.content = fields.map Field.content := by
  induction fields generalizing read with
  | nil =>
    obtain rfl := Except.pure_eq_ok_iff.mp done
    rfl
  | cons field more ih =>
    simp only [parts, Except.bind_eq_ok_iff, Except.pure_eq_ok_iff] at done
    obtain ⟨first, doneFirst, rest, doneRest, rfl⟩ := done
    obtain ⟨held, _, doneHeld⟩ := part_eq_ok_iff.mp doneFirst
    rw [List.map_cons, List.map_cons, content_of_heldPart doneHeld, ih doneRest]

/-- How a tree that was read belongs to the value it was read from: the value is admitted, and the
record of the tree is what is left of the value. -/
def Mirrors (isTree : Data Text → Prop) (value : Data Text) (subtree : Expr Text) : Prop :=
  isTree value ∧ ∃ record, subtree.toData = some record ∧ record.Equal value.pruned

theorem admits_of_heldPart
    (reads : ∀ value subtree, tree value = .ok subtree → Mirrors isTree value subtree)
    {read : Part Text} (done : heldPart tree left tag field held = .ok read) :
    field.content.Admits isTree held ∧
      ∃ value, read.toData = some value ∧
        value.Equal (Data.remainder field.content held held.pruned) := by
  unfold heldPart at done
  cases content : field.content with
  | number =>
    rw [content] at done
    obtain ⟨real, isReal, finite, rfl⟩ := numberPart_eq_ok_iff.mp done
    refine ⟨⟨real, isReal, finite⟩, .float real, rfl, ?_⟩
    simp only [Data.remainder, isReal]
    exact .float (Binary64.same_self finite)
  | text =>
    rw [content] at done
    obtain ⟨text, rfl, rfl⟩ := textPart_eq_ok_iff.mp done
    exact ⟨⟨text, rfl⟩, .text text, rfl, .text text⟩
  | tree =>
    rw [content] at done
    obtain ⟨subtree, doneTree, made⟩ := Except.bind_eq_ok_iff.mp done
    obtain rfl := Except.pure_eq_ok_iff.mp made
    exact reads held subtree doneTree

theorem admits_of_parts
    (reads : ∀ value subtree, tree value = .ok subtree → Mirrors isTree value subtree)
    {read : List (Part Text)} (done : parts tree left tag (.map entries) fields = .ok read) :
    (∀ field ∈ fields, ∃ held, Data.entry? entries field.key = some held ∧
      field.content.Admits isTree held) ∧
    ∃ values, List.Forall₂ (fun part value => Part.toData part = some value) read values ∧
      List.Forall₂ (fun field value => ∃ original,
        Data.entry? entries field.key = some original ∧
          value.Equal (Data.remainder field.content original original.pruned)) fields values := by
  induction fields generalizing read with
  | nil =>
    obtain rfl := Except.pure_eq_ok_iff.mp done
    exact ⟨by simp, [], .nil, .nil⟩
  | cons field more ih =>
    simp only [parts, Except.bind_eq_ok_iff, Except.pure_eq_ok_iff] at done
    obtain ⟨first, doneFirst, rest, doneRest, rfl⟩ := done
    obtain ⟨held, present, doneHeld⟩ := part_eq_ok_iff.mp doneFirst
    obtain ⟨fits, value, recorded, equal⟩ := admits_of_heldPart reads doneHeld
    obtain ⟨others, values, recordedRest, equalRest⟩ := ih doneRest
    exact ⟨List.forall_mem_cons.mpr ⟨⟨held, present, fits⟩, others⟩, value :: values,
      .cons recorded recordedRest, .cons ⟨held, present, equal⟩ equalRest⟩

end Held

theorem exists_record {bound level : Nat} (counted : level + bound = Expr.maxHeight + 1)
    {value : Data Text} (isRecord : value.IsRecord bound) :
    ∃ tree, record (bound + 1) level value = .ok tree := by
  induction bound generalizing level value with
  | zero => exact isRecord.elim
  | succ bound ih =>
    obtain ⟨entries, rfl, form, listed, given, held⟩ := isRecord
    have next : level + 1 + bound = Expr.maxHeight + 1 := by omega
    obtain ⟨read, done⟩ : ∃ read,
        parts (record (bound + 1) (level + 1)) (Expr.maxHeight - level) form.tag (.map entries)
          form.fields = .ok read :=
      exists_parts (fun _ => ih next) held
    obtain ⟨tree, made, _⟩ := Expr.exists_ofParts? listed (content_of_parts done)
    refine ⟨tree, (record_eq_ok_iff (by omega)).mpr ⟨entries, rfl, form, ?_, read, done, made⟩⟩
    exact Data.formOf?_eq_some_iff.mpr ⟨listed, given⟩

theorem mirrors_of_record {bound level : Nat} (counted : level + bound = Expr.maxHeight + 1)
    {value : Data Text} {tree : Expr Text} (done : record (bound + 1) level value = .ok tree) :
    Mirrors (Data.IsRecord bound) value tree := by
  induction bound generalizing level value tree with
  | zero =>
    rw [record_too_deep (by omega)] at done
    exact absurd done report_ne_ok
  | succ bound ih =>
    obtain ⟨entries, rfl, form, tagged, read, doneParts, made⟩ :=
      (record_eq_ok_iff (by omega)).mp done
    obtain ⟨listed, given⟩ := Data.formOf?_eq_some_iff.mp tagged
    have next : level + 1 + bound = Expr.maxHeight + 1 := by omega
    obtain ⟨held, values, recorded, equal⟩ := admits_of_parts (fun _ _ => ih next) doneParts
    have toData := Expr.toData_of_ofParts? listed (content_of_parts doneParts) made recorded
    refine ⟨⟨entries, rfl, form, listed, given, held⟩, _, toData, ?_⟩
    refine Data.equal_pruned tagged (.cons ⟨.text (Wording.ofString form.tag), ?_, .text _⟩ equal)
    simpa using given

end Host

end Funlet.Stepwise
