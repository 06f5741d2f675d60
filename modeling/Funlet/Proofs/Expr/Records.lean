import Funlet.Proofs.Expr.Refusals
import Funlet.Proofs.Expr.Reports
import Funlet.Proofs.Stepwise.Records

/-!
# Records of trees

The record of a tree is read back as that tree, unless the tree is too tall; reading counts the
levels from the root, and a tree is as tall as its deepest level.  A value is read without an error
if and only if it is a record of a tree that is not too tall, and the record of the tree that was
read is what the value says about the fields of the forms.
-/

set_option autoImplicit false

namespace Funlet

namespace Expr

/-! ## Reading back the record of a tree -/

section ReadBack

variable {Text : Type}

theorem height_pos (tree : Expr Text) : 0 < tree.height := by
  cases tree <;> simp only [height] <;> omega

theorem height_le_succ_iff {tree : Expr Text} {levels : Nat} :
    tree.height ≤ levels + 1 ↔ ∀ child ∈ tree.children, child.height ≤ levels := by
  cases tree <;> simp [height, children] <;> omega

def readBack (tree : Expr Text) (levels : Nat) : Except (RecordError Text) (Expr Text) :=
  if tree.height ≤ levels then .ok tree else .error .tooDeep

theorem readBack_zero (tree : Expr Text) : tree.readBack 0 = .error .tooDeep := by
  have positive := height_pos tree
  exact if_neg (by omega)

theorem readBack_bind (tree : Expr Text) (levels : Nat)
    (next : Expr Text → Except (RecordError Text) (Expr Text)) :
    (tree.readBack levels >>= next) =
      if tree.height ≤ levels then next tree else .error .tooDeep := by
  unfold readBack
  split <;> rfl

/-- The record of a tree is read back as the tree if there are levels enough, and otherwise it is
refused as too deep. -/
theorem ofDataWithin_toData [DecidableEq Text] [Wording Text] {tree : Expr Text}
    (finite : tree.Finite) {data : Data Text} (record : tree.toData = some data) (levels : Nat) :
    ofDataWithin levels data = tree.readBack levels := by
  induction levels generalizing tree data with
  | zero => rw [readBack_zero, ofDataWithin]
  | succ levels ih =>
    simp only [readBack, height_le_succ_iff]
    cases tree with
    | number value =>
      obtain rfl := Option.some.inj record
      have real : value.isFinite = true := finite
      simp [ofDataWithin, tag?, Data.entry?_cons, numberField, field, Except.ok_bind, real,
        children]
    | name text =>
      obtain rfl := Option.some.inj record
      simp [ofDataWithin, tag?, Data.entry?_cons, textField, field, Except.ok_bind, children]
    | binary operator left right =>
      simp only [toData, Option.bind_eq_bind, Option.bind_eq_some_iff] at record
      obtain ⟨leftData, leftRecord, rightData, rightRecord, made⟩ := record
      obtain rfl := Option.some.inj made
      have leftRead := ih finite.1 leftRecord
      have rightRead := ih finite.2 rightRecord
      simp [ofDataWithin, tag?, Data.entry?_cons, textField, field, Except.ok_bind, leftRead,
        rightRead, -bind_pure_comp, readBack_bind, children, ite_and, Except.pure_eq_ok]
    | lambda parameter body =>
      simp only [toData, Option.bind_eq_bind, Option.bind_eq_some_iff] at record
      obtain ⟨bodyData, bodyRecord, made⟩ := record
      obtain rfl := Option.some.inj made
      have bodyFinite : body.Finite := finite
      have bodyRead := ih bodyFinite bodyRecord
      simp [ofDataWithin, tag?, Data.entry?_cons, textField, field, Except.ok_bind, bodyRead,
        -bind_pure_comp, readBack_bind, children, Except.pure_eq_ok]
    | apply function argument =>
      simp only [toData, Option.bind_eq_bind, Option.bind_eq_some_iff] at record
      obtain ⟨functionData, functionRecord, argumentData, argumentRecord, made⟩ := record
      obtain rfl := Option.some.inj made
      have functionRead := ih finite.1 functionRecord
      have argumentRead := ih finite.2 argumentRecord
      simp [ofDataWithin, tag?, Data.entry?_cons, field, Except.ok_bind, functionRead, argumentRead,
        -bind_pure_comp, readBack_bind, children, ite_and, Except.pure_eq_ok]
    | letIn bound value body =>
      simp only [toData, Option.bind_eq_bind, Option.bind_eq_some_iff] at record
      obtain ⟨valueData, valueRecord, bodyData, bodyRecord, made⟩ := record
      obtain rfl := Option.some.inj made
      have valueRead := ih finite.1 valueRecord
      have bodyRead := ih finite.2 bodyRecord
      simp [ofDataWithin, tag?, Data.entry?_cons, textField, field, Except.ok_bind, valueRead,
        bodyRead, -bind_pure_comp, readBack_bind, children, ite_and, Except.pure_eq_ok]
    | ifThen condition thenBranch elseBranch =>
      simp only [toData, Option.bind_eq_bind, Option.bind_eq_some_iff] at record
      obtain ⟨conditionData, conditionRecord, thenData, thenRecord, elseData, elseRecord, made⟩ :=
        record
      obtain rfl := Option.some.inj made
      have conditionRead := ih finite.1 conditionRecord
      have thenRead := ih finite.2.1 thenRecord
      have elseRead := ih finite.2.2 elseRecord
      simp [ofDataWithin, tag?, Data.entry?_cons, field, Except.ok_bind, conditionRead, thenRead,
        elseRead, -bind_pure_comp, readBack_bind, children, ite_and, Except.pure_eq_ok]
    | hole => simp [toData] at record

end ReadBack

theorem same_self {tree : Expr} (complete : tree.Complete) (finite : tree.Finite) :
    tree.same tree = true := by
  induction tree with
  | number value => exact Binary64.same_self finite
  | name text => simp [same]
  | binary operator left right leftIh rightIh =>
    simp [same, leftIh complete.1 finite.1, rightIh complete.2 finite.2]
  | lambda parameter body bodyIh => simp [same, bodyIh complete finite]
  | apply function argument functionIh argumentIh =>
    simp [same, functionIh complete.1 finite.1, argumentIh complete.2 finite.2]
  | letIn bound value body valueIh bodyIh =>
    simp [same, valueIh complete.1 finite.1, bodyIh complete.2 finite.2]
  | ifThen condition thenBranch elseBranch conditionIh thenIh elseIh =>
    simp [same, conditionIh complete.1 finite.1, thenIh complete.2.1 finite.2.1,
      elseIh complete.2.2 finite.2.2]
  | hole => exact complete.elim

/-- The record of a complete tree with finite numbers is read back as an equal tree unless it is too
tall, and then it is refused; so the record of a tree that was parsed is read back. -/
theorem ofData_readsBack_toData :
    (∀ tree : Expr, tree.Complete → tree.Finite →
      ∃ data, tree.toData = some data ∧
        (tree.height ≤ maxHeight → ofData data = .ok tree ∧ tree.same tree = true) ∧
        (maxHeight < tree.height → ofData data = .error .tooDeep)) ∧
    ∀ strict text tree, Program.ofText strict text = .ok tree →
      ∃ data, tree.toData = some data ∧ ofData data = .ok tree ∧ tree.same tree = true := by
  have whole (tree : Expr) (complete : tree.Complete) (finite : tree.Finite) :
      ∃ data, tree.toData = some data ∧
        (tree.height ≤ maxHeight → ofData data = .ok tree ∧ tree.same tree = true) ∧
        (maxHeight < tree.height → ofData data = .error .tooDeep) := by
    obtain ⟨data, record, _⟩ := exists_written_toData complete finite none
    have read : ofData data = tree.readBack maxHeight := ofDataWithin_toData finite record maxHeight
    refine ⟨data, record, fun short => ?_, fun tall => ?_⟩
    · exact ⟨read.trans (if_pos short), same_self complete finite⟩
    · exact read.trans (if_neg (Nat.not_le.mpr tall))
  refine ⟨whole, fun strict text tree parsed => ?_⟩
  obtain ⟨writable, _, short⟩ := Program.writable_of_ofText parsed
  obtain ⟨data, record, readBack, _⟩ := whole tree writable.complete writable.finite
  exact ⟨data, record, readBack short⟩

theorem ofData_readsBack_toData_letIn :
    (∃ data, (binary "%" (.name "let") (.name "")).toData = some data ∧
      ofData data = .ok (.binary "%" (.name "let") (.name ""))) ∧
    ∃ tree data, Program.ofText true "let x = 5 in x + 3" = .ok tree ∧
      tree.toData = some data ∧ ofData data = .ok tree := by
  obtain ⟨trees, programs⟩ := ofData_readsBack_toData
  constructor
  · obtain ⟨data, record, readBack, _⟩ :=
      trees (.binary "%" (.name "let") (.name "")) ⟨trivial, trivial⟩ ⟨trivial, trivial⟩
    exact ⟨data, record, (readBack (by decide)).1⟩
  · have accepted : (Program.ofText true "let x = 5 in x + 3").toOption.isSome = true := by
      decide +kernel
    cases parsed : Program.ofText true "let x = 5 in x + 3" with
    | error error => simp [parsed, Except.toOption] at accepted
    | ok tree =>
      obtain ⟨data, record, readBack, _⟩ := programs true _ tree parsed
      exact ⟨tree, data, rfl, record, readBack⟩

/-! ## Values that are read -/

/-- A value is read, and its tree says what the value says, if and only if the value is a record of
a tree that is not too tall.  Otherwise an error is reported with its message, unless the message
shows a part of the value that the host cannot spell: then that stops the reading.  It takes a value
with the nesting that the host bears and the levels of a record on top. -/
theorem ofData_decides_isRecord [Host] {Text : Type} [DecidableEq Text] [Wording Text]
    (data : Data Text) :
    (data.IsRecord maxHeight →
      ∃ tree record, ofData data = .ok tree ∧ Stepwise.ofRecord data = .ok tree ∧
        tree.toData = some record ∧ record.Equal data.pruned) ∧
    (¬ data.IsRecord maxHeight →
      ∃ error, ofData data = .error error ∧
        ((∃ message, error.message = .ok message ∧
            Stepwise.ofRecord data = .error (.reported error message)) ∨
          (error.message = .error {} ∧ Stepwise.ofRecord data = .error (.hazard .tooNested) ∧
            Host.maxNesting + maxHeight ≤ data.depth))) := by
  have counted : 1 + maxHeight = maxHeight + 1 := Nat.add_comm _ _
  have agreed (tree : Expr Text) : Stepwise.ofRecord data = .ok tree ↔ ofData data = .ok tree := by
    rw [Stepwise.ofRecord_eq, Stepwise.reporting_eq_ok_iff]
  constructor
  · intro isRecord
    obtain ⟨tree, done⟩ := Stepwise.exists_record counted isRecord
    obtain ⟨_, record, recorded, equal⟩ := Stepwise.mirrors_of_record counted done
    exact ⟨tree, record, (agreed tree).mp done, done, recorded, equal⟩
  · intro noRecord
    cases outcome : ofData data with
    | error error =>
      have reported : Stepwise.ofRecord data = Stepwise.report error := by
        rw [Stepwise.ofRecord_eq, outcome, Stepwise.reporting_error]
      refine ⟨error, rfl, ?_⟩
      cases made : error.message with
      | ok message => exact .inl ⟨message, rfl, reported.trans (Stepwise.report_of_ok made)⟩
      | error limit =>
        obtain ⟨refused, shown, deep⟩ := RecordError.deep_of_message_error made
        have within : refused.value.depth + maxHeight ≤ data.depth + refused.left + 1 :=
          showsWithin_ofDataWithin maxHeight data error outcome refused shown
        have nested : Host.maxNesting + maxHeight ≤ data.depth := by omega
        exact .inr ⟨rfl, reported.trans (Stepwise.report_of_error made), nested⟩
    | ok tree =>
      have done : Stepwise.ofRecord data = .ok tree := (agreed tree).mpr outcome
      exact absurd (Stepwise.mirrors_of_record counted done).1 noRecord

/-- A record with its keys in another order, with a key that its form does not have and with an
integer is read; a truth value is no number. -/
theorem ofData_decides_isRecord_function :
    (∃ tree record,
      ofData (.map [("line", .int 3), ("parameterName", .text "x"), ("nodeType", .text "Function"),
        ("body", .map [("value", .int 5), ("nodeType", .text "Number")])]) = .ok tree ∧
      tree.toData = some record ∧
      record.Equal
        (.map [("parameterName", .text "x"), ("nodeType", .text "Function"),
          ("body", .map [("value", .float (.ofInt 5)), ("nodeType", .text "Number")])])) ∧
    ∃ error,
      ofData (.map [("nodeType", .text "Number"), ("value", .bool true)]) = .error error := by
  constructor
  · have number : (Data.map [("value", .int 5), ("nodeType", .text "Number")]).IsRecord 255 := by
      refine ⟨_, rfl, ⟨"Number", [⟨["value"], .number⟩]⟩, by simp [Form.all], rfl, ?_⟩
      have finite : (Binary64.ofInt 5).isFinite = true := by decide +kernel
      simpa [Data.entry?_cons, Content.Admits, Data.asReal?] using finite
    have isRecord : (Data.map [("line", .int 3), ("parameterName", .text "x"),
        ("nodeType", .text "Function"),
        ("body", .map [("value", .int 5), ("nodeType", .text "Number")])]).IsRecord maxHeight := by
      refine ⟨_, rfl, ⟨"Function", [⟨["parameter", "name"], .text⟩, ⟨["body"], .tree⟩]⟩,
        by simp [Form.all], rfl, ?_⟩
      simpa [Data.entry?_cons, Content.Admits] using number
    obtain ⟨tree, record, read, _, recorded, equal⟩ := (ofData_decides_isRecord _).1 isRecord
    refine ⟨tree, record, read, recorded, ?_⟩
    simpa [Data.pruned, Data.prunedEntries, Data.formOf?, Data.entry?_cons, Form.withTag?, Form.all,
      Form.slots, Data.remainder, Data.asReal?] using equal
  · have noRecord : ¬ (Data.map [("nodeType", .text "Number"),
        ("value", .bool true)]).IsRecord maxHeight := by
      rintro ⟨entries, isMap, form, listed, tagged, held⟩
      obtain rfl := Data.map.inj isMap
      have known : Data.formOf? [("nodeType", .text "Number"), ("value", .bool true)] =
          some ⟨"Number", [⟨["value"], .number⟩]⟩ := by
        simp [Data.formOf?, Data.entry?_cons, Form.withTag?, Form.all]
      obtain rfl := Option.some.inj
        (known.symm.trans (Data.formOf?_eq_some_iff.mpr ⟨listed, tagged⟩))
      simp [Data.entry?_cons, Content.Admits, Data.asReal?] at held
    obtain ⟨error, refused, _⟩ := (ofData_decides_isRecord _).2 noRecord
    exact ⟨error, refused⟩

/-- No host can show every tag that it has to refuse. -/
theorem ofRecord_of_nested_tag [Host] {Text : Type} [DecidableEq Text] [Wording Text]
    {count : Nat} (deep : Host.maxNesting + 255 ≤ count) :
    Stepwise.ofRecord (.map [keyed "nodeType" (.nested count)] : Data Text) =
      .error (.hazard .tooNested) := by
  have held : Data.entry? [keyed "nodeType" (.nested count : Data Text)] "nodeType" =
      some (.nested count) := by
    rw [Data.entry?_cons, if_pos rfl]
  have untagged : Data.formOf? [keyed "nodeType" (.nested count : Data Text)] = none := by
    rw [Data.formOf?, held]
    cases count <;> rfl
  have read : ofData (.map [keyed "nodeType" (.nested count)] : Data Text) =
      .error (.unknownTag ⟨255, .nested count⟩) :=
    Stepwise.ofDataWithin_of_no_form 255 held untagged
  have failed :
      (RecordError.unknownTag ⟨255, .nested count⟩ : RecordError Text).message = .error {} := by
    rw [RecordError.message, RecordError.ending, Data.spell_nested deep]
  rw [Stepwise.ofRecord_eq, read, Stepwise.reporting_error, Stepwise.report_of_error failed]

theorem ofRecord_nestedTag :
    Stepwise.ofRecord (.map [("nodeType", .nested 1100)] : Data) =
      .error (.hazard .tooNested) :=
  ofRecord_of_nested_tag (by decide)

end Expr

end Funlet
