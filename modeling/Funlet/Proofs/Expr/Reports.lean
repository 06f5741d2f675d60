import Funlet.Proofs.Expr.Nodes
import Funlet.Proofs.Source.RoundTrip

/-!
# Trees that can be reported

A tree that was read is fit for all that is done with trees: its nodes are sound, it is not too
tall, and it has a report in each of the three formats.  JSON text needs finite numbers, a text tree
needs a tree without holes, and the source needs names and operators of the language.
-/

set_option autoImplicit false

namespace Funlet

/-! ## JSON text -/

namespace Data

variable {Text : Type} [Wording Text]

def Written (indent : Option Int) (data : Data Text) : Prop :=
  ∀ depth, ∃ text, Json.write indent depth data = .ok text

variable {indent : Option Int}

theorem written_text (value : Text) : (Data.text value).Written indent := by
  intro depth
  refine ⟨Json.string value, ?_⟩
  rw [Json.write]

theorem written_float {value : Binary64} (finite : value.isFinite = true) :
    (float value : Data Text).Written indent := by
  intro depth
  refine ⟨value.text, ?_⟩
  rw [Json.write, if_pos finite]

theorem exists_writeEntries {entries : List (Text × Data Text)}
    (written : ∀ entry ∈ entries, entry.2.Written indent) (depth : Nat) :
    ∃ parts, Json.writeEntries indent depth entries = .ok parts := by
  induction entries with
  | nil =>
    refine ⟨[], ?_⟩
    rw [Json.writeEntries]
  | cons entry rest ih =>
    obtain ⟨key, value⟩ := entry
    obtain ⟨first, more⟩ := List.forall_mem_cons.mp written
    obtain ⟨part, wrote⟩ := first depth
    obtain ⟨parts, wroteRest⟩ := ih more
    refine ⟨(Json.string key ++ ": " ++ part) :: parts, ?_⟩
    rw [Json.writeEntries, wrote, wroteRest]
    rfl

theorem written_map {entries : List (Text × Data Text)}
    (written : ∀ entry ∈ entries, entry.2.Written indent) : (map entries).Written indent := by
  intro depth
  obtain ⟨parts, wrote⟩ := exists_writeEntries written (depth + 1)
  refine ⟨Json.enclose indent depth "\x7b" "\x7d" parts, ?_⟩
  rw [Json.write, wrote]
  rfl

/-- The indentation is built before the value is looked at. -/
theorem exists_json [Host] {data : Data Text} (written : data.Written indent)
    (built : Json.checkIndent indent = .ok ()) : ∃ text, data.json indent = .ok text := by
  obtain ⟨text, wrote⟩ := written 0
  refine ⟨text, ?_⟩
  simp only [json, built, wrote]

end Data

theorem Json.checkIndent_eq_ok [Host] {indent : Option Int}
    (fits : ∀ width ∈ indent, Index.fits width = true ∧ width ≤ Host.maxIndent) :
    checkIndent indent = .ok () := by
  cases indent with
  | none => rfl
  | some width =>
    obtain ⟨isIndex, narrow⟩ := fits width rfl
    simp [checkIndent, isIndex, narrow]

theorem Binary64.isFinite_of_writable {value : Binary64} (writable : value.Writable) :
    value.isFinite = true := by
  cases value with
  | finite negative size => rfl
  | infinite negative => exact writable.elim
  | nan => exact writable.elim

/-! ## Complete trees -/

namespace Expr

theorem Writable.complete {tree : Expr} (writable : tree.Writable) : tree.Complete := by
  induction tree with
  | number | name => trivial
  | binary operator left right leftIh rightIh =>
    exact ⟨leftIh writable.2.1, rightIh writable.2.2⟩
  | lambda parameter body bodyIh => exact bodyIh writable.2
  | apply function argument functionIh argumentIh =>
    exact ⟨functionIh writable.1, argumentIh writable.2⟩
  | letIn bound value body valueIh bodyIh =>
    exact ⟨valueIh writable.2.1, bodyIh writable.2.2⟩
  | ifThen condition thenBranch elseBranch conditionIh thenIh elseIh =>
    exact ⟨conditionIh writable.1, thenIh writable.2.1, elseIh writable.2.2⟩
  | hole => exact writable.elim

def Finite {Text : Type} : Expr Text → Prop
  | .number value => value.isFinite = true
  | .name _ => True
  | .binary _ left right => left.Finite ∧ right.Finite
  | .lambda _ body => body.Finite
  | .apply function argument => function.Finite ∧ argument.Finite
  | .letIn _ value body => value.Finite ∧ body.Finite
  | .ifThen condition thenBranch elseBranch =>
    condition.Finite ∧ thenBranch.Finite ∧ elseBranch.Finite
  | .hole => True

theorem Writable.finite {tree : Expr} (writable : tree.Writable) : tree.Finite := by
  induction tree with
  | number value => exact Binary64.isFinite_of_writable writable
  | name => trivial
  | binary operator left right leftIh rightIh =>
    exact ⟨leftIh writable.2.1, rightIh writable.2.2⟩
  | lambda parameter body bodyIh => exact bodyIh writable.2
  | apply function argument functionIh argumentIh =>
    exact ⟨functionIh writable.1, argumentIh writable.2⟩
  | letIn bound value body valueIh bodyIh =>
    exact ⟨valueIh writable.2.1, bodyIh writable.2.2⟩
  | ifThen condition thenBranch elseBranch conditionIh thenIh elseIh =>
    exact ⟨conditionIh writable.1, thenIh writable.2.1, elseIh writable.2.2⟩
  | hole => trivial

/-- A tree without holes has an outline, which shows every node. -/
theorem exists_outline {tree : Expr} (complete : tree.Complete) :
    ∃ outline, tree.outline = .ok outline := by
  induction tree with
  | number value => exact ⟨.entry "Number" (.value value) [], rfl⟩
  | name text => exact ⟨.entry "Variable" (.name text) [], rfl⟩
  | binary operator left right leftIh rightIh =>
    obtain ⟨leftOutline, leftDrawn⟩ := leftIh complete.1
    obtain ⟨rightOutline, rightDrawn⟩ := rightIh complete.2
    refine ⟨.entry "BinaryOp" (.operator operator) [leftOutline, rightOutline], ?_⟩
    rw [outline, leftDrawn, rightDrawn]
    rfl
  | lambda parameter body bodyIh =>
    obtain ⟨bodyOutline, bodyDrawn⟩ := bodyIh complete
    refine ⟨.entry "Function" (.parameter parameter) [bodyOutline], ?_⟩
    rw [outline, bodyDrawn]
    rfl
  | apply function argument functionIh argumentIh =>
    obtain ⟨functionOutline, functionDrawn⟩ := functionIh complete.1
    obtain ⟨argumentOutline, argumentDrawn⟩ := argumentIh complete.2
    refine ⟨.entry "Application" .none [functionOutline, argumentOutline], ?_⟩
    rw [outline, functionDrawn, argumentDrawn]
    rfl
  | letIn bound value body valueIh bodyIh =>
    obtain ⟨valueOutline, valueDrawn⟩ := valueIh complete.1
    obtain ⟨bodyOutline, bodyDrawn⟩ := bodyIh complete.2
    refine ⟨.entry "Let" (.bound bound) [valueOutline, bodyOutline], ?_⟩
    rw [outline, valueDrawn, bodyDrawn]
    rfl
  | ifThen condition thenBranch elseBranch conditionIh thenIh elseIh =>
    obtain ⟨conditionOutline, conditionDrawn⟩ := conditionIh complete.1
    obtain ⟨thenOutline, thenDrawn⟩ := thenIh complete.2.1
    obtain ⟨elseOutline, elseDrawn⟩ := elseIh complete.2.2
    refine ⟨.entry "If" .none [conditionOutline, thenOutline, elseOutline], ?_⟩
    rw [outline, conditionDrawn, thenDrawn, elseDrawn]
    rfl
  | hole => exact complete.elim

theorem exists_written_toData {Text : Type} [Wording Text] {tree : Expr Text}
    (complete : tree.Complete) (finite : tree.Finite) (indent : Option Int) :
    ∃ data, tree.toData = some data ∧ data.Written indent := by
  induction tree with
  | number value =>
    refine ⟨_, rfl, Data.written_map ?_⟩
    simp [Data.written_text, Data.written_float finite]
  | name text =>
    refine ⟨_, rfl, Data.written_map ?_⟩
    simp [Data.written_text]
  | binary operator left right leftIh rightIh =>
    obtain ⟨leftData, leftRecord, leftWritten⟩ := leftIh complete.1 finite.1
    obtain ⟨rightData, rightRecord, rightWritten⟩ := rightIh complete.2 finite.2
    rw [toData, leftRecord, rightRecord]
    refine ⟨_, rfl, Data.written_map ?_⟩
    simp [Data.written_text, leftWritten, rightWritten]
  | lambda parameter body bodyIh =>
    obtain ⟨bodyData, bodyRecord, bodyWritten⟩ := bodyIh complete finite
    rw [toData, bodyRecord]
    refine ⟨_, rfl, Data.written_map ?_⟩
    simp [Data.written_text, bodyWritten]
  | apply function argument functionIh argumentIh =>
    obtain ⟨functionData, functionRecord, functionWritten⟩ := functionIh complete.1 finite.1
    obtain ⟨argumentData, argumentRecord, argumentWritten⟩ := argumentIh complete.2 finite.2
    rw [toData, functionRecord, argumentRecord]
    refine ⟨_, rfl, Data.written_map ?_⟩
    simp [Data.written_text, functionWritten, argumentWritten]
  | letIn bound value body valueIh bodyIh =>
    obtain ⟨valueData, valueRecord, valueWritten⟩ := valueIh complete.1 finite.1
    obtain ⟨bodyData, bodyRecord, bodyWritten⟩ := bodyIh complete.2 finite.2
    rw [toData, valueRecord, bodyRecord]
    refine ⟨_, rfl, Data.written_map ?_⟩
    simp [Data.written_text, valueWritten, bodyWritten]
  | ifThen condition thenBranch elseBranch conditionIh thenIh elseIh =>
    obtain ⟨conditionData, conditionRecord, conditionWritten⟩ := conditionIh complete.1 finite.1
    obtain ⟨thenData, thenRecord, thenWritten⟩ := thenIh complete.2.1 finite.2.1
    obtain ⟨elseData, elseRecord, elseWritten⟩ := elseIh complete.2.2 finite.2.2
    rw [toData, conditionRecord, thenRecord, elseRecord]
    refine ⟨_, rfl, Data.written_map ?_⟩
    simp [Data.written_text, conditionWritten, thenWritten, elseWritten]
  | hole => exact complete.elim

/-- A tree that can be written has a report in every format. -/
theorem exists_report [Host] {tree : Expr} (writable : tree.Writable) {indent : Option Int}
    (built : Json.checkIndent indent = .ok ()) {format : String} (known : format ∈ formatNames) :
    ∃ text, tree.report format indent = .ok text := by
  have lower : ∀ name ∈ formatNames, Text.lowercase name = name := by decide
  have choices : format = "json" ∨ format = "tree" ∨ format = "source" := by
    simpa [formatNames] using known
  unfold report
  rw [lower format known]
  rcases choices with rfl | rfl | rfl
  · obtain ⟨data, record, written⟩ := exists_written_toData writable.complete writable.finite indent
    obtain ⟨text, wrote⟩ := Data.exists_json written built
    refine ⟨text, ?_⟩
    simp only [json, record, wrote]
  · obtain ⟨outline, drawn⟩ := exists_outline writable.complete
    refine ⟨"\n".intercalate (outline.draw "" ""), ?_⟩
    simp only [textTree, drawn]
    rfl
  · obtain ⟨text, written⟩ := (tree.exists_sourceAt_iff Level.expression).mpr writable
    refine ⟨text, ?_⟩
    simp only [source, written]

end Expr

/-! ## Trees that were read -/

/-- A tree that was read has sound nodes only, is not too tall, and has a report in every format
with every indentation that can be built. -/
theorem Program.sound_and_reportable_of_ofText [Host] {strict : Bool} {text : String} {tree : Expr}
    (read : ofText strict text = .ok tree) :
    (∀ node ∈ tree.walk, node.Sound) ∧ tree.height ≤ Expr.maxHeight ∧
      ∀ format ∈ formatNames, ∀ indent : Option Int,
        (∀ width ∈ indent, Index.fits width = true ∧ width ≤ Host.maxIndent) →
          ∃ report, tree.report format indent = .ok report := by
  obtain ⟨writable, unsigned, short⟩ := writable_of_ofText read
  refine ⟨fun node visited => ?_, short, fun format known indent fits => ?_⟩
  · exact Expr.sound_of_mem_preorder writable unsigned node (Expr.mem_walk.mp visited)
  · exact Expr.exists_report writable (Json.checkIndent_eq_ok fits) known

theorem Program.sound_and_reportable_of_ofText_letIn :
    ∃ tree, ofText true "let x = 5 in x + 3" = .ok tree ∧ (∀ node ∈ tree.walk, node.Sound) ∧
      ∃ report, tree.report "json" (some 2) = .ok report := by
  have accepted : (ofText true "let x = 5 in x + 3").toOption.isSome = true := by decide +kernel
  cases read : ofText true "let x = 5 in x + 3" with
  | error error => simp [read, Except.toOption] at accepted
  | ok tree =>
    obtain ⟨sound, _, reports⟩ := sound_and_reportable_of_ofText read
    exact ⟨tree, rfl, sound, reports "json" (by decide) (some 2) (by decide)⟩

end Funlet
