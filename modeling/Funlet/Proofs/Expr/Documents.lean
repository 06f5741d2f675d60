import Funlet.Proofs.Data.RoundTrip
import Funlet.Proofs.Expr.Records

/-!
# Trees as JSON documents

The JSON report of a tree is read as the record of the tree, and the record tells which tree it is.
So the report determines the tree, whatever its layout, but for surrogates that stand side by side
in a name or an operator: they are written like the code point that they stand for.
-/

set_option autoImplicit false

namespace Funlet

namespace Expr

/-! ## Texts of a tree -/

section Texts

variable {Text Text' : Type}

def mapText (f : Text → Text') : Expr Text → Expr Text'
  | .number value => .number value
  | .name text => .name (f text)
  | .binary operator left right => .binary (f operator) (left.mapText f) (right.mapText f)
  | .lambda parameter body => .lambda (f parameter) (body.mapText f)
  | .apply function argument => .apply (function.mapText f) (argument.mapText f)
  | .letIn bound value body => .letIn (f bound) (value.mapText f) (body.mapText f)
  | .ifThen condition thenBranch elseBranch =>
    .ifThen (condition.mapText f) (thenBranch.mapText f) (elseBranch.mapText f)
  | .hole => .hole

def texts : Expr Text → List Text
  | .number _ => []
  | .name text => [text]
  | .binary operator left right => operator :: (left.texts ++ right.texts)
  | .lambda parameter body => parameter :: body.texts
  | .apply function argument => function.texts ++ argument.texts
  | .letIn bound value body => bound :: (value.texts ++ body.texts)
  | .ifThen condition thenBranch elseBranch =>
    condition.texts ++ thenBranch.texts ++ elseBranch.texts
  | .hole => []

variable {f : Text → Text'} (tree : Expr Text)

theorem tag_mapText : (tree.mapText f).tag = tree.tag := by
  cases tree <;> rfl

theorem height_mapText : (tree.mapText f).height = tree.height := by
  induction tree <;> simp [mapText, height, *]

theorem finite_mapText : (tree.mapText f).Finite ↔ tree.Finite := by
  induction tree <;> simp [mapText, Finite, *]

theorem texts_mapText : (tree.mapText f).texts = tree.texts.map f := by
  induction tree <;> simp [mapText, texts, *]

theorem mapText_eq_self_iff {f : Text → Text} {tree : Expr Text} :
    tree.mapText f = tree ↔ ∀ text ∈ tree.texts, f text = text := by
  induction tree with
  | binary operator left right leftIh rightIh =>
    simp [mapText, texts, leftIh, rightIh, or_imp, forall_and]
  | lambda parameter body bodyIh => simp [mapText, texts, bodyIh]
  | apply function argument functionIh argumentIh =>
    simp [mapText, texts, functionIh, argumentIh, or_imp, forall_and]
  | letIn bound value body valueIh bodyIh =>
    simp [mapText, texts, valueIh, bodyIh, or_imp, forall_and]
  | ifThen condition thenBranch elseBranch conditionIh thenIh elseIh =>
    simp [mapText, texts, conditionIh, thenIh, elseIh, or_imp, forall_and]
  | number | name | hole => simp [mapText, texts]

variable [Wording Text] [Wording Text']

theorem toData_mapText (kept : ∀ text, f (Wording.ofString text) = Wording.ofString text) :
    (tree.mapText f).toData = tree.toData.map (Data.mapText f) := by
  induction tree with
  | binary operator left right leftIh rightIh =>
    rw [mapText, toData, toData, leftIh, rightIh]
    cases left.toData <;> cases right.toData <;>
      simp [Data.mapText, Data.mapEntries, kept]
  | lambda parameter body bodyIh =>
    rw [mapText, toData, toData, bodyIh]
    cases body.toData <;> simp [Data.mapText, Data.mapEntries, kept]
  | apply function argument functionIh argumentIh =>
    rw [mapText, toData, toData, functionIh, argumentIh]
    cases function.toData <;> cases argument.toData <;>
      simp [Data.mapText, Data.mapEntries, kept]
  | letIn bound value body valueIh bodyIh =>
    rw [mapText, toData, toData, valueIh, bodyIh]
    cases value.toData <;> cases body.toData <;>
      simp [Data.mapText, Data.mapEntries, kept]
  | ifThen condition thenBranch elseBranch conditionIh thenIh elseIh =>
    rw [mapText, toData, toData, conditionIh, thenIh, elseIh]
    cases condition.toData <;> cases thenBranch.toData <;> cases elseBranch.toData <;>
      simp [Data.mapText, Data.mapEntries, kept]
  | number value => simp [mapText, toData, Data.mapText, Data.mapEntries, kept]
  | name text => simp [mapText, toData, Data.mapText, Data.mapEntries, kept]
  | hole => rfl

end Texts

/-- The tree with the surrogates joined that stand side by side in its names and operators. -/
def joined (tree : Expr CodePoints) : Expr CodePoints := tree.mapText CodePoints.joined

def PairFree (tree : Expr CodePoints) : Prop := ∀ text ∈ tree.texts, text.PairFree

instance (tree : Expr CodePoints) : Decidable tree.PairFree :=
  inferInstanceAs (Decidable (∀ text ∈ tree.texts, text.PairFree))

theorem joined_eq_self_iff {tree : Expr CodePoints} : tree.joined = tree ↔ tree.PairFree := by
  rw [joined, mapText_eq_self_iff]
  exact forall₂_congr fun text _ => CodePoints.joined_eq_self_iff

theorem pairFree_mapText_ofString (tree : Expr) :
    PairFree (tree.mapText Wording.ofString) := by
  intro text member
  rw [texts_mapText] at member
  obtain ⟨plain, _, rfl⟩ := List.mem_map.mp member
  exact CodePoints.pairFree_ofString plain

/-! ## Records -/

/-- Trees with the same record are equal. -/
theorem eq_of_toData {tree other : Expr CodePoints} (finite : tree.Finite)
    (otherFinite : other.Finite) {data : Json.Document} (record : tree.toData = some data)
    (otherRecord : other.toData = some data) : other = tree := by
  have read := ofDataWithin_toData finite record (max tree.height other.height)
  have otherRead := ofDataWithin_toData otherFinite otherRecord (max tree.height other.height)
  rw [readBack, if_pos (Nat.le_max_left _ _)] at read
  rw [readBack, if_pos (Nat.le_max_right _ _), read] at otherRead
  exact (Except.ok.inj otherRead).symm

theorem toData_joined (tree : Expr CodePoints) :
    tree.joined.toData = tree.toData.map (Data.mapText CodePoints.joined) :=
  tree.toData_mapText fun text =>
    CodePoints.joined_eq_self_iff.mpr (CodePoints.pairFree_ofString text)

/-! ## Reports -/

theorem report_json [Host] (tree : Expr) (indent : Option Int) :
    tree.report "json" indent = tree.json indent := by
  have lower : Text.lowercase "json" = "json" := by decide
  unfold report
  rw [lower]
  rfl

theorem json_mapText_ofString [Host] (tree : Expr) (indent : Option Int) :
    (tree.mapText Wording.ofString : Expr CodePoints).json indent = tree.report "json" indent := by
  rw [report_json]
  unfold json
  rw [toData_mapText tree fun _ => rfl]
  cases tree.toData with
  | none => rfl
  | some data => simp only [Option.map_some, Data.json_mapText_ofString]

theorem json_joined [Host] (tree : Expr CodePoints) (indent : Option Int) :
    tree.joined.json indent = tree.json indent := by
  unfold json
  rw [toData_joined]
  cases tree.toData with
  | none => rfl
  | some data => simp only [Option.map_some, Data.json_mapText_joined]

theorem decode?_of_json [Host] {tree : Expr CodePoints} {indent : Option Int} {text : String}
    (reported : tree.json indent = .ok text) :
    ∃ data, tree.joined.toData = some data ∧ (∀ c ∈ text.toList, c.toNat < 128) ∧
      Json.decode? text = some data := by
  unfold json at reported
  split at reported
  · cases reported
  · rename_i data record
    split at reported
    · rename_i written
      obtain rfl := Except.ok.inj reported
      refine ⟨data.mapText CodePoints.joined, ?_, Data.decode?_json written⟩
      rw [toData_joined, record, Option.map_some]
    · cases reported

/-- The JSON report of a complete tree with finite numbers is an ASCII document of the record of the
tree, in every layout whose indentation can be built, and no other tree has it in any layout.  All
this holds up to joining the surrogates that stand side by side, of which strings have none. -/
theorem report_json_determines_tree [Host] {tree : Expr CodePoints} (complete : tree.Complete)
    (finite : tree.Finite) {indent : Option Int}
    (built : ∀ width ∈ indent, Index.fits width = true ∧ width ≤ Host.maxIndent) :
    ∃ text data, tree.json indent = .ok text ∧ (∀ c ∈ text.toList, c.toNat < 128) ∧
      Json.decode? text = some data ∧ tree.joined.toData = some data ∧
      (∃ form ∈ Form.all, ∃ values, form.tag = tree.tag ∧ values.length = form.fields.length ∧
        data = .map ((form.slots.map fun field => Wording.ofString field.key).zip
          (.text (Wording.ofString form.tag) :: values))) ∧
      (tree.height ≤ maxHeight → ofData data = .ok tree.joined) ∧
      (∀ (other : Expr CodePoints) otherIndent, other.Finite →
        other.json otherIndent = .ok text → other.joined = tree.joined) ∧
      (∀ other : Expr CodePoints, other.joined = tree.joined → other.json indent = .ok text) ∧
      (tree.joined = tree ↔ tree.PairFree) ∧
      ∀ plain : Expr, plain.mapText Wording.ofString = tree →
        tree.PairFree ∧ plain.report "json" indent = .ok text := by
  obtain ⟨plainData, plainRecord, written⟩ := exists_written_toData complete finite indent
  obtain ⟨text, wrote⟩ := Data.exists_json written (Json.checkIndent_eq_ok built)
  have reported : tree.json indent = .ok text := by simp only [json, plainRecord, wrote]
  obtain ⟨data, record, ascii, decoded⟩ := decode?_of_json reported
  have joinedFinite : tree.joined.Finite := tree.finite_mapText.mpr finite
  obtain ⟨form, listed, values, tagged, filled, shape⟩ := exists_form_of_toData record
  refine ⟨text, data, reported, ascii, decoded, record,
    ⟨form, listed, values, tagged.trans tree.tag_mapText, filled, shape⟩, fun short => ?_,
    fun other otherIndent otherFinite same => ?_, fun other same => ?_, joined_eq_self_iff,
    fun plain embedded => ?_⟩
  · have joinedShort : tree.joined.height ≤ maxHeight := tree.height_mapText.le.trans short
    exact (ofDataWithin_toData joinedFinite record maxHeight).trans (if_pos joinedShort)
  · obtain ⟨otherData, otherRecord, _, otherDecoded⟩ := decode?_of_json same
    obtain rfl := Option.some.inj (otherDecoded.symm.trans decoded)
    exact eq_of_toData joinedFinite (other.finite_mapText.mpr otherFinite) record otherRecord
  · rw [← json_joined, same, json_joined, reported]
  · obtain rfl := embedded
    exact ⟨plain.pairFree_mapText_ofString,
      (plain.json_mapText_ofString indent).symm.trans reported⟩

/-- A name may end in a high surrogate; the text of the tree has lines without indentation. -/
theorem report_json_determines_tree_escapes :
    ∃ text data,
      (binary [0x22, 0x5c] (.name [0xa, 0xe9, 0x1f600, 0xd800])
        (.number (.finite true .zero)) : Expr CodePoints).json (some (-1)) = .ok text ∧
      Json.decode? text = some data ∧
      ofData data = .ok (binary [0x22, 0x5c] (.name [0xa, 0xe9, 0x1f600, 0xd800])
        (.number (.finite true .zero))) := by
  have complete : (binary [0x22, 0x5c] (.name [0xa, 0xe9, 0x1f600, 0xd800])
      (.number (.finite true .zero)) : Expr CodePoints).Complete := ⟨trivial, trivial⟩
  have narrow : ∀ width ∈ some (-1 : Int),
      Index.fits width = true ∧ width ≤ Host.maxIndent := by decide
  obtain ⟨text, data, reported, _, decoded, _, _, readBack, _, _, unchanged, _⟩ :=
    report_json_determines_tree complete ⟨trivial, rfl⟩ narrow
  have same := unchanged.mpr (by decide)
  refine ⟨text, data, reported, decoded, ?_⟩
  rw [readBack (by decide), same]

/-- Two surrogates are written like the code point that they stand for, and an indentation that is
no index of the machine is refused. -/
theorem report_json_pair_and_unfit :
    (∃ text, (name [0xd800, 0xdc00] : Expr CodePoints).json none = .ok text ∧
      (name [0x10000] : Expr CodePoints).json none = .ok text) ∧
      (name "x").report "json" (some (-9223372036854775809)) = .error (.json .indentUnfit) := by
  constructor
  · have complete : (name [0x10000] : Expr CodePoints).Complete := trivial
    obtain ⟨data, record, written⟩ := exists_written_toData complete trivial none
    obtain ⟨text, wrote⟩ := Data.exists_json written rfl
    have reported : (name [0x10000] : Expr CodePoints).json none = .ok text := by
      simp only [json, record, wrote]
    have joinedName : (name [0xd800, 0xdc00] : Expr CodePoints).joined = name [0x10000] := rfl
    refine ⟨text, ?_, reported⟩
    rw [← json_joined, joinedName, reported]
  · rw [report_json]
    rfl

end Expr

end Funlet
