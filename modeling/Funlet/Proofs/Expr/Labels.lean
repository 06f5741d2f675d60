import Funlet.Expr.Outline
import Funlet.Proofs.Expr.Reports
import Funlet.Proofs.Number.Numerals
import Mathlib.Data.List.Forall2

/-!
# Labels of nodes

The label of a node tells its form and what it holds besides its subtrees: names and operators as
they are, numbers by their value.  A label has a line break only if a name or an operator has one.
-/

set_option autoImplicit false

namespace Funlet

/-! ## Labels of numbers -/

namespace Binary64

def settled : Binary64 → Binary64
  | .finite negative size => .finite (negative && size.units != 0) size
  | other => other

theorem same_iff_settled {x y : Binary64} (xFinite : x.isFinite = true) :
    x.same y = true ↔ x.settled = y.settled := by
  cases x with
  | infinite negative => simp [isFinite] at xFinite
  | nan => simp [isFinite] at xFinite
  | finite negative size =>
    cases y with
    | infinite negative' => simp [same, settled]
    | nan => simp [same, settled]
    | finite negative' size' =>
      have sizes : size = size' ↔ size.units = size'.units := by
        cases size
        cases size'
        simp
      rw [same, settled, settled, finite.injEq, sizes]
      by_cases zero : size'.units = 0
      · grind
      · grind

theorem label_settled (x : Binary64) : x.settled.label = x.label := by
  cases x with
  | infinite negative => rfl
  | nan => rfl
  | finite negative size =>
    by_cases zero : size.units = 0
    · simp [settled, label, zero, Magnitude.isWhole]
    · have hasSign : (size.units != 0) = true := bne_iff_ne.mpr zero
      rw [settled, hasSign, Bool.and_true]

theorem label_of_whole (negative : Bool) {size : Magnitude} (whole : size.isWhole = true) :
    label (.finite negative size) = String.ofList
      (Numeral.signText (negative && size.units != 0) ++
        literalText (Digits.ofNat 10 size.whole) []) := by
  rw [← String.toList_inj]
  by_cases signed : (negative && size.units != 0) = true
  · simp [label, whole, signed, Numeral.signText, literalText, Digits.decimal]
  · simp [label, whole, signed, Numeral.signText, literalText, Digits.decimal]

theorem label_of_broken (negative : Bool) {size : Magnitude} (broken : ¬ size.isWhole = true) :
    label (.finite negative size) = (Binary64.finite negative size).text :=
  if_neg broken

/-- The label of a finite number is read as the number. -/
theorem readReal?_label {x : Binary64} (xFinite : x.isFinite = true) :
    Numeral.readReal? x.label = some x.settled := by
  cases x with
  | infinite negative => simp [isFinite] at xFinite
  | nan => simp [isFinite] at xFinite
  | finite negative size =>
    by_cases whole : size.isWhole = true
    · rw [label_of_whole negative whole,
        Numeral.readReal?_signed (fun _ => Digits.isDigit_of_mem_ofNat) (by simp)
          (Digits.ofNat_ne_nil 10 _),
        Magnitude.nearest_literal_whole whole]
      rfl
    · have positive : size.units ≠ 0 := by
        intro zero
        exact whole (by simp [Magnitude.isWhole, zero])
      rw [label_of_broken negative whole, readReal?_text xFinite]
      simp [settled, positive]

/-- Finite numbers have the same label if and only if they are equal. -/
theorem label_eq_iff_same {x y : Binary64} (xFinite : x.isFinite = true)
    (yFinite : y.isFinite = true) : x.label = y.label ↔ x.same y = true := by
  rw [same_iff_settled xFinite]
  constructor
  · intro labels
    have read := readReal?_label xFinite
    rw [labels, readReal?_label yFinite] at read
    exact (Option.some.inj read).symm
  · intro settled
    rw [← label_settled x, settled, label_settled]

theorem isNumeralChar_of_mem_label {negative : Bool} {size : Magnitude} {c : Char}
    (member : c ∈ (label (.finite negative size)).toList) : IsNumeralChar c := by
  by_cases whole : size.isWhole = true
  · rw [label_of_whole negative whole, String.toList_ofList, ← List.append_nil (literalText _ _)]
      at member
    exact Numeral.isNumeralChar_of_mem_append (fun _ => Digits.isDigit_of_mem_ofNat) (by simp) _
      (by simp) c member
  · obtain ⟨f, shape, _⟩ := size.exists_fraction
    rw [label_of_broken negative whole, text, shape, String.toList_ofList] at member
    exact Numeral.isNumeralChar_of_mem_append f.beforeDigits f.afterDigits negative
      (fun _ => f.isNumeralChar_of_mem_exponent) c member

theorem newline_not_mem_label (x : Binary64) : '\n' ∉ x.label.toList := by
  cases x with
  | finite negative size =>
    intro member
    exact absurd (isNumeralChar_of_mem_label member).toNat_bounds.1 (by decide)
  | infinite negative => cases negative <;> decide
  | nan => decide

end Binary64

namespace Expr

/-! ## What is shown of a node -/

def detail : Expr → Detail
  | .number value => .value value
  | .name text => .name text
  | .binary operator _ _ => .operator operator
  | .lambda parameter _ => .parameter parameter
  | .apply _ _ => .none
  | .letIn bound _ _ => .bound bound
  | .ifThen _ _ _ => .none
  | .hole => .none

/-- The label of a node, which does not depend on its subtrees. -/
def heading (tree : Expr) : String := (Outline.entry tree.tag tree.detail []).label

/-- The outline of a tree shows the tree's form and detail above the outlines of its subtrees. -/
theorem exists_entry {tree : Expr} {outline : Outline} (drawn : tree.outline = .ok outline) :
    ∃ entries, outline = .entry tree.tag tree.detail entries ∧
      List.Forall₂ (fun child entry => child.outline = .ok entry) tree.children entries := by
  cases tree with
  | number value =>
    obtain rfl := Except.ok.inj drawn
    exact ⟨[], rfl, .nil⟩
  | name text =>
    obtain rfl := Except.ok.inj drawn
    exact ⟨[], rfl, .nil⟩
  | binary operator left right =>
    simp only [Expr.outline, Except.bind_eq_ok_iff, Except.pure_eq_ok_iff] at drawn
    obtain ⟨leftEntry, leftDrawn, rightEntry, rightDrawn, rfl⟩ := drawn
    exact ⟨[leftEntry, rightEntry], rfl, .cons leftDrawn (.cons rightDrawn .nil)⟩
  | lambda parameter body =>
    simp only [Expr.outline, Except.bind_eq_ok_iff, Except.pure_eq_ok_iff] at drawn
    obtain ⟨bodyEntry, bodyDrawn, rfl⟩ := drawn
    exact ⟨[bodyEntry], rfl, .cons bodyDrawn .nil⟩
  | apply function argument =>
    simp only [Expr.outline, Except.bind_eq_ok_iff, Except.pure_eq_ok_iff] at drawn
    obtain ⟨functionEntry, functionDrawn, argumentEntry, argumentDrawn, rfl⟩ := drawn
    exact ⟨[functionEntry, argumentEntry], rfl, .cons functionDrawn (.cons argumentDrawn .nil)⟩
  | letIn bound value body =>
    simp only [Expr.outline, Except.bind_eq_ok_iff, Except.pure_eq_ok_iff] at drawn
    obtain ⟨valueEntry, valueDrawn, bodyEntry, bodyDrawn, rfl⟩ := drawn
    exact ⟨[valueEntry, bodyEntry], rfl, .cons valueDrawn (.cons bodyDrawn .nil)⟩
  | ifThen condition thenBranch elseBranch =>
    simp only [Expr.outline, Except.bind_eq_ok_iff, Except.pure_eq_ok_iff] at drawn
    obtain ⟨conditionEntry, conditionDrawn, thenEntry, thenDrawn, elseEntry, elseDrawn, rfl⟩ :=
      drawn
    exact ⟨[conditionEntry, thenEntry, elseEntry], rfl,
      .cons conditionDrawn (.cons thenDrawn (.cons elseDrawn .nil))⟩
  | hole => cases drawn

theorem label_of_outline {tree : Expr} {outline : Outline} (drawn : tree.outline = .ok outline) :
    tree.label = .ok tree.heading := by
  obtain ⟨entries, rfl, _⟩ := exists_entry drawn
  rw [label, drawn]
  rfl

theorem eq_heading_of_label {tree : Expr} {text : String} (labelled : tree.label = .ok text) :
    text = tree.heading := by
  obtain ⟨outline, drawn, _⟩ := Except.bind_eq_ok_iff.mp labelled
  exact Except.ok.inj (labelled.symm.trans (label_of_outline drawn))

def remark (detail : Detail) : List Char :=
  match detail.text? with
  | some text => " (".toList ++ text.toList ++ [')']
  | none => []

theorem toList_heading (tree : Expr) :
    tree.heading.toList = tree.tag.toList ++ remark tree.detail := by
  cases shown : tree.detail.text? with
  | some text => simp [heading, Outline.label, remark, shown]
  | none => simp [heading, Outline.label, remark, shown]

theorem remark_eq_iff {first second : Detail} :
    remark first = remark second ↔ first.text? = second.text? := by
  unfold remark
  cases first.text? with
  | none => cases second.text? <;> simp
  | some text => cases second.text? <;> simp [String.toList_inj]

theorem isAlpha_of_mem_tag {tree : Expr} {c : Char} (member : c ∈ tree.tag.toList) :
    c.isAlpha = true := by
  have letters : tree.tag.toList.all Char.isAlpha = true := by
    cases tree <;> simp only [tag] <;> decide
  exact List.all_eq_true.mp letters c member

theorem tag_ne_space {tree : Expr} {c : Char} (member : c ∈ tree.tag.toList) :
    (c != ' ') = true := by
  have letter := isAlpha_of_mem_tag member
  rw [bne_iff_ne]
  rintro rfl
  exact absurd letter (by decide)

theorem remark_begins {detail : Detail} {c : Char} (head : c ∈ (remark detail).head?) :
    (c != ' ') = false := by
  unfold remark at head
  cases shown : detail.text? with
  | none => simp [shown] at head
  | some text =>
    obtain rfl : ' ' = c := by simpa [shown] using head
    rfl

/-- A label tells the form of a node and what the node holds. -/
theorem heading_eq_iff {tree other : Expr} :
    tree.heading = other.heading ↔
      tree.tag = other.tag ∧ tree.detail.text? = other.detail.text? := by
  rw [← String.toList_inj, toList_heading, toList_heading, ← remark_eq_iff, ← String.toList_inj]
  constructor
  · intro same
    have front : tree.tag.toList = other.tag.toList := by
      -- No form has a space in its name, so the first space ends it.
      rw [← takeWhile_append_of_stops (fun _ => tag_ne_space) (fun _ => remark_begins), same,
        takeWhile_append_of_stops (fun _ => tag_ne_space) (fun _ => remark_begins)]
    rw [front] at same
    exact ⟨front, List.append_cancel_left same⟩
  · rintro ⟨front, rest⟩
    rw [front, rest]

/-! ## Equal trees -/

theorem Complete.children {tree : Expr} (complete : tree.Complete) :
    ∀ child ∈ tree.children, child.Complete := by
  cases tree <;> simp_all [Complete, Expr.children]

theorem Finite.children {tree : Expr} (finite : tree.Finite) :
    ∀ child ∈ tree.children, child.Finite := by
  cases tree <;> simp_all [Finite, Expr.children]

theorem length_children_of_tag {tree other : Expr} (tags : tree.tag = other.tag) :
    tree.children.length = other.children.length := by
  cases tree <;> cases other <;> simp_all [tag, children]

/-- Trees are equal if and only if their labels are the same and their subtrees are equal. -/
theorem same_iff {tree other : Expr} (complete : tree.Complete) (finite : tree.Finite)
    (otherFinite : other.Finite) :
    tree.same other = true ↔ tree.heading = other.heading ∧
      List.Forall₂ (fun child child' => child.same child' = true) tree.children
        other.children := by
  rw [heading_eq_iff]
  cases tree with
  | number value =>
    cases other with
    | number value' =>
      simp [same, tag, detail, Detail.text?, children,
        Binary64.label_eq_iff_same finite otherFinite]
    | _ => simp [same, tag]
  | name text => cases other <;> simp [same, tag, detail, Detail.text?, children]
  | binary operator left right =>
    cases other <;> simp [same, tag, detail, Detail.text?, children, and_assoc]
  | lambda parameter body =>
    cases other <;> simp [same, tag, detail, Detail.text?, children]
  | apply function argument =>
    cases other <;> simp [same, tag, detail, Detail.text?, children]
  | letIn bound value body =>
    cases other <;> simp [same, tag, detail, Detail.text?, children, and_assoc]
  | ifThen condition thenBranch elseBranch =>
    cases other <;> simp [same, tag, detail, Detail.text?, children, and_assoc]
  | hole => exact complete.elim

/-! ## Trees on one line for each node -/

@[simp]
def OneLine : Expr → Prop
  | .number _ => True
  | .name text => '\n' ∉ text.toList
  | .binary operator left right => '\n' ∉ operator.toList ∧ left.OneLine ∧ right.OneLine
  | .lambda parameter body => '\n' ∉ parameter.toList ∧ body.OneLine
  | .apply function argument => function.OneLine ∧ argument.OneLine
  | .letIn bound value body => '\n' ∉ bound.toList ∧ value.OneLine ∧ body.OneLine
  | .ifThen condition thenBranch elseBranch =>
    condition.OneLine ∧ thenBranch.OneLine ∧ elseBranch.OneLine
  | .hole => True

theorem OneLine.children {tree : Expr} (oneLine : tree.OneLine) :
    ∀ child ∈ tree.children, child.OneLine := by
  cases tree <;> simp_all [Expr.children]

theorem OneLine.detail {tree : Expr} (oneLine : tree.OneLine) :
    ∀ text ∈ tree.detail.text?, '\n' ∉ text.toList := by
  cases tree <;> simp_all [Expr.detail, Detail.text?, Binary64.newline_not_mem_label]

theorem newline_not_mem_heading {tree : Expr} (oneLine : tree.OneLine) :
    '\n' ∉ tree.heading.toList := by
  have letters : '\n' ∉ tree.tag.toList := fun member =>
    absurd (isAlpha_of_mem_tag member) (by decide)
  have inside := oneLine.detail
  rw [toList_heading, remark, List.mem_append]
  cases shown : tree.detail.text? with
  | none => simp [letters]
  | some text =>
    rw [shown] at inside
    simp [letters, inside text rfl]

end Expr

end Funlet
