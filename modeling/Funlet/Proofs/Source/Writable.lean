import Funlet.Expr.Report
import Funlet.Proofs.Number.Rounding
import Funlet.Proofs.Outcome

/-!
# Trees that can be written

A tree has a source if and only if its names are names of the language, its operators are operators
of the language, and its numbers have literals.  A literal has no sign, so the tree that is written
is the one in which the numbers have lost theirs; it is equal to the tree because only a zero can
have one.
-/

set_option autoImplicit false

namespace Funlet

/-! ## Numbers -/

namespace Binary64

def Writable : Binary64 → Prop
  | .finite negative size => negative = true → size.units = 0
  | _ => False

def unsigned : Binary64 → Binary64
  | .finite _ size => .finite false size
  | other => other

theorem same_self {value : Binary64} (finite : value.isFinite = true) :
    value.same value = true := by
  cases value with
  | finite negative size => simp [same]
  | infinite negative => simp [isFinite] at finite
  | nan => simp [isFinite] at finite

theorem same_unsigned {x : Binary64} (writable : x.Writable) : x.same x.unsigned = true := by
  cases x with
  | finite negative size =>
    cases negative with
    | true => simp [unsigned, same, writable rfl]
    | false => simp [unsigned, same]
  | infinite negative => exact writable.elim
  | nan => exact writable.elim

theorem unsigned_eq_of_same {x y : Binary64} (same : x.same y = true) :
    x.unsigned = y.unsigned := by
  cases x with
  | finite negative size =>
    cases y with
    | finite negative' size' =>
      obtain ⟨units, _⟩ := Bool.and_eq_true_iff.mp same
      have sameSize : size = size' := by
        cases size
        cases size'
        simpa using units
      rw [unsigned, unsigned, sameSize]
    | _ => simp [Binary64.same] at same
  | infinite negative =>
    cases y with
    | infinite negative' => rw [beq_iff_eq.mp same]
    | _ => simp [Binary64.same] at same
  | nan => simp [Binary64.same] at same

/-- A number has a literal if and only if it is finite and not negative. -/
theorem exists_literal_iff {x : Binary64} : (∃ text, x.literal? = some text) ↔ x.Writable := by
  cases x with
  | finite negative size =>
    simp only [literal?, Writable]
    cases negative with
    | true =>
      by_cases zero : size.units = 0 <;> by_cases whole : size.isWhole <;> simp [zero, whole]
    | false => by_cases whole : size.isWhole <;> simp [whole]
  | infinite negative => simp [literal?, Writable]
  | nan => simp [literal?, Writable]

theorem exists_positional {x : Binary64} {text : String} (printed : x.literal? = some text) :
    ∃ negative size, x = .finite negative size ∧
      text = String.ofList size.written.positional := by
  cases x with
  | infinite negative => simp [literal?] at printed
  | nan => simp [literal?] at printed
  | finite negative size =>
    refine ⟨negative, size, rfl, ?_⟩
    simp only [literal?] at printed
    split at printed
    · simp at printed
    · split at printed
      · rename_i whole
        rw [Magnitude.written, if_pos whole, Decimal.positional_natural]
        exact (Option.some.inj printed).symm
      · rename_i broken
        rw [Magnitude.written, if_neg broken]
        exact (Option.some.inj printed).symm

theorem literal?_spells {x : Binary64} {text : String} (written : x.literal? = some text) :
    ∃ before after, text.toList = literalText before after ∧ before ≠ [] ∧
      (∀ c ∈ before, c.isDigit = true) ∧ (∀ c ∈ after, c.isDigit = true) ∧
      Numeral.readReal? text = some x.unsigned := by
  obtain ⟨negative, size, rfl, rfl⟩ := exists_positional written
  obtain ⟨before, after, shape, filled, beforeDigits, afterDigits, value⟩ :=
    size.written.spells_positional
  refine ⟨before, after, by simp [shape], filled, beforeDigits, afterDigits, ?_⟩
  rw [shape, Numeral.readReal?_literal beforeDigits afterDigits filled, value,
    size.nearest_written]
  rfl

end Binary64

/-! ## Trees -/

def Operator.known : List String :=
  Operator.comparison ++ (Operator.additive ++ Operator.multiplicative)

theorem Operator.exists_level_iff {operator : String} :
    (∃ level, Operator.level? operator = some level) ↔ operator ∈ Operator.known := by
  simp only [Operator.level?, Operator.known, List.mem_append, List.contains_eq_mem,
    decide_eq_true_eq]
  split
  · simp_all
  · split
    · simp_all
    · split <;> simp_all

namespace Expr

def Complete {Text : Type} : Expr Text → Prop
  | .number _ => True
  | .name _ => True
  | .binary _ left right => left.Complete ∧ right.Complete
  | .lambda _ body => body.Complete
  | .apply function argument => function.Complete ∧ argument.Complete
  | .letIn _ value body => value.Complete ∧ body.Complete
  | .ifThen condition thenBranch elseBranch =>
    condition.Complete ∧ thenBranch.Complete ∧ elseBranch.Complete
  | .hole => False

def Writable : Expr → Prop
  | .number value => value.Writable
  | .name text => Word.isName text.toList = true
  | .binary operator left right => operator ∈ Operator.known ∧ left.Writable ∧ right.Writable
  | .lambda parameter body => Word.isName parameter.toList = true ∧ body.Writable
  | .apply function argument => function.Writable ∧ argument.Writable
  | .letIn bound value body =>
    Word.isName bound.toList = true ∧ value.Writable ∧ body.Writable
  | .ifThen condition thenBranch elseBranch =>
    condition.Writable ∧ thenBranch.Writable ∧ elseBranch.Writable
  | .hole => False

def unsigned : Expr → Expr
  | .number value => .number value.unsigned
  | .name text => .name text
  | .binary operator left right => .binary operator left.unsigned right.unsigned
  | .lambda parameter body => .lambda parameter body.unsigned
  | .apply function argument => .apply function.unsigned argument.unsigned
  | .letIn bound value body => .letIn bound value.unsigned body.unsigned
  | .ifThen condition thenBranch elseBranch =>
    .ifThen condition.unsigned thenBranch.unsigned elseBranch.unsigned
  | .hole => .hole

@[simp]
theorem height_unsigned (tree : Expr) : tree.unsigned.height = tree.height := by
  induction tree <;> simp_all [unsigned, height]

/-- A tree that can be written is equal to the one that is written. -/
theorem same_unsigned {tree : Expr} (writable : tree.Writable) :
    tree.same tree.unsigned = true := by
  induction tree with
  | number value => exact Binary64.same_unsigned writable
  | hole => exact writable.elim
  | _ => simp_all [Writable, unsigned, same]

theorem unsigned_eq_of_same {tree other : Expr} (same : tree.same other = true) :
    tree.unsigned = other.unsigned := by
  fun_induction Expr.same tree other with
  | case1 value value' => rw [unsigned, unsigned, Binary64.unsigned_eq_of_same same]
  | case2 text text' => rw [beq_iff_eq.mp same]
  | case8 => cases same
  | _ => simp_all [unsigned]

theorem writtenName_eq_ok_iff {text written : String} :
    writtenName text = .ok written ↔ Word.isName text.toList = true ∧ text = written := by
  unfold writtenName
  split <;> simp_all

section Source

attribute [local simp] sourceAt

variable {required : Nat} {text : String}

theorem sourceAt_number_eq_ok_iff {value : Binary64} :
    (number value).sourceAt required = .ok text ↔
      ∃ literal, value.literal? = some literal ∧ placed required Level.atom literal = text := by
  cases written : value.literal? with
  | none => simp [sourceAt, Numeral.literal, Numeral.toReal?, written]
  | some literal => simp [sourceAt, Numeral.literal, Numeral.toReal?, written]

theorem sourceAt_name_eq_ok_iff {word : String} :
    (name word).sourceAt required = .ok text ↔
      Word.isName word.toList = true ∧ placed required Level.atom word = text := by
  simp only [sourceAt, Except.bind_eq_ok_iff, writtenName_eq_ok_iff, Except.pure_eq_ok_iff]
  grind

theorem sourceAt_binary_eq_ok_iff {operator : String} {left right : Expr} :
    (binary operator left right).sourceAt required = .ok text ↔
      ∃ level first second, Operator.level? operator = some level ∧
        left.sourceAt level = .ok first ∧ right.sourceAt (level + 1) = .ok second ∧
        placed required level (first ++ " " ++ operator ++ " " ++ second) = text := by
  cases known : Operator.level? operator with
  | none => simp [sourceAt, known]
  | some level =>
    simp only [sourceAt, known, Except.bind_eq_ok_iff, Except.pure_eq_ok_iff, Option.some.injEq]
    grind

theorem sourceAt_lambda_eq_ok_iff {parameter : String} {body : Expr} :
    (lambda parameter body).sourceAt required = .ok text ↔
      ∃ inside, body.sourceAt Level.expression = .ok inside ∧
        Word.isName parameter.toList = true ∧
        placed required Level.expression ("fun " ++ parameter ++ " -> " ++ inside) = text := by
  simp only [sourceAt, Except.bind_eq_ok_iff, writtenName_eq_ok_iff, Except.pure_eq_ok_iff]
  grind

theorem sourceAt_apply_eq_ok_iff {function argument : Expr} :
    (apply function argument).sourceAt required = .ok text ↔
      ∃ first second, function.sourceAt Level.application = .ok first ∧
        argument.sourceAt Level.atom = .ok second ∧
        placed required Level.application (first ++ " " ++ second) = text := by
  simp only [sourceAt, Except.bind_eq_ok_iff, Except.pure_eq_ok_iff]
  grind

theorem sourceAt_letIn_eq_ok_iff {bound : String} {value body : Expr} :
    (letIn bound value body).sourceAt required = .ok text ↔
      ∃ first second, value.sourceAt Level.expression = .ok first ∧
        body.sourceAt Level.expression = .ok second ∧ Word.isName bound.toList = true ∧
        placed required Level.expression
          ("let " ++ bound ++ " = " ++ first ++ " in " ++ second) = text := by
  simp only [sourceAt, Except.bind_eq_ok_iff, writtenName_eq_ok_iff, Except.pure_eq_ok_iff]
  grind

theorem sourceAt_ifThen_eq_ok_iff {condition thenBranch elseBranch : Expr} :
    (ifThen condition thenBranch elseBranch).sourceAt required = .ok text ↔
      ∃ first second third, condition.sourceAt Level.expression = .ok first ∧
        thenBranch.sourceAt Level.expression = .ok second ∧
        elseBranch.sourceAt Level.expression = .ok third ∧
        placed required Level.expression
          ("if " ++ first ++ " then " ++ second ++ " else " ++ third) = text := by
  simp only [sourceAt, Except.bind_eq_ok_iff, Except.pure_eq_ok_iff]
  grind

end Source

/-- A tree has a source at a place if and only if it can be written. -/
theorem exists_sourceAt_iff (tree : Expr) (required : Nat) :
    (∃ text, tree.sourceAt required = .ok text) ↔ tree.Writable := by
  induction tree generalizing required with
  | number value =>
    simp only [sourceAt_number_eq_ok_iff, Writable, ← Binary64.exists_literal_iff]
    grind
  | name text =>
    simp only [sourceAt_name_eq_ok_iff, Writable]
    grind
  | binary operator left right leftIh rightIh =>
    simp only [sourceAt_binary_eq_ok_iff, Writable, ← Operator.exists_level_iff]
    constructor
    · rintro ⟨text, level, first, second, known, leftWritten, rightWritten, _⟩
      exact ⟨⟨level, known⟩, (leftIh level).mp ⟨first, leftWritten⟩,
        (rightIh (level + 1)).mp ⟨second, rightWritten⟩⟩
    · rintro ⟨⟨level, known⟩, leftWritable, rightWritable⟩
      obtain ⟨first, leftWritten⟩ := (leftIh level).mpr leftWritable
      obtain ⟨second, rightWritten⟩ := (rightIh (level + 1)).mpr rightWritable
      exact ⟨_, level, first, second, known, leftWritten, rightWritten, rfl⟩
  | lambda parameter body bodyIh =>
    simp only [sourceAt_lambda_eq_ok_iff, Writable, ← bodyIh Level.expression]
    grind
  | apply function argument functionIh argumentIh =>
    simp only [sourceAt_apply_eq_ok_iff, Writable, ← functionIh Level.application,
      ← argumentIh Level.atom]
    grind
  | letIn bound value body valueIh bodyIh =>
    simp only [sourceAt_letIn_eq_ok_iff, Writable, ← valueIh Level.expression,
      ← bodyIh Level.expression]
    grind
  | ifThen condition thenBranch elseBranch conditionIh thenIh elseIh =>
    simp only [sourceAt_ifThen_eq_ok_iff, Writable, ← conditionIh Level.expression,
      ← thenIh Level.expression, ← elseIh Level.expression]
    grind
  | hole => simp [sourceAt, Writable]

theorem kind_of_writtenName_error {text : String} {cause : SourceError}
    (failed : writtenName text = .error cause) :
    (ReportError.source cause).kind = "ValueError" := by
  unfold writtenName at failed
  split at failed
  · simp at failed
  · obtain rfl := Except.error.inj failed
    rfl

/-- A complete tree that has no source is refused for a value without a text. -/
theorem kind_of_sourceAt_error {tree : Expr} (complete : tree.Complete) {required : Nat}
    {cause : SourceError} (failed : tree.sourceAt required = .error cause) :
    (ReportError.source cause).kind = "ValueError" := by
  induction tree generalizing required with
  | number value =>
    cases written : value.literal? with
    | none =>
      simp only [sourceAt, Numeral.literal, Numeral.toReal?, written] at failed
      obtain rfl := Except.error.inj failed
      rfl
    | some literal => simp [sourceAt, Numeral.literal, Numeral.toReal?, written] at failed
  | name text =>
    simp only [sourceAt, Except.bind_eq_error_iff, Except.pure_ne_error, and_false, exists_false,
      or_false] at failed
    exact kind_of_writtenName_error failed
  | binary operator left right leftIh rightIh =>
    cases known : Operator.level? operator with
    | none =>
      simp only [sourceAt, known] at failed
      obtain rfl := Except.error.inj failed
      rfl
    | some level =>
      simp only [sourceAt, known, Except.bind_eq_error_iff, Except.pure_ne_error, and_false,
        exists_false, or_false] at failed
      rcases failed with inLeft | ⟨_, _, inRight⟩
      · exact leftIh complete.1 inLeft
      · exact rightIh complete.2 inRight
  | lambda parameter body bodyIh =>
    simp only [sourceAt, Except.bind_eq_error_iff, Except.pure_ne_error, and_false, exists_false,
      or_false] at failed
    rcases failed with inBody | ⟨_, _, notName⟩
    · exact bodyIh complete inBody
    · exact kind_of_writtenName_error notName
  | apply function argument functionIh argumentIh =>
    simp only [sourceAt, Except.bind_eq_error_iff, Except.pure_ne_error, and_false, exists_false,
      or_false] at failed
    rcases failed with inFunction | ⟨_, _, inArgument⟩
    · exact functionIh complete.1 inFunction
    · exact argumentIh complete.2 inArgument
  | letIn bound value body valueIh bodyIh =>
    simp only [sourceAt, Except.bind_eq_error_iff, Except.pure_ne_error, and_false, exists_false,
      or_false] at failed
    rcases failed with inValue | ⟨_, _, inBody | ⟨_, _, notName⟩⟩
    · exact valueIh complete.1 inValue
    · exact bodyIh complete.2 inBody
    · exact kind_of_writtenName_error notName
  | ifThen condition thenBranch elseBranch conditionIh thenIh elseIh =>
    simp only [sourceAt, Except.bind_eq_error_iff, Except.pure_ne_error, and_false, exists_false,
      or_false] at failed
    rcases failed with inCondition | ⟨_, _, inThen | ⟨_, _, inElse⟩⟩
    · exact conditionIh complete.1 inCondition
    · exact thenIh complete.2.1 inThen
    · exact elseIh complete.2.2 inElse
  | hole => exact complete.elim

end Expr

end Funlet
