import Funlet.Proofs.Source.Writable

/-!
# The nodes of a tree

Walking a tree with a stack visits its nodes in pre-order, so what holds of every node can be proved
along the tree.  A node is sound if it has one of the seven forms and what it names, applies or
holds belongs to the language; a tree that can be written and whose numbers have no sign has only
sound nodes.
-/

set_option autoImplicit false

namespace Funlet

namespace Expr

/-! ## Walking -/

theorem preorder_eq_cons (tree : Expr) :
    tree.preorder = tree :: tree.children.flatMap preorder := by
  cases tree <;> simp [preorder, children]

theorem walkAll_eq_flatMap_preorder (pending : List Expr) :
    walkAll pending = pending.flatMap preorder := by
  fun_induction walkAll pending with
  | case1 => rfl
  | case2 tree pending ih =>
    rw [ih, List.flatMap_append, List.flatMap_cons, preorder_eq_cons tree, List.cons_append]

theorem mem_walk {tree node : Expr} : node ∈ tree.walk ↔ node ∈ tree.preorder := by
  rw [walk, walkAll_eq_flatMap_preorder]
  simp

/-! ## Sound nodes -/

/-- What a node itself holds belongs to the language: a name that is no keyword, an operator, or a
finite number without a sign. -/
def Sound : Expr → Prop
  | .number value => ∃ size, value = .finite false size
  | .name text => Word.isName text.toList = true
  | .binary operator _ _ => operator ∈ Operator.known
  | .lambda parameter _ => Word.isName parameter.toList = true
  | .apply _ _ => True
  | .letIn bound _ _ => Word.isName bound.toList = true
  | .ifThen _ _ _ => True
  | .hole => False

theorem sound_number {value : Binary64} (writable : value.Writable)
    (unsigned : value.unsigned = value) : (number value).Sound := by
  cases value with
  | finite negative size => exact ⟨size, unsigned.symm⟩
  | infinite negative => exact writable.elim
  | nan => exact writable.elim

theorem sound_of_mem_preorder {tree : Expr} (writable : tree.Writable)
    (unsigned : tree.unsigned = tree) : ∀ node ∈ tree.preorder, node.Sound := by
  induction tree with
  | number value =>
    simp only [preorder, List.mem_singleton, forall_eq]
    exact sound_number writable (number.inj unsigned)
  | name text =>
    simp only [preorder, List.mem_singleton, forall_eq]
    exact writable
  | binary operator left right leftIh rightIh =>
    obtain ⟨_, leftSame, rightSame⟩ := binary.inj unsigned
    simp only [preorder, List.forall_mem_cons, List.forall_mem_append]
    exact ⟨writable.1, leftIh writable.2.1 leftSame, rightIh writable.2.2 rightSame⟩
  | lambda parameter body bodyIh =>
    obtain ⟨_, bodySame⟩ := lambda.inj unsigned
    simp only [preorder, List.forall_mem_cons]
    exact ⟨writable.1, bodyIh writable.2 bodySame⟩
  | apply function argument functionIh argumentIh =>
    obtain ⟨functionSame, argumentSame⟩ := apply.inj unsigned
    simp only [preorder, List.forall_mem_cons, List.forall_mem_append]
    exact ⟨trivial, functionIh writable.1 functionSame, argumentIh writable.2 argumentSame⟩
  | letIn bound value body valueIh bodyIh =>
    obtain ⟨_, valueSame, bodySame⟩ := letIn.inj unsigned
    simp only [preorder, List.forall_mem_cons, List.forall_mem_append]
    exact ⟨writable.1, valueIh writable.2.1 valueSame, bodyIh writable.2.2 bodySame⟩
  | ifThen condition thenBranch elseBranch conditionIh thenIh elseIh =>
    obtain ⟨conditionSame, thenSame, elseSame⟩ := ifThen.inj unsigned
    simp only [preorder, List.forall_mem_cons, List.forall_mem_append]
    exact ⟨trivial, ⟨conditionIh writable.1 conditionSame, thenIh writable.2.1 thenSame⟩,
      elseIh writable.2.2 elseSame⟩
  | hole => exact writable.elim

end Expr

end Funlet
