import Funlet.Proofs.Expr.Addresses

/-!
# The turns of a walk

A walk keeps a stack of the trees that are still to be walked.  Each turn visits the tree on top and
puts its subtrees on the stack, the last one first, so that the first one is visited next.  The
nodes visited so far and those of the pending trees, from the top down, are at every turn the nodes
of the whole tree in pre-order; there is one pending node less after each turn, and so the walk ends
after as many turns as the tree has nodes.
-/

set_option autoImplicit false

namespace Funlet

namespace Expr

/-! ## Pre-order -/

theorem length_flatMap_preorder {trees : List Expr}
    (ih : ∀ tree ∈ trees, tree.preorder.length = tree.size) :
    (trees.flatMap preorder).length = sizeAll trees := by
  induction trees with
  | nil => rfl
  | cons tree rest restIh =>
    obtain ⟨here, later⟩ := List.forall_mem_cons.mp ih
    rw [List.flatMap_cons, List.length_append, here, restIh later, sizeAll]

theorem length_preorder (tree : Expr) : tree.preorder.length = tree.size := by
  induction tree using induction_children with
  | step tree ih =>
    rw [preorder_eq_cons, List.length_cons, length_flatMap_preorder ih, size_eq_children]

theorem walk_eq_preorder (tree : Expr) : tree.walk = tree.preorder := by
  rw [walk, walkAll_eq_flatMap_preorder, List.flatMap_singleton]

theorem walk_eq_cons (tree : Expr) : tree.walk = tree :: tree.children.flatMap walk := by
  have sameWalk : walk = preorder := funext walk_eq_preorder
  rw [sameWalk]
  exact preorder_eq_cons tree

theorem sizeAll_eq_zero_iff {trees : List Expr} : sizeAll trees = 0 ↔ trees = [] := by
  cases trees with
  | nil => simp [sizeAll]
  | cons tree rest => simp [sizeAll, size_eq_children]

theorem sizeAll_reverse (trees : List Expr) : sizeAll trees.reverse = sizeAll trees := by
  induction trees with
  | nil => rfl
  | cons tree rest ih =>
    rw [List.reverse_cons, sizeAll_append, ih, sizeAll, sizeAll, sizeAll]
    omega

/-! ## One turn -/

/-- Where a walk stands: the nodes visited so far, and the stack of the trees that are pending, with
its top at the end. -/
structure Visit where
  visited : List Expr
  stack : List Expr

namespace Visit

def start (tree : Expr) : Visit := ⟨[], [tree]⟩

/-- The tree on top of the stack is visited and gives way to its subtrees, the first one on top. -/
def step (visit : Visit) : Option Visit :=
  visit.stack.getLast?.map fun tree =>
    ⟨visit.visited ++ [tree], visit.stack.dropLast ++ tree.children.reverse⟩

def steps : Nat → Visit → Option Visit
  | 0, visit => some visit
  | turns + 1, visit => visit.step.bind (steps turns)

def course (visit : Visit) : List Expr :=
  visit.visited ++ visit.stack.reverse.flatMap preorder

theorem step_eq_none_iff {visit : Visit} : visit.step = none ↔ visit.stack = [] := by
  rw [step, Option.map_eq_none_iff, List.getLast?_eq_none_iff]

theorem step_eq_some_iff {visit next : Visit} :
    visit.step = some next ↔ ∃ below tree, visit.stack = below ++ [tree] ∧
      next = ⟨visit.visited ++ [tree], below ++ tree.children.reverse⟩ := by
  rw [step, Option.map_eq_some_iff]
  constructor
  · rintro ⟨tree, top, rfl⟩
    obtain ⟨below, split⟩ := List.getLast?_eq_some_iff.mp top
    exact ⟨below, tree, split, by rw [split, List.dropLast_concat]⟩
  · rintro ⟨below, tree, split, rfl⟩
    exact ⟨tree, by rw [split, List.getLast?_concat], by rw [split, List.dropLast_concat]⟩

/-- A turn moves one node from the pending ones to those visited, and its subtrees stay pending. -/
theorem course_of_step {visit next : Visit} (turn : visit.step = some next) :
    next.course = visit.course := by
  obtain ⟨below, tree, split, rfl⟩ := step_eq_some_iff.mp turn
  simp only [course, split, List.reverse_append, List.reverse_reverse, List.reverse_singleton,
    List.flatMap_append, List.flatMap_cons, preorder_eq_cons tree, List.append_assoc,
    List.cons_append, List.nil_append]

theorem sizeAll_of_step {visit next : Visit} (turn : visit.step = some next) :
    sizeAll visit.stack = sizeAll next.stack + 1 := by
  obtain ⟨below, tree, split, rfl⟩ := step_eq_some_iff.mp turn
  have pending := size_eq_children tree
  simp only [split, sizeAll_append, sizeAll_reverse, sizeAll]
  omega

/-! ## All turns -/

theorem exists_steps {visit : Visit} {turns : Nat} (pending : turns ≤ sizeAll visit.stack) :
    ∃ next, steps turns visit = some next ∧ next.course = visit.course ∧
      sizeAll visit.stack = sizeAll next.stack + turns := by
  induction turns generalizing visit with
  | zero => exact ⟨visit, rfl, rfl, rfl⟩
  | succ turns ih =>
    cases turn : visit.step with
    | none =>
      have empty := sizeAll_eq_zero_iff.mpr (step_eq_none_iff.mp turn)
      omega
    | some middle =>
      have fewer := sizeAll_of_step turn
      have enough : turns ≤ sizeAll middle.stack := by omega
      obtain ⟨next, later, kept, left⟩ := ih enough
      have taken : steps (turns + 1) visit = some next := by
        rw [steps, turn, Option.bind_some, later]
      exact ⟨next, taken, kept.trans (course_of_step turn), by omega⟩

/-- After a number of turns a walk has visited that many nodes of the tree, the first ones in
pre-order, and its stack is empty only after all of them. -/
theorem exists_steps_start {tree : Expr} {turns : Nat} (within : turns ≤ tree.size) :
    ∃ stack, steps turns (start tree) = some ⟨tree.walk.take turns, stack⟩ ∧
      sizeAll stack + turns = tree.size := by
  have whole : sizeAll (start tree).stack = tree.size := by simp [start, sizeAll]
  obtain ⟨⟨visited, stack⟩, taken, kept, left⟩ := exists_steps (whole.symm ▸ within)
  have split : tree.walk = visited ++ stack.reverse.flatMap preorder := by
    rw [walk_eq_preorder]
    simpa [course, start] using kept.symm
  have count : tree.size = visited.length + sizeAll stack := by
    rw [← length_preorder, ← walk_eq_preorder, split, List.length_append,
      length_flatMap_preorder fun tree _ => length_preorder tree, sizeAll_reverse]
  have turnsTaken : turns = visited.length := by
    dsimp only at left
    omega
  refine ⟨stack, ?_, by omega⟩
  rw [taken, split, turnsTaken, List.take_left]

end Visit

/-- A walk with a stack ends, for every tree, after as many turns as the tree has nodes, and has
then visited them in pre-order: the tree itself, and then each of its subtrees' own walks.  Before
that the stack is not empty, and what has been visited is the front of the walk.  The nodes are
visited in the order of their addresses, which are told apart by their order, so that each place in
the tree is visited once. -/
theorem walk_takes_one_turn_for_each_node (tree : Expr) :
    Visit.steps tree.size (.start tree) = some ⟨tree.walk, []⟩ ∧
    (∀ turns < tree.size, ∃ stack, stack ≠ [] ∧
      Visit.steps turns (.start tree) = some ⟨tree.walk.take turns, stack⟩) ∧
    tree.walk = tree.preorder ∧
    tree.walk = tree :: tree.children.flatMap walk ∧
    tree.addresses.map tree.node? = tree.walk.map some ∧
    tree.addresses.Pairwise (· < ·) ∧
    ∀ address, address ∈ tree.addresses ↔ (tree.node? address).isSome = true := by
  have finish : Visit.steps tree.size (.start tree) = some ⟨tree.walk, []⟩ := by
    obtain ⟨stack, taken, left⟩ := Visit.exists_steps_start (Nat.le_refl tree.size)
    have none : sizeAll stack = 0 := by omega
    obtain rfl := sizeAll_eq_zero_iff.mp none
    have all : tree.walk.take tree.size = tree.walk := by
      rw [← length_preorder, ← walk_eq_preorder, List.take_length]
    rw [taken, all]
  refine ⟨finish, ?_, walk_eq_preorder tree, walk_eq_cons tree, map_node?_addresses tree,
    pairwise_addresses tree, fun _ => mem_addresses_iff⟩
  intro turns before
  obtain ⟨stack, taken, left⟩ := Visit.exists_steps_start (Nat.le_of_lt before)
  refine ⟨stack, ?_, taken⟩
  rintro rfl
  rw [sizeAll] at left
  omega

end Expr

end Funlet
