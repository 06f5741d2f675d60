import Funlet.Proofs.Expr.Nodes

/-!
# Addresses of nodes

The address of a node tells which subtree is entered at each node on the way to it from the root.
Every address in a tree is listed once, in lexicographic order, and in this order a walk visits the
nodes.
-/

set_option autoImplicit false

namespace Funlet

/-- The numbers of the subtrees that are entered on the way from the root of a tree to a node. -/
abbrev Address := List Nat

namespace Expr

theorem induction_children {motive : Expr → Prop}
    (step : ∀ tree, (∀ child ∈ tree.children, motive child) → motive tree) (tree : Expr) :
    motive tree := by
  induction tree with
  | number value => exact step _ (by simp [children])
  | name text => exact step _ (by simp [children])
  | binary operator left right leftIh rightIh =>
    exact step _ (by simp [children, leftIh, rightIh])
  | lambda parameter body bodyIh => exact step _ (by simp [children, bodyIh])
  | apply function argument functionIh argumentIh =>
    exact step _ (by simp [children, functionIh, argumentIh])
  | letIn bound value body valueIh bodyIh => exact step _ (by simp [children, valueIh, bodyIh])
  | ifThen condition thenBranch elseBranch conditionIh thenIh elseIh =>
    exact step _ (by simp [children, conditionIh, thenIh, elseIh])
  | hole => exact step _ (by simp [children])

def node? (tree : Expr) : Address → Option Expr
  | [] => some tree
  | i :: address => tree.children[i]?.bind fun child => child.node? address

theorem node?_cons {tree child : Expr} {i : Nat} (member : tree.children[i]? = some child)
    (address : Address) : tree.node? (i :: address) = child.node? address := by
  rw [node?, member, Option.bind_some]

/-- The addresses below a node whose subtrees from the one with number `i` on have the addresses
given. -/
def addressesFrom (i : Nat) : List (List Address) → List Address
  | [] => []
  | inner :: more => inner.map (i :: ·) ++ addressesFrom (i + 1) more

def addresses : Expr → List Address
  | .number _ => [[]]
  | .name _ => [[]]
  | .binary _ left right => [] :: addressesFrom 0 [left.addresses, right.addresses]
  | .lambda _ body => [] :: addressesFrom 0 [body.addresses]
  | .apply function argument => [] :: addressesFrom 0 [function.addresses, argument.addresses]
  | .letIn _ value body => [] :: addressesFrom 0 [value.addresses, body.addresses]
  | .ifThen condition thenBranch elseBranch =>
    [] :: addressesFrom 0 [condition.addresses, thenBranch.addresses, elseBranch.addresses]
  | .hole => [[]]

theorem addresses_eq_cons (tree : Expr) :
    tree.addresses = [] :: addressesFrom 0 (tree.children.map addresses) := by
  cases tree <;> rfl

/-! ## All addresses -/

theorem mem_addressesFrom {i : Nat} {lists : List (List Address)} {address : Address} :
    address ∈ addressesFrom i lists ↔
      ∃ j inner below, lists[j]? = some inner ∧ below ∈ inner ∧ address = (i + j) :: below := by
  induction lists generalizing i with
  | nil => simp [addressesFrom]
  | cons first more ih =>
    rw [addressesFrom, List.mem_append, List.mem_map, ih]
    constructor
    · rintro (⟨below, member, rfl⟩ | ⟨j, inner, below, found, member, rfl⟩)
      · exact ⟨0, first, below, rfl, member, rfl⟩
      · exact ⟨j + 1, inner, below, found, member, by rw [Nat.add_right_comm, Nat.add_assoc]⟩
    · rintro ⟨j, inner, below, found, member, rfl⟩
      cases j with
      | zero =>
        obtain rfl := Option.some.inj found
        exact .inl ⟨below, member, rfl⟩
      | succ j =>
        exact .inr ⟨j, inner, below, found, member, by rw [Nat.add_right_comm, Nat.add_assoc]⟩

/-- The addresses listed are those at which the tree has a node. -/
theorem mem_addresses_iff {tree : Expr} {address : Address} :
    address ∈ tree.addresses ↔ (tree.node? address).isSome = true := by
  induction tree using induction_children generalizing address with
  | step tree ih =>
    rw [addresses_eq_cons, List.mem_cons, mem_addressesFrom]
    cases address with
    | nil => simp [node?]
    | cons i address =>
      simp only [List.cons_ne_nil, false_or, Nat.zero_add, List.getElem?_map,
        Option.map_eq_some_iff, List.cons.injEq]
      constructor
      · rintro ⟨_, _, _, ⟨child, found, rfl⟩, member, rfl, rfl⟩
        rw [node?_cons found]
        exact (ih child (List.mem_of_getElem? found)).mp member
      · intro reached
        cases found : tree.children[i]? with
        | none => simp [node?, found] at reached
        | some child =>
          rw [node?_cons found] at reached
          have member := (ih child (List.mem_of_getElem? found)).mpr reached
          exact ⟨i, _, address, ⟨child, found, rfl⟩, member, rfl, rfl⟩

/-! ## Their order -/

theorem pairwise_addressesFrom (i : Nat) {lists : List (List Address)}
    (sorted : ∀ inner ∈ lists, inner.Pairwise (· < ·)) :
    (addressesFrom i lists).Pairwise (· < ·) := by
  induction lists generalizing i with
  | nil => exact List.Pairwise.nil
  | cons first more ih =>
    obtain ⟨firstSorted, moreSorted⟩ := List.forall_mem_cons.mp sorted
    rw [addressesFrom, List.pairwise_append, List.pairwise_map]
    refine ⟨firstSorted.imp fun before => List.cons_lt_cons_iff.mpr (.inr ⟨rfl, before⟩),
      ih (i + 1) moreSorted, ?_⟩
    intro left inFirst right inMore
    obtain ⟨below, _, rfl⟩ := List.mem_map.mp inFirst
    obtain ⟨j, _, _, _, _, rfl⟩ := mem_addressesFrom.mp inMore
    exact List.cons_lt_cons_iff.mpr (.inl (by omega))

/-- The addresses are listed in lexicographic order, a node's before those below it. -/
theorem pairwise_addresses (tree : Expr) : tree.addresses.Pairwise (· < ·) := by
  induction tree using induction_children with
  | step tree ih =>
    rw [addresses_eq_cons, List.pairwise_cons]
    constructor
    · intro address member
      obtain ⟨_, _, _, _, _, rfl⟩ := mem_addressesFrom.mp member
      exact List.nil_lt_cons _ _
    · refine pairwise_addressesFrom 0 fun inner member => ?_
      obtain ⟨child, isChild, rfl⟩ := List.mem_map.mp member
      exact ih child isChild

/-! ## The nodes there -/

theorem map_node?_addressesFrom {tree : Expr} {front children : List Expr}
    (split : tree.children = front ++ children)
    (ih : ∀ child ∈ children, child.addresses.map child.node? = child.preorder.map some) :
    (addressesFrom front.length (children.map addresses)).map tree.node? =
      (children.flatMap preorder).map some := by
  induction children generalizing front with
  | nil => rfl
  | cons child more moreIh =>
    obtain ⟨here, later⟩ := List.forall_mem_cons.mp ih
    have member : tree.children[front.length]? = some child := by simp [split]
    have below : (fun address => tree.node? (front.length :: address)) = child.node? :=
      funext (node?_cons member)
    have moreSplit : tree.children = front ++ [child] ++ more := by simp [split]
    have rest := moreIh moreSplit later
    rw [List.length_append, List.length_singleton] at rest
    rw [List.map_cons, addressesFrom, List.map_append, List.map_map, rest, List.flatMap_cons,
      List.map_append, ← here, ← below]
    rfl

/-- A walk visits the nodes in the order of their addresses. -/
theorem map_node?_addresses (tree : Expr) :
    tree.addresses.map tree.node? = tree.walk.map some := by
  rw [walk, walkAll_eq_flatMap_preorder, List.flatMap_singleton]
  induction tree using induction_children with
  | step tree ih =>
    have split : tree.children = [] ++ tree.children := rfl
    have below := map_node?_addressesFrom split ih
    rw [addresses_eq_cons, preorder_eq_cons, List.map_cons, List.map_cons, ← below]
    rfl

end Expr

end Funlet
