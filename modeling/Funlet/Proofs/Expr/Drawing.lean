import Funlet.Proofs.Expr.Addresses
import Funlet.Proofs.Expr.Labels
import Mathlib.Data.List.Forall2
import Mathlib.Data.List.Infix

/-!
# Text trees

A text tree has a line for each node, in the order in which a walk visits them.  Before the label of
a node stand as many columns of four characters as the node is deep: a bar or a blank for each of
its ancestors, the root aside, and a corner for itself, which tell where siblings come later.  The
lines determine the tree.
-/

set_option autoImplicit false

namespace Funlet

namespace Outline

def bar (later : Bool) : String := if later then "│   " else "    "

def corner (later : Bool) : String := if later then "├── " else "└── "

theorem length_bar (later : Bool) : (bar later).toList.length = 4 := by
  cases later <;> rfl

theorem length_corner (later : Bool) : (corner later).toList.length = 4 := by
  cases later <;> rfl

theorem newline_not_mem_bar (later : Bool) : '\n' ∉ (bar later).toList := by
  cases later <;> decide

theorem newline_not_mem_corner (later : Bool) : '\n' ∉ (corner later).toList := by
  cases later <;> decide

theorem drawChildren_cons (lead : String) (entry : Outline) (more : List Outline) :
    drawChildren lead (entry :: more) =
      entry.draw (lead ++ corner (!more.isEmpty)) (lead ++ bar (!more.isEmpty)) ++
        drawChildren lead more := by
  cases more with
  | nil => simp [drawChildren, corner, bar]
  | cons next more => simp [drawChildren, corner, bar]

end Outline

namespace Expr

open Outline (bar corner drawChildren_cons)

/-! ## What stands before a label -/

def hasLater (tree : Expr) (address : Address) : Bool :=
  match address.getLast? with
  | some i => (tree.node? (address.dropLast ++ [i + 1])).isSome
  | none => false

/-- What stands before the label of the node at an address: a column for each ancestor below the
root, the outermost first, and then the corner of the node; nothing before the root. -/
def lead (tree : Expr) (address : Address) : List Char :=
  if address = [] then []
  else
    address.inits.tail.dropLast.flatMap (fun ancestor => (bar (tree.hasLater ancestor)).toList) ++
      (corner (tree.hasLater address)).toList

theorem length_lead (tree : Expr) (address : Address) :
    (tree.lead address).length = 4 * address.length := by
  unfold lead
  split
  · simp_all
  · rename_i filled
    have deep := List.length_pos_iff.mpr filled
    simp only [List.length_append, List.length_flatMap, Outline.length_bar, Outline.length_corner,
      List.map_const', List.sum_replicate_nat, List.length_dropLast, List.length_tail,
      List.length_inits]
    omega

theorem newline_not_mem_lead (tree : Expr) (address : Address) : '\n' ∉ tree.lead address := by
  unfold lead
  split
  · exact List.not_mem_nil
  · rw [List.mem_append, List.mem_flatMap]
    rintro (⟨ancestor, _, inBar⟩ | inCorner)
    · exact Outline.newline_not_mem_bar _ inBar
    · exact Outline.newline_not_mem_corner _ inCorner

theorem hasLater_concat (tree : Expr) (parent : Address) (i : Nat) :
    tree.hasLater (parent ++ [i]) = (tree.node? (parent ++ [i + 1])).isSome := by
  simp [hasLater]

theorem hasLater_singleton (tree : Expr) (i : Nat) :
    tree.hasLater [i] = decide (i + 1 < tree.children.length) := by
  have next : tree.node? [i + 1] = tree.children[i + 1]? := by simp [node?]
  rw [← List.nil_append [i], hasLater_concat, List.nil_append, next, Bool.eq_iff_iff,
    decide_eq_true_iff]
  simp

section Below

variable {tree child : Expr} {i : Nat} (member : tree.children[i]? = some child)

include member

theorem hasLater_below {address : Address} (filled : address ≠ []) :
    tree.hasLater (i :: address) = child.hasLater address := by
  rcases List.eq_nil_or_concat address with empty | ⟨parent, last, rfl⟩
  · exact absurd empty filled
  · rw [List.concat_eq_append, ← List.cons_append, hasLater_concat, hasLater_concat,
      List.cons_append, node?_cons member]

theorem lead_below (address : Address) :
    tree.lead (i :: address) =
      if address = [] then (corner (tree.hasLater [i])).toList
      else (bar (tree.hasLater [i])).toList ++ child.lead address := by
  cases address with
  | nil => simp [lead]
  | cons j below =>
    have filled : j :: below ≠ [] := List.cons_ne_nil j below
    have ancestors : (i :: j :: below).inits.tail.dropLast =
        [i] :: (j :: below).inits.tail.dropLast.map (i :: ·) := by
      have reached : (below.inits.map (j :: ·)).map (i :: ·) ≠ [] := by
        simp [← List.length_eq_zero_iff]
      simp only [List.inits_cons, List.tail_cons, List.map_cons]
      rw [List.dropLast_cons_of_ne_nil reached, List.map_dropLast]
    have columns : ∀ ancestor ∈ (j :: below).inits.tail.dropLast,
        (bar (tree.hasLater (i :: ancestor))).toList = (bar (child.hasLater ancestor)).toList := by
      intro ancestor isAncestor
      have deep : ancestor ≠ [] := by
        rintro rfl
        simpa using List.mem_of_mem_dropLast isAncestor
      rw [hasLater_below member deep]
    rw [lead, if_neg (List.cons_ne_nil i _), if_neg filled, ancestors, List.flatMap_cons,
      List.flatMap_map, List.flatMap_congr columns, hasLater_below member filled, lead,
      if_neg filled, List.append_assoc]

end Below

/-! ## The lines of a drawing -/

/-- A line shows the node at an address in a drawing whose first line begins with `first` and whose
other lines begin with `margin`. -/
def Shows (tree : Expr) (first margin : String) (address : Address) (line : String) : Prop :=
  ∃ node label, tree.node? address = some node ∧ node.label = .ok label ∧
    line.toList =
      (if address = [] then first.toList else margin.toList ++ tree.lead address) ++ label.toList

theorem Shows.below {tree child : Expr} {i : Nat} (member : tree.children[i]? = some child)
    {margin line : String} {address : Address}
    (shown : child.Shows (margin ++ corner (tree.hasLater [i])) (margin ++ bar (tree.hasLater [i]))
      address line) (first : String) :
    tree.Shows first margin (i :: address) line := by
  obtain ⟨node, label, reached, labelled, written⟩ := shown
  refine ⟨node, label, (node?_cons member address).trans reached, labelled, ?_⟩
  rw [written, lead_below member, if_neg (List.cons_ne_nil i address)]
  by_cases root : address = []
  · simp [root]
  · simp [root]

/-- The subtrees of a node from some number on are drawn as the lines of the addresses below it. -/
theorem shows_drawChildren {tree : Expr} (first margin : String) {front children : List Expr}
    {entries : List Outline} (split : tree.children = front ++ children)
    (drawn : List.Forall₂ (fun child entry => child.outline = .ok entry) children entries)
    (ih : ∀ child ∈ children, ∀ entry first margin, child.outline = .ok entry →
      List.Forall₂ (child.Shows first margin) child.addresses (entry.draw first margin)) :
    List.Forall₂ (tree.Shows first margin)
      (addressesFrom front.length (children.map addresses))
      (Outline.drawChildren margin entries) := by
  induction drawn generalizing front with
  | nil => exact .nil
  | @cons child entry more moreEntries childDrawn moreDrawn moreIh =>
    have member : tree.children[front.length]? = some child := by simp [split]
    have later : (!moreEntries.isEmpty) = tree.hasLater [front.length] := by
      rw [hasLater_singleton, split]
      cases moreDrawn <;> simp
    have here := ih child List.mem_cons_self entry (margin ++ corner (!moreEntries.isEmpty))
      (margin ++ bar (!moreEntries.isEmpty)) childDrawn
    have moreSplit : tree.children = front ++ [child] ++ more := by simp [split]
    have rest := moreIh moreSplit fun other isMore => ih other (List.mem_cons_of_mem _ isMore)
    rw [List.length_append, List.length_singleton] at rest
    rw [List.map_cons, addressesFrom, drawChildren_cons]
    refine List.rel_append ?_ rest
    rw [List.forall₂_map_left_iff]
    refine here.imp fun address line shown => ?_
    rw [later] at shown
    exact shown.below member first

/-- A drawing shows the nodes of the tree in the order of their addresses. -/
theorem shows_draw (tree : Expr) (outline : Outline) (first margin : String)
    (drawn : tree.outline = .ok outline) :
    List.Forall₂ (tree.Shows first margin) tree.addresses (outline.draw first margin) := by
  induction tree using induction_children generalizing outline first margin with
  | step tree ih =>
    obtain ⟨entries, rfl, below⟩ := exists_entry drawn
    have split : tree.children = [] ++ tree.children := rfl
    have rest := shows_drawChildren first margin split below fun child isChild entry first margin =>
      ih child isChild entry first margin
    rw [addresses_eq_cons, Outline.draw]
    refine .cons ⟨tree, tree.heading, rfl, label_of_outline drawn, ?_⟩ rest
    rw [if_pos rfl, String.toList_append]
    rfl

/-! ## The text -/

theorem OneLine.node? {tree node : Expr} {address : Address} (oneLine : tree.OneLine)
    (reached : tree.node? address = some node) : node.OneLine := by
  induction address generalizing tree with
  | nil =>
    obtain rfl := Option.some.inj reached
    exact oneLine
  | cons i address ih =>
    obtain ⟨child, member, below⟩ := Option.bind_eq_some_iff.mp reached
    exact ih (oneLine.children child (List.mem_of_getElem? member)) below

theorem Shows.newline_not_mem {tree : Expr} {address : Address} {line : String}
    (shown : tree.Shows "" "" address line) (oneLine : tree.OneLine) : '\n' ∉ line.toList := by
  obtain ⟨node, label, reached, labelled, written⟩ := shown
  have plain := newline_not_mem_heading (oneLine.node? reached)
  rw [← eq_heading_of_label labelled] at plain
  rw [written, List.mem_append]
  rintro (inLead | inLabel)
  · split at inLead
    · exact List.not_mem_nil inLead
    · exact tree.newline_not_mem_lead address inLead
  · exact plain inLabel

theorem textTree_of_outline {tree : Expr} {outline : Outline} (drawn : tree.outline = .ok outline) :
    tree.textTree = .ok ("\n".intercalate (outline.draw "" "")) := by
  rw [textTree, drawn]
  rfl

theorem splitOn_textTree {tree : Expr} {outline : Outline} (oneLine : tree.OneLine)
    (drawn : tree.outline = .ok outline) :
    ("\n".intercalate (outline.draw "" "")).toList.splitOn '\n' =
      (outline.draw "" "").map String.toList := by
  have shown := tree.shows_draw outline "" "" drawn
  rw [String.toList_intercalate]
  refine List.splitOn_intercalate '\n' ?_ ?_
  · intro chars isLine
    obtain ⟨line, member, rfl⟩ := List.mem_map.mp isLine
    obtain ⟨i, bound, rfl⟩ := List.getElem_of_mem member
    exact (shown.get (shown.length_eq ▸ bound) bound).newline_not_mem oneLine
  · intro empty
    rw [List.map_eq_nil_iff.mp empty, addresses_eq_cons] at shown
    cases shown

/-- The text tree of a complete tree without line breaks has one line for each node that a walk
visits, in the same order.  The addresses of the nodes are told by their order and by being all of
them; the line of a node is its label behind four characters for each level of its depth. -/
theorem textTree_shows_walk {tree : Expr} (complete : tree.Complete) (oneLine : tree.OneLine) :
    ∃ text, tree.textTree = .ok text ∧
      (text.toList.splitOn '\n').length = tree.walk.length ∧
      tree.addresses.Pairwise (· < ·) ∧
      (∀ address, address ∈ tree.addresses ↔ (tree.node? address).isSome = true) ∧
      ∀ (i : Nat) (node : Expr), tree.walk[i]? = some node → ∃ address label,
        tree.addresses[i]? = some address ∧ tree.node? address = some node ∧
        node.label = .ok label ∧ (tree.lead address).length = 4 * address.length ∧
        (text.toList.splitOn '\n')[i]? = some (tree.lead address ++ label.toList) := by
  obtain ⟨outline, drawn⟩ := exists_outline complete
  have lines := splitOn_textTree oneLine drawn
  have shown := tree.shows_draw outline "" "" drawn
  have visited := tree.map_node?_addresses
  have many : tree.addresses.length = tree.walk.length := by
    simpa using congrArg List.length visited
  refine ⟨_, textTree_of_outline drawn, ?_, tree.pairwise_addresses, fun _ => mem_addresses_iff,
    ?_⟩
  · rw [lines, List.length_map, ← shown.length_eq, many]
  · intro i node atIndex
    obtain ⟨bound, _⟩ := List.getElem?_eq_some_iff.mp atIndex
    have inAddresses : i < tree.addresses.length := many ▸ bound
    have inLines : i < (outline.draw "" "").length := shown.length_eq ▸ inAddresses
    obtain ⟨shownNode, label, reached, labelled, written⟩ := shown.get inAddresses inLines
    have same := congrArg (·[i]?) visited
    simp only [List.getElem?_map, atIndex, List.getElem?_eq_getElem inAddresses,
      Option.map_some, Option.some.injEq] at same
    obtain rfl := Option.some.inj (same.symm.trans reached)
    refine ⟨tree.addresses[i], label, List.getElem?_eq_getElem inAddresses, reached, labelled,
      tree.length_lead _, ?_⟩
    rw [lines, List.getElem?_map, List.getElem?_eq_getElem inLines, Option.map_some]
    refine congrArg some (written.trans ?_)
    split
    · rename_i root
      rw [List.get_eq_getElem] at root
      simp [lead, root]
    · simp

theorem textTree_shows_walk_nested :
    ∃ text, (apply (.apply (.name "f") (.apply (.name "g") (.name "x"))) (.name "y")).textTree =
        .ok text ∧
      (text.toList.splitOn '\n').length = 7 ∧
      (text.toList.splitOn '\n')[4]? = some "│       ├── Variable (g)".toList := by
  have complete : (apply (.apply (.name "f") (.apply (.name "g") (.name "x")))
      (.name "y")).Complete := by simp [Complete]
  have oneLine : (apply (.apply (.name "f") (.apply (.name "g") (.name "x")))
      (.name "y")).OneLine := by simp
  have walked : (apply (.apply (.name "f") (.apply (.name "g") (.name "x"))) (.name "y")).walk[4]? =
      some (.name "g") := by cbv
  obtain ⟨text, made, many, _, _, lines⟩ := textTree_shows_walk complete oneLine
  obtain ⟨address, label, listed, _, labelled, _, line⟩ := lines 4 (.name "g") walked
  obtain rfl : [0, 1, 0] = address := Option.some.inj listed
  obtain rfl : "Variable (g)" = label := Except.ok.inj labelled
  exact ⟨text, made, many.trans (by cbv), line.trans (by decide)⟩

/-! ## Reading a drawing -/

structure Legible (tree : Expr) : Prop where
  complete : tree.Complete
  finite : tree.Finite
  oneLine : tree.OneLine

theorem Legible.children {tree : Expr} (legible : tree.Legible) :
    ∀ child ∈ tree.children, child.Legible := by
  intro child isChild
  exact {
    complete := legible.complete.children child isChild
    finite := legible.finite.children child isChild
    oneLine := legible.oneLine.children child isChild }

/-- What is drawn below two nodes tells whether their subtrees are equal, whatever follows. -/
theorem drawChildren_append_iff {children others : List Expr} {entries otherEntries : List Outline}
    (margin : String) (more otherMore : List String)
    (drawn : List.Forall₂ (fun child entry => child.outline = .ok entry) children entries)
    (otherDrawn : List.Forall₂ (fun child entry => child.outline = .ok entry) others otherEntries)
    (lengths : children.length = others.length)
    (ih : ∀ child ∈ children, ∀ other ∈ others, ∀ entry otherEntry first margin more otherMore,
      child.outline = .ok entry → other.outline = .ok otherEntry →
      (entry.draw first margin ++ more = otherEntry.draw first margin ++ otherMore ↔
        child.same other = true ∧ more = otherMore)) :
    Outline.drawChildren margin entries ++ more =
        Outline.drawChildren margin otherEntries ++ otherMore ↔
      List.Forall₂ (fun child other => child.same other = true) children others ∧
        more = otherMore := by
  induction drawn generalizing others otherEntries with
  | nil =>
    obtain rfl := List.length_eq_zero_iff.mp lengths.symm
    cases otherDrawn
    simp [Outline.drawChildren]
  | @cons child entry rest restEntries childDrawn restDrawn restIh =>
    cases otherDrawn with
    | nil => simp at lengths
    | @cons other otherEntry otherRest otherRestEntries otherChildDrawn otherRestDrawn =>
      have restLengths : rest.length = otherRest.length := Nat.succ.inj lengths
      have sameEnd : otherRestEntries.isEmpty = restEntries.isEmpty := by
        rw [restDrawn.length_eq, otherRestDrawn.length_eq] at restLengths
        rw [Bool.eq_iff_iff, List.isEmpty_iff_length_eq_zero, List.isEmpty_iff_length_eq_zero,
          restLengths]
      have here := ih child List.mem_cons_self other List.mem_cons_self entry otherEntry
      have below := restIh otherRestDrawn restLengths fun child isRest other isOtherRest =>
        ih child (List.mem_cons_of_mem _ isRest) other (List.mem_cons_of_mem _ isOtherRest)
      rw [drawChildren_cons, drawChildren_cons, sameEnd, List.append_assoc, List.append_assoc,
        here _ _ _ _ childDrawn otherChildDrawn, below, List.forall₂_cons, and_assoc]

/-- The first lines of a text tell the tree that is drawn in them. -/
theorem draw_append_iff {tree other : Expr} (legible : tree.Legible)
    (otherLegible : other.Legible) {outline otherOutline : Outline} (first margin : String)
    (more otherMore : List String) (drawn : tree.outline = .ok outline)
    (otherDrawn : other.outline = .ok otherOutline) :
    outline.draw first margin ++ more = otherOutline.draw first margin ++ otherMore ↔
      tree.same other = true ∧ more = otherMore := by
  induction tree using induction_children generalizing other outline otherOutline first margin more
    otherMore with
  | step tree ih =>
    obtain ⟨entries, rfl, below⟩ := exists_entry drawn
    obtain ⟨otherEntries, rfl, otherBelow⟩ := exists_entry otherDrawn
    have labels :
        first ++ tree.heading = first ++ other.heading ↔ tree.heading = other.heading := by simp
    rw [same_iff legible.complete legible.finite otherLegible.finite, Outline.draw, Outline.draw,
      List.cons_append, List.cons_append, List.cons.injEq, ← heading, ← heading, labels, and_assoc]
    refine and_congr_right fun sameHeading => ?_
    have lengths := length_children_of_tag (heading_eq_iff.mp sameHeading).1
    refine drawChildren_append_iff margin more otherMore below otherBelow lengths ?_
    intro child isChild otherChild isOtherChild entry otherEntry first margin more otherMore drawn
      otherDrawn
    exact ih child isChild (legible.children child isChild)
      (otherLegible.children otherChild isOtherChild) first margin more otherMore drawn otherDrawn

/-- Legible trees have text trees, and they have the same if and only if they are equal. -/
theorem textTree_eq_iff_same {tree other : Expr} (legible : tree.Legible)
    (otherLegible : other.Legible) :
    ∃ text otherText, tree.textTree = .ok text ∧ other.textTree = .ok otherText ∧
      (text = otherText ↔ tree.same other = true) := by
  obtain ⟨outline, drawn⟩ := exists_outline legible.complete
  obtain ⟨otherOutline, otherDrawn⟩ := exists_outline otherLegible.complete
  refine ⟨_, _, textTree_of_outline drawn, textTree_of_outline otherDrawn, ?_⟩
  have told := draw_append_iff legible otherLegible "" "" [] [] drawn otherDrawn
  simp only [List.append_nil, and_true] at told
  rw [← told]
  constructor
  · intro sameText
    have lines := splitOn_textTree legible.oneLine drawn
    rw [sameText, splitOn_textTree otherLegible.oneLine otherDrawn] at lines
    exact List.map_injective_iff.mpr (fun _ _ => String.toList_injective) lines.symm
  · intro sameLines
    rw [sameLines]

theorem textTree_eq_iff_same_grouping :
    ∃ text otherText,
      (apply (.apply (.name "f)") (.name "├── ")) (.name "x")).textTree = .ok text ∧
      (apply (.name "f)") (.apply (.name "├── ") (.name "x"))).textTree = .ok otherText ∧
      text ≠ otherText := by
  have legible : (apply (.apply (.name "f)") (.name "├── ")) (.name "x")).Legible :=
    ⟨by simp [Complete], by simp [Finite], by simp⟩
  have otherLegible : (apply (.name "f)") (.apply (.name "├── ") (.name "x"))).Legible :=
    ⟨by simp [Complete], by simp [Finite], by simp⟩
  obtain ⟨text, otherText, made, otherMade, told⟩ := textTree_eq_iff_same legible otherLegible
  exact ⟨text, otherText, made, otherMade, fun same => absurd (told.mp same) (by decide)⟩

end Expr

end Funlet
