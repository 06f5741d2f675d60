import Funlet.Command.FileTree
import Mathlib.Data.List.Basic

/-!
# Writing a file

A file that was written is read back as it was written, under the same path, and nothing else in the
tree has changed.  Paths lead only through folders, and writing neither removes nor replaces one nor
changes what may be done, so a path that led somewhere before leads there afterwards.
-/

set_option autoImplicit false

namespace Funlet.FileTree

/-- One file of a tree was written, a new one or in the place of an old one; all other nodes are as
they were. -/
structure Replaces (before after : FileTree) (path : String) (bytes : List UInt8) : Prop where
  read_eq : after.read path = .ok bytes
  home_eq : after.home = before.home
  limits_eq : after.limits = before.limits
  exists_way : ∃ way, after.node? way = some (.file bytes) ∧ before.node? way ≠ some .folder ∧
    ∀ other, other ≠ way → after.node? other = before.node? other

theorem find?_set (way other : List String) (node : FileNode)
    (nodes : List (List String × FileNode)) :
    (set way node nodes).find? (fun entry => entry.1 == other) =
      if other = way then some (way, node) else nodes.find? (fun entry => entry.1 == other) := by
  induction nodes with
  | nil =>
    by_cases same : other = way
    · simp [set, same]
    · simp [set, same, Ne.symm same]
  | cons first rest ih =>
    by_cases here : first.1 = way
    · by_cases same : other = way
      · simp [set, here, same]
      · simp [set, here, same, Ne.symm same]
    · by_cases hit : first.1 = other
      · have differs : other ≠ way := hit ▸ here
        simp [set, hit, differs]
      · simp [set, here, hit, ih]

theorem node?_set (tree : FileTree) (way other : List String) (node : FileNode) :
    node? { tree with nodes := set way node tree.nodes } other =
      if other = way then some node else tree.node? other := by
  simp only [node?, find?_set]
  by_cases same : other = way <;> simp [same]

structure KeepsFolders (before after : FileTree) : Prop where
  home_eq : after.home = before.home
  limits_eq : after.limits = before.limits
  folder_of_folder (way : List String) :
    before.node? way = some .folder → after.node? way = some .folder

theorem keepsFolders_set {tree : FileTree} {way : List String} (node : FileNode)
    (noFolder : tree.node? way ≠ some .folder) :
    KeepsFolders tree { tree with nodes := set way node tree.nodes } := by
  refine ⟨rfl, rfl, fun other isFolder => ?_⟩
  rw [node?_set, if_neg]
  · exact isFolder
  · rintro rfl
    exact noFolder isFolder

theorem access_of_limits_eq {before after : FileTree} (same : after.limits = before.limits) :
    after.access = before.access := by
  funext way
  rw [access, access, same]

section KeepsFolders

variable {before after : FileTree} (keeps : KeepsFolders before after)

include keeps

theorem follow_of_keepsFolders {path : String} {way steps : List String} {target : Target}
    (leads : before.follow path way steps = .ok target) :
    after.follow path way steps = .ok target := by
  have sameAccess := access_of_limits_eq keeps.limits_eq
  fun_induction follow before path way steps with
  | case1 => exact leads
  | case2 way rest ih => rw [follow, if_pos rfl]; exact ih leads
  | case3 => simp at leads
  | case4 way rest entered filled ih =>
    rw [follow, if_neg filled, sameAccess, if_neg entered, if_pos rfl]
    exact ih leads
  | case5 way rest entered filled noDot ih =>
    rw [follow, if_neg filled, sameAccess, if_neg entered, if_neg noDot, if_pos rfl]
    exact ih leads
  | case6 way step rest filled entered noDot noBack last =>
    rw [follow, if_neg filled, sameAccess, if_neg entered, if_neg noDot, if_neg noBack,
      if_pos last]
    exact leads
  | case7 => simp at leads
  | case8 way step rest filled entered noDot noBack notLast isFolder ih =>
    have kept : after.lookUp path way step = .ok (some .folder) := by
      simp only [lookUp] at isFolder ⊢
      split_ifs at isFolder ⊢
      exact congrArg Except.ok (keeps.folder_of_folder _ (Except.ok.inj isFolder))
    rw [follow, if_neg filled, sameAccess, if_neg entered, if_neg noDot, if_neg noBack,
      if_neg notLast, kept]
    exact ih leads
  | case9 => simp at leads
  | case10 => simp at leads

theorem locate_of_keepsFolders {path : String} {target : Target}
    (leads : before.locate path = .ok target) : after.locate path = .ok target := by
  unfold locate at leads ⊢
  split_ifs at leads ⊢
  rw [keeps.home_eq]
  split at leads
  · exact follow_of_keepsFolders keeps leads
  · exact follow_of_keepsFolders keeps leads

end KeepsFolders

theorem write_replaces {tree after : FileTree} {path : String} {bytes : List UInt8}
    (written : tree.write path bytes = .ok after) : Replaces tree after path bytes := by
  unfold write at written
  split at written
  · simp at written
  · simp at written
  · simp at written
  · rename_i way name leads
    split at written
    · simp at written
    · simp at written
    · rename_i found notFolder looked
      split_ifs at written with mayWrite
      obtain rfl := Except.ok.inj written
      have short : ¬ maxNameBytes < name.utf8ByteSize := by
        intro long
        simp [lookUp, long] at looked
      have noFolder : tree.node? (way ++ [name]) ≠ some .folder := by
        intro isFolder
        rw [lookUp, if_neg short, isFolder] at looked
        exact notFolder (Except.ok.inj looked).symm
      have keeps := keepsFolders_set (.file bytes) noFolder
      have same := locate_of_keepsFolders keeps leads
      have here : node? { tree with nodes := set (way ++ [name]) (.file bytes) tree.nodes }
          (way ++ [name]) = some (.file bytes) := by rw [node?_set, if_pos rfl]
      have readable : access { tree with nodes := set (way ++ [name]) (.file bytes) tree.nodes }
          (way ++ [name]) ≠ .none := by
        have writable : tree.access (way ++ [name]) = .write := by
          simp only [FileTree.mayWrite, Bool.and_eq_true, beq_iff_eq] at mayWrite
          exact mayWrite.1
        rw [access_of_limits_eq keeps.limits_eq, writable]
        decide
      refine ⟨?_, rfl, rfl, way ++ [name], here, noFolder, fun other differs => ?_⟩
      · rw [read, same]
        simp [lookUp, short, here, readable]
      · rw [node?_set, if_neg differs]

end Funlet.FileTree
