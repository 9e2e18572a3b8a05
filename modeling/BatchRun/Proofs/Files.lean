import BatchRun.Files.Tree

/-!
# Paths Without Links

Where a path leads that goes through folders only.

Most paths hold no link and no idle step. Such a path leads to what stands under
its names, so a question about it can be answered without following it.

## Main definitions

* `Path.IsName`: A step that names what is looked for.
* `FileNode.isLink`: A link.

## Theorems

* `FileNode.at?_append`: What stands below is reached in two parts.
* `FileTree.walk_of_at?`: Names that lead through folders.
* `FileTree.find_of_at?`: What stands at a path without links.
-/

namespace BatchRun

/-- A step that names what is looked for: no idle step, not the folder above, and
    not too long for a name. -/
def Path.IsName (step : Path) : Prop :=
  Path.isIdle step = false ∧ step ≠ Path.dots ∧ step.length ≤ FileTree.nameLimit

instance (step : Path) : Decidable step.IsName := inferInstanceAs (Decidable (_ ∧ _ ∧ _))

namespace FileNode

/-- Whether a node is a link. -/
def isLink : FileNode → Bool
  | link _ => true
  | _ => false

/-- What stands below a node is reached in two parts. -/
theorem at?_append (front back : List Path) (node : FileNode) :
    at? (front ++ back) node = (at? front node).bind (at? back) := by
  induction front generalizing node with
  | nil => rfl
  | cons name rest ih =>
      simp only [List.cons_append, at?]
      cases node.child? name with
      | none => rfl
      | some child => exact ih child

/-- Only a folder has anything below it. -/
theorem folder_of_at?_cons {name : Path} {names : List Path} {node found : FileNode}
    (h : at? (name :: names) node = some found) : ∃ entries, node = folder entries := by
  cases node with
  | folder entries => exact ⟨entries, rfl⟩
  | file content => exact absurd h (by simp only [at?, child?, Option.bind_none, reduceCtorEq,
      not_false_eq_true])
  | link target => exact absurd h (by simp only [at?, child?, Option.bind_none, reduceCtorEq,
      not_false_eq_true])

end FileNode

namespace FileTree

variable {tree : FileTree} {node : FileNode}

/-- Names that lead through folders to something that is no link lead there. -/
theorem walk_of_at? (last : Bool) (links : Nat) {place names : List Path}
    (hnames : ∀ name ∈ names, name.IsName)
    (hnode : tree.root.at? (place ++ names) = some node) (hlink : node.isLink = false) :
    tree.walk last links place names = .ok (place ++ names) := by
  induction names generalizing place with
  | nil => rw [walk, List.append_nil]
  | cons name rest ih =>
      rcases hnames name List.mem_cons_self with ⟨hidle, hdots, hlong⟩
      have hsplit : place ++ name :: rest = (place ++ [name]) ++ rest := by
        rw [List.append_assoc, List.singleton_append]
      rw [hsplit] at hnode ⊢
      have hrest := ih (fun other hmem => hnames other (List.mem_cons_of_mem _ hmem)) hnode
      rw [FileNode.at?_append, Option.bind_eq_some_iff] at hnode
      rcases hnode with ⟨first, hfirst, hnode⟩
      rw [walk, if_neg (by rw [hidle]; exact Bool.false_ne_true), if_neg hdots,
        if_neg (Nat.not_lt.mpr hlong), hfirst]
      -- What leads on is a folder, so a file can only be the last step, and a link none.
      cases first with
      | folder entries => exact hrest
      | file content =>
          cases rest with
          | nil => rw [List.append_nil, List.isEmpty_nil, if_pos rfl]
          | cons next more =>
              rcases FileNode.folder_of_at?_cons hnode with ⟨entries, hfolder⟩
              exact absurd hfolder (by simp only [reduceCtorEq, not_false_eq_true])
      | link target =>
          cases rest with
          | nil =>
              rw [← Option.some.inj hnode] at hlink
              exact absurd hlink (by simp only [FileNode.isLink, Bool.true_eq_false,
                not_false_eq_true])
          | cons next more =>
              rcases FileNode.folder_of_at?_cons hnode with ⟨entries, hfolder⟩
              exact absurd hfolder (by simp only [reduceCtorEq, not_false_eq_true])

/-- What stands at an absolute path that is written without idle steps and goes
    through folders only. -/
theorem find_of_at? (last : Bool) {path : Path} {names : List Path}
    (hsteps : Path.steps path = [] :: names) (hnames : ∀ name ∈ names, name.IsName)
    (hpath : path.contains 0 = false ∧ Path.isAbsolute path = true ∧ path.length < pathLimit)
    (hnode : tree.root.at? names = some node) (hlink : node.isLink = false) :
    tree.find last path = .ok (names, node) := by
  rcases hpath with ⟨hzero, habsolute, hlength⟩
  have hne : path.isEmpty = false := by
    cases path with
    | nil => exact absurd habsolute (by decide)
    | cons b rest => rfl
  have hlocate : tree.locate last path = .ok names := by
    rw [locate, hzero, hne, if_neg Bool.false_ne_true, if_neg Bool.false_ne_true,
      if_neg (Nat.not_le.mpr hlength), habsolute, if_pos rfl, hsteps, walk, if_pos (by decide)]
    exact walk_of_at? last linkLimit hnames hnode hlink
  rw [find, hlocate]
  simp only [Except.bind, hnode]

end FileTree

end BatchRun
