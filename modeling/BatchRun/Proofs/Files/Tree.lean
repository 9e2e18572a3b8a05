import BatchRun.Proofs.Files

/-!
# What Stands in a Tree

Which way leads to what is in a tree.

A folder is a list of entries, and a name leads to the first one that has it. A tree
in which no folder has two entries of one name therefore has one way to each of its
entries, in whichever order they are listed. A way goes through folders only: where a
file or a link is, nothing is below it.

Whatever is found at a path stands in the tree under some names, be it that links
were followed to get there.

## Main definitions

* `FileNode.Unambiguous`: No folder has two entries of one name.

## Theorems

* `FileNode.forall_node`: Induction over the entries of folders.
* `FileNode.lookup_eq_some_iff`: A name leads to every entry that has it.
* `FileNode.unambiguous_folder_iff`: When a folder is unambiguous.
* `FileNode.folder_of_prefix`: What stands above something.
* `FileTree.at?_of_find`, `FileTree.at?_of_node`: What is found stands in the tree.
-/

namespace BatchRun

namespace FileNode

/-- No folder has two entries of one name. -/
def Unambiguous (node : FileNode) : Prop :=
  ∀ steps entries, node.at? steps = some (.folder entries) → (entries.map (·.1)).Nodup

/-- Whatever holds of files and links, and of a folder if it holds of all its
    entries, holds of every node. -/
theorem forall_node {motive : FileNode → Prop} (file : ∀ content, motive (.file content))
    (link : ∀ target, motive (.link target))
    (folder : ∀ entries, (∀ entry ∈ entries, motive entry.2) → motive (.folder entries))
    (node : FileNode) : motive node :=
  -- A folder holds a list of pairs, and each of the three has a motive of its own.
  @FileNode.rec motive (fun entries => ∀ entry ∈ entries, motive entry.2)
    (fun entry => motive entry.2) file folder link
    (fun _ hno => absurd hno List.not_mem_nil)
    (fun _ _ hfirst hrest => List.forall_mem_cons.mpr ⟨hfirst, hrest⟩) (fun _ _ hnode => hnode) node

/-- A name leads to every entry that has it, if no two have. -/
theorem lookup_eq_some_iff {entries : List (Path × FileNode)} (h : (entries.map (·.1)).Nodup)
    {name : Path} {node : FileNode} :
    entries.lookup name = some node ↔ (name, node) ∈ entries := by
  induction entries with
  | nil => simp only [List.lookup_nil, reduceCtorEq, List.not_mem_nil]
  | cons entry rest ih =>
      rw [List.map_cons, List.nodup_cons] at h
      rcases entry with ⟨other, first⟩
      by_cases hsame : name = other
      · -- The entry at hand is the only one of its name.
        have hnot : (name, node) ∉ rest := fun hmem =>
          h.1 (List.mem_map.mpr ⟨(name, node), hmem, hsame⟩)
        rw [hsame, List.lookup_cons_self, List.mem_cons, Prod.mk.injEq, ← hsame, Option.some.injEq]
        simp only [hnot, or_false, true_and, eq_comm]
      · have hfirst : (name == other) = false := beq_eq_false_iff_ne.mpr hsame
        rw [List.lookup_cons, hfirst, List.mem_cons, Prod.mk.injEq, ih h.2]
        simp only [hsame, false_and, false_or]

namespace Unambiguous

variable {node below : FileNode}

/-- So it is in everything below. -/
theorem at? {steps : List Path} (h : node.Unambiguous)
    (hbelow : node.at? steps = some below) : below.Unambiguous := by
  intro more entries hentries
  refine h (steps ++ more) entries ?_
  rw [at?_append, hbelow, Option.bind_some, hentries]

theorem names {entries : List (Path × FileNode)} (h : Unambiguous (.folder entries)) :
    (entries.map (·.1)).Nodup :=
  h [] entries rfl

theorem entry {entries : List (Path × FileNode)} (h : Unambiguous (.folder entries))
    {entry : Path × FileNode} (hmem : entry ∈ entries) : entry.2.Unambiguous := by
  -- Its name leads to the entry itself, as no other one has it.
  have hlookup : entries.lookup entry.1 = some entry.2 := (lookup_eq_some_iff h.names).mpr hmem
  have hat : (FileNode.folder entries).at? [entry.1] = some entry.2 := by
    rw [FileNode.at?, child?, hlookup]
    rfl
  exact h.at? hat

end Unambiguous

theorem unambiguous_file (content : Bytes) : Unambiguous (.file content) := by
  intro steps entries h
  cases steps with
  | nil => exact absurd h (by simp only [at?, Option.some.injEq, reduceCtorEq, not_false_eq_true])
  | cons name more => exact absurd h (by simp only [at?, child?, Option.bind_none, reduceCtorEq,
      not_false_eq_true])

theorem unambiguous_link (target : Path) : Unambiguous (.link target) := by
  intro steps entries h
  cases steps with
  | nil => exact absurd h (by simp only [at?, Option.some.injEq, reduceCtorEq, not_false_eq_true])
  | cons name more => exact absurd h (by simp only [at?, child?, Option.bind_none, reduceCtorEq,
      not_false_eq_true])

/-- A folder is unambiguous if its entries are, and have different names. -/
theorem unambiguous_folder_iff {entries : List (Path × FileNode)} :
    Unambiguous (.folder entries) ↔
      (entries.map (·.1)).Nodup ∧ ∀ entry ∈ entries, entry.2.Unambiguous := by
  refine ⟨fun h => ⟨h.names, fun entry => h.entry⟩, fun h steps below hat => ?_⟩
  cases steps with
  | nil =>
      rw [at?, Option.some.injEq, folder.injEq] at hat
      rw [← hat]
      exact h.1
  | cons name more =>
      rw [at?, child?, Option.bind_eq_some_iff] at hat
      rcases hat with ⟨node, hnode, hbelow⟩
      exact h.2 _ ((lookup_eq_some_iff h.1).mp hnode) more below hbelow

/-- What stands above something is a folder. -/
theorem folder_of_prefix {node found : FileNode} {above steps : List Path}
    (h : node.at? steps = some found) (habove : above <+: steps) (hne : above ≠ steps) :
    ∃ entries, node.at? above = some (.folder entries) := by
  rcases habove with ⟨rest, rfl⟩
  rw [at?_append, Option.bind_eq_some_iff] at h
  rcases h with ⟨place, hplace, h⟩
  cases rest with
  | nil => exact absurd (List.append_nil above).symm hne
  | cons name more =>
      rcases folder_of_at?_cons h with ⟨entries, rfl⟩
      exact ⟨entries, hplace⟩

end FileNode

namespace FileTree

variable {tree : FileTree} {path : Path}

/-- Whatever is found stands under the names to which its path leads. -/
theorem at?_of_find {last : Bool} {names : List Path} {node : FileNode}
    (h : tree.find last path = .ok (names, node)) : tree.root.at? names = some node := by
  unfold find at h
  cases hplace : tree.locate last path with
  | error fault =>
      rw [hplace] at h
      exact nomatch h
  | ok place =>
      cases hnode : tree.root.at? place with
      | none => simp only [hplace, Except.bind, hnode, reduceCtorEq] at h
      | some there =>
          simp only [hplace, Except.bind, hnode, Except.ok.injEq, Prod.mk.injEq] at h
          rw [← h.1, ← h.2]
          exact hnode

/-- So does a node, be it a folder to which a link leads. -/
theorem at?_of_node {node : FileNode} (h : tree.node path = .ok node) :
    ∃ names, tree.root.at? names = some node := by
  unfold FileTree.node at h
  cases hfirst : tree.find false path with
  | error fault =>
      rw [hfirst] at h
      exact nomatch h
  | ok first =>
      rcases first with ⟨names, there⟩
      rw [hfirst] at h
      cases there with
      | file content => exact ⟨names, by rw [at?_of_find hfirst, Except.ok.inj h]⟩
      | folder entries => exact ⟨names, by rw [at?_of_find hfirst, Except.ok.inj h]⟩
      | link target =>
          -- Where the link leads counts only if that is a folder.
          cases hlast : tree.find true path with
          | error fault => simp only [Except.bind, hlast, Except.map, reduceCtorEq] at h
          | ok last =>
              rcases last with ⟨further, reached⟩
              simp only [Except.bind, hlast, Except.map, Except.ok.injEq] at h
              cases reached with
              | folder entries => exact ⟨further, (at?_of_find hlast).trans (congrArg some h)⟩
              | file content => exact ⟨names, (at?_of_find hfirst).trans (congrArg some h)⟩
              | link other => exact ⟨names, (at?_of_find hfirst).trans (congrArg some h)⟩

end FileTree

end BatchRun
