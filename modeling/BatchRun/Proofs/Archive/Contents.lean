import BatchRun.Proofs.Files.Tree
import BatchRun.Proofs.Session.Action
import BatchRun.Staging

/-!
# Contents of an Archive

Which files an archive has, and in which order.

A walk through a project decides at each folder whether it goes in, and sorts the
entries of one folder at a time. Seen from the root, a file is shipped exactly if
none of the folders on the way to it is set apart, and the files come in the order
of their steps as a whole: two files part at some folder, where the entry of the one
stands before that of the other with everything below it. So neither the way through
the project nor the order in which a folder lists its entries shows in the archive.

A way to a file goes through folders only, so nothing is reached through a link.

## Main definitions

* `FileNode.IsApart`: The name of a folder that no run needs.
* `FileNode.Ships`: A file that belongs into an archive.

## Theorems

* `FileNode.ships_cons_iff`: When a file is shipped, one step at a time.
* `FileNode.mem_filesBelow_iff`: The walk finds what is shipped.
* `FileNode.pairwise_filesBelow`: It finds it in the order of the steps.
* `FileNode.filesBelow_eq`: The files alone decide what it finds.
* `Archive.ofNode_cases`, `Archive.ofNode_eq_ok_iff`: When a project has an archive, and which.
* `Archive.package_eq`: Packing reads what stands at the root.
* `Archive.contents_of_package`: What is in an archive, for every project.
-/

namespace BatchRun

namespace FileNode

/-- The name of a folder that no run needs: one that begins with a dot, or that of
    compiled code. -/
def IsApart (name : Path) : Prop :=
  name.head? = some 0x2E ∨ name = Utf8.encode "__pycache__"

instance (name : Path) : Decidable (IsApart name) := inferInstanceAs (Decidable (_ ∨ _))

/-- A file that belongs into an archive, with the steps to it. It is reached through
    folders, and none of those below the root is set apart. -/
def Ships (node : FileNode) (steps : List Path) (content : Bytes) : Prop :=
  node.at? steps = some (.file content) ∧ ∀ name ∈ steps.dropLast, ¬ IsApart name

/-- What is shipped of an entry of a folder, by the steps behind its name. -/
def filesUnder (entry : Path × FileNode) : List (List Path × Bytes) :=
  if entry.2.isFolder && isSkipped entry.1 then [] else filesBelow entry.2

/-- The same files by the steps from the folder on. -/
def filesOf (entry : Path × FileNode) : List (List Path × Bytes) :=
  (filesUnder entry).map fun file => (entry.1 :: file.1, file.2)

theorem isSkipped_iff (name : Path) : isSkipped name = true ↔ IsApart name := by
  simp only [isSkipped, IsApart, cacheName, Bool.or_eq_true, beq_iff_eq]

theorem filesAmong_eq (entries : List (Path × FileNode)) :
    filesAmong entries = entries.map fun entry => (entry.1, filesOf entry) := by
  induction entries with
  | nil => rw [filesAmong, List.map_nil]
  | cons entry rest ih => rw [filesAmong, ih, List.map_cons, filesOf, filesUnder]

/-- The files of a folder are those of its entries, in the order of their names. -/
theorem filesBelow_folder (entries : List (Path × FileNode)) :
    filesBelow (.folder entries) = (entries.mergeSort nameLe).flatMap filesOf := by
  -- Only the names count when entries are sorted, so the files may be found before or after.
  have hsort : (entries.map fun entry => (entry.1, filesOf entry)).mergeSort nameLe =
      (entries.mergeSort nameLe).map fun entry => (entry.1, filesOf entry) := by
    refine (List.map_mergeSort fun first _ second _ => ?_).symm
    rfl
  rw [filesBelow, filesAmong_eq, hsort, List.flatMap_map]

/-- What is found below a folder was found under one of its entries. -/
theorem mem_filesBelow_folder {entries : List (Path × FileNode)} {file : List Path × Bytes} :
    file ∈ filesBelow (.folder entries) ↔
      ∃ entry ∈ entries, ∃ rest ∈ filesUnder entry, (entry.1 :: rest.1, rest.2) = file := by
  simp only [filesBelow_folder, List.mem_flatMap, List.mem_mergeSort, filesOf, List.mem_map]

/-- A file in a folder is shipped if its entry is, and is not a folder that is set
    apart. -/
theorem ships_cons_iff {entries : List (Path × FileNode)} {name : Path} {steps : List Path}
    {content : Bytes} :
    Ships (.folder entries) (name :: steps) content ↔
      ∃ node, entries.lookup name = some node ∧ ¬ (node.isFolder = true ∧ IsApart name) ∧
        node.Ships steps content := by
  simp only [Ships, at?, child?, Option.bind_eq_some_iff]
  cases steps with
  | nil =>
      -- The entry is the file itself, so its name does not matter.
      simp only [List.dropLast_singleton, List.not_mem_nil, false_implies, implies_true, and_true,
        at?, List.dropLast_nil, Option.some.injEq]
      constructor
      · rintro ⟨node, hnode, rfl⟩
        exact ⟨_, hnode, fun hfolder => absurd hfolder.1 Bool.false_ne_true, rfl⟩
      · rintro ⟨node, hnode, _, hfile⟩
        exact ⟨node, hnode, hfile⟩
  | cons next more =>
      rw [List.dropLast_cons_of_ne_nil (List.cons_ne_nil _ _)]
      simp only [List.forall_mem_cons]
      constructor
      · rintro ⟨⟨node, hnode, hfile⟩, hname, hrest⟩
        exact ⟨node, hnode, fun hfolder => hname hfolder.2, hfile, hrest⟩
      · rintro ⟨node, hnode, hname, hfile, hrest⟩
        -- Something is below the entry, so it is a folder.
        rcases folder_of_at?_cons hfile with ⟨below, rfl⟩
        exact ⟨⟨_, hnode, hfile⟩, fun hapart => hname ⟨rfl, hapart⟩, hrest⟩

/-- The walk finds what is shipped, and nothing else. -/
theorem mem_filesBelow_iff {node : FileNode} (h : node.Unambiguous) {steps : List Path}
    {content : Bytes} : (steps, content) ∈ filesBelow node ↔ node.Ships steps content := by
  induction steps generalizing node with
  | nil =>
      cases node with
      | file other =>
          simp only [filesBelow, List.mem_singleton, Prod.mk.injEq, true_and, Ships, at?,
            Option.some.injEq, file.injEq, List.dropLast_nil, List.not_mem_nil, false_implies,
            implies_true, and_true, eq_comm]
      | link target =>
          simp only [filesBelow, List.not_mem_nil, Ships, at?, Option.some.injEq, reduceCtorEq,
            false_and]
      | folder entries =>
          rw [mem_filesBelow_folder]
          simp only [Prod.mk.injEq, reduceCtorEq, false_and, and_false, exists_false, Ships, at?,
            Option.some.injEq]
  | cons name steps ih =>
      cases node with
      | file other =>
          simp only [filesBelow, List.mem_singleton, Prod.mk.injEq, reduceCtorEq, false_and, Ships,
            at?, child?, Option.bind_none]
      | link target =>
          simp only [filesBelow, List.not_mem_nil, Ships, at?, child?, Option.bind_none,
            reduceCtorEq, false_and]
      | folder entries =>
          rw [mem_filesBelow_folder, ships_cons_iff]
          constructor
          · rintro ⟨⟨other, node⟩, hentry, ⟨rest, bytes⟩, hrest, hfile⟩
            rw [Prod.mk.injEq, List.cons.injEq] at hfile
            rcases hfile with ⟨⟨rfl, rfl⟩, rfl⟩
            rw [filesUnder] at hrest
            split at hrest
            · exact absurd hrest List.not_mem_nil
            · next hkept =>
              rw [Bool.and_eq_true, isSkipped_iff] at hkept
              exact ⟨node, (lookup_eq_some_iff h.names).mpr hentry, hkept,
                (ih (h.entry hentry)).mp hrest⟩
          · rintro ⟨node, hnode, hkept, hships⟩
            have hentry := (lookup_eq_some_iff h.names).mp hnode
            refine ⟨(name, node), hentry, (steps, content), ?_, rfl⟩
            rw [filesUnder, if_neg (by rwa [Bool.and_eq_true, isSkipped_iff])]
            exact (ih (h.entry hentry)).mpr hships

theorem nameLe_trans {α : Type} (a b c : Path × α) (hab : nameLe a b = true)
    (hbc : nameLe b c = true) : nameLe a c = true := by
  simp only [nameLe, Bool.not_eq_true', decide_eq_false_iff_not, List.not_lt] at hab hbc ⊢
  exact List.le_trans hab hbc

theorem nameLe_total {α : Type} (a b : Path × α) : (nameLe a b || nameLe b a) = true := by
  simp only [nameLe, Bool.or_eq_true, Bool.not_eq_true', decide_eq_false_iff_not, List.not_lt]
  exact List.le_total a.1 b.1

/-- Sorted entries of different names are in the strict order of their names. -/
theorem pairwise_mergeSort {entries : List (Path × FileNode)} (h : (entries.map (·.1)).Nodup) :
    (entries.mergeSort nameLe).Pairwise fun a b => a.1 < b.1 := by
  have hsorted := List.pairwise_mergeSort nameLe_trans nameLe_total entries
  have hnames : ((entries.mergeSort nameLe).map (·.1)).Nodup :=
    ((List.mergeSort_perm entries nameLe).map _).nodup_iff.mpr h
  rw [List.Nodup, List.pairwise_map] at hnames
  refine (hsorted.and hnames).imp fun hboth => ?_
  rcases hboth with ⟨hle, hne⟩
  simp only [nameLe, Bool.not_eq_true', decide_eq_false_iff_not] at hle
  exact Std.lt_of_le_of_ne hle hne

/-- Entries that are in this order already are the sorted ones. -/
theorem mergeSort_eq {entries sorted : List (Path × FileNode)} (hperm : entries.Perm sorted)
    (hsorted : sorted.Pairwise fun a b => a.1 < b.1) : entries.mergeSort nameLe = sorted := by
  have hnames : (sorted.map (·.1)).Nodup := by
    rw [List.Nodup, List.pairwise_map]
    refine hsorted.imp fun hlt heq => ?_
    rw [heq] at hlt
    exact List.lt_irrefl _ hlt
  have hentries := (hperm.map (·.1)).nodup_iff.mpr hnames
  refine List.Perm.eq_of_pairwise (fun _ _ _ _ hlt hgt => ?_) (pairwise_mergeSort hentries) hsorted
    ((List.mergeSort_perm entries nameLe).trans hperm)
  exact absurd hgt (List.lt_asymm hlt)

/-- The walk finds the files in the order of their steps, each of them once. -/
theorem pairwise_filesBelow {node : FileNode} (h : node.Unambiguous) :
    (filesBelow node).Pairwise fun first second => first.1 < second.1 := by
  induction node using forall_node with
  | file content => exact List.pairwise_singleton _ _
  | link target => exact List.Pairwise.nil
  | folder entries ih =>
      rw [filesBelow_folder, List.pairwise_flatMap]
      constructor
      · -- Two files of one entry are in the order in which they were found there.
        intro entry hentry
        have hmem := List.mem_mergeSort.mp hentry
        have hunder : (filesUnder entry).Pairwise fun first second => first.1 < second.1 := by
          rw [filesUnder]
          split
          · exact List.Pairwise.nil
          · exact ih entry hmem (h.entry hmem)
        rw [filesOf, List.pairwise_map]
        exact hunder.imp fun hlt => List.cons_lt_cons_iff.mpr (.inr ⟨rfl, hlt⟩)
      · -- Two files of different entries are in the order of these.
        refine (pairwise_mergeSort h.names).imp fun hlt first hfirst second hsecond => ?_
        rcases List.mem_map.mp hfirst with ⟨file, _, rfl⟩
        rcases List.mem_map.mp hsecond with ⟨other, _, rfl⟩
        exact List.cons_lt_cons_iff.mpr (.inl hlt)

/-- What is found depends on the files alone, and not on the order of the entries. -/
theorem filesBelow_eq {node other : FileNode} (h : node.Unambiguous) (hother : other.Unambiguous)
    (hsame : ∀ steps content,
      node.at? steps = some (.file content) ↔ other.at? steps = some (.file content)) :
    filesBelow node = filesBelow other := by
  have hships : ∀ file, file ∈ filesBelow node ↔ file ∈ filesBelow other := by
    rintro ⟨steps, content⟩
    rw [mem_filesBelow_iff h, mem_filesBelow_iff hother, Ships, Ships, hsame]
  -- A list in strict order is known by what is in it.
  have hnodup : ∀ {node : FileNode}, node.Unambiguous → (filesBelow node).Nodup := fun hnode =>
    (pairwise_filesBelow hnode).imp fun {first second} hlt heq => by
      rw [heq] at hlt
      exact List.lt_irrefl _ hlt
  refine List.Perm.eq_of_pairwise (fun first second _ _ hlt hgt => ?_) (pairwise_filesBelow h)
    (pairwise_filesBelow hother) ((List.perm_ext_iff_of_nodup (hnodup h) (hnodup hother)).mpr
      hships)
  exact absurd hgt (List.lt_asymm hlt)

end FileNode

namespace Archive

/-- No name occurs before if none occurs twice, or was seen already. -/
theorem repeated?_eq_none_iff {seen names : List String} :
    repeated? seen names = none ↔ names.Nodup ∧ ∀ name ∈ names, name ∉ seen := by
  induction names generalizing seen with
  | nil => simp only [repeated?, List.nodup_nil, List.not_mem_nil, false_implies, implies_true,
      and_self]
  | cons name rest ih =>
      rw [repeated?, List.nodup_cons, List.forall_mem_cons]
      by_cases hseen : name ∈ seen
      · rw [if_pos (List.contains_iff_mem.mpr hseen)]
        simp only [hseen, not_true_eq_false, false_and, and_false, reduceCtorEq]
      · rw [if_neg (fun h => hseen (List.contains_iff_mem.mp h)), ih]
        constructor
        · rintro ⟨hnodup, hrest⟩
          refine ⟨⟨fun hmem => hrest name hmem List.mem_cons_self, hnodup⟩, hseen, ?_⟩
          exact fun other hmem hother => hrest other hmem (List.mem_cons_of_mem _ hother)
        · rintro ⟨⟨hname, hnodup⟩, _, hrest⟩
          refine ⟨hnodup, fun other hmem hother => ?_⟩
          rcases List.mem_cons.mp hother with rfl | hother
          · exact hname hmem
          · exact hrest other hmem hother

/-- The entries for some files, in their order. -/
def entriesOf (files : List (List Path × Bytes)) : Archive :=
  files.map fun file => ⟨entryName file.1, file.2⟩

/-- A project has an archive of what the walk finds, unless a name is repeated. -/
theorem ofNode_cases (node : FileNode) :
    (repeated? [] ((entriesOf node.filesBelow).map (·.name)) = none ∧
        ofNode node = .ok (entriesOf node.filesBelow)) ∨
      ∃ name, repeated? [] ((entriesOf node.filesBelow).map (·.name)) = some name ∧
        ofNode node = .error (.duplicate name) := by
  generalize hresult : ofNode node = result
  simp only [ofNode] at hresult
  split at hresult
  · next name hrepeated => exact .inr ⟨name, hrepeated, hresult.symm⟩
  · next hnone => exact .inl ⟨hnone, hresult.symm⟩

/-- It has an archive exactly if all that the walk finds has different names. -/
theorem ofNode_eq_ok_iff {node : FileNode} {archive : Archive} :
    ofNode node = .ok archive ↔
      archive = entriesOf node.filesBelow ∧ (archive.map (·.name)).Nodup := by
  rcases ofNode_cases node with ⟨hnone, hok⟩ | ⟨name, hrepeated, herror⟩
  · have hnodup := (repeated?_eq_none_iff.mp hnone).1
    rw [hok, Except.ok.injEq]
    constructor
    · rintro rfl
      exact ⟨rfl, hnodup⟩
    · exact fun h => h.1.symm
  · rw [herror]
    simp only [reduceCtorEq, false_iff, not_and]
    rintro rfl hnodup
    have hnone := repeated?_eq_none_iff.mpr ⟨hnodup, fun _ _ => List.not_mem_nil⟩
    rw [hnone] at hrepeated
    exact absurd hrepeated (by simp only [reduceCtorEq, not_false_eq_true])

variable {σ : Type}

/-- Packing a project reads what stands at its root, and does nothing else. -/
theorem package_eq (tree : FileTree) (root : Path) (session : Session σ) :
    Staging.package (tree.files : Files (Action σ)) root session =
      (some (match tree.node root with
        | .error fault => .error (.unwalkable root fault)
        | .ok node => ofNode node), session) := by
  simp only [Staging.package, FileTree.files, pure_bind]
  cases tree.node root with
  | error fault => rfl
  | ok node => rfl

/-- What is in the archive of a project, whatever the project is. Its entries are
    the files that are shipped, each of them once and with its content, under its
    steps from the root on. They come in the order of these steps. Everything above
    a file is a folder, so none is reached through a link. A project with the same
    files at the same places has the same archive, in whichever order its folders
    list their entries. -/
theorem contents_of_package {tree : FileTree} (hnames : tree.root.Unambiguous) {root : Path}
    {archive : Archive} {session next : Session σ}
    (h : Staging.package (tree.files : Files (Action σ)) root session =
      (some (.ok archive), next)) :
    ∃ (node : FileNode) (files : List (List Path × Bytes)), tree.node root = .ok node ∧
      archive = files.map (fun file => ⟨"/".intercalate (file.1.map Utf8.lossy), file.2⟩) ∧
      (∀ steps content, (steps, content) ∈ files ↔ node.Ships steps content) ∧
      files.Pairwise (fun first second => first.1 < second.1) ∧
      (∀ file ∈ files, ∀ above, above <+: file.1 → above ≠ file.1 →
        ∃ entries, node.at? above = some (.folder entries)) ∧
      ∀ other : FileNode, other.Unambiguous →
        (∀ steps content, other.at? steps = some (.file content) ↔
          node.at? steps = some (.file content)) →
        ofNode other = .ok archive := by
  rw [package_eq, Prod.mk.injEq, Option.some.injEq] at h
  cases hnode : tree.node root with
  | error fault =>
      rw [hnode] at h
      exact absurd h.1 (by simp only [reduceCtorEq, not_false_eq_true])
  | ok node =>
      rw [hnode] at h
      rcases FileTree.at?_of_node hnode with ⟨names, hat⟩
      have hbelow : node.Unambiguous := hnames.at? hat
      rcases ofNode_eq_ok_iff.mp h.1 with ⟨harchive, hdifferent⟩
      have hships : ∀ steps content, (steps, content) ∈ node.filesBelow ↔
          node.Ships steps content := fun _ _ => FileNode.mem_filesBelow_iff hbelow
      refine ⟨node, node.filesBelow, rfl, harchive, hships,
        FileNode.pairwise_filesBelow hbelow, ?_, ?_⟩
      · intro file hfile above habove hne
        exact FileNode.folder_of_prefix ((hships _ _).mp hfile).1 habove hne
      · intro other hother hsame
        refine ofNode_eq_ok_iff.mpr ⟨?_, hdifferent⟩
        rw [harchive, FileNode.filesBelow_eq hother hbelow hsame]

/-- A folder with a hidden file, another one, and a folder with compiled code. -/
def library : FileNode :=
  .folder [(Utf8.encode ".env", .file [3]),
    (Utf8.encode "__pycache__", .folder [(Utf8.encode "z", .file [4])]),
    (Utf8.encode "z", .file [5])]

/-- The entries of a project in the order of their names. That of the folder begins
    the name of a file, and another name is no text. -/
def assorted : List (Path × FileNode) :=
  [(Utf8.encode ".git", .folder [(Utf8.encode "HEAD", .file [2])]),
    (Utf8.encode "a", library), (Utf8.encode "a-b", .file [6]),
    (Utf8.encode "link", .link (Utf8.encode "a")), ([0xFF], .file [1])]

/-- A file system with this project in a hidden folder that lists them backwards. -/
def backwards : FileTree :=
  ⟨.folder [(Utf8.encode ".p", .folder assorted.reverse)], []⟩

theorem unambiguous_backwards : backwards.root.Unambiguous := by
  simp only [backwards, assorted, library, FileNode.unambiguous_folder_iff,
    FileNode.unambiguous_file, FileNode.unambiguous_link, List.reverse_cons, List.reverse_nil,
    List.nil_append, List.cons_append, List.forall_mem_cons, List.not_mem_nil, false_implies,
    implies_true, and_true]
  decide +kernel

theorem filesBelow_library :
    library.filesBelow = [([Utf8.encode ".env"], [3]), ([Utf8.encode "z"], [5])] := by
  rw [library, FileNode.filesBelow_folder, FileNode.mergeSort_eq (.refl _) (by decide +kernel)]
  rfl

theorem ofNode_backwards :
    ofNode (.folder assorted.reverse) =
      .ok [⟨"a/.env", [3]⟩, ⟨"a/z", [5]⟩, ⟨"a-b", [6]⟩, ⟨"\uFFFD", [1]⟩] := by
  have hfolder : FileNode.filesOf (Utf8.encode "a", library) =
      [([Utf8.encode "a", Utf8.encode ".env"], [3]),
        ([Utf8.encode "a", Utf8.encode "z"], [5])] := by
    rw [FileNode.filesOf, FileNode.filesUnder, if_neg (by decide +kernel), filesBelow_library]
    rfl
  have hsorted : assorted.reverse.mergeSort FileNode.nameLe = assorted :=
    FileNode.mergeSort_eq (List.reverse_perm _) (by decide +kernel)
  rw [ofNode_eq_ok_iff, FileNode.filesBelow_folder, hsorted, assorted]
  simp only [List.flatMap_cons, hfolder]
  decide +kernel

theorem node_backwards : backwards.node (Utf8.encode "/.p") = .ok (.folder assorted.reverse) := by
  have hfind : backwards.find false (Utf8.encode "/.p") =
      .ok ([Utf8.encode ".p"], .folder assorted.reverse) :=
    FileTree.find_of_at? false (by decide +kernel) (by decide +kernel) (by decide +kernel) rfl rfl
  rw [FileTree.node, hfind]
  rfl

/-- The project is packed, and its archive has the four files that are shipped. -/
theorem contents_of_package_backwards :
    ∃ (archive : Archive) (node : FileNode) (files : List (List Path × Bytes)),
      Staging.package (backwards.files : Files (Action Unit)) (Utf8.encode "/.p")
          (Session.start () none) = (some (.ok archive), Session.start () none) ∧
      archive = [⟨"a/.env", [3]⟩, ⟨"a/z", [5]⟩, ⟨"a-b", [6]⟩, ⟨"\uFFFD", [1]⟩] ∧
      backwards.node (Utf8.encode "/.p") = .ok node ∧
      archive = files.map (fun file => ⟨"/".intercalate (file.1.map Utf8.lossy), file.2⟩) ∧
      ∀ steps content, (steps, content) ∈ files ↔ node.Ships steps content := by
  have hpackage := package_eq backwards (Utf8.encode "/.p") (Session.start () none)
  rw [node_backwards] at hpackage
  simp only [ofNode_backwards] at hpackage
  rcases contents_of_package unambiguous_backwards hpackage with
    ⟨node, files, hfound, harchive, hships, _⟩
  exact ⟨_, node, files, hpackage, rfl, hfound, harchive, hships⟩

end Archive

end BatchRun
