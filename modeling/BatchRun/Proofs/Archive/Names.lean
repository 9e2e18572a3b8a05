import BatchRun.Proofs.Archive.Contents
import BatchRun.Proofs.Text.Ascii
import BatchRun.Proofs.Text.Lines
import BatchRun.Proofs.Text.Utf8
import Mathlib.Data.List.Nodup

/-!
# Names in an Archive

When the files of a project can be told apart by their names.

The name of an entry is read off the steps to its file, one step at a time, and a
slash is read nowhere but between two of them. So two files get one name exactly if
each step of the one is read as that of the other. What is text is read as itself,
and two such steps are never read alike. But whatever is no text is read with the
same sign for every fault, so of two names with different faults nothing is left that
tells them apart. A project with two such files has no archive, and nothing else
keeps a project from having one.

## Main definitions

* `FileNode.namesBelow`: All names below a node.
* `FileNode.IsNamed`: None of them has a slash.
* `FileNode.ToldApart`: The files of a project are read differently.

## Theorems

* `Utf8.ascii_mem_of_lossyChars`: A plain character is not read out of nowhere.
* `Utf8.encode_lossy`: What is text is read as itself.
* `FileNode.append_subset_namesBelow`: The steps to a file are names below its project.
* `Archive.entryName_inj`: When two files get one name.
* `Archive.exists_pair_of_repeated?`, `Archive.fault_of_ofNode`: What is complained about.
* `Archive.package_iff_toldApart`: Which projects have an archive.
-/

namespace BatchRun

namespace Utf8

/-- A plain character that is read leniently is among the bytes. -/
theorem ascii_mem_of_lossyChars {bytes : Bytes} {c : Char} (h : c ∈ lossyChars bytes)
    (hpos : 0 < c.toNat) (hascii : c.toNat < 0x80) : ∃ b ∈ bytes, c.toNat = b.toNat := by
  rcases List.mem_map.mp h with ⟨piece, hpiece, hshown⟩
  -- The sign for a fault is far beyond the plain characters, so it is none of them.
  have hsign : ¬ '\uFFFD'.toNat < 0x80 := by decide
  cases piece with
  | char other =>
      rw [Piece.shown] at hshown
      rw [hshown] at hpiece
      exact ascii_mem_of_decodeFrom (show Progress.between.BeyondAscii from trivial) hpiece hpos
        hascii
  | invalid size =>
      rw [Piece.shown] at hshown
      rw [← hshown] at hascii
      exact absurd hascii hsign
  | incomplete size =>
      rw [Piece.shown] at hshown
      rw [← hshown] at hascii
      exact absurd hascii hsign

/-- What is text is read as itself, and so written back. -/
theorem encode_lossy {bytes : Bytes} (h : (text? bytes).isSome = true) :
    encode (lossy bytes) = bytes := by
  rcases Option.isSome_iff_exists.mp h with ⟨text, htext⟩
  have hshown : (text.toList.map Piece.char).map Piece.shown = text.toList := by
    rw [List.map_map]
    exact List.map_id _
  have hread : lossy bytes = text := by
    rw [lossy, lossyChars, decode_of_text? htext, hshown, String.ofList_toList]
  rw [hread, encode, encodeChars_of_decode (decode_of_text? htext)]

end Utf8

namespace FileNode

mutual

/-- All names below a node. -/
def namesBelow : FileNode → List Path
  | file _ => []
  | link _ => []
  | folder entries => namesAmong entries

/-- The names of some entries, and all names below these. -/
def namesAmong : List (Path × FileNode) → List Path
  | [] => []
  | (name, node) :: rest => name :: (namesBelow node ++ namesAmong rest)

end

/-- No name below a node has a slash. -/
def IsNamed (node : FileNode) : Prop := ∀ name ∈ node.namesBelow, Path.slash ∉ name

instance (node : FileNode) : Decidable node.IsNamed :=
  inferInstanceAs (Decidable (∀ name ∈ node.namesBelow, Path.slash ∉ name))

/-- Any two files that are shipped are read differently at some step. -/
def ToldApart (node : FileNode) : Prop :=
  ∀ first second content other, node.Ships first content → node.Ships second other →
    first ≠ second → first.map Utf8.lossy ≠ second.map Utf8.lossy

/-- The names of an entry are among those of its folder. -/
theorem cons_subset_namesAmong {entries : List (Path × FileNode)} {name : Path} {node : FileNode}
    (h : entries.lookup name = some node) : name :: node.namesBelow ⊆ namesAmong entries := by
  induction entries with
  | nil => exact absurd h (by simp only [List.lookup_nil, reduceCtorEq, not_false_eq_true])
  | cons entry rest ih =>
      rcases entry with ⟨first, there⟩
      rw [List.lookup_cons] at h
      rw [namesAmong]
      -- The first entry of the name is found, and the names of the others are there too.
      by_cases hname : name = first
      · rw [beq_iff_eq.mpr hname] at h
        rw [hname, Option.some.inj h]
        exact List.cons_subset_cons first (List.subset_append_left _ _)
      · rw [beq_eq_false_iff_ne.mpr hname] at h
        exact fun other hother =>
          List.mem_cons_of_mem first (List.mem_append_right _ (ih h hother))

/-- The steps to something below a node, and the names below that, are names below
    the node. -/
theorem append_subset_namesBelow {node below : FileNode} {steps : List Path}
    (h : node.at? steps = some below) : steps ++ below.namesBelow ⊆ node.namesBelow := by
  induction steps generalizing node with
  | nil =>
      rw [Option.some.inj h]
      exact List.Subset.refl _
  | cons name more ih =>
      rcases folder_of_at?_cons h with ⟨entries, rfl⟩
      rw [at?, child?, Option.bind_eq_some_iff] at h
      rcases h with ⟨first, hfirst, h⟩
      exact List.Subset.trans (List.cons_subset_cons name (ih h)) (cons_subset_namesAmong hfirst)

/-- If a project is a single file, there is no other one. -/
theorem eq_nil_of_ships_nil {node : FileNode} {content other : Bytes} {steps : List Path}
    (h : node.Ships [] content) (hother : node.Ships steps other) : steps = [] := by
  have hfile : node = .file content := Option.some.inj h.1
  cases steps with
  | nil => rfl
  | cons name more =>
      rcases folder_of_at?_cons hother.1 with ⟨entries, hfolder⟩
      rw [hfile] at hfolder
      exact absurd hfolder (by simp only [reduceCtorEq, not_false_eq_true])

end FileNode

namespace Archive

/-- A name in which no step has a slash is cut into what was read at each step. -/
theorem splitOn_entryName {steps : List Path} (hne : steps ≠ [])
    (hslash : ∀ step ∈ steps, Path.slash ∉ step) :
    Text.splitOn '/' (entryName steps).toList = steps.map Utf8.lossyChars := by
  have hlist : (entryName steps).toList = Text.joinWith ['/'] (steps.map Utf8.lossyChars) := by
    rw [entryName, Text.toList_intercalate, List.map_map]
    congr 1
    exact List.map_congr_left fun step _ => String.toList_ofList
  rw [hlist]
  -- A slash that was read at some step would have been one of its bytes.
  refine Text.splitOn_joinWith (fun h => hne (List.map_eq_nil_iff.mp h)) fun piece hpiece hsep => ?_
  rcases List.mem_map.mp hpiece with ⟨step, hstep, rfl⟩
  rcases Utf8.ascii_mem_of_lossyChars hsep (by decide) (by decide) with ⟨b, hb, hcode⟩
  have hbyte : Path.slash = b := UInt8.toNat_inj.mp hcode
  exact hslash step hstep (hbyte ▸ hb)

/-- Two files get one name exactly if they are read alike step by step. -/
theorem entryName_inj {first second : List Path} (hfirst : first ≠ []) (hsecond : second ≠ [])
    (hslash : ∀ step ∈ first ++ second, Path.slash ∉ step) :
    entryName first = entryName second ↔ first.map Utf8.lossy = second.map Utf8.lossy := by
  constructor
  · intro hname
    have hchars : first.map Utf8.lossyChars = second.map Utf8.lossyChars := by
      rw [← splitOn_entryName hfirst fun step h => hslash step (List.mem_append_left _ h),
        ← splitOn_entryName hsecond fun step h => hslash step (List.mem_append_right _ h), hname]
    have htexts := congrArg (List.map String.ofList) hchars
    rw [List.map_map, List.map_map] at htexts
    exact htexts
  · intro hread
    rw [entryName, entryName, hread]

/-- A name that is refused was there before. -/
theorem sublist_of_repeated? {seen names : List String} {name : String}
    (h : repeated? seen names = some name) :
    (name ∈ seen ∧ name ∈ names) ∨ List.Sublist [name, name] names := by
  induction names generalizing seen with
  | nil => exact absurd h (by simp only [repeated?, reduceCtorEq, not_false_eq_true])
  | cons first rest ih =>
      rw [repeated?] at h
      by_cases hseen : seen.contains first = true
      · rw [if_pos hseen, Option.some.injEq] at h
        rw [← h]
        exact .inl ⟨List.contains_iff_mem.mp hseen, List.mem_cons_self⟩
      · rw [if_neg hseen] at h
        rcases ih h with ⟨hmem, hrest⟩ | htwice
        · rcases List.mem_cons.mp hmem with rfl | hmem
          · exact .inr ((List.singleton_sublist.mpr hrest).cons_cons name)
          · exact .inl ⟨hmem, List.mem_cons_of_mem first hrest⟩
        · exact .inr (htwice.cons first)

/-- Of some items with names, one has the name that is refused, and another one that
    stands before it. -/
theorem exists_pair_of_repeated? {α : Type} {items : List α} {f : α → String} {name : String}
    (h : repeated? [] (items.map f) = some name) :
    ∃ first second, List.Sublist [first, second] items ∧ f first = name ∧ f second = name := by
  rcases sublist_of_repeated? h with ⟨hmem, _⟩ | htwice
  · exact absurd hmem List.not_mem_nil
  · rcases List.sublist_map_iff.mp htwice with ⟨pair, hpair, hnames⟩
    rcases List.map_eq_cons_iff.mp hnames.symm with ⟨first, rest, rfl, hfirst, hrest⟩
    rcases List.map_eq_singleton_iff.mp hrest with ⟨second, rfl, hsecond⟩
    exact ⟨first, second, hpair, hfirst, hsecond⟩

/-- The only fault of a project that is found is a name of two files. -/
theorem fault_of_ofNode {node : FileNode} (h : node.Unambiguous) {fault : Fault}
    (hfault : ofNode node = .error fault) :
    ∃ first second content other, node.Ships first content ∧ node.Ships second other ∧
      first ≠ second ∧ entryName first = entryName second ∧
      fault = .duplicate (entryName first) := by
  rcases ofNode_cases node with ⟨_, hok⟩ | ⟨name, hrepeated, herror⟩
  · rw [hok] at hfault
    exact absurd hfault (by simp only [reduceCtorEq, not_false_eq_true])
  · rw [herror, Except.error.injEq] at hfault
    rw [entriesOf, List.map_map] at hrepeated
    rcases exists_pair_of_repeated? hrepeated with ⟨first, second, hpair, hfirst, hsecond⟩
    have hships : ∀ file ∈ [first, second], node.Ships file.1 file.2 := fun file hfile =>
      (FileNode.mem_filesBelow_iff h).mp (hpair.subset hfile)
    rw [List.forall_mem_cons, List.forall_mem_singleton] at hships
    -- The walk finds them in the strict order of their steps, so these are not the same.
    have hlt : first.1 < second.1 :=
      List.rel_of_pairwise_cons ((FileNode.pairwise_filesBelow h).sublist hpair) List.mem_cons_self
    have hne : first.1 ≠ second.1 := by
      intro hsame
      rw [hsame] at hlt
      exact List.lt_irrefl _ hlt
    have hname : fault = .duplicate (entryName first.1) := by
      rw [← hfault, ← hfirst]
      rfl
    exact ⟨first.1, second.1, first.2, second.2, hships.1, hships.2, hne,
      hfirst.trans hsecond.symm, hname⟩

variable {σ : Type} {tree : FileTree} {node : FileNode}

/-- Two files of a project have one name exactly if they are read alike. -/
theorem entryName_eq_iff (hnamed : node.IsNamed) {first second : List Path}
    {content other : Bytes} (hfirst : node.Ships first content) (hsecond : node.Ships second other)
    (hne : first ≠ second) :
    entryName first = entryName second ↔ first.map Utf8.lossy = second.map Utf8.lossy := by
  -- Only a file that is the whole project has no steps, and there is no other file then.
  have hfirst_ne : first ≠ [] := by
    rintro rfl
    exact hne (FileNode.eq_nil_of_ships_nil hfirst hsecond).symm
  have hsecond_ne : second ≠ [] := by
    rintro rfl
    exact hne (FileNode.eq_nil_of_ships_nil hsecond hfirst)
  refine entryName_inj hfirst_ne hsecond_ne fun step hstep => ?_
  rcases List.mem_append.mp hstep with hstep | hstep
  · have hbelow := FileNode.append_subset_namesBelow hfirst.1
    exact hnamed step (hbelow (List.mem_append_left _ hstep))
  · have hbelow := FileNode.append_subset_namesBelow hsecond.1
    exact hnamed step (hbelow (List.mem_append_left _ hstep))

/-- A project has an archive exactly if its files are told apart. -/
theorem ofNode_iff_toldApart (h : node.Unambiguous) (hnamed : node.IsNamed) :
    (∃ archive, ofNode node = .ok archive) ↔ node.ToldApart := by
  constructor
  · rintro ⟨archive, harchive⟩ first second content other hfirst hsecond hne hread
    rcases ofNode_eq_ok_iff.mp harchive with ⟨rfl, hnodup⟩
    rw [entriesOf, List.map_map] at hnodup
    have hinj := List.inj_on_of_nodup_map hnodup
      ((FileNode.mem_filesBelow_iff h).mpr hfirst) ((FileNode.mem_filesBelow_iff h).mpr hsecond)
    have hname : entryName first = entryName second := by rw [entryName, entryName, hread]
    exact hne (congrArg Prod.fst (hinj hname))
  · intro happart
    cases hresult : ofNode node with
    | ok archive => exact ⟨archive, rfl⟩
    | error fault =>
        rcases fault_of_ofNode h hresult with
          ⟨first, second, content, other, hfirst, hsecond, hne, hname, _⟩
        have hread := (entryName_eq_iff hnamed hfirst hsecond hne).mp hname
        exact absurd hread (happart first second content other hfirst hsecond hne)

/-- Files are told apart if all their names are text. -/
theorem toldApart_of_text (h : ∀ steps content, node.Ships steps content →
    ∀ name ∈ steps, (Utf8.text? name).isSome = true) : node.ToldApart := by
  intro first second content other hfirst hsecond hne hread
  have hback : ∀ steps bytes, node.Ships steps bytes →
      (steps.map Utf8.lossy).map Utf8.encode = steps := by
    intro steps bytes hships
    have hself := List.map_congr_left fun name hname =>
      Utf8.encode_lossy (h steps bytes hships name hname)
    rw [List.map_map]
    exact hself.trans (List.map_id _)
  refine hne ?_
  rw [← hback first content hfirst, hread, hback second other hsecond]

/-- Which projects have an archive, whatever the names in them are. A project that
    is found has one exactly if no two of its files are read alike step by step,
    which is so if all their names are text. Different files have different names in
    it then. Otherwise two of them have the name that is complained about. -/
theorem package_iff_toldApart (hnames : tree.root.Unambiguous) (hslash : tree.root.IsNamed)
    {root : Path} (hnode : tree.node root = .ok node) (session : Session σ) :
    ∃ result, Staging.package (tree.files : Files (Action σ)) root session =
        (some result, session) ∧
      ((∃ archive, result = .ok archive) ↔ node.ToldApart) ∧
      ((∀ steps content, node.Ships steps content →
          ∀ name ∈ steps, (Utf8.text? name).isSome = true) →
        ∃ archive, result = .ok archive) ∧
      (∀ archive, result = .ok archive → ∀ first second content other,
        node.Ships first content → node.Ships second other → first ≠ second →
        entryName first ≠ entryName second) ∧
      ∀ fault, result = .error fault → ∃ first second content other,
        node.Ships first content ∧ node.Ships second other ∧ first ≠ second ∧
        first.map Utf8.lossy = second.map Utf8.lossy ∧ fault = .duplicate (entryName first) := by
  rcases FileTree.at?_of_node hnode with ⟨names, hat⟩
  have hbelow : node.Unambiguous := hnames.at? hat
  have hnamed : node.IsNamed := fun name hname =>
    hslash name (FileNode.append_subset_namesBelow hat (List.mem_append_right names hname))
  have hiff := ofNode_iff_toldApart hbelow hnamed
  refine ⟨ofNode node, ?_, hiff, ?_, ?_, ?_⟩
  · rw [package_eq, hnode]
  · exact fun htext => hiff.mpr (toldApart_of_text htext)
  · intro archive harchive first second content other hfirst hsecond hne
    rw [Ne, entryName_eq_iff hnamed hfirst hsecond hne]
    exact hiff.mp ⟨archive, harchive⟩ first second content other hfirst hsecond hne
  · intro fault hfault
    rcases fault_of_ofNode hbelow hfault with
      ⟨first, second, content, other, hfirst, hsecond, hne, hname, rfl⟩
    have hread := (entryName_eq_iff hnamed hfirst hsecond hne).mp hname
    exact ⟨first, second, content, other, hfirst, hsecond, hne, hread, rfl⟩

/-- The names in a project need not be text for it to have an archive. Its files are
    told apart then. -/
theorem package_iff_toldApart_backwards :
    FileNode.ToldApart (.folder assorted.reverse) ∧ ∃ archive,
      Staging.package (backwards.files : Files (Action Unit)) (Utf8.encode "/.p")
        (Session.start () none) = (some (.ok archive), Session.start () none) := by
  have hslash : backwards.root.IsNamed := by decide +kernel
  rcases package_iff_toldApart unambiguous_backwards hslash node_backwards (Session.start () none)
    with ⟨result, hresult, hiff, _⟩
  have hpackage := package_eq backwards (Utf8.encode "/.p") (Session.start () none)
  rw [node_backwards] at hpackage
  simp only [ofNode_backwards] at hpackage
  rw [hpackage, Prod.mk.injEq, Option.some.injEq] at hresult
  exact ⟨hiff.mp ⟨_, hresult.1.symm⟩, _, hpackage⟩

/-- A file system with a project of two files, and the names of both are no text. -/
def mistakable : FileTree :=
  ⟨.folder [(Utf8.encode "p", .folder [([0xFE], .file [1]), ([0xFF], .file [2])])], []⟩

/-- This project is found and has no archive, as both names are read alike. -/
theorem package_mistakable :
    mistakable.root.Unambiguous ∧ mistakable.root.IsNamed ∧
      (∃ node, mistakable.node (Utf8.encode "/p") = .ok node) ∧
      Staging.package (mistakable.files : Files (Action Unit)) (Utf8.encode "/p")
          (Session.start () none) =
        (some (.error (.duplicate "\uFFFD")), Session.start () none) := by
  have hfind : mistakable.find false (Utf8.encode "/p") =
      .ok ([Utf8.encode "p"], .folder [([0xFE], .file [1]), ([0xFF], .file [2])]) :=
    FileTree.find_of_at? false (by decide +kernel) (by decide +kernel) (by decide +kernel) rfl rfl
  have hnode : mistakable.node (Utf8.encode "/p") =
      .ok (.folder [([0xFE], .file [1]), ([0xFF], .file [2])]) := by
    rw [FileTree.node, hfind]
    rfl
  have hfiles : FileNode.filesBelow (.folder [([0xFE], .file [1]), ([0xFF], .file [2])]) =
      [([[0xFE]], [1]), ([[0xFF]], [2])] := by
    rw [FileNode.filesBelow_folder, FileNode.mergeSort_eq (.refl _) (by decide +kernel)]
    rfl
  refine ⟨?_, ?_, ⟨_, hnode⟩, ?_⟩
  · simp only [mistakable, FileNode.unambiguous_folder_iff, FileNode.unambiguous_file,
      List.forall_mem_cons, List.not_mem_nil, false_implies, implies_true, and_true]
    decide +kernel
  · decide +kernel
  · have hrefused : ofNode (.folder [([0xFE], .file [1]), ([0xFF], .file [2])]) =
        .error (.duplicate "\uFFFD") := by
      rw [ofNode, hfiles]
      decide +kernel
    rw [package_eq, hnode]
    simp only [hrefused]

end Archive

end BatchRun
