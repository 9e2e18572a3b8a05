import BatchRun.Proofs.Staging.Place
import BatchRun.Proofs.Text.Whole
import BatchRun.Uuid

/-!
# Workspaces Apart

No address on the way of clearing one workspace lies below another one, or below the
logs.

The key of a workspace is what the keys below its pipeline begin with, and the name
of its run. Names of runs are equally long and have no slash, so of two different
ones neither begins with the other, and nothing is below both workspaces. An address
that is made of a key below a workspace is below it or its own address, whatever
slashes the key ends with, so it is not below the other one either.

Logs lie in a directory beside the pipelines. What is below a workspace is in it only
if the first component of the pipeline is its name. A pipeline without a name leaves
the name of the run to be the first component, which is too long for that.

## Main definitions

* `Uuid.Shaped`: A name of the form that all names of runs have.
* `firstComponent`: What stands before the first slash.
* `ObjectUri.Holds`: An address is in the listing of another one.
* `ObjectUri.Reaches`: An address may be asked for when a place is cleared.

## Theorems

* `Uuid.shaped_text`, `Uuid.shaped_timed`: Names have that form.
* `ObjectUri.reaches_withKey`: An address that is made of a listed key.
* `Workspace.not_holds_of_reaches`: No such address is below another workspace.
* `Workspace.not_logs_of_reaches`: No such address is below the logs.
-/

namespace BatchRun

namespace Uuid

/-- A name of thirty-six characters, which are hexadecimal digits or hyphens. -/
structure Shaped (name : String) : Prop where
  length_eq : name.toList.length = 36
  plain : ∀ c ∈ name.toList, c = '-' ∨ (Hex.digitValue c).isSome = true

namespace Shaped

variable {name : String}

theorem slash_not_mem (h : Shaped name) : '/' ∉ name.toList := by
  intro hslash
  rcases h.plain '/' hslash with hhyphen | hdigit
  · exact absurd hhyphen (by decide)
  · exact absurd hdigit (by decide)

theorem ne_nil (h : Shaped name) : name.toList ≠ [] := by
  intro hnil
  have hlength := h.length_eq
  rw [hnil] at hlength
  exact absurd hlength (by decide)

/-- Trimming leaves a name as it is. -/
theorem trimSlashes_eq (h : Shaped name) : trimSlashes name.toList = name.toList :=
  trimSlashes_of_endsClear ⟨fun hhead => h.slash_not_mem (List.mem_of_mem_head? hhead),
    fun hlast => h.slash_not_mem (List.mem_of_getLast? hlast)⟩

end Shaped

theorem length_encode (bytes : Bytes) : (Hex.encode bytes).toList.length = 2 * bytes.length := by
  rw [Hex.encode, String.toList_ofList]
  induction bytes with
  | nil => rfl
  | cons b rest ih =>
      rw [List.flatMap_cons, List.length_append, ih, List.length_cons]
      simp only [List.length_cons, List.length_nil]
      omega

/-- Five parts of a name with hyphens between them. -/
theorem toList_hyphenated (a b c d e : String) :
    ("-".intercalate [a, b, c, d, e]).toList = a.toList ++ '-' :: (b.toList ++ '-' :: (c.toList ++
      '-' :: (d.toList ++ '-' :: e.toList))) := by
  rw [String.toList_intercalate]
  simp only [List.map_cons, List.map_nil, List.intercalate, List.intersperse]
  simp

/-- Five parts in hexadecimal digits make a name if they have thirty-two together. -/
theorem shaped_hyphenated {a b c d e : Bytes}
    (h : a.length + b.length + c.length + d.length + e.length = 16) :
    Shaped ("-".intercalate [Hex.encode a, Hex.encode b, Hex.encode c, Hex.encode d,
      Hex.encode e]) := by
  refine ⟨?_, fun character hmem => ?_⟩
  · -- Two digits for each of sixteen bytes, and four hyphens.
    rw [toList_hyphenated]
    simp only [List.length_append, List.length_cons, length_encode]
    omega
  · rw [toList_hyphenated] at hmem
    simp only [List.mem_append, List.mem_cons] at hmem
    rcases hmem with hmem | rfl | hmem | rfl | hmem | rfl | hmem | rfl | hmem
    all_goals first
      | exact Or.inl rfl
      | exact Or.inr (Hex.isSome_digitValue_of_mem_encode hmem)

/-- Sixteen bytes, which are cut into five parts, make a name. -/
theorem shaped_cut {bytes : Bytes} (h : bytes.length = 16) :
    Shaped ("-".intercalate [Hex.encode ((bytes.drop 0).take 4),
      Hex.encode ((bytes.drop 4).take 2), Hex.encode ((bytes.drop 6).take 2),
      Hex.encode ((bytes.drop 8).take 2), Hex.encode ((bytes.drop 10).take 6)]) := by
  refine shaped_hyphenated ?_
  simp only [List.length_take, List.length_drop, h]
  decide

/-- Every name has this form, whatever its kind and its bytes are. -/
theorem shaped_text (kind : UInt8) (bytes : Bytes) : Shaped (text kind bytes) := by
  unfold text
  refine shaped_cut ?_
  rw [List.length_map, List.length_range]

/-- So has the name for a moment. -/
theorem shaped_timed (millis : Nat) (bytes : Bytes) : Shaped (timed millis bytes) := by
  rw [timed]
  exact shaped_text 7 _

end Uuid

/-- What stands before the first slash. -/
def firstComponent (key : List Char) : List Char :=
  key.takeWhile (· ≠ '/')

theorem firstComponent_of_not_mem {key : List Char} (h : '/' ∉ key) : firstComponent key = key := by
  induction key with
  | nil => rfl
  | cons c rest ih =>
      rcases not_or.mp (mt List.mem_cons.mpr h) with ⟨hc, hrest⟩
      unfold firstComponent at ih ⊢
      rw [List.takeWhile_cons, if_pos (decide_eq_true (Ne.symm hc)), ih hrest]

/-- A slash ends the first component, whatever is behind it. -/
theorem firstComponent_append (front rest : List Char) :
    firstComponent (front ++ '/' :: rest) = firstComponent front := by
  induction front with
  | nil => rfl
  | cons c front ih =>
      unfold firstComponent at ih ⊢
      rw [List.cons_append, List.takeWhile_cons, List.takeWhile_cons]
      by_cases hc : c = '/'
      · rw [if_neg (by simp only [hc, ne_eq, not_true, decide_false, Bool.false_eq_true,
          not_false_eq_true]), if_neg (by simp only [hc, ne_eq, not_true, decide_false,
          Bool.false_eq_true, not_false_eq_true])]
      · rw [if_pos (decide_eq_true hc), if_pos (decide_eq_true hc), ih]

/-- A word with a slash behind it that begins a key is its first component. -/
theorem firstComponent_of_prefix {word key : List Char} (hword : '/' ∉ word)
    (h : word ++ ['/'] <+: key) : firstComponent key = word := by
  rcases h with ⟨rest, rfl⟩
  rw [List.append_assoc, List.singleton_append, firstComponent_append,
    firstComponent_of_not_mem hword]

namespace ObjectUri

/-- An address is in the listing of another one. -/
def Holds (place uri : ObjectUri) : Prop :=
  uri.bucket = place.bucket ∧ place.listing.toList <+: uri.key.toList

instance (place uri : ObjectUri) : Decidable (place.Holds uri) :=
  inferInstanceAs (Decidable (_ ∧ _))

/-- An address that may be asked for when a place is cleared: one below it, or its
    own. -/
def Reaches (root uri : ObjectUri) : Prop :=
  uri.bucket = root.bucket ∧
    (uri.key.toList = root.key.toList ∨ root.key.toList ++ ['/'] <+: uri.key.toList)

/-- An address that is made of a key below a place is one that may be asked for. -/
theorem reaches_withKey {root : ObjectUri} (hroot : root.Normal) (hne : root.key.toList ≠ [])
    {key : String} (hbelow : root.listing.toList <+: key.toList) :
    root.Reaches (root.withKey key) := by
  refine ⟨rfl, ?_⟩
  have hkey : (root.withKey key).key.toList = trimSlashes key.toList := by
    rw [withKey, make, String.toList_ofList]
  rw [hkey, ← listing_eq hne]
  exact trimSlashes_listing hroot hbelow

end ObjectUri

namespace Workspace

variable {base : ObjectUri} {pipeline first second : String}

/-- The key of a workspace: what the keys below its pipeline begin with, and the name
    of its run. -/
theorem key_root (hname : Uuid.Shaped first) (file : String) :
    (allocate base pipeline first file).root.key.toList =
      (base.join pipeline).listing.toList ++ first.toList := by
  have hne : trimSlashes first.toList ≠ [] := by
    rw [hname.trimSlashes_eq]
    exact hname.ne_nil
  rw [allocate, ObjectUri.key_join_eq _ hne, hname.trimSlashes_eq]

theorem key_root_ne_nil (hname : Uuid.Shaped first) (file : String) :
    (allocate base pipeline first file).root.key.toList ≠ [] := by
  rw [key_root hname]
  exact List.append_ne_nil_of_right_ne_nil _ hname.ne_nil

theorem normal_root (hbase : base.Normal) (runId file : String) :
    (allocate base pipeline runId file).root.Normal := by
  have hroot : ((base.join pipeline).join runId).Normal :=
    ObjectUri.normal_join (ObjectUri.normal_join hbase pipeline) runId
  simpa only [allocate] using hroot

/-- Nothing that may be asked for when a workspace is cleared is below another one of
    the same pipeline. -/
theorem not_holds_of_reaches (hfirst : Uuid.Shaped first) (hsecond : Uuid.Shaped second)
    (hne : first ≠ second) {file other : String} {uri : ObjectUri}
    (h : (allocate base pipeline first file).root.Reaches uri) :
    ¬ (allocate base pipeline second other).root.Holds uri := by
  rintro ⟨_, hbelow⟩
  rw [ObjectUri.listing_eq (key_root_ne_nil hsecond other), key_root hsecond] at hbelow
  have hlength : first.toList.length = second.toList.length :=
    hfirst.length_eq.trans hsecond.length_eq.symm
  rcases h.2 with hitself | hinside
  · -- The key of the workspace is too short to be below another one.
    rw [hitself, key_root hfirst] at hbelow
    have hshort := hbelow.length_le
    simp only [List.length_append, List.length_singleton] at hshort
    omega
  · -- What is below both begins with two different names of the same length.
    rw [key_root hfirst] at hinside
    have hsame := List.prefix_of_prefix_length_le hinside hbelow (by
      simp only [List.length_append, List.length_singleton]
      omega)
    have hequal := hsame.eq_of_length (by
      simp only [List.length_append, List.length_singleton]
      omega)
    have hnames := List.append_cancel_left (List.append_cancel_right hequal)
    exact hne (String.toList_inj.mp hnames)

/-- The first component of a workspace below the configured root is that of its
    pipeline, or the name of its run if the pipeline has none. -/
theorem key_root_behind (base : ObjectUri) (pipeline : String) (hname : Uuid.Shaped first)
    (file : String) :
    ∃ behind, (allocate base pipeline first file).root.key.toList =
        base.listing.toList ++ behind ∧
      (firstComponent behind = firstComponent (trimSlashes pipeline.toList) ∨
        firstComponent behind = first.toList) := by
  rw [key_root hname]
  by_cases hpipeline : trimSlashes pipeline.toList = []
  · -- A pipeline without a name has no directory of its own.
    refine ⟨first.toList, ?_, Or.inr (firstComponent_of_not_mem hname.slash_not_mem)⟩
    have hjoin : base.join pipeline = base := by
      rw [ObjectUri.join, hpipeline]
      rfl
    rw [hjoin]
  · refine ⟨trimSlashes pipeline.toList ++ '/' :: first.toList, ?_,
      Or.inl (firstComponent_append _ _)⟩
    have hkey := ObjectUri.key_join_eq base hpipeline
    have hne : (base.join pipeline).key.toList ≠ [] := by
      rw [hkey]
      exact List.append_ne_nil_of_right_ne_nil _ hpipeline
    rw [ObjectUri.listing_eq hne, hkey, List.append_assoc, List.append_assoc,
      List.singleton_append]

/-- Nothing that may be asked for when a workspace is cleared is below the logs, unless
    the first component of its pipeline is their name. -/
theorem not_logs_of_reaches (hname : Uuid.Shaped first)
    (hpipeline : firstComponent (trimSlashes pipeline.toList) ≠ "logs".toList) {file : String}
    {uri : ObjectUri} (h : (allocate base pipeline first file).root.Reaches uri) :
    ¬ (allocate base pipeline first file).logs.Holds uri := by
  rintro ⟨_, hbelow⟩
  have htrim : trimSlashes "logs".toList = "logs".toList := by decide +kernel
  have hkey : (allocate base pipeline first file).logs.key.toList =
      base.listing.toList ++ "logs".toList := by
    rw [allocate, ObjectUri.key_join_eq base (by rw [htrim]; decide), htrim]
  have hne : (allocate base pipeline first file).logs.key.toList ≠ [] := by
    rw [hkey]
    exact List.append_ne_nil_of_right_ne_nil _ (by decide)
  rw [ObjectUri.listing_eq hne, hkey, List.append_assoc] at hbelow
  rcases key_root_behind base pipeline hname file with ⟨behind, hroot, hcomponent⟩
  have hother : firstComponent behind ≠ "logs".toList := by
    rcases hcomponent with heq | heq
    · rw [heq]
      exact hpipeline
    · -- The name of a run is longer than that.
      rw [heq]
      intro hlogs
      have hlength := hname.length_eq
      rw [hlogs] at hlength
      exact absurd hlength (by decide)
  -- What is below the logs begins with their name and a slash behind the configured root.
  refine hother ?_
  rcases h.2 with hitself | ⟨rest, hinside⟩
  · rw [hitself, hroot] at hbelow
    exact firstComponent_of_prefix (by decide) ((List.prefix_append_right_inj _).mp hbelow)
  · rw [← hinside, hroot, List.append_assoc, List.append_assoc] at hbelow
    rw [← firstComponent_append behind rest]
    exact firstComponent_of_prefix (by decide) ((List.prefix_append_right_inj _).mp hbelow)

end Workspace

end BatchRun
