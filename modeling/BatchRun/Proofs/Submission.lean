import BatchRun.Proofs.Text.Words
import BatchRun.Submission

/-!
# Flags of a Submission

What the service makes of the flags of a run.

The flags are one text, which the service reads at white space. A setting, that
is a name with its value, follows `--conf` and is not quoted, so a value with
white space in it is read as several words, and one of these may be a flag of its
own. The context of a workspace is such a value, and its key may hold blanks. The
flags are read as they were meant exactly if no setting holds white space.

## Main definitions

* `Table.IsAscending`: A table in the order of its names.
* `Submission.settings`: The settings that a run is to have.
* `Submission.words`: The flags as the service reads them.
* `Submission.intended`: The flags as they are meant.

## Theorems

* `Table.isAscending_ofList`: The table of some pairs is in order.
* `flagList_eq`: The flags are the configured ones and one for each setting.
* `words_build`: What is read of each setting.
* `flags_of_build`: The flags, when there are any, and when they are read as
  they are meant.
-/

namespace BatchRun

namespace Table

variable {α : Type}

/-- A table whose names ascend, so that each is there once. -/
def IsAscending (table : Table String α) : Prop := table.Pairwise fun a b => a.1 < b.1

theorem mem_put {key : String} {value : α} {table : Table String α} {entry : String × α}
    (h : entry ∈ table.put key value) : entry = (key, value) ∨ entry ∈ table := by
  induction table with
  | nil => exact .inl (List.mem_singleton.mp h)
  | cons first rest ih =>
      rw [put] at h
      split at h
      · exact (List.mem_cons.mp h).imp id (List.mem_cons_of_mem first)
      · split at h
        · exact List.mem_cons.mp h
        · rcases List.mem_cons.mp h with rfl | h
          · exact .inr List.mem_cons_self
          · exact (ih h).imp id (List.mem_cons_of_mem first)

theorem IsAscending.put {table : Table String α} (h : table.IsAscending) (key : String)
    (value : α) : IsAscending (table.put key value) := by
  induction table with
  | nil => exact List.pairwise_singleton _ _
  | cons first rest ih =>
      rcases List.pairwise_cons.mp h with ⟨hfirst, hrest⟩
      rw [Table.put]
      split
      · next heq => exact List.pairwise_cons.mpr ⟨fun entry hmem => heq ▸ hfirst entry hmem, hrest⟩
      · next hne =>
        split
        · next hlt =>
          refine List.pairwise_cons.mpr ⟨fun entry hmem => ?_, h⟩
          rcases List.mem_cons.mp hmem with rfl | hmem
          · exact hlt
          · exact String.lt_trans hlt (hfirst entry hmem)
        · next hge =>
          refine List.pairwise_cons.mpr ⟨fun entry hmem => ?_, ih hrest⟩
          rcases mem_put hmem with rfl | hmem
          · exact Std.lt_of_le_of_ne (Std.not_lt.mp hge) (Ne.symm hne)
          · exact hfirst entry hmem

/-- The table of some pairs is in the order of the names. -/
theorem isAscending_ofList (pairs : List (String × α)) : IsAscending (ofList pairs) := by
  have hfold : ∀ (pairs : List (String × α)) (table : Table String α), table.IsAscending →
      IsAscending (pairs.foldl (fun table (key, value) => table.put key value) table) := by
    intro pairs
    induction pairs with
    | nil => exact fun _ h => h
    | cons pair rest ih => exact fun table h => ih _ (h.put pair.1 pair.2)
  exact hfold pairs [] List.Pairwise.nil

theorem put_ne_nil (key : String) (value : α) (table : Table String α) :
    table.put key value ≠ [] := by
  cases table with
  | nil => exact List.cons_ne_nil _ _
  | cons first rest =>
      rw [put]
      split
      · exact List.cons_ne_nil _ _
      · split
        · exact List.cons_ne_nil _ _
        · exact List.cons_ne_nil _ _

theorem ofList_eq_nil_iff {pairs : List (String × α)} : ofList pairs = [] ↔ pairs = [] := by
  constructor
  · intro h
    rcases List.eq_nil_or_concat pairs with hnil | ⟨before, pair, rfl⟩
    · exact hnil
    · rw [ofList, List.concat_eq_append, List.foldl_append] at h
      exact absurd h (put_ne_nil _ _ _)
  · rintro rfl
    rfl

end Table

namespace Submission

/-- The settings that a run is to have beside the configured flags: where its
    project is, if it is staged, and each variable of its environment for the
    executors and for the driver. -/
def settings (workspace : Option Workspace) (environment : Table String String) :
    List (String × String) :=
  (match workspace with
    | some workspace => [("spark.submit.pyFiles", workspace.context.text)]
    | none => []) ++
  environment.flatMap fun (key, value) =>
    [("spark.executorEnv." ++ key, value), ("spark.emr-serverless.driverEnv." ++ key, value)]

/-- A setting as it stands behind `--conf`. -/
def assignment (setting : String × String) : String := setting.1 ++ "=" ++ setting.2

/-- The flags of a request as the service reads them. -/
def words (request : Submission) : List String :=
  match request.flags with
  | some flags => Text.words flags
  | none => []

/-- The flags of a run as they are meant: the configured ones, and two words for
    each setting. -/
def intended (params : RunParameters) (workspace : Option Workspace)
    (environment : Table String String) : List String :=
  Text.words params.config ++
    (settings workspace environment).flatMap fun setting => ["--conf", assignment setting]

/-- The flags are the configured ones, and one for each setting. -/
theorem flagList_eq (params : RunParameters) (workspace : Option Workspace)
    (environment : Table String String) :
    flagList params workspace environment =
      (if params.config.isEmpty then [] else [params.config]) ++
        (settings workspace environment).map fun setting => flag setting.1 setting.2 := by
  unfold flagList settings
  rw [List.map_append, List.map_flatMap, List.append_assoc]
  cases workspace with
  | none => rfl
  | some workspace => rfl

theorem flag_eq (key value : String) :
    flag key value = "--conf" ++ " " ++ assignment (key, value) := by
  simp only [flag, assignment, ← String.append_assoc]
  rfl

theorem words_flag (key value : String) :
    Text.words (flag key value) = "--conf" :: Text.words (assignment (key, value)) := by
  rw [flag_eq, Text.words_append_space, Text.words_of_isSolid (by decide) (by decide),
    List.singleton_append]

theorem flag_ne_empty (key value : String) : flag key value ≠ "" := by
  intro h
  have hlist := congrArg String.toList h
  rw [flag, String.append_assoc, String.append_assoc, String.toList_append] at hlist
  exact absurd hlist (by simp only [String.reduceToList, List.cons_append, reduceCtorEq,
    not_false_eq_true])

theorem assignment_ne_empty (setting : String × String) : assignment setting ≠ "" := by
  intro h
  have hmem : '=' ∈ (assignment setting).toList := by
    rw [assignment, String.toList_append, String.toList_append]
    exact List.mem_append_left _ (List.mem_append_right _ List.mem_cons_self)
  rw [h] at hmem
  exact absurd hmem List.not_mem_nil

/-- The flags are read as the words of the configured ones and, behind each
    `--conf`, whatever words the setting there is made of. -/
theorem words_build (params : RunParameters) (workspace : Option Workspace)
    (environment : Table String String) (name clientToken : String) :
    (build params workspace environment name clientToken).words =
      Text.words params.config ++ (settings workspace environment).flatMap fun setting =>
        "--conf" :: Text.words (assignment setting) := by
  have hwords : (build params workspace environment name clientToken).words =
      Text.words (" ".intercalate (flagList params workspace environment)) := by
    simp only [words, build]
    by_cases hempty : (" ".intercalate (flagList params workspace environment)).isEmpty = true
    · rw [if_pos hempty, String.isEmpty_iff.mp hempty]
      rfl
    · rw [if_neg hempty]
  rw [hwords, Text.words_intercalate, flagList_eq, List.flatMap_append, List.flatMap_map]
  simp only [words_flag]
  by_cases hconfig : params.config.isEmpty = true
  · rw [if_pos hconfig, String.isEmpty_iff.mp hconfig]
    rfl
  · rw [if_neg hconfig, List.flatMap_singleton]

/-- A run has no settings exactly if it is not staged and its environment is
    empty. -/
theorem settings_eq_nil_iff {workspace : Option Workspace} {environment : Table String String} :
    settings workspace environment = [] ↔ workspace = none ∧ environment = [] := by
  unfold settings
  cases workspace with
  | none => cases environment with
    | nil => simp only [List.flatMap_nil, List.append_nil, and_self]
    | cons entry rest => simp only [List.flatMap_cons, List.nil_append, List.cons_append,
        reduceCtorEq, and_false]
  | some workspace => simp only [List.cons_append, reduceCtorEq, false_and]

/-- A request leaves its flags out exactly if there are none to write. -/
theorem flags_eq_none_iff (params : RunParameters) (workspace : Option Workspace)
    (environment : Table String String) (name clientToken : String) :
    (build params workspace environment name clientToken).flags = none ↔
      params.config = "" ∧ workspace = none ∧ environment = [] := by
  have hflags : (build params workspace environment name clientToken).flags = none ↔
      " ".intercalate (flagList params workspace environment) = "" := by
    simp only [build, ite_eq_left_iff, reduceCtorEq, imp_false, String.isEmpty_iff,
      Decidable.not_not]
  rw [hflags, ← settings_eq_nil_iff, flagList_eq]
  constructor
  · intro h
    by_cases hconfig : params.config.isEmpty = true
    · rw [if_pos hconfig, List.nil_append] at h
      refine ⟨String.isEmpty_iff.mp hconfig, ?_⟩
      cases hsettings : settings workspace environment with
      | nil => rfl
      | cons setting rest =>
          rw [hsettings, List.map_cons] at h
          exact absurd (Text.eq_empty_of_intercalate h) (flag_ne_empty _ _)
    · rw [if_neg hconfig, List.singleton_append] at h
      exact absurd (String.isEmpty_iff.mpr (Text.eq_empty_of_intercalate h)) hconfig
  · rintro ⟨hconfig, hsettings⟩
    rw [hconfig, hsettings]
    rfl

theorem isSolid_assignment {setting : String × String} :
    Text.IsSolid (assignment setting) ↔ Text.IsSolid setting.1 ∧ Text.IsSolid setting.2 := by
  rw [assignment, Text.isSolid_append, Text.isSolid_append]
  exact and_congr_left' (and_iff_left (by decide))

/-- Every setting of a run is solid exactly if the place of its project and its
    environment are. -/
theorem isSolid_settings {workspace : Option Workspace} {environment : Table String String} :
    (∀ setting ∈ settings workspace environment, Text.IsSolid (assignment setting)) ↔
      (∀ staged, workspace = some staged → Text.IsSolid staged.context.text) ∧
        ∀ entry ∈ environment, Text.IsSolid entry.1 ∧ Text.IsSolid entry.2 := by
  unfold settings
  rw [List.forall_mem_append, List.forall_mem_flatMap]
  refine and_congr ?_ (forall₂_congr fun entry _ => ?_)
  · cases workspace with
    | none => simp only [List.not_mem_nil, false_imp_iff, implies_true, reduceCtorEq]
    | some staged =>
        have hname : Text.IsSolid "spark.submit.pyFiles" := by decide
        rw [List.forall_mem_singleton, isSolid_assignment, and_iff_right hname]
        simp only [Option.some.injEq, forall_eq']
  · have hexecutor : Text.IsSolid "spark.executorEnv." := by decide
    have hdriver : Text.IsSolid "spark.emr-serverless.driverEnv." := by decide
    rw [List.forall_mem_cons, List.forall_mem_singleton, isSolid_assignment, isSolid_assignment,
      Text.isSolid_append, Text.isSolid_append, and_iff_right hexecutor, and_iff_right hdriver,
      and_self]

/-- What becomes of the flags of a run. The variables go in ascending order of
    their names; the field is left out exactly if there is nothing to write; the
    service reads the configured words and for each setting `--conf` with the
    words of the setting; and these are the flags as they are meant exactly if no
    white space is in the place of the project or in the name or value of a
    variable. -/
theorem flags_of_build (params : RunParameters) (workspace : Option Workspace)
    (pairs : List (String × String)) (name clientToken : String) :
    let environment := Table.ofList pairs
    let request := build params workspace environment name clientToken
    environment.IsAscending ∧
    (request.flags = none ↔ params.config = "" ∧ workspace = none ∧ pairs = []) ∧
    request.words = Text.words params.config ++ (settings workspace environment).flatMap
      (fun setting => "--conf" :: Text.words (assignment setting)) ∧
    (request.words = intended params workspace environment ↔
      (∀ staged, workspace = some staged → Text.IsSolid staged.context.text) ∧
        ∀ entry ∈ environment, Text.IsSolid entry.1 ∧ Text.IsSolid entry.2) := by
  intro environment request
  refine ⟨Table.isAscending_ofList pairs, ?_, words_build _ _ _ _ _, ?_⟩
  · rw [flags_eq_none_iff, Table.ofList_eq_nil_iff]
  · rw [words_build, intended, List.append_cancel_left_eq, ← isSolid_settings]
    have hmap := Text.flatMap_words_eq_iff "--conf"
      ((settings workspace environment).map assignment) ?_
    · simpa only [List.flatMap_map, List.forall_mem_map] using hmap
    · intro hmem
      rcases List.mem_map.mp hmem with ⟨setting, _, hempty⟩
      exact assignment_ne_empty setting hempty

/-- A folder with a blank in its name splits the flag for the project, and a
    variable with a flag in its value adds that flag. -/
theorem flags_of_build_blank :
    let params : RunParameters := ⟨"app-1", "role", "", [], "", none, "", none, none⟩
    let base : ObjectUri := ⟨"s3", "bucket", "my ws"⟩
    let workspace := Workspace.allocate base "daily" "run-7" "main.py"
    ObjectUri.parse "s3://bucket/my%20ws" = .ok base ∧
    (build params (some workspace) [] "load" "token").words =
      ["--conf", "spark.submit.pyFiles=s3://bucket/my", "ws/daily/run-7/context.zip"] ∧
    intended params (some workspace) [] =
      ["--conf", "spark.submit.pyFiles=s3://bucket/my ws/daily/run-7/context.zip"] ∧
    (build params none (Table.ofList [("A", "1 --conf b=2")]) "load" "token").words ≠
      intended params none (Table.ofList [("A", "1 --conf b=2")]) := by
  dsimp only
  exact ⟨by rfl, by decide +kernel, by decide +kernel, by decide +kernel⟩

end Submission

end BatchRun
