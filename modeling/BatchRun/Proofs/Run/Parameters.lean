import BatchRun.Proofs.Text.Runs
import BatchRun.Proofs.Url.Parse
import BatchRun.Warning

/-!
# Resolved Parameters

When the parameters of a run can be resolved, and what they then are.

Four things can go wrong, and they are looked for in order: there is no application,
there is no role, the place for the logs cannot be read, or the workspace cannot. The
first of them is reported, so each reason says that those before it do not apply.
Nothing else is a reason. In particular a limit that cannot be read is dropped, with
one warning as soon as both names are known.

Every value is looked at trimmed, and a blank one is as good as none. So two inputs
whose values are the same in this sense are resolved alike, whatever else they hold.

## Main definitions

* `RunParameters.Unreadable`, `RunParameters.Immeasurable`: A place, or a limit, that
  is given and cannot be read.
* `RunParameters.Refused`: Why parameters cannot be resolved.
* `RunParameters.Dropped`: A limit that is dropped.
* `RunParameters.SameGiven`: Values that count alike.
* `RunParameters.SharePlaces`, `RunParameters.Agree`: Inputs whose values do.

## Theorems

* `RunParameters.resolve_eq_error_iff`: The first reason is reported.
* `RunParameters.ignoredTimeout_eq_some_iff`: When there is a warning.
* `RunParameters.Agree.resolve_eq`: Inputs that agree are resolved alike.
* `RunParameters.resolve_refuses_first`: All of it.
-/

namespace BatchRun

namespace RunParameters

variable {defaults other : ConnectionDefaults} {params given : String → Option String}
variable {fault : Fault} {run : RunParameters}

/-- A place that is given and cannot be read. -/
def Unreadable (value : Option String) (fault : Fault) : Prop :=
  ∃ raw cause, value = some raw ∧ ObjectUri.parse raw = .error cause ∧ fault = .uri raw cause

/-- A limit that is given and cannot be read. -/
def Immeasurable (value : Option String) (fault : Fault) : Prop :=
  ∃ raw cause, value = some raw ∧ Duration.read raw = .error cause ∧
    fault = .duration raw cause

/-- Both names that a run cannot do without. -/
structure Identified (defaults : ConnectionDefaults) : Prop where
  application : ¬ Text.AllBlank defaults.applicationId
  role : ¬ Text.AllBlank defaults.executionRole

/-- Why parameters cannot be resolved: the first of four reasons that applies. -/
inductive Refused (defaults : ConnectionDefaults) (params : String → Option String) :
    Fault → Prop
  | application (h : Text.AllBlank defaults.applicationId) :
      Refused defaults params (.missing "application_id")
  | role (hid : ¬ Text.AllBlank defaults.applicationId)
      (h : Text.AllBlank defaults.executionRole) :
      Refused defaults params (.missing "execution_role")
  | logs {fault : Fault} (hids : Identified defaults)
      (h : Unreadable (value? params "logs") fault) : Refused defaults params fault
  | workspace {fault : Fault} (hids : Identified defaults)
      (hlogs : ∀ fault, ¬ Unreadable (value? params "logs") fault)
      (h : Unreadable (defaults.workspace.bind Text.given) fault) :
      Refused defaults params fault

/-- A limit that is dropped, once both names are known. -/
def Dropped (defaults : ConnectionDefaults) (params : String → Option String)
    (fault : Fault) : Prop :=
  Identified defaults ∧ Immeasurable (value? params "timeout") fault

/-- A name is given exactly if it is not blank. -/
theorem exists_given_iff {text : String} :
    (∃ value, Text.given text = some value) ↔ ¬ Text.AllBlank text := by
  rw [← Text.given_eq_none_iff, ← Option.ne_none_iff_exists']

theorem readUri_of_error {raw : String} {cause : ObjectUri.Fault}
    (h : ObjectUri.parse raw = .error cause) : readUri raw = .error (.uri raw cause) := by
  rw [readUri, h]
  rfl

theorem readUri_of_ok {raw : String} {uri : ObjectUri} (h : ObjectUri.parse raw = .ok uri) :
    readUri raw = .ok uri := by
  rw [readUri, h]
  rfl

theorem readUri?_eq_error_iff {value : Option String} :
    readUri? value = .error fault ↔ Unreadable value fault := by
  unfold Unreadable
  cases value with
  | none => simp only [readUri?, reduceCtorEq, false_and, exists_false]
  | some raw =>
      cases hread : ObjectUri.parse raw with
      | error cause =>
          simp only [readUri?, readUri_of_error hread, Except.map, Except.error.injEq,
            Option.some.injEq]
          constructor
          · rintro rfl
            exact ⟨raw, cause, rfl, hread, rfl⟩
          · rintro ⟨_, _, rfl, hcause, rfl⟩
            rw [hread, Except.error.injEq] at hcause
            rw [hcause]
      | ok uri =>
          simp only [readUri?, readUri_of_ok hread, Except.map, reduceCtorEq, false_iff]
          rintro ⟨_, _, hraw, hcause, _⟩
          rw [← Option.some.inj hraw, hread] at hcause
          exact absurd hcause (by simp only [reduceCtorEq, not_false_eq_true])

/-- A place that is absent or can be read is no reason to refuse anything. -/
theorem readable_iff {value : Option String} :
    (∀ fault, ¬ Unreadable value fault) ↔ ∃ uri, readUri? value = .ok uri := by
  simp only [← readUri?_eq_error_iff]
  cases readUri? value with
  | error cause =>
      simp only [reduceCtorEq, exists_false, iff_false]
      exact fun hnone => hnone cause rfl
  | ok uri => simp only [reduceCtorEq, not_false_eq_true, implies_true, Except.ok.injEq,
      exists_eq']

/-- With both names the places decide, and the limit and the rest do not. -/
theorem resolve_of_identified (h : Identified defaults) (params : String → Option String) :
    ∃ applicationId executionRole, resolve defaults params =
      (readUri? (value? params "logs")).bind fun logs =>
        (readUri? (defaults.workspace.bind Text.given)).bind fun workspace =>
          .ok
            { applicationId, executionRole, logs, workspace
              entrypoint := (value? params "entrypoint").getD ""
              args := ((value? params "args").map Text.words).getD []
              config := (value? params "config").getD ""
              timeout := timeout? params
              region := Text.trim defaults.region } := by
  rcases exists_given_iff.mpr h.application with ⟨applicationId, happlication⟩
  rcases exists_given_iff.mpr h.role with ⟨executionRole, hrole⟩
  refine ⟨applicationId, executionRole, ?_⟩
  unfold resolve
  simp only [happlication, hrole]

theorem resolve_of_blank (h : Text.AllBlank defaults.applicationId)
    (params : String → Option String) :
    resolve defaults params = .error (.missing "application_id") := by
  unfold resolve
  rw [Text.given_eq_none_iff.mpr h]

theorem resolve_of_blank_role (hid : ¬ Text.AllBlank defaults.applicationId)
    (h : Text.AllBlank defaults.executionRole) (params : String → Option String) :
    resolve defaults params = .error (.missing "execution_role") := by
  rcases exists_given_iff.mpr hid with ⟨applicationId, happlication⟩
  unfold resolve
  rw [happlication, Text.given_eq_none_iff.mpr h]

/-- The reason that applies is reported. -/
theorem resolve_of_refused (h : Refused defaults params fault) :
    resolve defaults params = .error fault := by
  cases h with
  | application hblank => exact resolve_of_blank hblank params
  | role hid hblank => exact resolve_of_blank_role hid hblank params
  | logs hids hlogs =>
      rcases resolve_of_identified hids params with ⟨_, _, hresolve⟩
      rw [hresolve, readUri?_eq_error_iff.mpr hlogs]
      rfl
  | workspace hids hlogs hworkspace =>
      rcases resolve_of_identified hids params with ⟨_, _, hresolve⟩
      rcases readable_iff.mp hlogs with ⟨logs, hread⟩
      rw [hresolve, hread, readUri?_eq_error_iff.mpr hworkspace]
      rfl

/-- What is reported is the reason that applies: without one there is no fault. -/
theorem refused_of_resolve (h : resolve defaults params = .error fault) :
    Refused defaults params fault := by
  by_cases happlication : Text.AllBlank defaults.applicationId
  · rw [resolve_of_blank happlication, Except.error.injEq] at h
    exact h ▸ .application happlication
  · by_cases hrole : Text.AllBlank defaults.executionRole
    · rw [resolve_of_blank_role happlication hrole, Except.error.injEq] at h
      exact h ▸ .role happlication hrole
    · -- Both names are given: the logs are read first, and then the workspace.
      have hids : Identified defaults := ⟨happlication, hrole⟩
      rcases resolve_of_identified hids params with ⟨_, _, hresolve⟩
      rw [hresolve] at h
      cases hlogs : readUri? (value? params "logs") with
      | error cause =>
          rw [hlogs] at h
          exact .logs hids (readUri?_eq_error_iff.mp (Except.error.inj h ▸ hlogs))
      | ok logs =>
          rw [hlogs] at h
          cases hworkspace : readUri? (defaults.workspace.bind Text.given) with
          | error cause =>
              rw [hworkspace] at h
              exact .workspace hids (readable_iff.mpr ⟨logs, hlogs⟩)
                (readUri?_eq_error_iff.mp (Except.error.inj h ▸ hworkspace))
          | ok workspace =>
              rw [hworkspace] at h
              exact absurd h (by simp only [Except.bind, reduceCtorEq, not_false_eq_true])

theorem resolve_eq_error_iff : resolve defaults params = .error fault ↔
    Refused defaults params fault := ⟨refused_of_resolve, resolve_of_refused⟩

theorem readSpan_of_error {raw : String} {cause : Duration.Fault}
    (h : Duration.read raw = .error cause) : readSpan raw = .error (.duration raw cause) := by
  rw [readSpan, h]
  rfl

theorem readSpan_of_ok {raw : String} {span : Span} (h : Duration.read raw = .ok span) :
    readSpan raw = .ok span := by
  rw [readSpan, h]
  rfl

/-- There is a warning exactly if the limit is dropped. -/
theorem ignoredTimeout_eq_some_iff : ignoredTimeout defaults params = some fault ↔
    Dropped defaults params fault := by
  unfold Dropped Immeasurable
  by_cases hids : Identified defaults
  · rcases exists_given_iff.mpr hids.application with ⟨applicationId, happlication⟩
    rcases exists_given_iff.mpr hids.role with ⟨executionRole, hrole⟩
    simp only [hids, true_and]
    unfold ignoredTimeout
    rw [happlication, hrole]
    cases value? params "timeout" with
    | none => simp only [reduceCtorEq, false_and, exists_false]
    | some raw =>
        cases hread : Duration.read raw with
        | ok span =>
            simp only [readSpan_of_ok hread, Option.some.injEq, reduceCtorEq, false_iff]
            rintro ⟨_, _, rfl, hcause, _⟩
            rw [hread] at hcause
            exact absurd hcause (by simp only [reduceCtorEq, not_false_eq_true])
        | error cause =>
            simp only [readSpan_of_error hread, Option.some.injEq]
            constructor
            · rintro rfl
              exact ⟨raw, cause, rfl, hread, rfl⟩
            · rintro ⟨_, _, rfl, hcause, rfl⟩
              rw [hread, Except.error.injEq] at hcause
              rw [hcause]
  · -- Without both names the limit is not looked at.
    simp only [hids, false_and, iff_false]
    unfold ignoredTimeout
    cases happlication : Text.given defaults.applicationId with
    | none => simp only [reduceCtorEq, not_false_eq_true]
    | some applicationId =>
        cases hrole : Text.given defaults.executionRole with
        | none => simp only [reduceCtorEq, not_false_eq_true]
        | some executionRole =>
            exact absurd ⟨exists_given_iff.mp ⟨_, happlication⟩,
              exists_given_iff.mp ⟨_, hrole⟩⟩ hids

/-- A limit that cannot be read is no limit. -/
theorem timeout?_of_immeasurable (h : Immeasurable (value? params "timeout") fault) :
    timeout? params = none := by
  rcases h with ⟨raw, cause, hraw, hread, _⟩
  rw [timeout?, hraw, Option.bind_some, readSpan_of_error hread]
  rfl

/-- Whoever has parameters has given both names. -/
theorem identified_of_resolve (h : resolve defaults params = .ok run) : Identified defaults := by
  have hsound : ∀ fault, ¬ Refused defaults params fault := by
    intro fault hrefused
    rw [resolve_of_refused hrefused] at h
    exact absurd h (by simp only [reduceCtorEq, not_false_eq_true])
  have happlication : ¬ Text.AllBlank defaults.applicationId := fun hblank =>
    hsound _ (.application hblank)
  exact ⟨happlication, fun hblank => hsound _ (.role happlication hblank)⟩

/-- Where the limit and the arguments of a run come from. -/
theorem of_resolve (h : resolve defaults params = .ok run) :
    run.timeout = timeout? params ∧
      run.args = ((value? params "args").map Text.words).getD [] := by
  rcases resolve_of_identified (identified_of_resolve h) params with ⟨_, _, hresolve⟩
  rw [hresolve] at h
  rcases Url.eq_ok_of_bind h with ⟨logs, _, h⟩
  rcases Url.eq_ok_of_bind h with ⟨workspace, _, h⟩
  rw [← Except.ok.inj h]
  exact ⟨rfl, rfl⟩

/-- The arguments of a run are the words of their value, blanks around it or not. -/
theorem words_of_value (params : String → Option String) :
    ((value? params "args").map Text.words).getD [] =
      Text.words ((params "args").getD "") := by
  unfold value?
  cases params "args" with
  | none => rfl
  | some text =>
      rw [Option.bind_some, Option.getD_some, ← Text.words_trim]
      cases hgiven : Text.given text with
      | none =>
          rw [Text.trim_eq_empty_iff.mpr (Text.given_eq_none_iff.mp hgiven)]
          rfl
      | some value => rw [Text.eq_trim_of_given hgiven, Option.map_some, Option.getD_some]

/-- Two values that count alike: trimmed they are the same, and a blank one is as good
    as none. -/
def SameGiven (first second : Option String) : Prop :=
  Text.trim (first.getD "") = Text.trim (second.getD "")

instance (first second : Option String) : Decidable (SameGiven first second) :=
  inferInstanceAs (Decidable (_ = _))

/-- Two inputs with the same names and places. -/
structure SharePlaces (defaults : ConnectionDefaults) (params : String → Option String)
    (other : ConnectionDefaults) (given : String → Option String) : Prop where
  application : Text.trim defaults.applicationId = Text.trim other.applicationId
  role : Text.trim defaults.executionRole = Text.trim other.executionRole
  logs : SameGiven (params "logs") (given "logs")
  workspace : SameGiven defaults.workspace other.workspace

/-- Two inputs of which every value that is looked at counts alike. What the asset
    gives under other names is not looked at. -/
structure Agree (defaults : ConnectionDefaults) (params : String → Option String)
    (other : ConnectionDefaults) (given : String → Option String) : Prop extends
    SharePlaces defaults params other given where
  region : Text.trim defaults.region = Text.trim other.region
  entrypoint : SameGiven (params "entrypoint") (given "entrypoint")
  config : SameGiven (params "config") (given "config")
  timeout : SameGiven (params "timeout") (given "timeout")
  args : SameGiven (params "args") (given "args")

theorem SharePlaces.symm (h : SharePlaces defaults params other given) :
    SharePlaces other given defaults params :=
  ⟨h.application.symm, h.role.symm, h.logs.symm, h.workspace.symm⟩

theorem given_eq_of_trim {first second : String} (h : Text.trim first = Text.trim second) :
    Text.given first = Text.given second := by
  unfold Text.given
  rw [h]

/-- What counts alike is given alike. -/
theorem SameGiven.bind_given {first second : Option String} (h : SameGiven first second) :
    first.bind Text.given = second.bind Text.given := by
  have hnone : ∀ value : Option String, value.bind Text.given = Text.given (value.getD "") := by
    intro value
    cases value with
    | none =>
        have hempty : Text.AllBlank "" := fun c hc => absurd hc List.not_mem_nil
        rw [Option.bind_none, Option.getD_none, Text.given_eq_none_iff.mpr hempty]
    | some text => rw [Option.bind_some, Option.getD_some]
  rw [hnone, hnone]
  exact given_eq_of_trim h

theorem SharePlaces.refused (h : SharePlaces defaults params other given)
    (hrefused : Refused defaults params fault) : Refused other given fault := by
  have hblank : ∀ {first second : String}, Text.trim first = Text.trim second →
      (Text.AllBlank first ↔ Text.AllBlank second) := by
    intro first second htrim
    rw [← Text.trim_eq_empty_iff, htrim, Text.trim_eq_empty_iff]
  have hids : Identified defaults → Identified other := fun hids =>
    ⟨fun hno => hids.application ((hblank h.application).mpr hno),
      fun hno => hids.role ((hblank h.role).mpr hno)⟩
  have hlogs : value? params "logs" = value? given "logs" := h.logs.bind_given
  cases hrefused with
  | application hno => exact .application ((hblank h.application).mp hno)
  | role hid hno =>
      exact .role (fun hno => hid ((hblank h.application).mpr hno)) ((hblank h.role).mp hno)
  | logs hidentified hbad => exact .logs (hids hidentified) (hlogs ▸ hbad)
  | workspace hidentified hgood hbad =>
      exact .workspace (hids hidentified) (hlogs ▸ hgood) (h.workspace.bind_given ▸ hbad)

/-- Inputs that agree are resolved alike, with the same warning. -/
theorem Agree.resolve_eq (h : Agree defaults params other given) :
    resolve defaults params = resolve other given ∧
      ignoredTimeout defaults params = ignoredTimeout other given := by
  have hlogs : value? params "logs" = value? given "logs" := h.logs.bind_given
  have hentry : value? params "entrypoint" = value? given "entrypoint" :=
    h.entrypoint.bind_given
  have hconfig : value? params "config" = value? given "config" := h.config.bind_given
  have htimeout : value? params "timeout" = value? given "timeout" := h.timeout.bind_given
  have hargs : value? params "args" = value? given "args" := h.args.bind_given
  constructor
  · unfold resolve timeout?
    rw [given_eq_of_trim h.application, given_eq_of_trim h.role, h.workspace.bind_given, hlogs,
      hentry, hconfig, htimeout, hargs, h.region]
  · unfold ignoredTimeout
    rw [given_eq_of_trim h.application, given_eq_of_trim h.role, htimeout]

/-- Parameters cannot be resolved exactly if one of four reasons applies, and the first
    is reported. So what shares the names and places is refused alike, whatever it says
    about the entrypoint, the configuration, the arguments, the limit and the region.
    Once both names are known, a limit that cannot be read is warned of once and
    dropped, and otherwise there is no warning. Inputs whose values count alike are
    resolved alike, and warned of alike. The arguments of a run are the words of their
    value. -/
theorem resolve_refuses_first (defaults : ConnectionDefaults)
    (params : String → Option String) :
    (∀ fault, resolve defaults params = .error fault ↔ Refused defaults params fault) ∧
      (∀ other given, SharePlaces defaults params other given → ∀ fault,
        (resolve defaults params = .error fault ↔ resolve other given = .error fault)) ∧
      (∀ fault, Dropped defaults params fault →
        (ignoredTimeout defaults params).toList.map Warning.ignoredTimeout =
            [.ignoredTimeout fault] ∧
          ∀ run, resolve defaults params = .ok run → run.timeout = none) ∧
      ((∀ fault, ¬ Dropped defaults params fault) → ignoredTimeout defaults params = none) ∧
      (∀ other given, Agree defaults params other given →
        resolve defaults params = resolve other given ∧
          ignoredTimeout defaults params = ignoredTimeout other given) ∧
      ∀ run, resolve defaults params = .ok run →
        Text.Runs ((params "args").getD "").toList (run.args.map String.toList) := by
  refine ⟨fun fault => resolve_eq_error_iff, ?_, ?_, ?_, fun other given => Agree.resolve_eq, ?_⟩
  · intro other given hshare fault
    rw [resolve_eq_error_iff, resolve_eq_error_iff]
    exact ⟨hshare.refused, hshare.symm.refused⟩
  · intro fault hdropped
    refine ⟨?_, fun run hrun => ?_⟩
    · rw [ignoredTimeout_eq_some_iff.mpr hdropped]
      rfl
    · rw [(of_resolve hrun).1, timeout?_of_immeasurable hdropped.2]
  · intro hnone
    rw [Option.eq_none_iff_forall_ne_some]
    exact fun fault hsome => hnone fault (ignoredTimeout_eq_some_iff.mp hsome)
  · intro run hrun
    rw [(of_resolve hrun).2, words_of_value, Text.runs_iff]

/-- A limit and a place that cannot be read, with blanks around them: the limit is
    warned of although the place ends it, and the blanks make no difference. -/
theorem resolve_refuses_first_blanks :
    let defaults : ConnectionDefaults := ⟨" app-1\t", "role", "eu-west-1", none⟩
    let params := fun name => if name = "logs" then some "\u3000nowhere "
      else if name = "timeout" then some " soon\n" else none
    let trimmed := fun name => if name = "logs" then some "nowhere"
      else if name = "timeout" then some "soon" else if name = "note" then some "x" else none
    resolve defaults params = .error (.uri "nowhere" (.url .noScheme)) ∧
      (ignoredTimeout defaults params).toList.map Warning.ignoredTimeout =
        [.ignoredTimeout (.duration "soon" .missingNumber)] ∧
      resolve defaults params = resolve ⟨"app-1", "role", "eu-west-1", some " "⟩ trimmed := by
  intro defaults params trimmed
  have hids : Identified defaults := ⟨by decide, by decide⟩
  have hparse : ObjectUri.parse "nowhere" = .error (.url .noScheme) := by
    have htrim : Text.trim "nowhere" = "nowhere" :=
      Text.trim_of_visible fun _ hc => visible_of_all (by decide) hc
    have hscheme : Url.cutScheme (Url.significant "nowhere") = none := by decide +kernel
    unfold ObjectUri.parse Url.parse
    rw [htrim, hscheme]
  have hlogs : Unreadable (value? params "logs") (.uri "nowhere" (.url .noScheme)) :=
    ⟨"nowhere", .url .noScheme, by decide +kernel, hparse, rfl⟩
  have hread : Duration.read "soon" = .error .missingNumber := by
    have htrim : (Text.trim "soon").toList = ['s', 'o', 'o', 'n'] := by decide +kernel
    have hterms : Duration.terms ['s', 'o', 'o', 'n'] = .error .missingNumber := by
      rw [Duration.terms]
      rfl
    unfold Duration.read
    rw [htrim]
    simp only [hterms]
    rfl
  have hlimit : Immeasurable (value? params "timeout") (.duration "soon" .missingNumber) :=
    ⟨"soon", .missingNumber, by decide +kernel, hread, rfl⟩
  rcases resolve_refuses_first defaults params with ⟨hrefused, _, hdropped, _, hagree, _⟩
  refine ⟨(hrefused _).mpr (.logs hids hlogs), (hdropped _ ⟨hids, hlimit⟩).1, ?_⟩
  exact (hagree ⟨"app-1", "role", "eu-west-1", some " "⟩ trimmed
    ⟨⟨by decide +kernel, rfl, by decide +kernel, by decide +kernel⟩, rfl, by decide +kernel,
      by decide +kernel, by decide +kernel, by decide +kernel⟩).1

end RunParameters

end BatchRun
