import BatchRun.Proofs.Logs.Store
import Mathlib.Data.List.Chain

/-!
# A Store with One Log

A service that keeps what is promised of growing logs.

The versions of the log are given beforehand. The state says how many of them
were written, and how many more will be as soon as the log was listed, so that a
get may come to a version that no listing has shown.

## Main definitions

* `LogHistory`: The versions of one log.
* `LogHistory.service`: A service with this log.
* `LogHistory.store`: What the service promises.

## Theorems

* `LogHistory.complete`: When the log is listed as it will be for good.
-/

namespace BatchRun

/-- The versions that one log has had so far and will have, the oldest first. -/
structure LogHistory where
  key : String
  versions : List LogVersion
  grow : LogVersion.Grow key versions

namespace LogHistory

/-- The newest version when so many were written. -/
def current? (history : LogHistory) (written : Nat) : Option LogVersion :=
  (history.versions.take written).getLast?

/-- A service with one log. Its state is how many versions were written, and how
    many more will be as soon as it was listed. -/
def service (history : LogHistory) : Service (Nat × Nat) where
  reply call state :=
    { delay := some (Span.ofMillis 1)
      abandoned := state
      settled := match call with
        | .list _ _ => (state.1 + state.2, 0)
        | _ => state
      answer := match call with
        | .list _ _ =>
          .ok ⟨(history.current? state.1).toList.map fun v => ⟨history.key, v.size, v.etag⟩, none⟩
        | .get uri =>
          match if uri.key = history.key then history.current? state.1 else none with
          | some version => .ok version.body
          | none => .error (.notFound uri.key)
        | _ => .error (.invalidRequest "")
      cancels := false }

theorem count_le (history : LogHistory) (call : Call) (state : Nat × Nat) :
    state.1 ≤ (history.service.reply call state).settled.1 := by
  cases call with
  | list root token => exact Nat.le_add_right _ _
  | _ => exact Nat.le_refl _

theorem getElem?_of_current? {history : LogHistory} {written : Nat} {version : LogVersion}
    (h : history.current? written = some version) :
    (history.versions.take written)[(history.versions.take written).length - 1]? =
      some version := by
  rwa [current?, List.getLast?_eq_getElem?] at h

/-- The versions of an object that were written so far. -/
def written (history : LogHistory) (state : Nat × Nat) (key : String) : List LogVersion :=
  if key = history.key then history.versions.take state.1 else []

/-- What was written stays written. -/
theorem written_mono (history : LogHistory) {state next : Nat × Nat} (h : state.1 ≤ next.1)
    (key : String) : history.written state key <+: history.written next key := by
  unfold written
  split
  · exact List.take_prefix_take_left h
  · exact List.prefix_rfl

/-- What the service promises. -/
def store (history : LogHistory) (root : ObjectUri) : LogStore history.service root where
  versions := history.written
  served state _ := (history.versions.take state.1).length - 1
  kept call state := history.written_mono (history.count_le call state)
  grown state key _ := by
    unfold written
    split
    · next h =>
      rw [h]
      exact history.grow.sublist ((List.take_sublist _ _).filterMap _)
    · exact List.Pairwise.nil
  listed token state page object hpage hobject _ := by
    rw [service, Except.ok.injEq] at hpage
    rw [← hpage, List.mem_map] at hobject
    rcases hobject with ⟨version, hversion, rfl⟩
    rw [Option.mem_toList] at hversion
    -- What is written by the listing comes behind what it shows.
    have hkept : history.versions.take state.1 <+: history.versions.take (state.1 + state.2) :=
      List.take_prefix_take_left (Nat.le_add_right _ _)
    refine ⟨_, version, Nat.sub_le_sub_right hkept.length_le 1, ?_, rfl, rfl⟩
    rw [written, if_pos rfl]
    exact LogVersion.getElem?_mono hkept (getElem?_of_current? hversion)
  served_le call state key _ :=
    Nat.sub_le_sub_right
      (List.take_prefix_take_left (history.count_le call state)).length_le 1
  fetched key state body _ hbody := by
    by_cases h : key = history.key
    · simp only [service, if_pos h] at hbody
      cases hcurrent : history.current? state.1 with
      | none =>
          rw [hcurrent] at hbody
          exact absurd hbody (by simp only [reduceCtorEq, not_false_eq_true])
      | some version =>
          rw [hcurrent, Except.ok.injEq] at hbody
          exact Or.inr ⟨_, version, Nat.le_refl _, by
            rw [written, if_pos h]
            exact getElem?_of_current? hcurrent, hbody⟩
    · simp only [service, if_neg h] at hbody
      exact absurd hbody (by simp only [reduceCtorEq, not_false_eq_true])

theorem eq_of_fetching {history : LogHistory} {state next : Nat × Nat}
    (h : Fetching history.service state next) : next = state := by
  induction h with
  | refl => rfl
  | step _ uri ih => exact ih

/-- When all versions were written and the last can be read, the log is listed as
    it will be for good. -/
theorem complete (history : LogHistory) (root : ObjectUri) {state : Nat × Nat}
    (hall : history.versions.length ≤ state.1) {last : LogVersion}
    (hlast : history.versions.getLast? = some last) {content : Bytes}
    (hcontent : last.content? history.key = some content) :
    (history.store root).Complete state [⟨history.key, last.size, last.etag⟩] where
  all key _ hwritten := by
    refine ⟨_, List.mem_singleton.mpr rfl, ?_⟩
    by_contra hne
    exact hwritten (if_neg (Ne.symm hne))
  current object hobject _ := by
    rw [List.mem_singleton] at hobject
    rw [hobject]
    refine ⟨last, content, ?_, ⟨rfl, rfl⟩, hcontent⟩
    simp only [store, written, if_true, List.take_of_length_le hall, hlast]
  still next hnext key := by rw [eq_of_fetching hnext]
  answered next hnext object hobject _ := by
    rw [List.mem_singleton] at hobject
    rw [hobject, eq_of_fetching hnext]
    refine ⟨by simp only [service, ne_eq, reduceCtorEq, not_false_eq_true], last.body, ?_, ?_⟩
    · simp only [service, if_true, current?, List.take_of_length_le hall, hlast]
    · rw [LogVersion.decode?_eq, hcontent, Option.map_some]
      simp only [ne_eq, reduceCtorEq, not_false_eq_true]

theorem toldApart (history : LogHistory) (root : ObjectUri) (state : Nat × Nat)
    (h : LogVersion.ToldApart history.versions) : (history.store root).ToldApart state := by
  intro key _ v hv w hw
  simp only [store, written] at hv hw
  split at hv
  · next hkey =>
    rw [if_pos hkey] at hw
    exact h v (List.mem_of_mem_take hv) w (List.mem_of_mem_take hw)
  · exact absurd hv List.not_mem_nil

theorem relisted (history : LogHistory) (root : ObjectUri) (state : Nat × Nat)
    (h : LogVersion.Relisted history.versions) : (history.store root).Relisted state := by
  intro key _
  simp only [store, written]
  split
  · exact h.take _
  · exact List.IsChain.nil

end LogHistory

end BatchRun
