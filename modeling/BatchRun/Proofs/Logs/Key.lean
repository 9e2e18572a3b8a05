import BatchRun.Logs.Reader
import BatchRun.Proofs.ObjectUri
import BatchRun.Proofs.Text.Lines

/-!
# Keys of Log Objects

What the key of a log object looks like, and how it is asked for.

A key is one of a log if it has the form that the service gives it: the place of
the run, the process, the stream, and perhaps the ending of compressed objects.
No such key begins or ends with a slash, so a listed log is asked for by the key
under which it was listed.

## Theorems

* `LogSource.eq_of_ofKey?`: The form of the key of a log.
* `LogReader.normal_runRoot`: The place of a run is a normal URI.
* `LogReader.withKey_runRoot`: A listed log is asked for by its own key.
-/

namespace BatchRun

theorem Text.eq_of_beforeEnding {α : Type} [DecidableEq α] {ending items front : List α}
    (h : Text.beforeEnding ending items = some front) : items = front ++ ending := by
  rw [Text.beforeEnding, Option.map_eq_some_iff] at h
  rcases h with ⟨rest, hrest, rfl⟩
  calc items = items.reverse.reverse := (List.reverse_reverse items).symm
    _ = (ending.reverse ++ rest).reverse := by rw [Text.eq_of_afterStart hrest]
    _ = rest.reverse ++ ending := by rw [List.reverse_append, List.reverse_reverse]

namespace LogSource

/-- The form of the key of a log. -/
theorem eq_of_ofKey? {start key : String} {source : LogSource}
    (h : ofKey? start key = some source) :
    ∃ ending, (ending = [] ∨ ending = compressedEnding) ∧ source.name.toList ≠ [] ∧
      source.stream ∈ streams ∧
      key.toList = start.toList ++ (source.name.toList ++
          '/' :: (source.stream.toList ++ ending)) := by
  simp only [ofKey?, Option.bind_eq_some_iff] at h
  rcases h with ⟨relative, hrelative, ⟨name, file⟩, hcut, h⟩
  have hkey := Text.eq_of_afterStart hrelative
  rcases Text.eq_of_cutAtLast hcut with ⟨hsplit, _⟩
  -- A key without a process or with an unknown stream is refused.
  by_cases hrefused : (name.isEmpty || !streams.contains
      (String.ofList ((Text.beforeEnding compressedEnding file).getD file))) = true
  · simp only [hrefused, if_true, reduceCtorEq] at h
  · simp only [hrefused, Bool.false_eq_true, if_false, Option.some.injEq] at h
    rw [Bool.or_eq_true, not_or, Bool.not_eq_true', Bool.not_eq_false] at hrefused
    rcases hrefused with ⟨hname, hstream⟩
    rw [← h]
    have hnil : (String.ofList name).toList ≠ [] := by
      rw [String.toList_ofList]
      exact fun hn => hname (by rw [hn]; rfl)
    cases hfile : Text.beforeEnding compressedEnding file with
    | none =>
        rw [hfile, Option.getD_none] at hstream
        refine ⟨[], Or.inl rfl, hnil, List.contains_iff_mem.mp hstream, ?_⟩
        rw [hkey, hsplit, Option.getD_none, String.toList_ofList, String.toList_ofList,
          List.append_nil]
    | some stem =>
        rw [hfile, Option.getD_some] at hstream
        refine ⟨compressedEnding, Or.inr rfl, hnil, List.contains_iff_mem.mp hstream, ?_⟩
        rw [hkey, hsplit, Option.getD_some, String.toList_ofList, String.toList_ofList,
          Text.eq_of_beforeEnding hfile]

/-- No stream has a name that ends with a slash, compressed or not. -/
theorem getLast?_stream {stream : String} (h : stream ∈ streams) {ending : List Char}
    (hending : ending = [] ∨ ending = compressedEnding) :
    (stream.toList ++ ending).getLast? ≠ some '/' := by
  rw [streams, List.mem_cons, List.mem_singleton] at h
  rcases h with rfl | rfl <;> rcases hending with rfl | rfl <;> decide

/-- The key of a log has clear ends, if what it begins with has. -/
theorem endsClear_of_ofKey? {root : ObjectUri} (hroot : root.Normal)
    (hne : root.key.toList ≠ []) {key : String} {source : LogSource}
    (h : ofKey? root.listing key = some source) : EndsClear key.toList := by
  rcases eq_of_ofKey? h with ⟨ending, hending, _, hstream, hkey⟩
  rw [hkey, ObjectUri.listing_eq hne, List.append_assoc]
  refine endsClear_append hne (by simp) hroot.1 ?_
  have hlast := getLast?_stream hstream hending
  have htail : source.stream.toList ++ ending ≠ [] := by
    intro hnil
    rw [streams, List.mem_cons, List.mem_singleton] at hstream
    rcases hstream with hs | hs <;> · rw [hs] at hnil; exact absurd hnil (by simp)
  rw [List.singleton_append, List.getLast?_cons_of_ne_nil (by simp), List.getLast?_append,
    List.getLast?_cons_of_ne_nil htail]
  rw [List.getLast?_eq_some_getLast htail] at hlast ⊢
  rwa [Option.some_or]

end LogSource

namespace LogReader

/-- The place of a run is a normal URI. -/
theorem normal_runRoot {logs : ObjectUri} (h : logs.Normal) (handle : RunHandle) :
    (runRoot logs handle).Normal :=
  ObjectUri.normal_join (ObjectUri.normal_join (ObjectUri.normal_join
    (ObjectUri.normal_join h _) _) _) _

/-- The place of a run is never a whole bucket. -/
theorem key_runRoot_ne_nil (logs : ObjectUri) (handle : RunHandle) :
    (runRoot logs handle).key.toList ≠ [] := by
  refine ObjectUri.key_join_ne_nil (Or.inl (ObjectUri.key_join_ne_nil (Or.inr ?_)))
  decide

/-- A listed log is asked for by its own key. -/
theorem withKey_runRoot {logs : ObjectUri} (hlogs : logs.Normal) {handle : RunHandle}
    {key : String} {source : LogSource}
    (h : LogSource.ofKey? (runRoot logs handle).listing key = some source) :
    (runRoot logs handle).withKey key = { runRoot logs handle with key } :=
  ObjectUri.withKey_of_endsClear _
    (LogSource.endsClear_of_ofKey? (normal_runRoot hlogs handle) (key_runRoot_ne_nil logs handle) h)

end LogReader

end BatchRun
