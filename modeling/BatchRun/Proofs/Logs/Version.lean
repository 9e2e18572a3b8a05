import BatchRun.Proofs.Logs.Cursor
import Mathlib.Data.List.Basic

/-!
# Versions of a Log

What a cursor knows of a log that was rewritten many times.

A log object has versions, each of which says more than the ones before. A
reader sees some of them, and what it sees of one may be older than what it gets
of it. Whatever it has got, the lines it has delivered are the finished lines of
one of the versions, so they are the first lines of every later one.

When the last version is read as the last one, the cursor is behind all finished
lines of it, or knows where they begin. This takes that a version which is listed
like an earlier one also holds the same, or else a reader would take it for the
one it has read.

## Main definitions

* `LogVersion`: What a listing says about a version, and what it holds.
* `LogVersion.contents`, `LogVersion.newest`: What the readable versions hold.
* `LogCursor.Tracks`: What a cursor knows of a log while it grows.
* `LogCursor.Knows`: The same, for a log that may never have been read.
* `LogCursor.Exhausts`: What a cursor knows of a log when it was read for the
  last time.

## Theorems

* `LogCursor.knows_mono`: Nothing is lost when versions are added.
* `LogCursor.tracks_advance`: A reading of a version that may not be the last.
* `LogCursor.exhausts_advance`, `LogCursor.exhausts_release`: The last reading.
-/

namespace BatchRun

/-- A version of a log object: what a listing says about it, and what it
    holds. -/
structure LogVersion where
  size : Nat
  etag : Option String
  body : Bytes
  deriving DecidableEq, Repr

namespace LogVersion

/-- What a version holds when it is decompressed. A compressed one may be
    unreadable. -/
def content? (key : String) (version : LogVersion) : Option Bytes :=
  if LogSource.isCompressed key then Gzip.decode? version.body else some version.body

/-- Whether a listing says of an object what it says of a version. -/
def IsListedAs (version : LogVersion) (object : ObjectSummary) : Prop :=
  version.size = object.size ∧ version.etag = object.etag

/-- What the readable versions hold, the oldest first. -/
def contents (key : String) (versions : List LogVersion) : List Bytes :=
  versions.filterMap (content? key)

/-- What the newest readable version holds. -/
def newest (key : String) (versions : List LogVersion) : Bytes :=
  (contents key versions).getLast?.getD []

/-- Every readable version begins with what the earlier ones hold. -/
def Grow (key : String) (versions : List LogVersion) : Prop :=
  (contents key versions).Pairwise (· <+: ·)

/-- Versions that a listing does not tell apart hold the same. -/
def ToldApart (versions : List LogVersion) : Prop :=
  ∀ v ∈ versions, ∀ w ∈ versions, v.size = w.size → v.etag = w.etag → v.body = w.body

/-- Every version is listed otherwise than the one before it. -/
def Relisted (versions : List LogVersion) : Prop :=
  versions.IsChain fun v w => v.size ≠ w.size ∨ v.etag ≠ w.etag

theorem decode?_eq (key : String) (version : LogVersion) :
    LogCursor.decode? key version.body = (version.content? key).map Utf8.lossyChars := by
  unfold LogCursor.decode? content?
  by_cases h : LogSource.isCompressed key = true
  · rw [if_pos h, if_pos h]
  · rw [if_neg h, if_neg h, Option.map_some]

/-- A later version begins with what an earlier one holds. -/
theorem prefix_of_le {key : String} {versions : List LogVersion} (hgrow : Grow key versions)
    {i j : Nat} (hij : i ≤ j) {v w : LogVersion} (hv : versions[i]? = some v)
    (hw : versions[j]? = some w) {a b : Bytes} (ha : v.content? key = some a)
    (hb : w.content? key = some b) : a <+: b := by
  rw [Grow, contents, List.pairwise_filterMap, List.pairwise_iff_getElem] at hgrow
  rcases List.getElem?_eq_some_iff.mp hv with ⟨hi, rfl⟩
  rcases List.getElem?_eq_some_iff.mp hw with ⟨hj, rfl⟩
  rcases Nat.lt_or_eq_of_le hij with hlt | rfl
  · exact hgrow i j hi hj hlt a ha b hb
  · rw [ha, Option.some.injEq] at hb
    exact hb ▸ List.prefix_rfl

theorem mem_contents {key : String} {versions : List LogVersion} {i : Nat} {v : LogVersion}
    (hv : versions[i]? = some v) {a : Bytes} (ha : v.content? key = some a) :
    a ∈ contents key versions :=
  List.mem_filterMap.mpr ⟨v, List.mem_of_getElem? hv, ha⟩

theorem contents_mono {key : String} {versions later : List LogVersion}
    (h : versions <+: later) : contents key versions <+: contents key later :=
  h.filterMap _

/-- The newest version begins with what any of them holds. -/
theorem prefix_newest {key : String} {versions : List LogVersion} (hgrow : Grow key versions)
    {a : Bytes} (ha : a ∈ contents key versions) : a <+: newest key versions := by
  rcases List.eq_nil_or_concat (contents key versions) with hnil | ⟨front, last, hcat⟩
  · rw [hnil] at ha
    exact absurd ha List.not_mem_nil
  · rw [Grow, hcat, List.concat_eq_append, List.pairwise_append] at hgrow
    rw [hcat, List.concat_eq_append, List.mem_append, List.mem_singleton] at ha
    rw [newest, hcat, List.concat_eq_append, List.getLast?_concat, Option.getD_some]
    rcases ha with ha | rfl
    · exact hgrow.2.2 a ha last (List.mem_singleton.mpr rfl)
    · exact List.prefix_rfl

/-- The newest version is the last one, if that can be read. -/
theorem newest_of_getLast? {key : String} {versions : List LogVersion} {last : LogVersion}
    (hlast : versions.getLast? = some last) {a : Bytes} (ha : last.content? key = some a) :
    newest key versions = a := by
  rcases List.eq_nil_or_concat versions with hnil | ⟨front, v, hcat⟩
  · rw [hnil, List.getLast?_nil] at hlast
    exact absurd hlast (by simp only [reduceCtorEq, not_false_eq_true])
  · rw [hcat, List.concat_eq_append, List.getLast?_concat, Option.some.injEq] at hlast
    rw [newest, contents, hcat, List.concat_eq_append, List.filterMap_append, hlast,
      List.filterMap_cons_some ha, List.filterMap_nil, List.getLast?_concat, Option.getD_some]

/-- A version that is at least as new as one which is listed like the last one
    holds what the last one holds. -/
theorem content_of_listed_last {key : String} {versions : List LogVersion}
    (hgrow : Grow key versions) (htold : ToldApart versions) {last : LogVersion}
    (hlast : versions.getLast? = some last) {a : Bytes} (ha : last.content? key = some a)
    {i j : Nat} (hij : i ≤ j) {v w : LogVersion} (hv : versions[i]? = some v)
    (hw : versions[j]? = some w) (hsize : v.size = last.size) (hetag : v.etag = last.etag)
    {b : Bytes} (hb : w.content? key = some b) : b = a := by
  -- The content is at least that of the version listed alike, and at most that of the last.
  have hbody := htold v (List.mem_of_getElem? hv) last (List.mem_of_getLast? hlast) hsize hetag
  have hva : v.content? key = some a := by
    rw [← ha, content?, content?, hbody]
  have hlast' : versions[versions.length - 1]? = some last := by
    rw [← List.getLast?_eq_getElem?, hlast]
  have hj : j ≤ versions.length - 1 := by
    have hlt := (List.getElem?_eq_some_iff.mp hw).1
    omega
  exact (prefix_of_le hgrow hj hw hlast' hb ha).eq_of_length_le
    (prefix_of_le hgrow hij hv hw hva hb).length_le

theorem getElem?_mono {versions later : List LogVersion} (h : versions <+: later) {i : Nat}
    {v : LogVersion} (hv : versions[i]? = some v) : later[i]? = some v := by
  rcases h with ⟨more, rfl⟩
  rw [List.getElem?_append_left (List.getElem?_eq_some_iff.mp hv).1, hv]

end LogVersion

namespace LogCursor

open LogVersion

/-- How a cursor came about: one version was listed, one that is no older was
    got and read, and the cursor has the size and the tag of the first and what
    was held back of the second. -/
def Seen (key : String) (versions : List LogVersion) (cursor : LogCursor) : Prop :=
  ∃ (i j : Nat) (listed fetched : LogVersion) (bytes : Bytes), i ≤ j ∧
    versions[i]? = some listed ∧ versions[j]? = some fetched ∧
    listed.size = cursor.size ∧ listed.etag = cursor.etag ∧
    fetched.content? key = some bytes ∧
    (finished (Utf8.lossyChars bytes)).length ≤ cursor.emitted ∧
    cursor.tail = heldBack cursor.emitted (Utf8.lossyChars bytes)

/-- What a cursor knows of a log while it grows: the lines that were delivered
    are the finished lines of one of its versions, and it has their count. -/
structure Tracks (key : String) (versions : List LogVersion) (cursor : LogCursor)
    (share : List String) : Prop where
  counted : cursor.emitted = share.length
  delivered : ∃ bytes ∈ contents key versions, share = finished (Utf8.lossyChars bytes)
  seen : Seen key versions cursor

/-- What is known of a log while it grows. Of one that was never read nothing
    was delivered. -/
def Knows (key : String) (versions : List LogVersion) :
    Option LogCursor → List String → Prop
  | none, share => share = []
  | some cursor, share => Tracks key versions cursor share

/-- What a cursor knows of a log that was read for the last time: all lines of
    its newest version were delivered, and it will not be read again. -/
structure Exhausts (key : String) (versions : List LogVersion) (cursor : LogCursor)
    (share : List String) : Prop where
  delivered : share = messages (Utf8.lossyChars (newest key versions))
  tail_eq : cursor.tail = none
  current : ∃ last, versions.getLast? = some last ∧ last.size = cursor.size ∧
    last.etag = cursor.etag

/-- Nothing is lost when versions are added. -/
theorem knows_mono {key : String} {versions later : List LogVersion} (h : versions <+: later)
    {cursor : Option LogCursor} {share : List String} (hknows : Knows key versions cursor share) :
    Knows key later cursor share := by
  cases cursor with
  | none => exact hknows
  | some cursor =>
      rcases hknows with ⟨hcount, ⟨bytes, hmem, hshare⟩, i, j, v, w, got, hij, hv, hw, hrest⟩
      exact ⟨hcount, ⟨bytes, (contents_mono h).subset hmem, hshare⟩, i, j, v, w, got, hij,
        getElem?_mono h hv, getElem?_mono h hw, hrest⟩

/-- A count of the delivered lines is all that the next reading needs. -/
theorem emitted_of_knows {key : String} {versions : List LogVersion} {cursor : Option LogCursor}
    {share : List String} (h : Knows key versions cursor share) :
    (cursor.getD start).emitted = share.length := by
  cases cursor with
  | none =>
      rw [Knows] at h
      rw [h]
      rfl
  | some cursor => exact h.counted

/-- What was delivered are the first of the finished lines of the newest
    version. -/
theorem prefix_of_knows {key : String} {versions : List LogVersion} (hgrow : Grow key versions)
    {cursor : Option LogCursor} {share : List String} (h : Knows key versions cursor share) :
    share <+: finished (Utf8.lossyChars (newest key versions)) := by
  cases cursor with
  | none =>
      rw [Knows] at h
      rw [h]
      exact List.nil_prefix
  | some cursor =>
      rcases h.delivered with ⟨bytes, hmem, hshare⟩
      rw [hshare]
      exact finished_lossyChars_mono (prefix_newest hgrow hmem)

/-- What is delivered next follows on what was delivered: together they are the
    longer of the two. -/
theorem append_drop_of_prefix {share lines all : List String} (hshare : share <+: all)
    (hlines : lines <+: all) :
    share ++ lines.drop share.length = if share.length ≤ lines.length then lines else share := by
  rcases List.prefix_or_prefix_of_prefix hshare hlines with ⟨more, hmore⟩ | hpre
  · rw [← hmore, List.drop_left, if_pos (by rw [List.length_append]; omega)]
  · rw [List.drop_eq_nil_of_le hpre.length_le, List.append_nil]
    split
    · next hle => exact (hpre.eq_of_length_le hle).symm
    · rfl

/-- A reading of a version that may not be the last delivers what is new in it,
    and the cursor behind it knows that. -/
theorem tracks_advance {key : String} {versions : List LogVersion} (hgrow : Grow key versions)
    {cursor : Option LogCursor} {share : List String} (hknows : Knows key versions cursor share)
    {object : ObjectSummary} {i j : Nat} (hij : i ≤ j) {v w : LogVersion}
    (hv : versions[i]? = some v) (hlisted : v.IsListedAs object) (hw : versions[j]? = some w)
    {bytes : Bytes} (hbytes : w.content? key = some bytes) :
    Tracks key versions
      ((cursor.getD start).advance object (Utf8.lossyChars bytes) false).2
      (share ++ ((cursor.getD start).advance object (Utf8.lossyChars bytes) false).1) := by
  have hcount := emitted_of_knows hknows
  have hmem := mem_contents hw hbytes
  have hlines := append_drop_of_prefix (prefix_of_knows hgrow hknows)
    (finished_lossyChars_mono (prefix_newest hgrow hmem))
  rw [advance_held, hcount]
  refine ⟨?_, ?_, i, j, v, w, bytes, hij, hv, hw, hlisted.1, hlisted.2, hbytes, ?_, rfl⟩
  · simp only [List.length_append, List.length_drop]
    omega
  · -- The new lines are those of this version, or there are none.
    simp only [hlines]
    split
    · exact ⟨bytes, hmem, rfl⟩
    · next hlt =>
      cases cursor with
      | none =>
          rw [Knows] at hknows
          rw [hknows] at hlt
          exact absurd (Nat.zero_le _) hlt
      | some cursor => exact hknows.delivered
  · exact Nat.le_max_right _ _

/-- When all finished lines were delivered, what is held back is what is left. -/
theorem messages_of_held {key : String} {versions : List LogVersion} {share : List String}
    {a : Bytes} (hshare : share <+: finished (Utf8.lossyChars a))
    (hle : (finished (Utf8.lossyChars a)).length ≤ share.length)
    (hnewest : newest key versions = a) :
    share ++ (heldBack share.length (Utf8.lossyChars a)).toList =
      messages (Utf8.lossyChars (newest key versions)) := by
  rw [hnewest, messages_eq, hshare.eq_of_length_le hle]

/-- The last reading of a log that is not as it was delivers the rest of its
    lines. -/
theorem exhausts_advance {key : String} {versions : List LogVersion} (hgrow : Grow key versions)
    (htold : ToldApart versions) {last : LogVersion} (hlast : versions.getLast? = some last)
    {a : Bytes} (ha : last.content? key = some a) {object : ObjectSummary}
    (hobject : last.IsListedAs object) {cursor : Option LogCursor} {share : List String}
    (hknows : Knows key versions cursor share) {i j : Nat} (hij : i ≤ j) {v w : LogVersion}
    (hv : versions[i]? = some v) (hlisted : v.IsListedAs object) (hw : versions[j]? = some w)
    {bytes : Bytes} (hbytes : w.content? key = some bytes) :
    Exhausts key versions
      ((cursor.getD start).advance object (Utf8.lossyChars bytes) true).2
      (share ++ ((cursor.getD start).advance object (Utf8.lossyChars bytes) true).1) := by
  -- What was read is what the last version holds, since that was listed.
  have hsame := content_of_listed_last hgrow htold hlast ha hij hv hw
    (hlisted.1.trans hobject.1.symm) (hlisted.2.trans hobject.2.symm) hbytes
  have hnewest := newest_of_getLast? hlast ha
  have hcount := emitted_of_knows hknows
  have hpre := prefix_of_knows hgrow hknows
  rw [hnewest] at hpre
  rw [hsame]
  rcases advance_flushed (cursor.getD start) object (Utf8.lossyChars a) with
    ⟨hlines, hsize, hetag, htail⟩
  refine ⟨?_, htail, last, hlast, hobject.1.trans hsize.symm, hobject.2.trans hetag.symm⟩
  -- The finished lines are complete with this reading, and the rest follows.
  rw [hlines, hcount, Nat.max_eq_right hpre.length_le, ← List.append_assoc,
    append_drop_of_prefix hpre List.prefix_rfl, if_pos hpre.length_le]
  exact messages_of_held List.prefix_rfl (Nat.le_refl _) hnewest

/-- If a log is as it was when it was read, all that is left of it is the line
    that was held back. -/
theorem exhausts_release {key : String} {versions : List LogVersion} (hgrow : Grow key versions)
    (htold : ToldApart versions) {last : LogVersion} (hlast : versions.getLast? = some last)
    {a : Bytes} (ha : last.content? key = some a) {cursor : LogCursor} {share : List String}
    (htracks : Tracks key versions cursor share) (hsize : last.size = cursor.size)
    (hetag : last.etag = cursor.etag) :
    Exhausts key versions cursor.release.2 (share ++ cursor.release.1) := by
  rcases htracks.seen with ⟨i, j, v, w, bytes, hij, hv, hw, hvs, hve, hbytes, hle, htail⟩
  -- The cursor was made from a version that is listed like the last one.
  have hsame := content_of_listed_last hgrow htold hlast ha hij hv hw
    (hvs.trans hsize.symm) (hve.trans hetag.symm) hbytes
  have hnewest := newest_of_getLast? hlast ha
  have hpre := prefix_of_knows hgrow (show Knows key versions (some cursor) share from htracks)
  rw [hnewest] at hpre
  rw [hsame, htracks.counted] at hle htail
  have hall := messages_of_held hpre hle hnewest
  rw [← htail] at hall
  unfold release
  cases hc : cursor.tail with
  | none =>
      rw [hc, Option.toList_none] at hall
      exact ⟨hall, hc, last, hlast, hsize, hetag⟩
  | some tail =>
      rw [hc, Option.toList_some] at hall
      exact ⟨hall, rfl, last, hlast, hsize, hetag⟩

/-- A log that was read for the last time has nothing more to say. -/
theorem exhausts_again {key : String} {versions : List LogVersion} {cursor : LogCursor}
    {share : List String} (h : Exhausts key versions cursor share) :
    Exhausts key versions cursor.release.2 (share ++ cursor.release.1) := by
  unfold release
  rw [h.tail_eq]
  simpa only [List.append_nil] using h

end LogCursor

end BatchRun
