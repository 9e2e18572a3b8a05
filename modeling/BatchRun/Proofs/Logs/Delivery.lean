import BatchRun.Proofs.Logs.Drain
import BatchRun.Proofs.Logs.History

/-!
# Delivery of Log Lines

Every line of every log is delivered once.

While a run goes on, what was delivered of a log are the first of its finished
lines. When nothing more is written, a last reading that finds everything as it
will be delivers what is missing, and the unfinished line at the end.

Objects are told apart by size and tag alone. A log that comes back to a size
and a tag which it had before, with more in it, is taken for the one that was
read, and the rest of its lines is lost. That every version is listed otherwise
than the one before it does not prevent this.

## Main definitions

* `LogHistory.plain`, `LogHistory.compressed`: Two logs.

## Theorems

* `lines_delivered_once`: Every line is delivered once.
* `lines_delivered_once_racing`: A log that is written between its listing and
  its get.
* `lines_lost_relisted`: A log that comes back to the size it had.
-/

namespace BatchRun

/-- Every line is delivered once. Of each log, those that were delivered in any
    batches are the first of its finished lines. The last reading comes to its
    end if its listing does, and all lines were delivered then. -/
theorem lines_delivered_once {σ : Type} {service : Service σ} {scheme bucket place : String}
    {handle : RunHandle}
    (store : LogStore service (LogReader.runRoot (.make scheme bucket place) handle))
    (tree : FileTree) (rounds : Nat) {reader : LogReader} {session : Session σ}
    {lines : List LogLine}
    (h : Reading store tree rounds (LogReader.make (some (.make scheme bucket place)) handle)
      reader session lines) :
    (∃ share, Interleaved (LogReader.runRoot (.make scheme bucket place) handle) share lines ∧
      ∀ key, IsLog (LogReader.runRoot (.make scheme bucket place) handle) key →
        share key <+: LogCursor.finished (store.text session.state key)) ∧
    ∀ objects listed, LogReader.listAll (Session.host service tree rounds)
        (LogReader.runRoot (.make scheme bucket place) handle) rounds none [] session =
          (some (.ok objects), listed) →
      listed.deadline = none → store.Complete listed.state objects →
      store.ToldApart listed.state →
      ∃ last after final, LogReader.read (Session.host service tree rounds) true reader session =
          (some (last, after), final) ∧
        ∃ share, Interleaved (LogReader.runRoot (.make scheme bucket place) handle) share
            (lines ++ last) ∧
          ∀ key, IsLog (LogReader.runRoot (.make scheme bucket place) handle) key →
            share key = LogCursor.messages (store.text final.state key) := by
  -- The place of a run is a normal URI, so its logs are asked for as they were listed.
  have hplace : ∀ key, IsLog (LogReader.runRoot (.make scheme bucket place) handle) key →
      (LogReader.runRoot (.make scheme bucket place) handle).withKey key =
        { LogReader.runRoot (.make scheme bucket place) handle with key } := by
    intro key hlog
    rcases hlog with ⟨source, hsource⟩
    exact LogReader.withKey_runRoot (ObjectUri.normal_make _ _ _) hsource
  rcases store.holds_of_reading tree rounds hplace h with ⟨hroot, share, hshare, hholds⟩
  refine ⟨⟨share, hshare, fun key hlog =>
    LogCursor.prefix_of_knows (store.grown _ key hlog) (hholds key)⟩, ?_⟩
  intro objects listed hlist hlimit hcomplete htold
  rcases store.shown_of_listAll tree rounds _ none [] session listed _ (fun _ => rfl)
    (fun object hno => absurd hno List.not_mem_nil) hlist with ⟨hkept, hshown⟩
  have hmem : ∀ object ∈ objects.mergeSort LogReader.keyLe, object ∈ objects :=
    fun object hobject => List.mem_mergeSort.mp hobject
  rcases store.exhausted_of_readObjects tree rounds hplace htold hcomplete hmem Fetching.refl
    hlimit (fun object hobject => hshown objects rfl object (hmem object hobject)) hshare
    (fun key => Or.inr (store.holds_mono hkept hholds key)) with
    ⟨last, cursors, final, hread, hfetching, share', hshare', hdraining, hall, _⟩
  refine ⟨last, { reader with cursors }, final, ?_, share', hshare', fun key hlog => ?_⟩
  · unfold LogReader.read
    simp only [hroot]
    exact (Action.bind_of_some hlist).trans (Action.bind_of_some hread)
  rw [LogStore.text, hcomplete.still _ hfetching key]
  by_cases hnone : store.versions listed.state key = []
  · -- A log that was never written was not read either, since a cursor comes from a version.
    rcases hdraining key with ⟨cursor, _, hdone⟩ | hknows
    · exact hdone.delivered
    · have hpre := LogCursor.prefix_of_knows (store.grown _ key hlog) hknows
      rw [hnone] at hpre ⊢
      exact List.prefix_nil.mp hpre
  · rcases hcomplete.all key hlog hnone with ⟨object, hobject, rfl⟩
    rcases hall object (List.mem_mergeSort.mpr hobject) hlog with ⟨cursor, _, hdone⟩
    exact hdone.delivered

namespace LogHistory

/-- The place below which the logs of the run are. -/
def place : ObjectUri :=
  LogReader.runRoot (.make "s3" "bucket" "logs") ⟨"app", "run"⟩

/-- A log in plain text that is written in the middle of a line. -/
def plain : LogHistory where
  key := "logs/applications/app/jobs/run/SPARK_DRIVER/stdout"
  versions := [⟨2, none, [97, 10]⟩, ⟨3, none, [97, 10, 98]⟩, ⟨6, none, [97, 10, 98, 99, 13, 10]⟩]
  grow := by
    unfold LogVersion.Grow
    decide +kernel

/-- A compressed log whose last version is as long as its first. -/
def compressed : LogHistory where
  key := "logs/applications/app/jobs/run/SPARK_DRIVER/stdout.gz"
  versions :=
    [⟨25, none, [31, 139, 8, 0, 0, 0, 0, 0, 0, 255, 1, 2, 0, 253, 255, 97, 10, 7, 161, 234, 221,
        2, 0, 0, 0]⟩,
      ⟨26, none, [31, 139, 8, 0, 0, 0, 0, 0, 0, 255, 1, 3, 0, 252, 255, 97, 10, 98, 251, 144, 7,
        239, 3, 0, 0, 0]⟩,
      ⟨25, none, [31, 139, 8, 0, 0, 0, 0, 0, 0, 255, 75, 228, 74, 74, 230, 2, 0, 176, 135, 155,
        232, 5, 0, 0, 0]⟩]
  grow := by
    unfold LogVersion.Grow
    decide +kernel

end LogHistory

/-- A log that is written between its listing and its get, in the middle of a
    line. -/
theorem lines_delivered_once_racing :
    ∃ last after final, LogReader.read
        (Session.host LogHistory.plain.service FileTree.empty 2) true
        ⟨some LogHistory.place, [(LogHistory.plain.key, ⟨2, none, 1, some "b"⟩)]⟩
        (Session.start (3, 0) none) = (some (last, after), final) ∧
      ∃ share, Interleaved LogHistory.place share
          ([⟨⟨"SPARK_DRIVER", "stdout"⟩, "a"⟩] ++ last) ∧
        ∀ key, IsLog LogHistory.place key → share key =
          LogCursor.messages ((LogHistory.plain.store LogHistory.place).text final.state key) :=
  (lines_delivered_once (LogHistory.plain.store LogHistory.place) FileTree.empty 2
    (.meanwhile
      (.batch (.start (Session.start (1, 1) none)) (Prod.ext (by decide +kernel) rfl))
      (Session.start (3, 0) none)
      (LogHistory.plain.written_mono (by decide +kernel)))).2
    [⟨LogHistory.plain.key, 6, none⟩] _ (Prod.ext (by decide +kernel) rfl) rfl
    (LogHistory.plain.complete _ (by decide +kernel) rfl
      (show _ = some [97, 10, 98, 99, 13, 10] by decide +kernel))
    (LogHistory.plain.toldApart _ _ (by unfold LogVersion.ToldApart; decide +kernel))

/-- A compressed log that comes back to the size it had when it was read. Every
    version is listed otherwise than the one before, and yet its second line is
    never delivered. -/
theorem lines_lost_relisted :
    ∃ reader listed final,
      Reading (LogHistory.compressed.store LogHistory.place) FileTree.empty 2
        ⟨some LogHistory.place, []⟩ reader (Session.start (3, 0) none)
        [⟨⟨"SPARK_DRIVER", "stdout"⟩, "a"⟩] ∧
      LogReader.listAll (Session.host LogHistory.compressed.service FileTree.empty 2)
        LogHistory.place 2 none [] (Session.start (3, 0) none) =
          (some (.ok [⟨LogHistory.compressed.key, 25, none⟩]), listed) ∧
      listed.deadline = none ∧
      (LogHistory.compressed.store LogHistory.place).Complete listed.state
        [⟨LogHistory.compressed.key, 25, none⟩] ∧
      (LogHistory.compressed.store LogHistory.place).Relisted listed.state ∧
      LogReader.read (Session.host LogHistory.compressed.service FileTree.empty 2) true reader
        (Session.start (3, 0) none) = (some ([], reader), final) ∧
      ¬ ∃ share, Interleaved LogHistory.place share [⟨⟨"SPARK_DRIVER", "stdout"⟩, "a"⟩] ∧
        ∀ key, IsLog LogHistory.place key → share key =
          LogCursor.messages
            ((LogHistory.compressed.store LogHistory.place).text final.state key) := by
  refine ⟨⟨some LogHistory.place, [(LogHistory.compressed.key, ⟨25, none, 1, none⟩)]⟩, _, _,
    .meanwhile (.batch (.start (Session.start (1, 0) none)) (Prod.ext (by decide +kernel) rfl))
      (Session.start (3, 0) none) (LogHistory.compressed.written_mono (by decide +kernel)),
    Prod.ext (by decide +kernel) rfl, rfl,
    LogHistory.compressed.complete _ (by decide +kernel) rfl
      (show _ = some [97, 10, 98, 99, 10] by decide +kernel),
    LogHistory.compressed.relisted _ _ (by unfold LogVersion.Relisted; decide +kernel),
    Prod.ext (by decide +kernel) rfl, ?_⟩
  -- If all lines had been delivered, the second one would be among them.
  rintro ⟨share, hshare, hall⟩
  have hlines := hshare.sublist LogHistory.compressed.key
  rw [hall _ ⟨⟨"SPARK_DRIVER", "stdout"⟩, by decide +kernel⟩] at hlines
  exact absurd hlines (by decide +kernel)

end BatchRun
