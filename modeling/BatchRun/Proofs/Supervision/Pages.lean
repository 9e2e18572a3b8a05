import BatchRun.Proofs.Session.Quiet

/-!
# Attempts on Several Pages

Which attempt a run is judged by when its attempts fill several pages.

The attempts at a run are served page by page, each page but the last with a
cursor of its own for the next one. Supervision takes one page at a poll and
judges the run by the newest attempt on it. So it walks through the pages in
their order as long as none ends with an attempt that has stopped, and stays on
the last one. The first page that does end with such an attempt is where it
stops, be it the last page or not: if there are more, a newer attempt is
overlooked.

## Main definitions

* `Linked`: Pages that lead from one to the next.
* `pagesFrom`: The pages from a cursor on.
* `Serves`: A service that has these pages.
* `Passed`: Where a walk through the pages stands.

## Theorems

* `Linked.pagesFrom_cursor`: The cursor of a page leads to the next one.
* `Supervision.eq_of_digest`, `Supervision.eq_of_poll`: What a poll says and
  keeps.
* `Passed.passed_of_poll`: A poll that decides nothing leads one page on, or
  stays on the last one.
* `supervise_judges_first_stopped`: A run is judged by the first page that ends
  with an attempt that has stopped.
* `supervise_overlooks_retry`: A newer attempt may be overlooked.
-/

namespace BatchRun

/-- Pages that lead from one to the next. None is empty, and no cursor is used
    twice. -/
inductive Linked : List AttemptPage → Prop
  | last {page : AttemptPage} (hattempts : page.attempts ≠ []) (hlast : page.nextToken = none) :
      Linked [page]
  | more {page : AttemptPage} {rest : List AttemptPage} {token : String}
      (hattempts : page.attempts ≠ []) (htoken : page.nextToken = some token)
      (hown : ∀ other ∈ rest, other.nextToken ≠ some token) (hrest : Linked rest) :
      Linked (page :: rest)

/-- The pages from a cursor on. -/
def pagesFrom : Option String → List AttemptPage → List AttemptPage
  | none, pages => pages
  | some _, [] => []
  | some token, page :: rest =>
    if page.nextToken = some token then rest else pagesFrom (some token) rest

/-- A service that has some pages about a run. What else it says does not
    matter, and neither does it when it fails. -/
def Serves {σ : Type} (service : Service σ) (handle : RunHandle) (pages : List AttemptPage) :
    Prop :=
  ∀ token state page, (service.reply (.attempts handle token) state).answer = .ok page →
    (pagesFrom token pages).head? = some page

/-- The newest attempt on a page has not stopped. -/
def AttemptPage.EndsOpen (page : AttemptPage) : Prop :=
  ∀ attempt, page.latest = some attempt → attempt.state.isTerminal = false

namespace Linked

variable {pages earlier later : List AttemptPage} {page : AttemptPage}

theorem attempts_ne_nil (h : Linked pages) (hmem : page ∈ pages) : page.attempts ≠ [] := by
  induction h with
  | last hattempts _ =>
      rw [List.mem_singleton.mp hmem]
      exact hattempts
  | more hattempts _ _ _ ih =>
      rcases List.mem_cons.mp hmem with rfl | hlater
      · exact hattempts
      · exact ih hlater

/-- The cursor of a page leads to the pages behind it, of which there is one. -/
theorem pagesFrom_cursor (h : Linked (earlier ++ page :: later)) {token : String}
    (htoken : page.nextToken = some token) :
    pagesFrom (some token) (earlier ++ page :: later) = later ∧ later ≠ [] := by
  induction earlier with
  | nil =>
      refine ⟨if_pos htoken, ?_⟩
      rintro rfl
      cases h with
      | last _ hlast =>
          rw [htoken] at hlast
          exact absurd hlast (by simp only [reduceCtorEq, not_false_eq_true])
      | more _ _ _ hrest => cases hrest
  | cons first earlier ih =>
      rw [List.cons_append] at h ⊢
      cases hrest : earlier ++ page :: later with
      | nil => exact absurd hrest (List.append_ne_nil_of_right_ne_nil _ (List.cons_ne_nil _ _))
      | cons second rest =>
          rw [hrest] at h ih
          cases h with
          | more _ hfirst hown hlinked =>
              rcases ih hlinked with ⟨hbehind, hne⟩
              refine ⟨?_, hne⟩
              rw [pagesFrom, if_neg, hbehind]
              -- A cursor of an earlier page is not the one of a later page.
              intro hsame
              refine hown page ?_ (htoken.trans (hsame.symm.trans hfirst))
              rw [← hrest]
              exact List.mem_append_right _ List.mem_cons_self

/-- Only the last page has no cursor. -/
theorem later_eq_nil (h : Linked (earlier ++ page :: later)) (hlast : page.nextToken = none) :
    later = [] := by
  induction earlier with
  | nil =>
      cases h with
      | last _ _ => rfl
      | more _ htoken _ _ =>
          rw [hlast] at htoken
          exact absurd htoken (by simp only [reduceCtorEq, not_false_eq_true])
  | cons first earlier ih =>
      rw [List.cons_append] at h
      cases hrest : earlier ++ page :: later with
      | nil => exact absurd hrest (List.append_ne_nil_of_right_ne_nil _ (List.cons_ne_nil _ _))
      | cons second rest =>
          rw [hrest] at h ih
          cases h with
          | more _ _ _ hlinked => exact ih hlinked

end Linked

variable {σ κ : Type} {service : Service σ} {handle : RunHandle} {pages : List AttemptPage}
  {read : Bool → κ → Action σ (List LogLine × κ)} {tree : FileTree} {limit : Nat}

namespace Supervision

/-- A page is judged by its newest attempt, and its cursor is kept if it has
    one. -/
theorem eq_of_digest {runId : String} {watch after : Watch κ} {page : AttemptPage}
    {attempt : Attempt} (hlatest : page.latest = some attempt) {decided : Option Outcome}
    {session next : Session σ}
    (h : digest (Session.host service tree limit) read runId watch page session =
      (some (decided, after), next)) :
    decided = Outcome.ofAttempt? runId attempt ∧ after.reported = some attempt.state ∧
      after.token = page.nextToken.or watch.token := by
  unfold digest at h
  rw [hlatest] at h
  rcases Action.eq_of_bind h with ⟨_, _, _, h⟩
  rcases Action.eq_of_bind h with ⟨⟨lines, logs⟩, _, _, h⟩
  rcases Action.eq_of_bind h with ⟨_, _, _, h⟩
  rcases Prod.mk.inj (Action.eq_of_pure h).1 with ⟨rfl, rfl⟩
  exact ⟨rfl, rfl, rfl⟩

/-- A poll is answered by a page, which it digests, or by an error, which does not
    stop a run and leaves the cursor where it is. -/
theorem eq_of_poll {watch after : Watch κ} {decided : Option Outcome} {session next : Session σ}
    (h : poll (Session.host service tree limit) read handle watch session =
      (some (decided, after), next)) :
    (∃ page, (service.reply (.attempts handle watch.token) session.state).answer = .ok page ∧
        ∀ attempt, page.latest = some attempt →
          decided = Outcome.ofAttempt? handle.runId attempt ∧
          after.reported = some attempt.state ∧ after.token = page.nextToken.or watch.token) ∨
      ((∀ outcome, decided = some outcome → outcome.mayBeAlive = true) ∧
        after.token = watch.token) := by
  rcases Action.eq_of_bind h with ⟨answer, middle, hasked, hrest⟩
  cases answer with
  | ok page =>
      refine Or.inl ⟨page, (Session.eq_of_ask hasked).1, fun attempt hlatest => ?_⟩
      have hdigest : digest (Session.host service tree limit) read handle.runId
        { watch with timer := watch.timer.reset } page middle =
          (some (decided, after), next) := hrest
      have hdigested := eq_of_digest hlatest hdigest
      exact hdigested
  | error error =>
      right
      simp only at hrest
      by_cases hpatience : error.isThrottling = true
      · rw [if_pos hpatience] at hrest
        rcases Prod.mk.inj (Action.eq_of_pure hrest).1 with ⟨rfl, rfl⟩
        exact ⟨fun _ hno => absurd hno (by simp only [reduceCtorEq, not_false_eq_true]), rfl⟩
      · rw [if_neg hpatience] at hrest
        rcases Prod.mk.inj (Action.eq_of_pure hrest).1 with ⟨rfl, rfl⟩
        refine ⟨fun outcome houtcome => ?_, rfl⟩
        rw [← Option.some.inj houtcome]
        rfl

end Supervision

/-- Where a walk through some pages stands: which are still to come from a cursor
    on, behind others of which none ends with an attempt that has stopped. -/
structure Passed (pages : List AttemptPage) (token : Option String)
    (earlier later : List AttemptPage) : Prop where
  pages_eq : pages = earlier ++ later
  pagesFrom_eq : pagesFrom token pages = later
  open_earlier : ∀ page ∈ earlier, page.EndsOpen

/-- A poll behind which supervision goes on leads one page on, or none. -/
theorem Passed.passed_of_poll (hlinked : Linked pages) (hserves : Serves service handle pages)
    {earlier later : List AttemptPage} {watch after : Watch κ} {session next : Session σ}
    (hstands : Passed pages watch.token earlier later)
    (h : Supervision.poll (Session.host service tree limit) read handle watch session =
      (some (none, after), next)) :
    ∃ earlier later, Passed pages after.token earlier later := by
  rcases Supervision.eq_of_poll h with ⟨page, hanswer, hdigested⟩ | ⟨_, htoken⟩
  · have hhead := hserves _ _ _ hanswer
    rw [hstands.pagesFrom_eq] at hhead
    rcases List.head?_eq_some_iff.mp hhead with ⟨rest, hlater⟩
    have hpages : pages = earlier ++ page :: rest := by rw [hstands.pages_eq, hlater]
    have hne := hlinked.attempts_ne_nil (hpages ▸ List.mem_append_right _ List.mem_cons_self)
    cases hlatest : page.latest with
    | none => exact absurd (List.getLast?_eq_none_iff.mp hlatest) hne
    | some attempt =>
        rcases hdigested attempt hlatest with ⟨hdecided, _, htoken⟩
        have hopen : page.EndsOpen := by
          intro other hother
          rw [hlatest, Option.some.injEq] at hother
          rw [← hother, ← Outcome.isSome_ofAttempt? handle.runId, ← hdecided]
          rfl
        cases hnext : page.nextToken with
        | none =>
            -- The last page is asked for again and again.
            rw [hnext, Option.none_or] at htoken
            exact ⟨earlier, later, by rw [htoken]; exact hstands⟩
        | some token =>
            rw [hnext, Option.some_or] at htoken
            refine ⟨earlier ++ [page], rest, ?_, ?_, ?_⟩
            · rw [hpages, List.append_assoc, List.singleton_append]
            · rw [htoken, hpages]
              exact ((hpages ▸ hlinked).pagesFrom_cursor hnext).1
            · intro other hother
              rcases List.mem_append.mp hother with hother | hother
              · exact hstands.open_earlier other hother
              · rw [List.mem_singleton.mp hother]
                exact hopen
  · exact ⟨earlier, later, by rw [htoken]; exact hstands⟩

/-- A poll that stops the run judges it by the page at which the walk stands. -/
theorem Passed.stopped_of_poll (hlinked : Linked pages) (hserves : Serves service handle pages)
    {earlier later : List AttemptPage} {watch after : Watch κ} {outcome : Outcome}
    {session next : Session σ} (hstands : Passed pages watch.token earlier later)
    (h : Supervision.poll (Session.host service tree limit) read handle watch session =
      (some (some outcome, after), next)) (hstopped : outcome.mayBeAlive = false) :
    ∃ page rest attempt, later = page :: rest ∧ page.latest = some attempt ∧
      Outcome.ofAttempt? handle.runId attempt = some outcome ∧
      after.reported = some attempt.state := by
  rcases Supervision.eq_of_poll h with ⟨page, hanswer, hdigested⟩ | ⟨halive, _⟩
  · have hhead := hserves _ _ _ hanswer
    rw [hstands.pagesFrom_eq] at hhead
    rcases List.head?_eq_some_iff.mp hhead with ⟨rest, hlater⟩
    have hmem : page ∈ pages := by
      rw [hstands.pages_eq, hlater]
      exact List.mem_append_right _ List.mem_cons_self
    cases hlatest : page.latest with
    | none => exact absurd (List.getLast?_eq_none_iff.mp hlatest) (hlinked.attempts_ne_nil hmem)
    | some attempt =>
        rcases hdigested attempt hlatest with ⟨hdecided, hreported, _⟩
        exact ⟨page, rest, attempt, hlater, hlatest, hdecided.symm, hreported⟩
  · rw [halive outcome rfl] at hstopped
    exact absurd hstopped (by decide)

/-- Supervision stops a run at a page that it comes to. -/
theorem Passed.stopped_of_supervise (hlinked : Linked pages)
    (hserves : Serves service handle pages) {rounds : Nat} {earlier later : List AttemptPage}
    {watch after : Watch κ} {outcome : Outcome} {session final : Session σ}
    (hstands : Passed pages watch.token earlier later)
    (hrun : Supervision.supervise (Session.host service tree limit) read handle rounds watch
      session = (some (outcome, after), final)) (hstopped : outcome.mayBeAlive = false) :
    ∃ earlier page later attempt, pages = earlier ++ page :: later ∧
      (∀ other ∈ earlier, other.EndsOpen) ∧ page.latest = some attempt ∧
      Outcome.ofAttempt? handle.runId attempt = some outcome ∧
      after.reported = some attempt.state := by
  induction rounds generalizing earlier later watch session with
  | zero => exact absurd hrun (Session.wait_ne_some service tree limit session final _)
  | succ rounds ih =>
      rcases Action.eq_of_bind hrun with ⟨cancelled, waited, _, hrest⟩
      cases cancelled with
      | true =>
          -- A run that was cancelled is left alone.
          rcases Prod.mk.inj (Action.eq_of_pure hrest).1 with ⟨rfl, _⟩
          exact absurd hstopped (by decide)
      | false =>
          rcases Action.eq_of_bind hrest with ⟨⟨decided, watched⟩, middle, hpoll, hrest⟩
          cases decided with
          | none =>
              rcases hstands.passed_of_poll hlinked hserves hpoll with ⟨_, _, hpassed⟩
              exact ih hpassed hrest
          | some decision =>
              rcases Prod.mk.inj (Action.eq_of_pure hrest).1 with ⟨rfl, rfl⟩
              rcases hstands.stopped_of_poll hlinked hserves hpoll hstopped with
                ⟨page, rest, attempt, rfl, hlatest, hjudged, hreported⟩
              exact ⟨earlier, page, rest, attempt, hstands.pages_eq, hstands.open_earlier,
                hlatest, hjudged, hreported⟩

/-- A run is judged by the newest attempt on the first page that ends with an
    attempt that has stopped. This is the newest attempt of all if only the last
    page ends with one that has. -/
theorem supervise_judges_first_stopped (hlinked : Linked pages)
    (hserves : Serves service handle pages) (timer : PollTimer) (logs : κ) (rounds : Nat)
    {outcome : Outcome} {after : Watch κ} {session final : Session σ}
    (hrun : Supervision.supervise (Session.host service tree limit) read handle rounds
      (Watch.start timer logs) session = (some (outcome, after), final))
    (hstopped : outcome.mayBeAlive = false) :
    ∃ earlier page later attempt, pages = earlier ++ page :: later ∧
      (∀ other ∈ earlier, other.EndsOpen) ∧ page.latest = some attempt ∧
      Outcome.ofAttempt? handle.runId attempt = some outcome ∧
      after.reported = some attempt.state ∧
      ((∀ other ∈ pages, other.nextToken ≠ none → other.EndsOpen) →
        (pages.flatMap (·.attempts)).getLast? = some attempt) := by
  have hstart : Passed pages (Watch.start timer logs).token [] pages := by
    refine ⟨rfl, ?_, fun _ hno => absurd hno List.not_mem_nil⟩
    simp only [Watch.start, pagesFrom]
  rcases hstart.stopped_of_supervise hlinked hserves hrun hstopped with
    ⟨earlier, page, later, attempt, hpages, hopen, hlatest, hjudged, hreported⟩
  refine ⟨earlier, page, later, attempt, hpages, hopen, hlatest, hjudged, hreported,
    fun hlast => ?_⟩
  have hterminal : attempt.state.isTerminal = true := by
    rw [← Outcome.isSome_ofAttempt? handle.runId, hjudged]
    rfl
  have hmem : page ∈ pages := by
    rw [hpages]
    exact List.mem_append_right _ List.mem_cons_self
  have hnone : page.nextToken = none := by
    refine Classical.byContradiction fun hnext => ?_
    rw [hlast page hmem hnext attempt hlatest] at hterminal
    exact absurd hterminal (by decide)
  rw [hpages] at hlinked ⊢
  rw [hlinked.later_eq_nil hnone, List.flatMap_append, List.getLast?_append, List.flatMap_cons,
    List.flatMap_nil, List.append_nil, show page.attempts.getLast? = some attempt from hlatest,
    Option.some_or]

/-- A service that has some pages, and nothing else. -/
def servingPages (pages : List AttemptPage) : Service Unit where
  reply call _ :=
    { delay := some (Span.ofMillis 1)
      abandoned := ()
      settled := ()
      answer := match call with
        | .attempts _ token =>
          match (pagesFrom token pages).head? with
          | some page => .ok page
          | none => .error (.invalidRequest "")
        | _ => .error (.invalidRequest "")
      cancels := false }

theorem serves_servingPages (handle : RunHandle) (pages : List AttemptPage) :
    Serves (servingPages pages) handle pages := by
  intro token _ page hanswer
  simp only [servingPages] at hanswer
  split at hanswer
  · next served hserved =>
    rw [hserved, Except.ok.inj hanswer]
  · exact absurd hanswer (by simp only [reduceCtorEq, not_false_eq_true])

/-- A run whose second attempt is on two pages. -/
def continued : List AttemptPage :=
  [⟨[⟨1, .failed, "lost"⟩, ⟨2, .running, ""⟩], some "more"⟩, ⟨[⟨2, .success, "done"⟩], none⟩]

/-- It is judged by the last attempt of all. -/
theorem supervise_judges_first_stopped_continued :
    ∃ after final, Supervision.supervise (Session.host (servingPages continued)
        FileTree.empty 9) (fun _ count => pure ([], count + 1)) ⟨"app", "run"⟩ 9
        (Watch.start (PollTimer.make (.ofSeconds 1) (.ofSeconds 60)) 0) (Session.start () none) =
      (some (.succeeded, after), final) ∧
      after.reported = (continued.flatMap (·.attempts)).getLast?.map (·.state) := by
  have hlinked : Linked continued :=
    .more (by decide) rfl (by decide) (.last (by decide) rfl)
  have hrun : Supervision.supervise (Session.host (servingPages continued)
      FileTree.empty 9) (fun _ count => pure ([], count + 1)) ⟨"app", "run"⟩ 9
      (Watch.start (PollTimer.make (.ofSeconds 1) (.ofSeconds 60)) 0) (Session.start () none) =
    (some (.succeeded, _), _) := rfl
  rcases supervise_judges_first_stopped hlinked (serves_servingPages _ _) _ _ _ hrun rfl
    with ⟨_, _, _, attempt, _, _, _, _, hreported, hlast⟩
  refine ⟨_, _, hrun, ?_⟩
  rw [hreported, hlast (by
    intro other hmem hnext attempt hlatest
    rcases List.mem_cons.mp hmem with rfl | hmem
    · rw [← Option.some.inj hlatest]
      rfl
    · rw [List.mem_singleton.mp hmem] at hnext
      exact absurd rfl hnext)]
  rfl

/-- A run of which the second attempt is on a page of its own. -/
def retried : List AttemptPage :=
  [⟨[⟨1, .failed, "lost"⟩], some "more"⟩, ⟨[⟨2, .success, "done"⟩], none⟩]

/-- It is judged by its first attempt, although the second one was good. -/
theorem supervise_overlooks_retry :
    Linked retried ∧ Serves (servingPages retried) ⟨"app", "run"⟩ retried ∧
    (retried.flatMap (·.attempts)).getLast? = some ⟨2, .success, "done"⟩ ∧
    ∃ after final, Supervision.supervise (Session.host (servingPages retried)
        FileTree.empty 9) (fun _ count => pure ([], count + 1)) ⟨"app", "run"⟩ 9
        (Watch.start (PollTimer.make (.ofSeconds 1) (.ofSeconds 60)) 0) (Session.start () none) =
      (some (.failed ⟨"run", .failed, "lost"⟩, after), final) :=
  ⟨.more (by decide) rfl (by decide) (.last (by decide) rfl), serves_servingPages _ _, rfl,
    _, _, rfl⟩

end BatchRun
