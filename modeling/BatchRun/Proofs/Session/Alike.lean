import BatchRun.Proofs.Session.Action

/-!
# Actions That Are Alike

The same steps with two services.

What a run does is put together of a few things only: calls, pauses, waiting and
words. Two actions are alike if they are put together in the same way, each with
a service of its own, and go on in the same way from the same answers. What can
be said of such a pair does not depend on how long they are, so it is proved once
for each thing that they may do.

The calls that alike actions make, and the results that they come to, may each
be known to satisfy some condition.

## Main definitions

* `Alike`: Two actions that do the same with two services.

## Theorems

* `Alike.mono`: More calls may be allowed.
* `Alike.result`: What an action comes to.
* `Alike.now_le`: Time does not go back.
-/

namespace BatchRun

/-- Two actions that do the same, each with its own service. All their calls
    satisfy one condition, and their results another one. -/
inductive Alike {σ τ : Type} (first : Service σ) (second : Service τ) (P : Call → Prop) :
    {α : Type} → (α → Prop) → Action σ α → Action τ α → Prop
  | pure {α : Type} {R : α → Prop} (a : α) (h : R a) :
      Alike first second P R (Pure.pure a) (Pure.pure a)
  | bind {α β : Type} {Q : α → Prop} {R : β → Prop} {a : Action σ α} {b : Action τ α}
      {next : α → Action σ β} {other : α → Action τ β} (h : Alike first second P Q a b)
      (hnext : ∀ x, Q x → Alike first second P R (next x) (other x)) :
      Alike first second P R (a >>= next) (b >>= other)
  | ask (call : Call) (h : P call) :
      Alike first second P (fun _ => True) (Session.ask first call) (Session.ask second call)
  | pause (span : Span) :
      Alike first second P (fun _ => True) (Session.pause span) (Session.pause span)
  | say (event : Event) (h : ∀ call, event ≠ .asked call) :
      Alike first second P (fun _ => True) (Session.note event) (Session.note event)
  | wait {α : Type} {R : α → Prop} (tree : FileTree) (limit : Nat) :
      Alike first second P R ((Session.host first tree limit).wait : Action σ α)
        (Session.host second tree limit).wait

namespace Alike

variable {σ τ α : Type} {first : Service σ} {second : Service τ} {P : Call → Prop}
  {R : α → Prop}

/-- A value that is there anyway. -/
theorem value (a : α) : Alike first second P (fun _ => True) (Pure.pure a) (Pure.pure a) :=
  .pure a trivial

theorem say_line (text : String) :
    Alike first second P (fun _ => True) (Session.note (.line text)) (Session.note (.line text)) :=
  .say _ (by simp only [ne_eq, reduceCtorEq, not_false_eq_true, implies_true])

theorem say_warned (warning : Warning) :
    Alike first second P (fun _ => True) (Session.note (.warned warning))
      (Session.note (.warned warning)) :=
  .say _ (by simp only [ne_eq, reduceCtorEq, not_false_eq_true, implies_true])

/-- More calls may be allowed. -/
theorem mono {Q : Call → Prop} {a : Action σ α} {b : Action τ α}
    (h : Alike first second P R a b) (hPQ : ∀ call, P call → Q call) :
    Alike first second Q R a b := by
  induction h with
  | pure a h => exact .pure a h
  | bind _ _ ih ihnext => exact .bind ih ihnext
  | ask call h => exact .ask call (hPQ call h)
  | pause span => exact .pause span
  | say event h => exact .say event h
  | wait tree limit => exact .wait tree limit

/-- The result is one that is allowed. -/
theorem result {a : Action σ α} {b : Action τ α} (h : Alike first second P R a b)
    {session next : Session σ} {x : α} (hrun : a session = (some x, next)) : R x := by
  induction h generalizing session next with
  | pure a h =>
      rcases Action.eq_of_pure hrun with ⟨rfl, _⟩
      exact h
  | bind _ _ ih ihnext =>
      rcases Action.eq_of_bind hrun with ⟨y, middle, hfirst, hrest⟩
      exact ihnext y (ih hfirst) hrest
  | ask | pause | say => trivial
  | wait tree limit => exact absurd hrun (Session.wait_ne_some first tree limit session next x)

/-- Time does not go back. -/
theorem now_le {a : Action σ α} {b : Action τ α} (h : Alike first second P R a b)
    (session : Session σ) : session.now ≤ (a session).2.now := by
  induction h generalizing session with
  | pure => exact Nat.le_refl _
  | @bind _ _ _ _ a b next other h _ ih ihnext =>
      have hmiddle := ih session
      rcases hfirst : a session with ⟨_ | x, middle⟩
      · rw [hfirst] at hmiddle
        rw [Action.bind_of_none hfirst]
        exact hmiddle
      · rw [hfirst] at hmiddle
        rw [Action.bind_of_some hfirst]
        exact Nat.le_trans hmiddle (ihnext x (h.result hfirst) middle)
  | ask call =>
      rcases Session.ask_cases first call session with ⟨now, hle, _, hasked | hasked⟩
      · rw [hasked]
        exact hle
      · rw [hasked]
        exact hle
  | pause span =>
      rcases Session.pause_passes span session with ⟨now, hafter, hle⟩
      rw [hafter]
      exact hle
  | say => exact Nat.le_refl _
  | wait tree limit =>
      rcases Session.wait_passes first tree limit session with ⟨now, hstuck, hle, _⟩
      rw [hstuck]
      exact hle

end Alike

end BatchRun
