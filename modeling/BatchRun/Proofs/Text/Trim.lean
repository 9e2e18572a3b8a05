import BatchRun.Proofs.Text.Ascii
import BatchRun.Text.Blank

/-!
# Trimming the End of a List

What trimming does to a list whose front has nothing to be trimmed.

Where neither end of the front is dropped, trimming stops before it on the one side
and at it on the other. So the front stays, and of the rest the end is dropped.

## Main definitions

* `Text.dropEnd`: A list without the last items that satisfy a test.

## Theorems

* `Text.trimWhere_append`: Trimming behind a front that stays.
* `Text.trimWhere_of_ends`, `Text.trimWhere_around`: What trimming keeps and takes.
* `Text.exists_around_trimWhere`: What a list was before it was trimmed.
* `Text.dropWhile_append_of_head`, `Text.takeWhile_append_of_head`: A front that is
  dropped, or taken, as a whole.
* `Text.dropEnd_sublist`: What is left of a list.
* `Text.dropEnd_eq_self_iff`: Lists of which nothing is dropped.
* `Text.trim_of_visible`: Visible characters of ASCII are not trimmed.
-/

namespace BatchRun

namespace Text

variable {α : Type} {drop : α → Bool}

/-- A list without the last items that satisfy a test. -/
def dropEnd (drop : α → Bool) (items : List α) : List α :=
  (items.reverse.dropWhile drop).reverse

theorem dropWhile_of_head {items : List α} (h : ∀ x, items.head? = some x → drop x = false) :
    items.dropWhile drop = items := by
  cases items with
  | nil => rfl
  | cons x rest => rw [List.dropWhile_cons, h x rfl, if_neg Bool.false_ne_true]

/-- What is dropped is the whole front, if the rest does not begin with more of
    it. -/
theorem dropWhile_append_of_head {front back : List α} (h : ∀ x ∈ front, drop x = true)
    (hback : ∀ x, back.head? = some x → drop x = false) :
    (front ++ back).dropWhile drop = back := by
  rw [List.dropWhile_append_of_pos h, dropWhile_of_head hback]

/-- Taking stops where dropping does. -/
theorem takeWhile_append_of_head {front back : List α} (h : ∀ x ∈ front, drop x = true)
    (hback : ∀ x, back.head? = some x → drop x = false) :
    (front ++ back).takeWhile drop = front := by
  have hparts := List.takeWhile_append_dropWhile (p := drop) (l := front ++ back)
  rwa [dropWhile_append_of_head h hback, List.append_cancel_right_eq] at hparts

theorem dropEnd_sublist (items : List α) : List.Sublist (dropEnd drop items) items := by
  have hreverse := (List.dropWhile_sublist (l := items.reverse) drop).reverse
  rwa [List.reverse_reverse] at hreverse

/-- Nothing is dropped exactly if the last item stays. -/
theorem dropEnd_eq_self_iff {items : List α} :
    dropEnd drop items = items ↔ ∀ x, items.getLast? = some x → drop x = false := by
  constructor
  · intro h x hx
    have hhead := List.head?_dropWhile_not drop items.reverse
    have hfirst : (items.reverse.dropWhile drop).head? = some x := by
      rw [← List.getLast?_reverse, ← dropEnd, h, hx]
    rw [hfirst] at hhead
    exact Bool.eq_false_iff.mpr (by simpa using hhead)
  · intro h
    rw [dropEnd, dropWhile_of_head, List.reverse_reverse]
    intro x hx
    rw [List.head?_reverse] at hx
    exact h x hx

/-- Nothing is trimmed from a list with both ends to be kept. -/
theorem trimWhere_of_ends {items : List α} (hhead : ∀ x, items.head? = some x → drop x = false)
    (hlast : ∀ x, items.getLast? = some x → drop x = false) : trimWhere drop items = items := by
  rw [trimWhere, dropWhile_of_head hhead]
  exact dropEnd_eq_self_iff.mpr hlast

theorem trimWhere_of_forall {items : List α} (h : ∀ x ∈ items, drop x = false) :
    trimWhere drop items = items :=
  trimWhere_of_ends (fun x hx => h x (List.mem_of_head? hx))
    fun x hx => h x (List.mem_of_getLast? hx)

/-- What is dropped may as well stand around a list. -/
theorem trimWhere_around {front back : List α} (hfront : ∀ x ∈ front, drop x = true)
    (hback : ∀ x ∈ back, drop x = true) (items : List α) :
    trimWhere drop (front ++ (items ++ back)) = trimWhere drop items := by
  have hnone : back.dropWhile drop = [] := by
    rw [← List.append_nil back, List.dropWhile_append_of_pos hback, List.dropWhile_nil]
  rw [trimWhere, trimWhere, List.dropWhile_append_of_pos hfront, List.dropWhile_append]
  split
  · next hempty => rw [List.isEmpty_iff.mp hempty, hnone]
  · rw [List.reverse_append,
      List.dropWhile_append_of_pos fun x hx => hback x (List.mem_reverse.mp hx)]

/-- A single item on each side may as well. -/
theorem trimWhere_surround {x y : α} (hx : drop x = true) (hy : drop y = true) (items : List α) :
    trimWhere drop (x :: (items ++ [y])) = trimWhere drop items :=
  trimWhere_around (List.forall_mem_singleton.mpr hx) (List.forall_mem_singleton.mpr hy) items

/-- A list is what trimming leaves of it, with dropped items around. -/
theorem exists_around_trimWhere (drop : α → Bool) (items : List α) :
    ∃ front back, items = front ++ (trimWhere drop items ++ back) ∧
      (∀ x ∈ front, drop x = true) ∧ ∀ x ∈ back, drop x = true := by
  have hfront := List.takeWhile_append_dropWhile (p := drop) (l := items)
  have hback := List.takeWhile_append_dropWhile (p := drop) (l := (items.dropWhile drop).reverse)
  refine ⟨items.takeWhile drop, ((items.dropWhile drop).reverse.takeWhile drop).reverse,
    ?_, ?_, ?_⟩
  · rw [trimWhere, ← List.reverse_append, hback, List.reverse_reverse, hfront]
  · exact fun x hx => List.all_eq_true.mp List.all_takeWhile x hx
  · exact fun x hx => List.all_eq_true.mp List.all_takeWhile x (List.mem_reverse.mp hx)

/-- A front of which nothing is dropped stays, and the end of the rest is dropped. -/
theorem trimWhere_append {front : List α} (hne : front ≠ []) (h : ∀ x ∈ front, drop x = false)
    (back : List α) : trimWhere drop (front ++ back) = front ++ dropEnd drop back := by
  have hfront : (front ++ back).dropWhile drop = front ++ back := by
    refine dropWhile_of_head fun x hx => h x ?_
    rw [List.head?_append, List.head?_eq_some_head hne, Option.some_or, Option.some.injEq] at hx
    exact hx ▸ List.head_mem hne
  have hback : front.reverse.dropWhile drop = front.reverse :=
    dropWhile_of_head fun x hx => h x (List.mem_reverse.mp (List.mem_of_head? hx))
  rw [trimWhere, hfront, List.reverse_append, List.dropWhile_append, hback, dropEnd]
  split
  · next hempty =>
    rw [List.isEmpty_iff.mp hempty, List.reverse_nil, List.append_nil, List.reverse_reverse]
  · rw [List.reverse_append, List.reverse_reverse]

/-- A visible character of ASCII is no white space. -/
theorem isBlank_of_visible {c : Char} (h : 0x20 < c.toNat ∧ c.toNat < 0x80) :
    isBlank c = false := by
  have hsolid : 0x20 < c.toNat → isBlank c = false := forall_ascii c h.2 (by decide +kernel)
  exact hsolid h.1

theorem trim_of_visible {text : String}
    (h : ∀ c ∈ text.toList, 0x20 < c.toNat ∧ c.toNat < 0x80) : trim text = text := by
  rw [trim, trimWhere_of_forall fun c hc => isBlank_of_visible (h c hc), String.ofList_toList]

end Text

end BatchRun
