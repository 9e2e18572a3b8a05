import BatchRun.Rehearsal.Basic

/-!
# Paging Through a Listing

What a page of a listing has, and what it leaves for the pages behind it.

A listing is in strict order of its keys, ascending or descending, and the cursor
of a page is its last key. So whatever is behind the cursor from which a page was
listed is on that page or behind the next cursor, and a page without a cursor
leaves nothing. This holds for pages of any size but none at all, in which case
the first page would be empty and the last one.

## Main definitions

* `ObjectUri.Covers`: An object has a key below an address.

## Theorems

* `MemoryStore.isBefore_trans`, `MemoryStore.eq_or_isBefore`: The order of a
  listing.
* `MemoryStore.isListed_none`: A listing from the start has what is below its
  address.
* `MemoryStore.listed_of_mem_page`: Everything on a page was listed.
* `MemoryStore.on_page_or_behind`: Everything that is listed is on a page or
  behind it.
-/

namespace BatchRun

theorem Text.isSome_afterStart_iff {α : Type} [DecidableEq α] (start items : List α) :
    (afterStart start items).isSome = true ↔ start <+: items := by
  induction start generalizing items with
  | nil => simp only [afterStart, Option.isSome_some, List.nil_prefix]
  | cons x start ih =>
      cases items with
      | nil => simp only [afterStart, Option.isSome_none, Bool.false_eq_true, List.prefix_nil,
          reduceCtorEq]
      | cons y items =>
          rw [afterStart, List.cons_prefix_cons]
          by_cases hxy : x = y
          · rw [if_pos hxy, ih, and_iff_right hxy]
          · rw [if_neg hxy]
            simp only [Option.isSome_none, Bool.false_eq_true, hxy, false_and]

/-- An object has a key that begins like those below an address, in its bucket. -/
def ObjectUri.Covers (root : ObjectUri) (object : StoredObject) : Prop :=
  object.bucket = root.bucket ∧ root.listing.toList <+: object.key.toList

instance (root : ObjectUri) (object : StoredObject) : Decidable (root.Covers object) :=
  inferInstanceAs (Decidable (_ ∧ _))

namespace MemoryStore

variable {store : MemoryStore} {root : ObjectUri} {token : Option String}

theorem isBefore_trans {a b c : String} (hab : store.isBefore a b = true)
    (hbc : store.isBefore b c = true) : store.isBefore a c = true := by
  unfold isBefore at hab hbc ⊢
  by_cases hdown : store.descending = true
  · rw [if_pos hdown, decide_eq_true_eq] at hab hbc ⊢
    exact String.lt_trans hbc hab
  · rw [if_neg hdown, decide_eq_true_eq] at hab hbc ⊢
    exact String.lt_trans hab hbc

theorem isBefore_irrefl (a : String) : store.isBefore a a = false := by
  simp only [isBefore, String.lt_irrefl, decide_false, ite_self]

theorem isBefore_asymm {a b : String} (h : store.isBefore a b = true) :
    store.isBefore b a = false := by
  rw [Bool.eq_false_iff]
  intro hba
  have hcycle := isBefore_trans h hba
  rw [isBefore_irrefl] at hcycle
  exact absurd hcycle (by decide)

/-- Of two keys that are not the same one comes before the other. -/
theorem eq_or_isBefore (store : MemoryStore) (a b : String) :
    a = b ∨ store.isBefore a b = true ∨ store.isBefore b a = true := by
  have htotal : a = b ∨ a < b ∨ b < a := by
    by_cases hab : a < b
    · exact Or.inr (Or.inl hab)
    · by_cases hba : b < a
      · exact Or.inr (Or.inr hba)
      · exact Or.inl (String.le_antisymm (String.not_lt.mp hba) (String.not_lt.mp hab))
  unfold isBefore
  by_cases hdown : store.descending = true
  · simp only [if_pos hdown, decide_eq_true_eq]
    exact htotal.imp_right Or.symm
  · simp only [if_neg hdown, decide_eq_true_eq]
    exact htotal

/-- The key between two others is not behind the first one, nor before the last one. -/
theorem not_isBefore_trans {a b c : String} (hab : store.isBefore b a = false)
    (hbc : store.isBefore c b = false) : store.isBefore c a = false := by
  rcases eq_or_isBefore store a b with rfl | hbefore | hbehind
  · exact hbc
  · rcases eq_or_isBefore store b c with rfl | hbefore' | hbehind
    · exact hab
    · exact isBefore_asymm (isBefore_trans hbefore hbefore')
    · rw [hbehind] at hbc
      exact absurd hbc (by decide)
  · rw [hbehind] at hab
    exact absurd hab (by decide)

theorem not_isBefore_total (a b : String) :
    store.isBefore b a = false ∨ store.isBefore a b = false := by
  rcases eq_or_isBefore store a b with rfl | hbefore | hbehind
  · exact Or.inl (isBefore_irrefl a)
  · exact Or.inl (isBefore_asymm hbefore)
  · exact Or.inr (isBefore_asymm hbehind)

/-- A listing from the start has what is below its address. -/
theorem isListed_none (object : StoredObject) :
    store.isListed root none object = true ↔ root.Covers object := by
  simp only [isListed, Option.all_none, Bool.and_true, Bool.and_eq_true, beq_iff_eq,
    Text.isSome_afterStart_iff, ObjectUri.Covers]

/-- A listing from a cursor on has what is below its address behind the cursor. -/
theorem isListed_some (key : String) (object : StoredObject) :
    store.isListed root (some key) object = true ↔
      root.Covers object ∧ store.isBefore key object.key = true := by
  simp only [isListed, Option.all_some, Bool.and_eq_true, beq_iff_eq,
    Text.isSome_afterStart_iff, ObjectUri.Covers]

theorem covers_of_isListed {object : StoredObject}
    (h : store.isListed root token object = true) : root.Covers object := by
  cases token with
  | none => exact (isListed_none object).mp h
  | some key => exact ((isListed_some key object).mp h).1

theorem mem_listed {summary : ObjectSummary} :
    summary ∈ store.listed root token ↔
      ∃ object ∈ store.objects, store.isListed root token object = true ∧
        MemoryStore.summary object = summary := by
  simp only [listed, List.mem_mergeSort, List.mem_map, List.mem_filter, and_assoc]

/-- No key of a listing comes before one that is listed earlier. -/
theorem pairwise_listed (store : MemoryStore) (root : ObjectUri) (token : Option String) :
    (store.listed root token).Pairwise fun a b => store.isBefore b.key a.key = false := by
  have hsorted : (store.listed root token).Pairwise fun a b =>
      (!store.isBefore b.key a.key) = true := by
    refine List.pairwise_mergeSort ?_ ?_ _
    · intro a b c hab hbc
      rw [Bool.not_eq_true'] at hab hbc ⊢
      exact not_isBefore_trans hab hbc
    · intro a b
      rw [Bool.or_eq_true, Bool.not_eq_true', Bool.not_eq_true']
      exact not_isBefore_total a.key b.key
  exact hsorted.imp fun h => by rwa [Bool.not_eq_true'] at h

/-- Everything on a page was listed. -/
theorem listed_of_mem_page {summary : ObjectSummary}
    (h : summary ∈ (store.page root token).objects) :
    ∃ object ∈ store.objects, store.isListed root token object = true ∧
      object.key = summary.key := by
  rcases mem_listed.mp (List.mem_of_mem_take h) with ⟨object, hmem, hlisted, rfl⟩
  exact ⟨object, hmem, hlisted, rfl⟩

/-- Everything that is listed is on the page, or behind the next cursor. -/
theorem on_page_or_behind (hsize : 0 < store.pageSize) {object : StoredObject}
    (hmem : object ∈ store.objects) (hlisted : store.isListed root token object = true) :
    (∃ summary ∈ (store.page root token).objects, summary.key = object.key) ∨
      ∃ next, (store.page root token).nextToken = some next ∧
        store.isListed root (some next) object = true := by
  have hin : summary object ∈ store.listed root token :=
    mem_listed.mpr ⟨object, hmem, hlisted, rfl⟩
  by_cases hfits : (store.listed root token).length ≤ store.pageSize
  · -- There is room for all of them on this page.
    refine Or.inl ⟨summary object, ?_, rfl⟩
    rw [page, List.take_of_length_le hfits]
    exact hin
  rw [Nat.not_le] at hfits
  have hfull : (store.listed root token).take store.pageSize ≠ [] := by
    rw [ne_eq, List.take_eq_nil_iff, not_or]
    exact ⟨Nat.ne_of_gt hsize, List.ne_nil_of_length_pos (Nat.lt_of_le_of_lt (Nat.zero_le _) hfits)⟩
  rw [← List.take_append_drop store.pageSize (store.listed root token), List.mem_append] at hin
  rcases hin with hon | hbehind
  · exact Or.inl ⟨summary object, hon, rfl⟩
  -- What is left out is not before the last key of the page, so it has that key or is behind it.
  have hlast := List.getLast_mem hfull
  have hpairs := pairwise_listed store root token
  rw [← List.take_append_drop store.pageSize (store.listed root token),
    List.pairwise_append] at hpairs
  have hnot := hpairs.2.2 _ hlast _ hbehind
  rcases eq_or_isBefore store
      (((store.listed root token).take store.pageSize).getLast hfull).key object.key with
    heq | hafter | hbefore
  · exact Or.inl ⟨_, hlast, heq⟩
  · refine Or.inr ⟨(((store.listed root token).take store.pageSize).getLast hfull).key, ?_, ?_⟩
    · simp only [page, if_pos hfits, List.getLast?_eq_some_getLast hfull, Option.map_some]
    · exact (isListed_some _ object).mpr ⟨covers_of_isListed hlisted, hafter⟩
  · rw [show (summary object).key = object.key from rfl, hbefore] at hnot
    exact absurd hnot (by decide)

end MemoryStore

end BatchRun
