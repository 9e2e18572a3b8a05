import BatchRun.ObjectUri

/-!
# Keys Without Outer Slashes

What trimming and joining make of the slashes of a key.

Every URI is made by trimming, so its key neither begins nor ends with a slash,
and joining keeps it that way. For a key that is like this already trimming does
nothing, so an object that was listed under such a key is asked for by the very
same one.

## Main definitions

* `EndsClear`: A key neither begins nor ends with a slash.
* `ObjectUri.Normal`: The key of a URI is like this.
* `ObjectUri.IsDotted`: A segment of the key is of dots.

## Theorems

* `endsClear_trimSlashes`, `trimSlashes_of_endsClear`: Trimming clears the ends,
  and does nothing else.
* `ObjectUri.normal_make`, `ObjectUri.normal_join`: Every URI is normal.
* `ObjectUri.key_join_eq`: The key of a joined URI.
* `ObjectUri.withKey_of_endsClear`: The URI of a listed object has its key.
* `ObjectUri.trimSlashes_listing`: What is listed below a URI stays there when it
  is trimmed, or becomes the key of the URI.
-/

namespace BatchRun

/-- A key neither begins nor ends with a slash. -/
def EndsClear (key : List Char) : Prop :=
  key.head? ≠ some '/' ∧ key.getLast? ≠ some '/'

instance (key : List Char) : Decidable (EndsClear key) :=
  inferInstanceAs (Decidable (_ ∧ _))

theorem dropSlashes_of_head {key : List Char} (h : key.head? ≠ some '/') :
    key.dropWhile (· == '/') = key := by
  cases key with
  | nil => rfl
  | cons c rest =>
      rw [List.head?_cons, ne_eq, Option.some.injEq] at h
      simp only [List.dropWhile_cons, beq_iff_eq, h, if_false]

theorem head?_dropSlashes (key : List Char) :
    (key.dropWhile (· == '/')).head? ≠ some '/' := by
  intro h
  have hnot := List.head?_dropWhile_not (· == '/') key
  rw [h] at hnot
  exact absurd hnot (by decide)

/-- Dropping slashes from the front leaves the end alone, unless nothing is
    left. -/
theorem getLast?_dropSlashes {key : List Char} (h : key.getLast? ≠ some '/') :
    (key.dropWhile (· == '/')).getLast? ≠ some '/' := by
  rcases List.dropWhile_suffix (l := key) (· == '/') with ⟨front, hfront⟩
  intro hlast
  rw [← hfront, List.getLast?_append, hlast, Option.some_or] at h
  exact h rfl

theorem trimSlashes_of_endsClear {key : List Char} (h : EndsClear key) :
    trimSlashes key = key := by
  rw [trimSlashes, Text.trimWhere, dropSlashes_of_head h.1,
    dropSlashes_of_head (by rw [List.head?_reverse]; exact h.2), List.reverse_reverse]

theorem endsClear_trimSlashes (key : List Char) : EndsClear (trimSlashes key) := by
  rw [trimSlashes, Text.trimWhere, EndsClear, List.head?_reverse, List.getLast?_reverse]
  refine ⟨getLast?_dropSlashes ?_, head?_dropSlashes _⟩
  rw [List.getLast?_reverse]
  exact head?_dropSlashes key

theorem endsClear_of_not_mem {key : List Char} (h : '/' ∉ key) : EndsClear key :=
  ⟨fun hhead => h (List.mem_of_mem_head? hhead), fun hlast => h (List.mem_of_getLast? hlast)⟩

/-- The ends of a key in two parts are those of its parts. -/
theorem endsClear_append {front back : List Char} (hfront : front ≠ []) (hback : back ≠ [])
    (hhead : front.head? ≠ some '/') (hlast : back.getLast? ≠ some '/') :
    EndsClear (front ++ back) := by
  refine ⟨?_, ?_⟩
  · rw [List.head?_append, List.head?_eq_some_head hfront, Option.some_or]
    rwa [List.head?_eq_some_head hfront] at hhead
  · rw [List.getLast?_append, List.getLast?_eq_some_getLast hback, Option.some_or]
    rwa [List.getLast?_eq_some_getLast hback] at hlast

/-- Trimming what follows a clear key takes all of it away, or leaves its
    beginning. -/
theorem trimSlashes_append {front : List Char} (hne : front ≠ []) (hclear : EndsClear front)
    (rest : List Char) :
    trimSlashes (front ++ '/' :: rest) = front ∨
      ∃ back, trimSlashes (front ++ '/' :: rest) = front ++ '/' :: back := by
  have hhead : (front ++ '/' :: rest).head? ≠ some '/' := by
    rw [List.head?_append, List.head?_eq_some_head hne, Option.some_or,
      ← List.head?_eq_some_head hne]
    exact hclear.1
  rw [trimSlashes, Text.trimWhere, dropSlashes_of_head hhead, List.reverse_append,
    List.reverse_cons, List.append_assoc, List.dropWhile_append]
  by_cases hslashes : (rest.reverse.dropWhile (· == '/')).isEmpty = true
  · left
    rw [if_pos hslashes, List.singleton_append, List.dropWhile_cons,
      if_pos (beq_self_eq_true '/'),
      dropSlashes_of_head (by rw [List.head?_reverse]; exact hclear.2), List.reverse_reverse]
  · right
    refine ⟨(rest.reverse.dropWhile (· == '/')).reverse, ?_⟩
    rw [if_neg hslashes, List.reverse_append, List.reverse_append, List.reverse_reverse,
      List.reverse_singleton, List.append_assoc, List.singleton_append]

namespace ObjectUri

/-- The key of a URI neither begins nor ends with a slash. -/
def Normal (uri : ObjectUri) : Prop :=
  EndsClear uri.key.toList

instance (uri : ObjectUri) : Decidable uri.Normal :=
  inferInstanceAs (Decidable (EndsClear _))

/-- A key with a segment of dots. -/
def IsDotted (uri : ObjectUri) : Prop :=
  ['.'] ∈ Text.splitOn '/' uri.key.toList ∨ ['.', '.'] ∈ Text.splitOn '/' uri.key.toList

instance (uri : ObjectUri) : Decidable uri.IsDotted := inferInstanceAs (Decidable (_ ∨ _))

theorem normal_make (scheme bucket key : String) : (make scheme bucket key).Normal := by
  rw [Normal, make, String.toList_ofList]
  exact endsClear_trimSlashes _

/-- The key of a joined URI: as it was, or with a clear segment behind it. -/
theorem key_join (uri : ObjectUri) (segment : String) :
    ((uri.join segment).key.toList = uri.key.toList ∧ trimSlashes segment.toList = []) ∨
      ((uri.join segment).key.toList = trimSlashes segment.toList ∧ uri.key.toList = [] ∧
        trimSlashes segment.toList ≠ []) ∨
      ((uri.join segment).key.toList = uri.key.toList ++ '/' :: trimSlashes segment.toList ∧
        uri.key.toList ≠ [] ∧ trimSlashes segment.toList ≠ []) := by
  unfold join
  by_cases hs : trimSlashes segment.toList = []
  · exact Or.inl ⟨by simp [hs], hs⟩
  · have hseg : (String.ofList (trimSlashes segment.toList)).isEmpty = false := by
      simpa [String.isEmpty_iff] using hs
    by_cases hk : uri.key.toList = []
    · have hkey : uri.key.isEmpty = true := by
        rw [String.isEmpty_iff]
        exact String.toList_eq_nil_iff.mp hk
      exact Or.inr (Or.inl ⟨by simp [hseg, hkey], hk, hs⟩)
    · have hkey : uri.key.isEmpty = false := by
        rw [Bool.eq_false_iff, ne_eq, String.isEmpty_iff]
        exact fun h => hk (String.toList_eq_nil_iff.mpr h)
      exact Or.inr (Or.inr ⟨by simp [hseg, hkey], hk, hs⟩)

theorem listing_eq {uri : ObjectUri} (h : uri.key.toList ≠ []) :
    uri.listing.toList = uri.key.toList ++ ['/'] := by
  have hkey : ¬ uri.key.isEmpty = true := by
    rw [String.isEmpty_iff]
    exact fun hnil => h (String.toList_eq_nil_iff.mpr hnil)
  rw [listing, if_neg hkey, String.toList_append]
  rfl

theorem listing_eq_nil {uri : ObjectUri} (h : uri.key.toList = []) : uri.listing.toList = [] := by
  rw [listing, if_pos (by rw [String.isEmpty_iff]; exact String.toList_eq_nil_iff.mp h)]
  rfl

/-- A segment that is joined is put behind what the keys below an address begin
    with. -/
theorem key_join_eq (uri : ObjectUri) {segment : String}
    (h : trimSlashes segment.toList ≠ []) :
    (uri.join segment).key.toList = uri.listing.toList ++ trimSlashes segment.toList := by
  rcases key_join uri segment with ⟨_, hnone⟩ | ⟨hkey, hempty, _⟩ | ⟨hkey, hne, _⟩
  · exact absurd hnone h
  · rw [hkey, listing_eq_nil hempty, List.nil_append]
  · rw [hkey, listing_eq hne, List.append_assoc, List.singleton_append]

/-- Joining keeps the ends of a key clear. -/
theorem normal_join {uri : ObjectUri} (h : uri.Normal) (segment : String) :
    (uri.join segment).Normal := by
  have hseg := endsClear_trimSlashes segment.toList
  rw [Normal] at h ⊢
  rcases key_join uri segment with ⟨hkey, _⟩ | ⟨hkey, _, _⟩ | ⟨hkey, hne, hsne⟩
  · rw [hkey]
    exact h
  · rw [hkey]
    exact hseg
  · rw [hkey]
    refine endsClear_append hne (List.cons_ne_nil _ _) h.1 ?_
    rw [List.getLast?_cons_of_ne_nil hsne]
    exact hseg.2

/-- Joining does not empty a key. -/
theorem key_join_ne_nil {uri : ObjectUri} {segment : String}
    (h : uri.key.toList ≠ [] ∨ trimSlashes segment.toList ≠ []) :
    (uri.join segment).key.toList ≠ [] := by
  rcases key_join uri segment with ⟨hkey, hs⟩ | ⟨hkey, _, hs⟩ | ⟨hkey, hne, _⟩
  · rw [hkey]
    rcases h with h | h
    · exact h
    · exact absurd hs h
  · rw [hkey]
    exact hs
  · rw [hkey]
    exact List.append_ne_nil_of_left_ne_nil hne _

/-- What is listed below a URI stays there when it is trimmed, unless nothing but
    slashes is behind the key of the URI. -/
theorem trimSlashes_listing {uri : ObjectUri} (h : uri.Normal) {key : List Char}
    (hbelow : uri.listing.toList <+: key) :
    trimSlashes key = uri.key.toList ∨ uri.listing.toList <+: trimSlashes key := by
  unfold listing at hbelow ⊢
  by_cases hempty : uri.key.isEmpty = true
  · rw [if_pos hempty]
    exact Or.inr List.nil_prefix
  · rw [if_neg hempty, String.toList_append] at hbelow ⊢
    have hne : uri.key.toList ≠ [] := by
      rw [String.isEmpty_iff] at hempty
      exact fun hnil => hempty (String.toList_eq_nil_iff.mp hnil)
    rcases hbelow with ⟨rest, rfl⟩
    rw [List.append_assoc]
    rcases trimSlashes_append hne h rest with hkey | ⟨back, hkey⟩
    · exact Or.inl hkey
    · exact Or.inr ⟨back, by rw [List.append_assoc]; exact hkey.symm⟩

/-- A key whose ends are clear is kept as it is. -/
theorem withKey_of_endsClear (uri : ObjectUri) {key : String} (h : EndsClear key.toList) :
    uri.withKey key = { uri with key } := by
  rw [withKey, make, trimSlashes_of_endsClear h, String.ofList_toList]

end ObjectUri

end BatchRun
