import BatchRun.Proofs.ObjectUri
import BatchRun.Proofs.Text.Trim
import Mathlib.Data.List.Chain

/-!
# Keys of Joined Addresses

What becomes of a key when segments are joined to it, one after the other.

Each segment is trimmed and put behind the key, with a slash between them if there
is anything on both sides. Putting something behind a key is associative, so a
sequence of segments adds one text to the key, whatever that is. Nothing is doubled
where the parts meet, because the ends of all of them are clear.

What is inside a segment is not looked at. Two slashes that stand side by side there
are in the key as well, and a slash at the end of one segment that meets the slash
before the next one stays if both are joined at once, while it is trimmed if they
are joined one after the other.

## Main definitions

* `Undoubled`: No two slashes stand side by side in a key.
* `behind`: A key with something behind it.
* `ObjectUri.joinAll`: An address to which some segments are joined.
* `ObjectUri.added`: What some segments add to a key.

## Theorems

* `behind_assoc`: It does not matter what is put together first.
* `endsClear_behind`, `undoubled_behind_iff`: The ends of a key, and its doubled
  slashes, when something is put behind it.
* `ObjectUri.joinAll_eq`: Segments add one text to a key.
* `ObjectUri.join_append_slash_iff`: Two segments joined at once.
* `ObjectUri.keys_of_joinAll`: All of it.
* `ObjectUri.key_doubled`: A key with two slashes side by side.
-/

namespace BatchRun

/-- No two slashes stand side by side in a key. -/
def Undoubled (key : List Char) : Prop :=
  key.IsChain fun c next => c = '/' → next ≠ '/'

instance (key : List Char) : Decidable (Undoubled key) :=
  inferInstanceAs (Decidable (List.IsChain _ _))

/-- A key with something behind it: a slash stands between them, if there is anything
    on both sides. -/
def behind (key more : List Char) : List Char :=
  if key = [] then more else if more = [] then key else key ++ '/' :: more

section Behind

variable {key more other : List Char}

theorem behind_nil (key : List Char) : behind key [] = key := by
  unfold behind
  split
  · next hkey => exact hkey.symm
  · exact if_pos rfl

theorem nil_behind (more : List Char) : behind [] more = more := if_pos rfl

theorem behind_of_ne_nil (hkey : key ≠ []) (hmore : more ≠ []) :
    behind key more = key ++ '/' :: more := by
  rw [behind, if_neg hkey, if_neg hmore]

theorem behind_ne_nil (hkey : key ≠ []) (more : List Char) : behind key more ≠ [] := by
  by_cases hmore : more = []
  · rw [hmore, behind_nil]
    exact hkey
  · rw [behind_of_ne_nil hkey hmore]
    exact List.append_ne_nil_of_left_ne_nil hkey _

/-- It does not matter what is put together first. -/
theorem behind_assoc (key more other : List Char) :
    behind (behind key more) other = behind key (behind more other) := by
  -- If one of the three is empty, it leaves the other two as they are.
  by_cases hkey : key = []
  · rw [hkey, nil_behind, nil_behind]
  by_cases hmore : more = []
  · rw [hmore, behind_nil, nil_behind]
  by_cases hother : other = []
  · rw [hother, behind_nil, behind_nil]
  rw [behind_of_ne_nil (behind_ne_nil hkey more) hother, behind_of_ne_nil hkey hmore,
    behind_of_ne_nil hkey (behind_ne_nil hmore other), behind_of_ne_nil hmore hother,
    List.append_assoc, List.cons_append]

/-- What was put behind a key can be told from the result. -/
theorem behind_cancel_iff : behind key more = behind key other ↔ more = other := by
  refine ⟨fun h => ?_, fun h => by rw [h]⟩
  by_cases hkey : key = []
  · rwa [hkey, nil_behind, nil_behind] at h
  by_cases hmore : more = [] <;> by_cases hother : other = []
  · rw [hmore, hother]
  · rw [hmore, behind_nil, behind_of_ne_nil hkey hother] at h
    exact absurd (List.self_eq_append_right.mp h) (List.cons_ne_nil _ _)
  · rw [hother, behind_nil, behind_of_ne_nil hkey hmore] at h
    exact absurd (List.append_right_eq_self.mp h) (List.cons_ne_nil _ _)
  · rw [behind_of_ne_nil hkey hmore, behind_of_ne_nil hkey hother] at h
    exact (List.cons.inj (List.append_cancel_left h)).2

/-- Clear ends stay clear. -/
theorem endsClear_behind (hkey : EndsClear key) (hmore : EndsClear more) :
    EndsClear (behind key more) := by
  by_cases hempty : key = []
  · rw [hempty, nil_behind]
    exact hmore
  by_cases hnone : more = []
  · rw [hnone, behind_nil]
    exact hkey
  rw [behind_of_ne_nil hempty hnone]
  refine endsClear_append hempty (List.cons_ne_nil _ _) hkey.1 ?_
  rw [List.getLast?_cons_of_ne_nil hnone]
  exact hmore.2

/-- Where clear ends meet nothing is doubled, so what is doubled is so on one of the
    two sides. -/
theorem undoubled_behind_iff (hkey : EndsClear key) (hmore : EndsClear more) :
    Undoubled (behind key more) ↔ Undoubled key ∧ Undoubled more := by
  by_cases hempty : key = []
  · rw [hempty, nil_behind]
    exact (and_iff_right List.isChain_nil).symm
  by_cases hnone : more = []
  · rw [hnone, behind_nil]
    exact (and_iff_left List.isChain_nil).symm
  rw [behind_of_ne_nil hempty hnone, Undoubled, List.isChain_append, List.isChain_cons]
  constructor
  · rintro ⟨hfront, ⟨_, hback⟩, _⟩
    exact ⟨hfront, hback⟩
  · rintro ⟨hfront, hback⟩
    -- The slash between them has no slash on either side, since the ends are clear.
    refine ⟨hfront, ⟨fun c hc _ hslash => hmore.1 ?_, hback⟩, fun c hc _ _ hslash => ?_⟩
    · rw [← hslash]
      exact hc
    · exact absurd (hslash ▸ hc) hkey.2

end Behind

/-- Slashes around a key are trimmed, whatever else is. -/
theorem trimSlashes_around {front back : List Char} (hfront : ∀ c ∈ front, c = '/')
    (hback : ∀ c ∈ back, c = '/') (key : List Char) :
    trimSlashes (front ++ (key ++ back)) = trimSlashes key :=
  Text.trimWhere_around (fun c hc => beq_iff_eq.mpr (hfront c hc))
    (fun c hc => beq_iff_eq.mpr (hback c hc)) key

theorem trimSlashes_eq_nil_iff {key : List Char} : trimSlashes key = [] ↔ ∀ c ∈ key, c = '/' := by
  rcases Text.exists_around_trimWhere (· == '/') key with ⟨front, back, hkey, hfront, hback⟩
  constructor
  · intro hnil c hc
    rw [hkey, show Text.trimWhere _ key = [] from hnil, List.nil_append, List.mem_append] at hc
    exact hc.elim (fun hc => beq_iff_eq.mp (hfront c hc)) fun hc => beq_iff_eq.mp (hback c hc)
  · intro hall
    have hslashes : trimSlashes (key ++ ([] ++ [])) = trimSlashes [] :=
      trimSlashes_around hall (List.forall_mem_nil _) []
    rwa [List.append_nil, List.append_nil] at hslashes

/-- A key that is not all slashes is a clear one with slashes around it. Its last
    character tells whether there are any behind, and its first one whether there are
    any in front. -/
theorem exists_slashes {key : List Char} (hne : trimSlashes key ≠ []) :
    ∃ front back, key = front ++ (trimSlashes key ++ back) ∧ (∀ c ∈ front, c = '/') ∧
      (∀ c ∈ back, c = '/') ∧ (key.head? ≠ some '/' ↔ front = []) ∧
      (key.getLast? ≠ some '/' ↔ back = []) := by
  rcases Text.exists_around_trimWhere (· == '/') key with ⟨front, back, hkey, hfront, hback⟩
  change key = front ++ (trimSlashes key ++ back) at hkey
  have hclear := endsClear_trimSlashes key
  refine ⟨front, back, hkey, fun c hc => beq_iff_eq.mp (hfront c hc),
    fun c hc => beq_iff_eq.mp (hback c hc), ?_, ?_⟩
  · cases front with
    | nil =>
        refine iff_of_true ?_ rfl
        rw [hkey, List.nil_append, List.head?_append_of_ne_nil _ hne]
        exact hclear.1
    | cons c front =>
        refine iff_of_false (not_not_intro ?_) (List.cons_ne_nil _ _)
        rw [hkey, List.cons_append, List.head?_cons, beq_iff_eq.mp (hfront c List.mem_cons_self)]
  · rcases List.eq_nil_or_concat back with rfl | ⟨rest, c, rfl⟩
    · refine iff_of_true ?_ rfl
      rw [hkey, List.append_nil, List.getLast?_append, List.getLast?_eq_some_getLast hne,
        Option.some_or, ← List.getLast?_eq_some_getLast hne]
      exact hclear.2
    · rw [List.concat_eq_append] at hkey hback ⊢
      refine iff_of_false (not_not_intro ?_)
        (List.append_ne_nil_of_right_ne_nil _ (List.cons_ne_nil _ _))
      rw [hkey, ← List.append_assoc, ← List.append_assoc, List.getLast?_concat,
        beq_iff_eq.mp (hback c (List.mem_append_right _ List.mem_cons_self))]

/-- Two segments with a slash between them come to the one behind the other exactly if
    one of them is of slashes only, or if no more slashes meet there. -/
theorem trimSlashes_append_slash_iff {first second : List Char} :
    trimSlashes (first ++ '/' :: second) = behind (trimSlashes first) (trimSlashes second) ↔
      (∀ c ∈ first, c = '/') ∨ (∀ c ∈ second, c = '/') ∨
        first.getLast? ≠ some '/' ∧ second.head? ≠ some '/' := by
  rw [← trimSlashes_eq_nil_iff, ← trimSlashes_eq_nil_iff]
  by_cases hfirst : trimSlashes first = []
  · refine iff_of_true ?_ (.inl hfirst)
    rw [hfirst, nil_behind]
    have hslashes : ∀ c ∈ first ++ ['/'], c = '/' :=
      List.forall_mem_append.mpr
        ⟨trimSlashes_eq_nil_iff.mp hfirst, List.forall_mem_singleton.mpr rfl⟩
    have htrim : trimSlashes ((first ++ ['/']) ++ (second ++ [])) = trimSlashes second :=
      trimSlashes_around hslashes (List.forall_mem_nil _) second
    rwa [List.append_nil, List.append_assoc, List.singleton_append] at htrim
  by_cases hsecond : trimSlashes second = []
  · refine iff_of_true ?_ (.inr (.inl hsecond))
    rw [hsecond, behind_nil]
    have hslashes : ∀ c ∈ '/' :: second, c = '/' :=
      List.forall_mem_cons.mpr ⟨rfl, trimSlashes_eq_nil_iff.mp hsecond⟩
    exact trimSlashes_around (List.forall_mem_nil _) hslashes first
  rw [or_iff_right hfirst, or_iff_right hsecond, behind_of_ne_nil hfirst hsecond]
  rcases exists_slashes hfirst with ⟨front, gap, htext, hfront, hgap, _, hlast⟩
  rcases exists_slashes hsecond with ⟨gap', back, htext', hgap', hback, hhead, _⟩
  rw [hlast, hhead]
  -- Only the slashes in front and behind are trimmed, so those in between stay.
  have hboth : first ++ '/' :: second =
      front ++ (trimSlashes first ++ ((gap ++ '/' :: gap') ++ trimSlashes second) ++ back) := by
    conv_lhs => rw [htext, htext']
    simp only [List.append_assoc, List.cons_append]
  have hclear : EndsClear (trimSlashes first ++ ((gap ++ '/' :: gap') ++ trimSlashes second)) := by
    refine endsClear_append hfirst (List.append_ne_nil_of_right_ne_nil _ hsecond)
      (endsClear_trimSlashes first).1 ?_
    rw [List.getLast?_append, List.getLast?_eq_some_getLast hsecond, Option.some_or,
      ← List.getLast?_eq_some_getLast hsecond]
    exact (endsClear_trimSlashes second).2
  have hslash : '/' :: trimSlashes second = ['/'] ++ trimSlashes second := rfl
  rw [hboth, trimSlashes_around hfront hback, trimSlashes_of_endsClear hclear,
    List.append_cancel_left_eq, hslash, List.append_cancel_right_eq]
  cases gap with
  | nil => simp
  | cons c gap => simp

namespace ObjectUri

/-- The address to which some segments lead that are joined one after the other. -/
def joinAll (uri : ObjectUri) (segments : List String) : ObjectUri :=
  segments.foldl join uri

/-- What some segments add to a key. -/
def added (segments : List String) : List Char :=
  segments.foldr (fun segment more => behind (trimSlashes segment.toList) more) []

/-- Joining puts what is left of a segment behind the key. -/
theorem join_eq_behind (uri : ObjectUri) (segment : String) :
    uri.join segment =
      { uri with key := String.ofList (behind uri.key.toList (trimSlashes segment.toList)) } := by
  have hkey : (uri.join segment).key.toList =
      behind uri.key.toList (trimSlashes segment.toList) := by
    rcases key_join uri segment with ⟨hkey, hs⟩ | ⟨hkey, hk, _⟩ | ⟨hkey, hk, hs⟩
    · rw [hkey, hs, behind_nil]
    · rw [hkey, hk, nil_behind]
    · rw [hkey, behind_of_ne_nil hk hs]
  have hparts : uri.join segment = { uri with key := (uri.join segment).key } := by
    unfold join
    dsimp only
    split
    · rfl
    · split <;> rfl
  rw [hparts, ← hkey, String.ofList_toList]

/-- Joining some segments keeps the scheme and the bucket, and what it adds to the key
    does not depend on the key. -/
theorem joinAll_eq (uri : ObjectUri) (segments : List String) :
    uri.joinAll segments =
      { uri with key := String.ofList (behind uri.key.toList (added segments)) } := by
  induction segments generalizing uri with
  | nil => rw [joinAll, List.foldl_nil, added, List.foldr_nil, behind_nil, String.ofList_toList]
  | cons segment segments ih =>
      -- The first segment is put behind the key, and the others behind both.
      have hrest : uri.joinAll (segment :: segments) = (uri.join segment).joinAll segments := rfl
      have hadded : added (segment :: segments) =
          behind (trimSlashes segment.toList) (added segments) := rfl
      rw [hrest, ih, join_eq_behind, hadded, String.toList_ofList, behind_assoc]

theorem endsClear_added (segments : List String) : EndsClear (added segments) := by
  induction segments with
  | nil => exact ⟨by simp [added], by simp [added]⟩
  | cons segment segments ih => exact endsClear_behind (endsClear_trimSlashes _) ih

theorem undoubled_added_iff (segments : List String) :
    Undoubled (added segments) ↔
      ∀ segment ∈ segments, Undoubled (trimSlashes segment.toList) := by
  induction segments with
  | nil => exact iff_of_true List.isChain_nil fun _ hno => absurd hno List.not_mem_nil
  | cons segment segments ih =>
      rw [List.forall_mem_cons, ← ih]
      exact undoubled_behind_iff (endsClear_trimSlashes _) (endsClear_added segments)

/-- Two segments can be joined at once instead of one after the other exactly if one of
    them is of slashes only, or if no slashes meet the one between them. -/
theorem join_append_slash_iff (uri : ObjectUri) (first second : String) :
    uri.join (first ++ "/" ++ second) = (uri.join first).join second ↔
      (∀ c ∈ first.toList, c = '/') ∨ (∀ c ∈ second.toList, c = '/') ∨
        first.toList.getLast? ≠ some '/' ∧ second.toList.head? ≠ some '/' := by
  have hone : (first ++ "/" ++ second).toList = first.toList ++ '/' :: second.toList := by
    simp
  rw [join_eq_behind, join_eq_behind, join_eq_behind, hone, String.toList_ofList, behind_assoc,
    ← trimSlashes_append_slash_iff, ObjectUri.mk.injEq]
  simp only [true_and, String.ofList_inj, behind_cancel_iff]

/-- Of an address with a clear key, under any segments. The scheme, the bucket and the
    key itself stay, with a text behind it or not. No slashes are added at the ends, and
    doubled ones exactly if they are inside a segment. The last part tells when two
    segments and a slash between them can be joined at once. -/
theorem keys_of_joinAll {uri : ObjectUri} (h : uri.Normal) (segments : List String) :
    (uri.joinAll segments).scheme = uri.scheme ∧
      (uri.joinAll segments).bucket = uri.bucket ∧
      (uri.joinAll segments).Normal ∧
      (Undoubled (uri.joinAll segments).key.toList ↔
        Undoubled uri.key.toList ∧
          ∀ segment ∈ segments, Undoubled (trimSlashes segment.toList)) ∧
      ((uri.joinAll segments).key = uri.key ∨
        ∃ more, more ≠ "" ∧
          (uri.key = "" ∧ (uri.joinAll segments).key = more ∨
            uri.key ≠ "" ∧ (uri.joinAll segments).key = uri.key ++ "/" ++ more)) ∧
      ∀ first second : String,
        ((uri.joinAll segments).join (first ++ "/" ++ second) =
            ((uri.joinAll segments).join first).join second ↔
          (∀ c ∈ first.toList, c = '/') ∨ (∀ c ∈ second.toList, c = '/') ∨
            first.toList.getLast? ≠ some '/' ∧ second.toList.head? ≠ some '/') := by
  have hadded := endsClear_added segments
  rw [joinAll_eq]
  refine ⟨rfl, rfl, ?_, ?_, ?_, fun first second => join_append_slash_iff _ first second⟩
  · rw [Normal, String.toList_ofList]
    exact endsClear_behind h hadded
  · rw [String.toList_ofList, undoubled_behind_iff h hadded, undoubled_added_iff]
  · by_cases hnone : added segments = []
    · left
      rw [hnone, behind_nil, String.ofList_toList]
    refine .inr ⟨String.ofList (added segments), ?_, ?_⟩
    · rwa [ne_eq, String.ofList_eq_empty_iff]
    by_cases hkey : uri.key = ""
    · refine .inl ⟨hkey, ?_⟩
      rw [hkey]
      rfl
    · refine .inr ⟨hkey, ?_⟩
      rw [behind_of_ne_nil (fun hnil => hkey (String.toList_eq_nil_iff.mp hnil)) hnone]
      apply String.toList_injective
      simp

/-- Slashes around a segment do not matter, and a segment of slashes is none. Of what is
    joined to the key only the last segment has a doubled slash inside. -/
theorem keys_of_joinAll_pipeline :
    (ObjectUri.mk "s3" "bucket" "root").Normal ∧
      (ObjectUri.joinAll ⟨"s3", "bucket", "root"⟩ ["/pipeline/", "//", "run-7", "a//b"]) =
        ⟨"s3", "bucket", "root/pipeline/run-7/a//b"⟩ ∧
      ¬Undoubled (ObjectUri.joinAll ⟨"s3", "bucket", "root"⟩
        ["/pipeline/", "//", "run-7", "a//b"]).key.toList ∧
      Undoubled (ObjectUri.joinAll ⟨"s3", "bucket", "root"⟩
        ["/pipeline/", "//", "run-7"]).key.toList := by
  have hnormal : (ObjectUri.mk "s3" "bucket" "root").Normal := by decide +kernel
  refine ⟨hnormal, by decide +kernel, ?_, ?_⟩
  · rw [(keys_of_joinAll hnormal ["/pipeline/", "//", "run-7", "a//b"]).2.2.2.1]
    decide +kernel
  · rw [(keys_of_joinAll hnormal ["/pipeline/", "//", "run-7"]).2.2.2.1]
    decide +kernel

/-- The address of a key with clear ends and no doubled slashes, and two segments. The
    slashes inside the first are doubled in the key. The second one, joined in two
    parts, leads elsewhere than joined at once. -/
theorem key_doubled :
    (ObjectUri.mk "s3" "bucket" "root").Normal ∧ Undoubled "root".toList ∧
      ((ObjectUri.mk "s3" "bucket" "root").join "a//b").key = "root/a//b" ∧
      ¬Undoubled ((ObjectUri.mk "s3" "bucket" "root").join "a//b").key.toList ∧
      ((ObjectUri.mk "s3" "bucket" "root").join ("a/" ++ "/" ++ "b")).key = "root/a//b" ∧
      (((ObjectUri.mk "s3" "bucket" "root").join "a/").join "b").key = "root/a/b" := by
  decide +kernel

end ObjectUri

end BatchRun
