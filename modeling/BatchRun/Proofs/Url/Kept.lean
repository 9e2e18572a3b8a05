import BatchRun.Proofs.Url.Path

/-!
# Paths That Are Kept

A path of which nothing is lost when it is read.

Resolving a path makes it say less or as much as was written, counted in bytes: a
percent code says one byte in place of three, and a segment of dots is dropped. So a
path that says as much as was written has neither, and what it says is what was
written, segment by segment.

## Main definitions

* `Url.pieces`: The segments of a path, before dots are resolved.
* `Url.IsKept`: No segment is of dots or has a percent code.
* `Url.withoutEmpty`: Segments without the empty ones at the front.

## Theorems

* `Url.saidLength_resolvePath_le`: A path says at most what was written.
* `Url.isKept_of_saidLength`: A path that says as much is kept.
* `Url.resolvePath_of_isKept`: A path that is kept keeps its segments.
-/

namespace BatchRun

namespace Utf8

/-- What is left of a text is shorter, unless all of it is left. -/
theorem length_encodeChars_le {part whole : List Char} (h : List.Sublist part whole) :
    (encodeChars part).length ≤ (encodeChars whole).length := by
  induction h with
  | slnil => exact Nat.le_refl _
  | cons c _ ih =>
      rw [encodeChars_cons, List.length_append]
      exact Nat.le_trans ih (Nat.le_add_left _ _)
  | cons_cons c _ ih =>
      rw [encodeChars_cons, encodeChars_cons, List.length_append, List.length_append]
      exact Nat.add_le_add_left ih _

theorem eq_of_length_encodeChars {part whole : List Char} (h : List.Sublist part whole)
    (hle : (encodeChars whole).length ≤ (encodeChars part).length) : part = whole := by
  induction h with
  | slnil => rfl
  | @cons part whole c hsub _ =>
      have hpos : 0 < (String.utf8EncodeChar c).length :=
        List.length_pos_iff.mpr String.utf8EncodeChar_ne_nil
      have hpart := length_encodeChars_le hsub
      rw [encodeChars_cons, List.length_append] at hle
      omega
  | cons_cons c _ ih =>
      rw [encodeChars_cons, encodeChars_cons, List.length_append, List.length_append] at hle
      rw [ih (Nat.le_of_add_le_add_left hle)]

end Utf8

namespace Url

/-- How long some segments are, each with the slash before it. -/
def writtenLength (segments : List (List Char)) : Nat :=
  (segments.flatMap fun segment => 0x2F :: Utf8.encodeChars segment).length

theorem writtenLength_cons (segment : List Char) (rest : List (List Char)) :
    writtenLength (segment :: rest) =
      (Utf8.encodeChars segment).length + 1 + writtenLength rest := by
  rw [writtenLength, List.flatMap_cons, List.length_append, List.length_cons]
  rfl

/-- A segment says at most what is written. -/
theorem length_said_le (segment : List Char) :
    (said segment).length ≤ (Utf8.encodeChars segment).length :=
  Percent.length_decode_le _

theorem saidLength_le (segments : List (List Char)) :
    saidLength segments ≤ writtenLength segments := by
  induction segments with
  | nil => exact Nat.le_refl _
  | cons segment rest ih =>
      have hone := length_said_le segment
      rw [saidLength_cons, writtenLength_cons]
      omega

/-- Segments that say as much as is written say what is written. -/
theorem said_eq_of_saidLength {segments : List (List Char)}
    (h : writtenLength segments ≤ saidLength segments) :
    ∀ segment ∈ segments, said segment = Utf8.encodeChars segment := by
  induction segments with
  | nil => exact fun segment hmem => absurd hmem List.not_mem_nil
  | cons segment rest ih =>
      have hone := length_said_le segment
      have hrest := saidLength_le rest
      rw [saidLength_cons, writtenLength_cons] at h
      rw [List.forall_mem_cons]
      exact ⟨Percent.decode_eq_self (by rw [said] at hone h; omega), ih (by omega)⟩

/-- The segments of a path, before dots are resolved. -/
def pieces (rules : PathRules) (path : List Char) : List (List Char) :=
  Text.splitWhere (fun c => c == '/' || (rules.backslash && c == '\\')) path

theorem pieces_ne_nil (rules : PathRules) (path : List Char) : pieces rules path ≠ [] :=
  Text.splitWhere_ne_nil _ _

theorem resolvePath_eq (rules : PathRules) (path : List Char) :
    resolvePath rules path = addSegments rules [] (pieces rules path) := rfl

/-- Cutting a path keeps its length, since a separator is one byte long. -/
theorem writtenLength_pieces (rules : PathRules) (path : List Char) :
    writtenLength (pieces rules path) = (Utf8.encodeChars path).length + 1 := by
  induction path with
  | nil => rfl
  | cons c rest ih =>
      rw [pieces] at ih ⊢
      rw [Utf8.encodeChars_cons, List.length_append]
      simp only [Text.splitWhere]
      split
      · next hseparates =>
        have hone : (String.utf8EncodeChar c).length = 1 := by
          simp only [Bool.or_eq_true, Bool.and_eq_true, beq_iff_eq] at hseparates
          rcases hseparates with rfl | ⟨_, rfl⟩
          · rfl
          · rfl
        rw [writtenLength_cons, ih, hone]
        have hnil : Utf8.encodeChars [] = [] := rfl
        rw [hnil, List.length_nil]
        omega
      · cases hpieces : Text.splitWhere _ rest with
        | nil => exact absurd hpieces (Text.splitWhere_ne_nil _ _)
        | cons piece more =>
            rw [hpieces, writtenLength_cons] at ih
            simp only
            rw [writtenLength_cons, Utf8.encodeChars_cons, List.length_append]
            omega

/-- Where a backslash is no slash, or there is none, a path is cut at its slashes. -/
theorem pieces_eq_splitOn {rules : PathRules} {path : List Char}
    (h : rules.backslash = true → '\\' ∉ path) : pieces rules path = Text.splitOn '/' path := by
  refine Text.splitWhere_congr fun c hc => ?_
  have hback : (rules.backslash && c == '\\') = false := by
    cases hrules : rules.backslash with
    | false => rfl
    | true =>
        rw [Bool.true_and, beq_eq_false_iff_ne]
        rintro rfl
        exact h hrules hc
  rw [hback, Bool.or_false]
  rfl

/-- No segment is of dots, and none has a percent code. -/
def IsKept (rules : PathRules) (path : List Char) : Prop :=
  ∀ segment ∈ pieces rules path, isDots segment = false ∧ said segment = Utf8.encodeChars segment

/-- A path says at most what was written. -/
theorem saidLength_resolvePath_le (rules : PathRules) (path : List Char) :
    saidLength (resolvePath rules path) ≤ (Utf8.encodeChars path).length + 1 := by
  have hadd := saidLength_addSegments_le rules [] (pieces rules path)
  have hsaid := saidLength_le (pieces rules path)
  have hnil : saidLength [] = 0 := rfl
  rw [writtenLength_pieces] at hsaid
  rw [resolvePath_eq]
  omega

/-- A path that is kept keeps its segments. -/
theorem resolvePath_of_isKept {rules : PathRules} {path : List Char} (h : IsKept rules path) :
    resolvePath rules path = (pieces rules path).map encodeSegment := by
  rw [resolvePath_eq, addSegments_of_plain rules [] fun segment hmem => (h segment hmem).1,
    List.nil_append]

/-- A path is kept if it has no segment of dots and no percent code. -/
theorem isKept_of_plain {rules : PathRules} {path : List Char}
    (hback : rules.backslash = true → '\\' ∉ path) (hcodes : said path = Utf8.encodeChars path)
    (hone : ['.'] ∉ Text.splitOn '/' path) (htwo : ['.', '.'] ∉ Text.splitOn '/' path) :
    IsKept rules path := by
  have hpieces : pieces rules path = Text.splitOn '/' path := pieces_eq_splitOn hback
  have hslash : said ('/' :: path) = 0x2F :: said path := said_append_slash [] path
  have hlength : writtenLength (pieces rules path) ≤ saidLength (pieces rules path) := by
    refine Nat.le_of_eq ?_
    rw [writtenLength_pieces, ← length_said_pathText, pathText_eq_joinWith (pieces_ne_nil _ _),
      hpieces, Text.joinWith_splitOn, hslash, List.length_cons, hcodes]
  intro segment hmem
  have hsaid := said_eq_of_saidLength hlength segment hmem
  refine ⟨Bool.eq_false_iff.mpr fun hdots => ?_, hsaid⟩
  rw [hpieces] at hmem
  rcases said_of_isDots hdots with heq | heq
  · rw [hsaid] at heq
    have hsegment : segment = ['.'] := Utf8.encodeChars_injective heq
    exact hone (hsegment ▸ hmem)
  · rw [hsaid] at heq
    have hsegment : segment = ['.', '.'] := Utf8.encodeChars_injective heq
    exact htwo (hsegment ▸ hmem)

/-- A path that says as much as was written is kept. -/
theorem isKept_of_saidLength {rules : PathRules} {path : List Char}
    (h : (Utf8.encodeChars path).length + 1 ≤ saidLength (resolvePath rules path)) :
    IsKept rules path := by
  have hadd := saidLength_addSegments_le rules [] (pieces rules path)
  have hsaid := saidLength_le (pieces rules path)
  have hnil : saidLength [] = 0 := rfl
  have hwritten := writtenLength_pieces rules path
  rw [resolvePath_eq] at h
  have hdots : (pieces rules path).any isDots = false := by
    refine Bool.eq_false_iff.mpr fun hany => ?_
    rw [if_pos hany] at hadd
    omega
  have hsame : ∀ segment ∈ pieces rules path, said segment = Utf8.encodeChars segment :=
    said_eq_of_saidLength (by omega)
  rw [List.any_eq_false] at hdots
  exact fun segment hmem => ⟨Bool.eq_false_iff.mpr (hdots segment hmem), hsame segment hmem⟩

theorem encodeChars_pathText (segments : List (List Char)) :
    Utf8.encodeChars (pathText segments) =
      segments.flatMap fun segment => 0x2F :: Utf8.encodeChars segment := by
  rw [pathText, Utf8.encodeChars, List.flatMap_assoc]
  rfl

/-- What a kept path says is how its segments are written, with a slash before each. -/
theorem said_pathText_of_isKept {rules : PathRules} {path : List Char} (h : IsKept rules path) :
    said (pathText ((pieces rules path).map encodeSegment)) =
      Utf8.encodeChars ('/' :: Text.joinWith ['/'] (pieces rules path)) := by
  rw [said_pathText, ← pathText_eq_joinWith (pieces_ne_nil rules path), encodeChars_pathText,
    List.flatMap_map, List.flatMap, List.flatMap]
  refine congrArg _ (List.map_congr_left fun segment hmem => ?_)
  rw [said_encodeSegment, (h segment hmem).2]

/-- A drive is not coded. -/
theorem encodeSegment_of_isDrive {segment : List Char} (h : isDrive segment = true) :
    encodeSegment segment = segment ∧ said segment = Utf8.encodeChars segment := by
  have hchars : ∀ c ∈ segment, c.isAlpha = true ∨ c = ':' ∨ c = '|' := by
    unfold isDrive at h
    split at h
    · next letter mark =>
      rw [Bool.and_eq_true, Bool.or_eq_true, beq_iff_eq, beq_iff_eq] at h
      intro c hc
      rcases List.mem_cons.mp hc with rfl | hc
      · exact .inl h.1
      · rw [List.mem_singleton.mp hc]
        exact .inr h.2
    · exact absurd h Bool.false_ne_true
  have hascii : ∀ c ∈ segment, c.toNat < 0x80 := by
    intro c hc
    rcases hchars c hc with halpha | rfl | rfl
    · exact toNat_of_isAlphanum (by rw [Char.isAlphanum, halpha, Bool.true_or])
    · decide
    · decide
  have hplain : ∀ c ∈ segment, c ≠ '%' ∧ isCodedInPath (UInt8.ofNat c.toNat) = false := by
    intro c hc
    have hchar := hchars c hc
    revert hchar
    exact forall_ascii c (hascii c hc) (by decide +kernel)
  exact ⟨Percent.encodeWhere_of_plain fun c hc => ⟨hascii c hc, (hplain c hc).2⟩,
    Percent.decode_of_not_mem fun hmem => (hplain '%' hmem).1 rfl⟩

/-- A kept segment is a drive exactly if it is one once it is coded. -/
theorem isDrive_encodeSegment {segment : List Char}
    (h : said segment = Utf8.encodeChars segment) :
    isDrive (encodeSegment segment) = isDrive segment := by
  rw [Bool.eq_iff_iff]
  constructor
  · intro hdrive
    -- What is coded says what the segment says, so the segment was the drive itself.
    have hsaid := (encodeSegment_of_isDrive hdrive).2
    rw [said_encodeSegment, h] at hsaid
    rw [Utf8.encodeChars_injective hsaid]
    exact hdrive
  · intro hdrive
    rw [(encodeSegment_of_isDrive hdrive).1]
    exact hdrive

/-- Segments without the empty ones at the front, but for the last one. -/
def withoutEmpty (segments : List (List Char)) : List (List Char) :=
  match segments.dropWhile List.isEmpty with
  | [] => [[]]
  | kept => kept

theorem withoutEmpty_of_ne_nil {first : List Char} (h : first ≠ []) (rest : List (List Char)) :
    withoutEmpty (first :: rest) = first :: rest := by
  rw [withoutEmpty, List.dropWhile_cons, List.isEmpty_eq_false_iff.mpr h, if_neg
    Bool.false_ne_true]

theorem addSegments_ne_nil (rules : PathRules) (resolved : List (List Char))
    {segments : List (List Char)} (h : segments ≠ []) :
    addSegments rules resolved segments ≠ [] := by
  induction segments generalizing resolved with
  | nil => exact absurd rfl h
  | cons segment rest ih =>
      cases rest with
      | nil =>
          rw [addSegments, addSegment]
          split
          · exact List.append_ne_nil_of_right_ne_nil _ (List.cons_ne_nil _ _)
          · split
            · exact List.append_ne_nil_of_right_ne_nil _ (List.cons_ne_nil _ _)
            · exact List.append_ne_nil_of_right_ne_nil _ (List.cons_ne_nil _ _)
      | cons next rest => exact ih _ (List.cons_ne_nil _ _)

theorem resolvePath_ne_nil (rules : PathRules) (path : List Char) : resolvePath rules path ≠ [] :=
  addSegments_ne_nil rules [] (pieces_ne_nil rules path)

theorem length_le_saidLength (segments : List (List Char)) :
    segments.length ≤ saidLength segments := by
  induction segments with
  | nil => exact Nat.le_refl _
  | cons segment rest ih =>
      rw [saidLength_cons, List.length_cons]
      omega

/-- Dropping empty segments makes a path say less, unless there is nothing to drop. -/
theorem saidLength_withoutEmpty_le {segments : List (List Char)} (h : segments ≠ []) :
    saidLength (withoutEmpty segments) ≤ saidLength segments ∧
      (saidLength segments ≤ saidLength (withoutEmpty segments) →
        withoutEmpty segments = segments) := by
  have hsplit := List.takeWhile_append_dropWhile (p := List.isEmpty) (l := segments)
  have hempty : ∀ segment ∈ segments.takeWhile List.isEmpty, segment.isEmpty = true :=
    fun segment hmem => List.all_eq_true.mp List.all_takeWhile segment hmem
  have hsum : saidLength segments = saidLength (segments.takeWhile List.isEmpty) +
      saidLength (segments.dropWhile List.isEmpty) := by
    rw [← saidLength_append, hsplit]
  have hfront := length_le_saidLength (segments.takeWhile List.isEmpty)
  have hone : saidLength [[]] = 1 := rfl
  unfold withoutEmpty
  generalize segments.takeWhile List.isEmpty = front at hsplit hempty hsum hfront
  cases hkept : segments.dropWhile List.isEmpty with
  | nil =>
      -- All segments are empty, and one of them stays.
      rw [hkept, List.append_nil] at hsplit
      subst hsplit
      have hpos := List.length_pos_iff.mpr h
      refine ⟨by simp only [hone]; omega, fun hle => ?_⟩
      simp only [hone] at hle
      obtain ⟨segment, hsegment⟩ := List.length_eq_one_iff.mp (show front.length = 1 by omega)
      rw [hsegment, List.isEmpty_iff.mp (hempty segment (hsegment ▸ List.mem_cons_self))]
  | cons segment rest =>
      -- Each segment that is dropped would have said a slash.
      rw [hkept] at hsplit hsum
      refine ⟨by simp only; omega, fun hle => ?_⟩
      simp only at hle ⊢
      have hnone : front = [] := List.length_eq_zero_iff.mp (by omega)
      rw [hnone, List.nil_append] at hsplit
      exact hsplit

end Url

end BatchRun
