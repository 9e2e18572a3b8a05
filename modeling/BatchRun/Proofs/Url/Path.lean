import BatchRun.Proofs.Text.Percent
import BatchRun.Proofs.Text.Pieces
import BatchRun.Url.Path

/-!
# What a Path Says

The segments that are read of a path, and what is lost of them.

A segment is coded where it has to be, which changes nothing of what its percent
codes are read as, and it is appended to those before it. Only segments of dots do
something else: they are dropped, and may take a segment before them along. So the
path says what its segments said unless one of them is of dots, and then it says
less, counted in bytes.

## Main definitions

* `Url.isDots`: A segment that names a directory by its dots.
* `Url.said`: What a segment says.
* `Url.saidLength`: How much some segments say.

## Theorems

* `Url.said_encodeSegment`: Coding a segment keeps what it says.
* `Url.said_pathText`: What a written path says.
* `Url.addSegments_of_plain`: Segments that are not of dots are appended.
* `Url.saidLength_addSegments_le`: A segment of dots makes the path say less.
-/

namespace BatchRun

namespace Url

/-- A segment that names the directory it stands in, or the one above. -/
def isDots (segment : List Char) : Bool := isHere segment || isAbove segment

/-- What a segment says, in bytes. -/
def said (segment : List Char) : Bytes := Percent.decode (Utf8.encodeChars segment)

/-- How much some segments say, each with the slash before it. -/
def saidLength (segments : List (List Char)) : Nat :=
  (segments.flatMap fun segment => 0x2F :: said segment).length

theorem codesBeyond_isCodedInPath : Percent.CodesBeyond isCodedInPath :=
  forall_byte (by decide +kernel)

theorem isCodedInPath_of_digit (b : UInt8) (h : (Hex.byteValue b).isSome) :
    isCodedInPath b = false := by
  have hall : ∀ b : UInt8, (Hex.byteValue b).isSome → isCodedInPath b = false :=
    forall_byte (by decide +kernel)
  exact hall b h

/-- Coding a segment keeps what it says. -/
theorem said_encodeSegment (segment : List Char) : said (encodeSegment segment) = said segment :=
  Percent.decode_encodeWhere codesBeyond_isCodedInPath (by decide) isCodedInPath_of_digit _

theorem encodeChars_append (front back : List Char) :
    Utf8.encodeChars (front ++ back) = Utf8.encodeChars front ++ Utf8.encodeChars back :=
  List.flatMap_append

theorem encodeChars_slash (text : List Char) :
    Utf8.encodeChars ('/' :: text) = 0x2F :: Utf8.encodeChars text := rfl

/-- What stands before a slash and behind it is said apart. -/
theorem said_append_slash (front back : List Char) :
    said (front ++ '/' :: back) = said front ++ 0x2F :: said back := by
  rw [said, encodeChars_append, encodeChars_slash]
  exact Percent.decode_append_cons (by decide) (by decide) _ _

/-- A written path is its segments with a slash before each. -/
theorem pathText_eq_joinWith {segments : List (List Char)} (h : segments ≠ []) :
    pathText segments = '/' :: Text.joinWith ['/'] segments := by
  induction segments with
  | nil => exact absurd rfl h
  | cons segment rest ih =>
      have hpath : pathText (segment :: rest) = '/' :: (segment ++ pathText rest) := rfl
      cases rest with
      | nil => rw [hpath, pathText, List.flatMap_nil, List.append_nil, Text.joinWith]
      | cons next rest =>
          rw [hpath, ih (List.cons_ne_nil _ _), Text.joinWith, List.append_assoc,
            List.singleton_append]

/-- A written path says what its segments say, with a slash before each. -/
theorem said_pathText (segments : List (List Char)) :
    said (pathText segments) = segments.flatMap fun segment => 0x2F :: said segment := by
  have hslash : ∀ text : List Char, said ('/' :: text) = 0x2F :: said text := said_append_slash []
  induction segments with
  | nil => rfl
  | cons segment rest ih =>
      have hpath : pathText (segment :: rest) = '/' :: (segment ++ pathText rest) := rfl
      rw [List.flatMap_cons, ← ih, hpath, hslash, List.cons_append]
      cases rest with
      | nil => exact congrArg _ (by rw [pathText, List.flatMap_nil, List.append_nil]; exact
          (List.append_nil _).symm)
      | cons next rest =>
          have hnext : pathText (next :: rest) = '/' :: (next ++ pathText rest) := rfl
          rw [hnext, said_append_slash, hslash]

theorem saidLength_cons (segment : List Char) (rest : List (List Char)) :
    saidLength (segment :: rest) = (said segment).length + 1 + saidLength rest := by
  rw [saidLength, List.flatMap_cons, List.length_append, List.length_cons]
  rfl

theorem saidLength_append (front back : List (List Char)) :
    saidLength (front ++ back) = saidLength front + saidLength back := by
  rw [saidLength, List.flatMap_append, List.length_append]
  rfl

/-- A written path is as long as what its segments say. -/
theorem length_said_pathText (segments : List (List Char)) :
    (said (pathText segments)).length = saidLength segments := by
  rw [said_pathText]
  rfl

theorem encodeChars_ne_nil {text : List Char} (h : text ≠ []) : Utf8.encodeChars text ≠ [] := by
  cases text with
  | nil => exact absurd rfl h
  | cons c rest =>
      rw [Utf8.encodeChars, List.flatMap_cons]
      exact List.append_ne_nil_of_left_ne_nil (String.utf8EncodeChar_ne_nil) _

/-- A segment that is something says something. -/
theorem said_ne_nil {segment : List Char} (h : segment ≠ []) : said segment ≠ [] := by
  intro hnone
  have hread := Percent.reads_decode (Utf8.encodeChars segment)
  rw [show Percent.decode (Utf8.encodeChars segment) = [] from hnone] at hread
  generalize hbytes : Utf8.encodeChars segment = bytes at hread
  cases hread with
  | nil => exact encodeChars_ne_nil h hbytes

theorem encodeSegment_ne_nil {segment : List Char} (h : segment ≠ []) :
    encodeSegment segment ≠ [] := by
  intro hnil
  have hsaid := said_ne_nil h
  rw [← said_encodeSegment, hnil] at hsaid
  exact hsaid rfl

theorem ne_nil_of_isDots {segment : List Char} (h : isDots segment = true) : segment ≠ [] := by
  rintro rfl
  exact absurd h (by decide)

theorem saidLength_dropLast_le (resolved : List (List Char)) :
    saidLength resolved.dropLast ≤ saidLength resolved := by
  rcases List.eq_nil_or_concat resolved with rfl | ⟨front, last, rfl⟩
  · exact Nat.le_refl _
  · rw [List.concat_eq_append, List.dropLast_concat, saidLength_append]
    exact Nat.le_add_right _ _

theorem saidLength_above_le (rules : PathRules) (resolved : List (List Char)) :
    saidLength (above rules resolved) ≤ saidLength resolved := by
  unfold above
  split
  · split
    · exact Nat.le_refl _
    · exact Nat.zero_le _
  · exact saidLength_dropLast_le resolved

theorem addSegment_of_plain (rules : PathRules) (resolved : List (List Char)) (last : Bool)
    {segment : List Char} (h : isDots segment = false) :
    addSegment rules resolved last segment = resolved ++ [encodeSegment segment] := by
  rw [isDots, Bool.or_eq_false_iff] at h
  rw [addSegment, h.1, h.2, if_neg Bool.false_ne_true, if_neg Bool.false_ne_true]

/-- Segments that are not of dots are appended as they are coded. -/
theorem addSegments_of_plain (rules : PathRules) (resolved : List (List Char))
    {segments : List (List Char)} (h : ∀ segment ∈ segments, isDots segment = false) :
    addSegments rules resolved segments = resolved ++ segments.map encodeSegment := by
  induction segments generalizing resolved with
  | nil => rw [addSegments, List.map_nil, List.append_nil]
  | cons segment rest ih =>
      rw [List.forall_mem_cons] at h
      cases rest with
      | nil => exact addSegment_of_plain rules resolved true h.1
      | cons next rest =>
          rw [addSegments, addSegment_of_plain rules resolved false h.1, ih _ h.2,
            List.append_assoc]
          rfl

/-- A segment adds at most what it says, and less if it is of dots. -/
theorem saidLength_addSegment_le (rules : PathRules) (resolved : List (List Char)) (last : Bool)
    (segment : List Char) :
    saidLength (addSegment rules resolved last segment) + (if isDots segment then 1 else 0) ≤
      saidLength resolved + saidLength [segment] := by
  have hempty : saidLength [[]] = 1 := rfl
  have habove := saidLength_above_le rules resolved
  cases hdots : isDots segment with
  | false =>
      refine Nat.le_of_eq ?_
      rw [addSegment_of_plain rules resolved last hdots, saidLength_append, if_neg
        Bool.false_ne_true, Nat.add_zero, saidLength_cons, saidLength_cons, said_encodeSegment]
  | true =>
      -- At most an empty segment takes its place, and that says only a slash.
      have hsays : 2 ≤ saidLength [segment] := by
        have hpos := List.length_pos_iff.mpr (said_ne_nil (ne_nil_of_isDots hdots))
        rw [saidLength_cons]
        omega
      rw [isDots, Bool.or_eq_true] at hdots
      rw [if_pos rfl]
      unfold addSegment
      split
      · split
        · rw [saidLength_append]
          omega
        · omega
      · next hnot =>
        rw [if_pos (hdots.resolve_right hnot)]
        split
        · rw [saidLength_append]
          omega
        · omega

/-- Segments say at most as much when they are resolved, and less if one of them
    is of dots. -/
theorem saidLength_addSegments_le (rules : PathRules) (resolved segments : List (List Char)) :
    saidLength (addSegments rules resolved segments) + (if segments.any isDots then 1 else 0) ≤
      saidLength resolved + saidLength segments := by
  induction segments generalizing resolved with
  | nil => exact Nat.le_refl _
  | cons segment rest ih =>
      have hsplit : saidLength (segment :: rest) = saidLength [segment] + saidLength rest :=
        saidLength_append [segment] rest
      rw [hsplit, List.any_cons]
      cases rest with
      | nil =>
          have hone := saidLength_addSegment_le rules resolved true segment
          rw [List.any_nil, Bool.or_false, addSegments]
          exact hone
      | cons next rest =>
          have hone := saidLength_addSegment_le rules resolved false segment
          have hrest := ih (addSegment rules resolved false segment)
          rw [addSegments]
          cases hfirst : isDots segment with
          | false =>
              rw [Bool.false_or]
              omega
          | true =>
              rw [hfirst, if_pos rfl] at hone
              rw [Bool.true_or, if_pos rfl]
              omega

/-- A segment that is written with dots says these dots. -/
theorem said_of_plainDots {segment : List Char} (count : Nat)
    (h : plainDots segment = List.replicate count '.') :
    said segment = List.replicate count 0x2E := by
  have hcoded : ∀ (digit : Char) (rest : List Char), digit = 'e' ∨ digit = 'E' →
      said ('%' :: '2' :: digit :: rest) = 0x2E :: said rest := by
    rintro digit rest (rfl | rfl)
    · exact (Percent.Reads.code (x := 2) (y := 14) rfl rfl (Percent.reads_decode _)).decode_eq
    · exact (Percent.Reads.code (x := 2) (y := 14) rfl rfl (Percent.reads_decode _)).decode_eq
  fun_induction plainDots segment generalizing count with
  | case1 rest ih =>
      cases count with
      | zero => exact absurd h (List.cons_ne_nil _ _)
      | succ count =>
          rw [List.replicate_succ, List.cons.injEq] at h
          rw [hcoded 'e' rest (.inl rfl), ih count h.2, List.replicate_succ]
  | case2 rest ih =>
      cases count with
      | zero => exact absurd h (List.cons_ne_nil _ _)
      | succ count =>
          rw [List.replicate_succ, List.cons.injEq] at h
          rw [hcoded 'E' rest (.inr rfl), ih count h.2, List.replicate_succ]
  | case3 c rest _ _ ih =>
      cases count with
      | zero => exact absurd h (List.cons_ne_nil _ _)
      | succ count =>
          rw [List.replicate_succ, List.cons.injEq] at h
          have hdot : said ('.' :: rest) = 0x2E :: said rest :=
            Percent.decode_cons_of_not fun hsign => absurd hsign (by decide)
          rw [h.1, hdot, ih count h.2, List.replicate_succ]
  | case4 =>
      cases count with
      | zero => rfl
      | succ count => exact absurd h.symm (List.cons_ne_nil _ _)

/-- A segment of dots says one dot or two. -/
theorem said_of_isDots {segment : List Char} (h : isDots segment = true) :
    said segment = [0x2E] ∨ said segment = [0x2E, 0x2E] := by
  rw [isDots, Bool.or_eq_true] at h
  rcases h with hhere | habove
  · exact .inl (said_of_plainDots 1 (eq_of_beq hhere))
  · exact .inr (said_of_plainDots 2 (eq_of_beq habove))

end Url

end BatchRun
