import BatchRun.Proofs.Text.Percent
import BatchRun.Proofs.Text.Pieces
import BatchRun.Proofs.Text.Utf8
import BatchRun.Url.Domain

/-!
# Domain Names in ASCII

A domain name that was written in ASCII stays as it is.

Folding leaves no capital, and what it leaves is checked. A label outside ASCII is
written in small letters, digits and hyphens, behind those of its characters that
need no such writing. So each character of a domain name is one that folding keeps
and the check lets pass, and writing the name again changes nothing.

## Main definitions

* `Domain.isPlain`: A character as it stands in a domain name.

## Theorems

* `Domain.isPlain_of_toAscii`: Every character of a domain name is plain.
* `Domain.toAscii_of_plain`: A name of plain characters stays as it is.
-/

namespace BatchRun

namespace Domain

/-- A character as it stands in a domain name: one of ASCII that is no capital and
    that no rule forbids. -/
def isPlain (c : Char) : Bool :=
  decide (c.toNat < 0x80) && !isForbidden c && !between 0x41 0x5A c

theorem toNat_of_isPlain {c : Char} (h : isPlain c = true) : c.toNat < 0x80 := by
  rw [isPlain, Bool.and_eq_true, Bool.and_eq_true, decide_eq_true_eq] at h
  exact h.1.1

theorem fold_of_isPlain {c : Char} (h : isPlain c = true) : fold c = [c] := by
  have hascii := toNat_of_isPlain h
  revert h
  exact forall_ascii c hascii (by decide +kernel)

theorem passes_of_isPlain {c : Char} (h : isPlain c = true) :
    (isForbidden c || isUnassigned c) = false := by
  have hascii := toNat_of_isPlain h
  revert h
  exact forall_ascii c hascii (by decide +kernel)

theorem labelToAscii_of_ascii {label : List Char} (h : ∀ c ∈ label, c.toNat < 0x80) :
    labelToAscii label = label :=
  if_pos (List.all_eq_true.mpr fun c hc => decide_eq_true (h c hc))

/-- A name of plain characters stays as it is. -/
theorem toAscii_of_plain {name : List Char} (h : ∀ c ∈ name, isPlain c = true) :
    toAscii name = some name := by
  have hfold : name.flatMap fold = name := by
    rw [List.flatMap, List.map_congr_left fun c hc => fold_of_isPlain (h c hc)]
    exact List.flatMap_singleton' name
  have hpass : name.any (fun c => isForbidden c || isUnassigned c) = false := by
    rw [List.any_eq_false]
    exact fun c hc => Bool.eq_false_iff.mp (passes_of_isPlain (h c hc))
  have hlabels : (Text.splitOn '.' name).map labelToAscii = Text.splitOn '.' name := by
    refine (List.map_congr_left fun label hlabel => ?_).trans (List.map_id _)
    exact labelToAscii_of_ascii fun c hc =>
      toNat_of_isPlain (h c (Text.mem_of_mem_splitWhere hlabel hc).1)
  rw [toAscii, hfold]
  simp only [hpass, Bool.false_eq_true, if_false, hlabels, Text.joinWith_splitOn]

/-- A character that was moved to another place is that one, or none at all. -/
theorem between_ofNat {n : Nat} (h : n < 0x41 ∨ 0x5A < n) :
    between 0x41 0x5A (Char.ofNat n) = false := by
  have hn : (Char.ofNat n).toNat < 0x41 ∨ 0x5A < (Char.ofNat n).toNat := by
    by_cases hvalid : n.isValidChar
    · rwa [Utf8.toNat_ofNat hvalid]
    · left
      rw [Char.ofNat, dif_neg hvalid]
      decide
  rw [between, Bool.and_eq_false_iff, decide_eq_false_iff_not, decide_eq_false_iff_not]
  omega

/-- No capital is left after folding. -/
theorem between_of_fold {c d : Char} (h : d ∈ fold c) : between 0x41 0x5A d = false := by
  unfold fold at h
  simp only [between, Bool.and_eq_true, Bool.or_eq_true, decide_eq_true_eq, beq_iff_eq,
    bne_iff_ne] at h
  split at h
  · exact absurd h List.not_mem_nil
  iterate 6
    split at h
    · rw [List.mem_singleton.mp h]
      exact between_ofNat (by omega)
  split at h
  · rw [List.mem_singleton.mp h]
    decide
  split at h
  · rw [List.mem_singleton.mp h]
    exact between_ofNat (by omega)
  split at h
  · rw [List.mem_singleton.mp h]
    exact between_ofNat (by omega)
  · rw [List.mem_singleton.mp h, between, Bool.and_eq_false_iff, decide_eq_false_iff_not,
      decide_eq_false_iff_not]
    omega

/-- A written number of a label outside ASCII is of small letters and digits. -/
theorem isPlain_digit {n : Nat} (h : n < 36) : isPlain (digit n) = true := by
  have hall : ∀ n < 36, isPlain (digit n) = true := by decide +kernel
  exact hall n h

theorem isPlain_of_variableLength {bias fuel k q : Nat} {c : Char}
    (h : c ∈ variableLength bias fuel k q) : isPlain c = true := by
  induction fuel generalizing k q with
  | zero => exact absurd h List.not_mem_nil
  | succ fuel ih =>
      simp only [variableLength] at h
      -- With a threshold between 1 and 26 every digit is below 36.
      have hthreshold : (if k ≤ bias then 1 else if bias + 26 ≤ k then 26 else k - bias) ≤ 26 ∧
          0 < (if k ≤ bias then 1 else if bias + 26 ≤ k then 26 else k - bias) := by
        split
        · omega
        · split
          · omega
          · omega
      generalize (if k ≤ bias then 1 else if bias + 26 ≤ k then 26 else k - bias) = threshold
        at h hthreshold
      split at h
      · next hq =>
        rw [List.mem_singleton.mp h]
        exact isPlain_digit (by omega)
      · rcases List.mem_cons.mp h with rfl | h
        · have hmod := Nat.mod_lt (q - threshold) (y := 36 - threshold) (by omega)
          exact isPlain_digit (by omega)
        · exact ih h

theorem isPlain_of_writePoint {basic point : Nat} {label : List Char} {w : Writing}
    (hw : ∀ c ∈ w.text, isPlain c = true) :
    ∀ c ∈ (writePoint basic point label w).text, isPlain c = true := by
  simp only [writePoint]
  refine List.foldlRecOn (motive := fun w : Writing => ∀ c ∈ w.text, isPlain c = true) label _ hw
    fun w hw d _ => ?_
  split
  · exact hw
  · split
    · intro c hc
      rcases List.mem_append.mp hc with hc | hc
      · exact hw c hc
      · exact isPlain_of_variableLength hc
    · exact hw

/-- What stands for a label outside ASCII is plain if its characters of ASCII are. -/
theorem isPlain_of_punycode {label : List Char}
    (hlabel : ∀ c ∈ label, c.toNat < 0x80 → isPlain c = true) :
    ∀ c ∈ punycode label, isPlain c = true := by
  have hbasic : ∀ c ∈ label.filter (·.toNat < 0x80), isPlain c = true := by
    intro c hc
    rw [List.mem_filter, decide_eq_true_eq] at hc
    exact hlabel c hc.1 hc.2
  simp only [punycode]
  refine List.foldlRecOn (motive := fun w : Writing => ∀ c ∈ w.text, isPlain c = true) _ _ ?_
    fun w hw point _ => isPlain_of_writePoint hw
  split
  · exact fun c hc => absurd hc List.not_mem_nil
  · intro c hc
    rcases List.mem_append.mp hc with hc | hc
    · exact hbasic c hc
    · rw [List.mem_singleton.mp hc]
      decide

/-- Every character of a domain name is plain. -/
theorem isPlain_of_toAscii {name domain : List Char} (h : toAscii name = some domain) :
    ∀ c ∈ domain, isPlain c = true := by
  simp only [toAscii] at h
  split at h
  · exact absurd h (by simp only [reduceCtorEq, not_false_eq_true])
  · next hpass =>
    have hfolded : ∀ c ∈ name.flatMap fold, c.toNat < 0x80 → isPlain c = true := by
      intro c hc hascii
      rcases List.mem_flatMap.mp hc with ⟨d, _, hd⟩
      rw [List.any_eq_true, not_exists] at hpass
      have hforbidden : isForbidden c = false := by
        have hno := hpass c
        rw [not_and, Bool.not_eq_true, Bool.or_eq_false_iff] at hno
        exact (hno hc).1
      rw [isPlain, decide_eq_true hascii, hforbidden, between_of_fold hd]
      rfl
    intro c hc
    rw [← Option.some.inj h] at hc
    rcases Text.mem_of_mem_joinWith hc with rfl | ⟨piece, hpiece, hmem⟩
    · decide
    · rcases List.mem_map.mp hpiece with ⟨label, hlabel, rfl⟩
      have hin : ∀ d ∈ label, d.toNat < 0x80 → isPlain d = true := fun d hd =>
        hfolded d (Text.mem_of_mem_splitWhere hlabel hd).1
      unfold labelToAscii at hmem
      split at hmem
      · next hascii => exact hin c hmem (of_decide_eq_true (List.all_eq_true.mp hascii c hmem))
      · rcases List.mem_append.mp hmem with hmem | hmem
        · have hprefix : ['x', 'n', '-', '-'].all isPlain = true := by decide
          exact List.all_eq_true.mp hprefix c hmem
        · exact isPlain_of_punycode hin c hmem

end Domain

end BatchRun
