import BatchRun.Text.Utf8

/-!
# ASCII in Bytes

Where the ASCII characters of a text come from.

A character of several bytes is never one of ASCII, because overlong forms are
kept out. So every ASCII character that is read stands there as its own byte, and
a name that was cut out between slashes has none when it is read.

## Main definitions

* `Utf8.Progress.BeyondAscii`: What has begun will not be an ASCII character.

## Theorems

* `forall_byte`, `forall_ascii`: Bytes and characters of ASCII, one by one.
* `Utf8.step_beyondAscii`, `Utf8.ascii_of_step`: One byte.
* `Utf8.ascii_mem_of_decodeFrom`: A walk over some bytes.
* `Utf8.ascii_mem_of_text?`: A text that was read strictly.
-/

namespace BatchRun

/-- What holds of every number of a byte holds of every byte. -/
theorem forall_byte {P : UInt8 → Prop} (h : ∀ n : Fin 256, P (UInt8.ofNat n.val)) (b : UInt8) :
    P b := by
  have hb := h ⟨b.toNat, b.toNat_lt⟩
  rwa [UInt8.ofNat_toNat] at hb

/-- What holds of every number below 128 as a character holds of every character of
    ASCII. -/
@[elab_as_elim]
theorem forall_ascii {P : Char → Prop} (c : Char) (hc : c.toNat < 0x80)
    (h : ∀ n : Fin 128, P (Char.ofNat n.val)) : P c := by
  have hn := h ⟨c.toNat, hc⟩
  rwa [Char.ofNat_toNat] at hn

/-- Letters and digits are of ASCII. -/
theorem toNat_of_isAlphanum {c : Char} (h : c.isAlphanum = true) : c.toNat < 0x80 := by
  have hlt : ∀ {d : Char}, c.val ≤ d.val → d.toNat < 0x80 → c.toNat < 0x80 := fun hle hd =>
    Nat.lt_of_le_of_lt (UInt32.le_iff_toNat_le.mp hle) hd
  rw [Char.isAlphanum, Bool.or_eq_true] at h
  rcases h with halpha | hdigit
  · have hcases : c.isUpper = true ∨ c.isLower = true := Bool.or_eq_true_iff.mp halpha
    rcases hcases with hupper | hlower
    · exact hlt (of_decide_eq_true hupper).2 (by decide)
    · have hle : c.val ≤ 'z'.val := of_decide_eq_true (Bool.and_eq_true_iff.mp hlower).2
      exact hlt hle (by decide)
  · rw [Char.isDigit, Bool.and_eq_true, decide_eq_true_eq, decide_eq_true_eq] at hdigit
    exact hlt hdigit.2 (by decide)

/-- Letters and digits are visible. -/
theorem visible_of_isAlphanum {c : Char} (h : c.isAlphanum = true) :
    0x20 < c.toNat ∧ c.toNat < 0x80 := by
  have hascii := toNat_of_isAlphanum h
  revert h
  exact forall_ascii c hascii (by decide +kernel)

/-- The characters of a given text are visible if a look at each says so. -/
theorem visible_of_all {text : List Char}
    (h : text.all (fun c => decide (0x20 < c.toNat ∧ c.toNat < 0x80)) = true) {c : Char}
    (hc : c ∈ text) : 0x20 < c.toNat ∧ c.toNat < 0x80 :=
  of_decide_eq_true (List.all_eq_true.mp h c hc)

namespace Utf8

/-- The bits so far, or the bounds of the next byte, lead out of ASCII. -/
def Unfinished.BeyondAscii (pending : Unfinished) : Prop :=
  2 ≤ pending.value ∨ 2 ≤ pending.missing ∧ (1 ≤ pending.value ∨ 0x82 ≤ pending.low)

/-- What has begun will not be an ASCII character. -/
def Progress.BeyondAscii : Progress → Prop
  | between => True
  | inside pending => pending.BeyondAscii

theorem beyondAscii_of_announced {b : UInt8} {pending : Unfinished}
    (h : announced b = some pending) : pending.BeyondAscii := by
  unfold announced at h
  repeat' split at h
  all_goals cases h
  all_goals
    simp only [UInt8.le_iff_toNat_le] at *
    unfold Unfinished.BeyondAscii
  -- Only where the value may be small it is the bounds that matter.
  · left
    rename_i hrange
    exact Nat.le_sub_of_add_le hrange.1
  · exact Or.inr ⟨Nat.le_refl _, Or.inr (by decide)⟩
  · left
    decide
  · rename_i hrange
    exact Or.inr ⟨Nat.le_refl _, Or.inl (Nat.le_sub_of_add_le hrange.1)⟩
  · exact Or.inr ⟨by decide, Or.inr (by decide)⟩
  · rename_i hrange
    exact Or.inr ⟨Nat.le_succ _, Or.inl (Nat.le_sub_of_add_le hrange.1)⟩
  · left
    decide

theorem begin_beyondAscii (b : UInt8) : (begin b).2.BeyondAscii := by
  unfold begin
  by_cases hascii : b < 0x80
  · rw [if_pos hascii]
    trivial
  · rw [if_neg hascii]
    cases hannounced : announced b with
    | none => trivial
    | some pending => exact beyondAscii_of_announced hannounced

/-- The value with the bits of one more byte. -/
theorem Unfinished.BeyondAscii.value_le {pending : Unfinished} (h : pending.BeyondAscii)
    {b : UInt8} (hlow : pending.low ≤ b) :
    2 ≤ pending.value * 64 + (b.toNat - 0x80) ∧
      (pending.missing ≤ 1 → 128 ≤ pending.value * 64 + (b.toNat - 0x80)) := by
  rw [UInt8.le_iff_toNat_le] at hlow
  rcases h with hvalue | ⟨hmissing, hvalue | hbound⟩
  · omega
  · omega
  · rw [UInt8.le_iff_toNat_le] at hbound
    have hbits : 0x82 ≤ b.toNat := Nat.le_trans hbound hlow
    omega

/-- What a byte begins or carries on does not end as an ASCII character. -/
theorem step_beyondAscii {progress : Progress} (h : progress.BeyondAscii) (b : UInt8) :
    (step progress b).2.BeyondAscii := by
  cases progress with
  | between => exact begin_beyondAscii b
  | inside pending =>
      simp only [step]
      split
      · next hrange =>
        split
        · trivial
        · exact Or.inl (h.value_le hrange.1).1
      · exact begin_beyondAscii b

/-- A value that makes a character other than the first one is its code. -/
theorem toNat_ofNat_of_pos {n : Nat} (h : 0 < (Char.ofNat n).toNat) :
    (Char.ofNat n).toNat = n := by
  by_cases hvalid : n.isValidChar
  · rw [Char.ofNat, dif_pos hvalid]
    rfl
  · rw [Char.ofNat, dif_neg hvalid] at h
    exact absurd h (by decide)

theorem toNat_of_begin {b : UInt8} {c : Char} (h : .char c ∈ (begin b).1) (hpos : 0 < c.toNat) :
    c.toNat = b.toNat := by
  unfold begin at h
  split at h
  · rw [List.mem_singleton, Piece.char.injEq] at h
    rw [h] at hpos ⊢
    exact toNat_ofNat_of_pos hpos
  · split at h
    · exact absurd h List.not_mem_nil
    · exact absurd (List.mem_singleton.mp h) (by simp only [reduceCtorEq, not_false_eq_true])

/-- An ASCII character that is read at a byte is this byte. -/
theorem ascii_of_step {progress : Progress} (hprogress : progress.BeyondAscii) {b : UInt8}
    {c : Char} (h : .char c ∈ (step progress b).1) (hpos : 0 < c.toNat) (hascii : c.toNat < 0x80) :
    c.toNat = b.toNat := by
  cases progress with
  | between => exact toNat_of_begin h hpos
  | inside pending =>
      simp only [step] at h
      split at h
      · next hrange =>
        split at h
        · next hlast =>
          rw [List.mem_singleton, Piece.char.injEq] at h
          rw [h] at hpos hascii
          rw [toNat_ofNat_of_pos hpos] at hascii
          have hbeyond := (hprogress.value_le hrange.1).2 hlast
          omega
        · exact absurd h List.not_mem_nil
      · rcases List.mem_cons.mp h with hfault | hbegun
        · exact absurd hfault (by simp only [reduceCtorEq, not_false_eq_true])
        · exact toNat_of_begin hbegun hpos

/-- Every ASCII character of a text but the first one is among its bytes. -/
theorem ascii_mem_of_decodeFrom {progress : Progress} (hprogress : progress.BeyondAscii)
    {bytes : Bytes} {c : Char} (h : .char c ∈ decodeFrom progress bytes) (hpos : 0 < c.toNat)
    (hascii : c.toNat < 0x80) : ∃ b ∈ bytes, c.toNat = b.toNat := by
  induction bytes generalizing progress with
  | nil =>
      cases progress with
      | between => exact absurd h List.not_mem_nil
      | inside pending =>
          exact absurd (List.mem_singleton.mp h) (by simp only [reduceCtorEq, not_false_eq_true])
  | cons b rest ih =>
      rcases List.mem_append.mp h with hhere | hlater
      · exact ⟨b, List.mem_cons_self, ascii_of_step hprogress hhere hpos hascii⟩
      · rcases ih (step_beyondAscii hprogress b) hlater with ⟨other, hmem, hcode⟩
        exact ⟨other, List.mem_cons_of_mem _ hmem, hcode⟩

/-- A text that is read strictly has a character for every piece. -/
theorem map_char_of_strictFrom {index : Nat} {pieces : List Piece} {cs : List Char}
    (h : strictFrom index pieces = .ok cs) : pieces = cs.map .char := by
  induction pieces generalizing index cs with
  | nil =>
      rw [strictFrom, Except.ok.injEq] at h
      rw [← h]
      rfl
  | cons piece rest ih =>
      cases piece with
      | char c =>
          rw [strictFrom] at h
          cases hrest : strictFrom (index + c.utf8Size) rest with
          | error fault =>
              rw [hrest] at h
              exact absurd h (by simp only [Except.map, reduceCtorEq, not_false_eq_true])
          | ok more =>
              rw [hrest, Except.map, Except.ok.injEq] at h
              rw [← h, List.map_cons, ih hrest]
      | invalid size => exact absurd h (by simp only [strictFrom, reduceCtorEq, not_false_eq_true])
      | incomplete size =>
          exact absurd h (by simp only [strictFrom, reduceCtorEq, not_false_eq_true])

theorem decode_of_text? {bytes : Bytes} {text : String} (h : text? bytes = some text) :
    decode bytes = text.toList.map .char := by
  unfold text? strict at h
  cases hstrict : strictFrom 0 (decode bytes) with
  | error fault =>
      rw [hstrict] at h
      exact absurd h (by simp only [Except.map, Except.toOption, reduceCtorEq, not_false_eq_true])
  | ok cs =>
      rw [hstrict] at h
      simp only [Except.map, Except.toOption, Option.some.injEq] at h
      rw [← h, String.toList_ofList]
      exact map_char_of_strictFrom hstrict

/-- Every ASCII character of a text that was read strictly, but the first one, is
    among its bytes. -/
theorem ascii_mem_of_text? {bytes : Bytes} {text : String} (h : text? bytes = some text)
    {c : Char} (hmem : c ∈ text.toList) (hpos : 0 < c.toNat) (hascii : c.toNat < 0x80) :
    ∃ b ∈ bytes, c.toNat = b.toNat := by
  refine ascii_mem_of_decodeFrom (show Progress.between.BeyondAscii from trivial) ?_ hpos hascii
  rw [← decode, decode_of_text? h]
  exact List.mem_map_of_mem hmem

/-- A character that has begun leaves a piece, be it a fault. -/
theorem decodeFrom_inside_ne_nil (pending : Unfinished) (bytes : Bytes) :
    decodeFrom (.inside pending) bytes ≠ [] := by
  induction bytes generalizing pending with
  | nil => exact List.cons_ne_nil _ _
  | cons b rest ih =>
      simp only [decodeFrom, step]
      split
      · split
        · exact List.cons_ne_nil _ _
        · exact ih _
      · exact List.cons_ne_nil _ _

/-- Some bytes are not read as no text. -/
theorem ne_nil_of_text? {bytes : Bytes} {text : String} (h : text? bytes = some text)
    (hne : bytes ≠ []) : text.toList ≠ [] := by
  intro hempty
  have hpieces := decode_of_text? h
  rw [hempty, List.map_nil] at hpieces
  cases bytes with
  | nil => exact hne rfl
  | cons b rest =>
      simp only [decode, decodeFrom, step, begin] at hpieces
      split at hpieces
      · exact List.cons_ne_nil _ _ hpieces
      · split at hpieces
        · exact decodeFrom_inside_ne_nil _ rest hpieces
        · exact List.cons_ne_nil _ _ hpieces

end Utf8

end BatchRun
