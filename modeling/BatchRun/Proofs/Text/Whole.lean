import BatchRun.Proofs.Text.Ascii
import BatchRun.Proofs.Url.Ip
import BatchRun.Text.Whole

/-!
# Reading Whole Numbers

A number that fits is read from its digits.

The reader refuses a number as soon as the digits so far are too many. Those digits
stand for less than all of them do, so where the number fits, none is refused.

## Theorems

* `Hex.isAlphanum_of_digitValue`, `Hex.decimal_of_digitValue`: What the digits are.
* `Hex.isSome_digitValue_of_mem_encode`: Bytes are written in digits.
* `Whole.read_of_digitsIn`: A number that fits is read.
-/

namespace BatchRun

namespace Hex

variable {c : Char}

theorem toNat_of_digitValue (h : (digitValue c).isSome) : c.toNat < 0x80 := by
  have hlt : ∀ {d : Char}, c ≤ d → d.toNat < 0x80 → c.toNat < 0x80 := fun hle hd =>
    Nat.lt_of_le_of_lt (UInt32.le_iff_toNat_le.mp (Char.le_def.mp hle)) hd
  unfold digitValue at h
  split at h
  · next hc => exact hlt hc.2 (by decide)
  · split at h
    · next hc => exact hlt hc.2 (by decide)
    · split at h
      · next hc => exact hlt hc.2 (by decide)
      · exact absurd h Bool.false_ne_true

/-- Hexadecimal digits are letters and digits. -/
theorem isAlphanum_of_digitValue (h : (digitValue c).isSome) : c.isAlphanum = true := by
  have hascii := toNat_of_digitValue h
  revert h
  exact forall_ascii c hascii (by decide +kernel)

/-- A hexadecimal digit below ten is a decimal one. -/
theorem decimal_of_digitValue {d : Nat} (h : digitValue c = some d) (hd : d < 10) :
    ('0' ≤ c ∧ c ≤ '9') ∧ c.toNat - 48 = d := by
  have hsome : (digitValue c).isSome := by rw [h]; rfl
  have hascii := toNat_of_digitValue hsome
  have hall : ∀ n : Fin 128, ∀ d : Fin 10, digitValue (Char.ofNat n.val) = some d.val →
      ('0' ≤ Char.ofNat n.val ∧ Char.ofNat n.val ≤ '9') ∧
        (Char.ofNat n.val).toNat - 48 = d.val := by
    decide +kernel
  have hchar := hall ⟨c.toNat, hascii⟩ ⟨d, hd⟩
  rw [Char.ofNat_toNat] at hchar
  exact hchar h

theorem isSome_digitValue_lowerDigit {n : Nat} (h : n < 16) :
    (digitValue (lowerDigit n)).isSome = true := by
  have hall : ∀ m < 16, (digitValue (lowerDigit m)).isSome = true := by decide
  exact hall n h

theorem isSome_digitValue_of_mem_encode {bytes : Bytes}
    (h : c ∈ (encode bytes).toList) : (digitValue c).isSome = true := by
  rw [encode, String.toList_ofList, List.mem_flatMap] at h
  rcases h with ⟨b, _, hdigit⟩
  have hbyte : b.toNat < 256 := b.toNat_lt
  rcases List.mem_cons.mp hdigit with rfl | hdigit
  · exact isSome_digitValue_lowerDigit (by omega)
  · rw [List.mem_singleton.mp hdigit]
    exact isSome_digitValue_lowerDigit (by omega)

theorem isAlphanum_of_mem_encode {bytes : Bytes} (h : c ∈ (encode bytes).toList) :
    c.isAlphanum = true :=
  isAlphanum_of_digitValue (isSome_digitValue_of_mem_encode h)

end Hex

namespace Whole

variable {bound : Nat}

theorem readDigits_append (front back : List Char) (value : Nat) :
    readDigits bound value (front ++ back) =
      (readDigits bound value front).bind fun value => readDigits bound value back := by
  induction front generalizing value with
  | nil => rfl
  | cons c rest ih =>
      simp only [List.cons_append, readDigits]
      split
      · rfl
      · split
        · exact ih _
        · rfl

theorem readDigits_of_digitsIn {digits : List Char} {n : Nat}
    (h : Ip.digitsIn 10 digits = some n) (hbound : n < bound) :
    readDigits bound 0 digits = .ok n := by
  revert hbound
  -- The digits before the last one stand for less, so none of them was refused.
  refine Ip.digitsIn_induction h (fun _ => rfl) fun digits value c d ih hc hd hbound => ?_
  have hdecimal := Hex.decimal_of_digitValue hc hd
  rw [readDigits_append, ih (by omega), Except.bind, readDigits, digit?, if_pos hdecimal.1,
    hdecimal.2]
  simp only [if_pos hbound, readDigits]

/-- A number that fits is read from its digits, with any zeros in front. -/
theorem read_of_digitsIn {digits : String} {n : Nat} (hne : digits ≠ "")
    (h : Ip.digitsIn 10 digits.toList = some n) (hbound : n < bound) :
    read bound digits = .ok n := by
  have hsign : ∀ rest, digits.toList ≠ '+' :: rest := by
    intro rest hplus
    have hnone : Ip.digitsIn 10 ('+' :: rest) = none := rfl
    rw [hplus, hnone] at h
    exact absurd h (by simp only [reduceCtorEq, not_false_eq_true])
  unfold read
  split
  · next hnil => exact absurd (String.toList_eq_nil_iff.mp hnil) hne
  · next hplus => exact absurd hplus (hsign _)
  · next hplus => exact absurd hplus (hsign _)
  · exact readDigits_of_digitsIn h hbound

end Whole

end BatchRun
