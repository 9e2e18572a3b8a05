import BatchRun.Proofs.Text.Utf8

/-!
# Order of Texts

Texts are in the order of their bytes.

UTF-8 was made so that bytes are in the same order as the characters they stand
for: the first byte grows with the length of the sequence, and within one length
the bytes are the digits of the code, the highest first. So texts that are
compared character by character are in the order in which their bytes are.

## Theorems

* `Utf8.utf8EncodeChar_lt`: The bytes of two characters, with anything behind
  them, are in the order of the characters.
* `Utf8.encodeChars_lt`, `Utf8.encode_lt_iff`: So are the bytes of two texts.
-/

namespace BatchRun

namespace Utf8

theorem ofNat_lt_ofNat {m n : Nat} (hm : m < 256) (hn : n < 256) :
    UInt8.ofNat m < UInt8.ofNat n ↔ m < n := by
  rw [UInt8.lt_iff_toNat_lt, toNat_ofNat_of_lt hm, toNat_ofNat_of_lt hn]

/-- A byte that is smaller decides. -/
theorem cons_lt_of_lt {m n : Nat} (hn : n < 256) (h : m < n) (front back : Bytes) :
    UInt8.ofNat m :: front < UInt8.ofNat n :: back :=
  List.cons_lt_cons_iff.mpr (Or.inl ((ofNat_lt_ofNat (Nat.lt_trans h hn) hn).mpr h))

/-- A byte that is not greater decides, or leaves it to those behind. -/
theorem cons_lt_of_le {m n : Nat} (hn : n < 256) (hle : m ≤ n) {front back : Bytes}
    (h : m = n → front < back) : UInt8.ofNat m :: front < UInt8.ofNat n :: back := by
  by_cases heq : m = n
  · exact List.cons_lt_cons_iff.mpr (Or.inr ⟨congrArg UInt8.ofNat heq, h heq⟩)
  · exact cons_lt_of_lt hn (Nat.lt_of_le_of_ne hle heq) _ _

section Lengths

variable {m n : Nat}

/-- The last byte decides between codes that agree in all bits before it. -/
theorem last_lt (h : m < n) (hsame : m / 64 = n / 64) (front back : Bytes) :
    UInt8.ofNat (m % 64 + 128) :: front < UInt8.ofNat (n % 64 + 128) :: back :=
  cons_lt_of_lt (by omega) (by omega) _ _

theorem two_lt (h : m < n) (hn : n ≤ 2047) (front back : Bytes) :
    UInt8.ofNat (m / 64 % 32 + 192) :: UInt8.ofNat (m % 64 + 128) :: front <
      UInt8.ofNat (n / 64 % 32 + 192) :: UInt8.ofNat (n % 64 + 128) :: back :=
  cons_lt_of_le (by omega) (by omega) fun _ => last_lt h (by omega) _ _

theorem three_lt (h : m < n) (hn : n ≤ 65535) (front back : Bytes) :
    UInt8.ofNat (m / 4096 % 16 + 224) :: UInt8.ofNat (m / 64 % 64 + 128) ::
        UInt8.ofNat (m % 64 + 128) :: front <
      UInt8.ofNat (n / 4096 % 16 + 224) :: UInt8.ofNat (n / 64 % 64 + 128) ::
        UInt8.ofNat (n % 64 + 128) :: back :=
  cons_lt_of_le (by omega) (by omega) fun _ =>
    cons_lt_of_le (by omega) (by omega) fun _ => last_lt h (by omega) _ _

theorem four_lt (h : m < n) (hn : n < 0x110000) (front back : Bytes) :
    UInt8.ofNat (m / 262144 % 8 + 240) :: UInt8.ofNat (m / 4096 % 64 + 128) ::
        UInt8.ofNat (m / 64 % 64 + 128) :: UInt8.ofNat (m % 64 + 128) :: front <
      UInt8.ofNat (n / 262144 % 8 + 240) :: UInt8.ofNat (n / 4096 % 64 + 128) ::
        UInt8.ofNat (n / 64 % 64 + 128) :: UInt8.ofNat (n % 64 + 128) :: back :=
  cons_lt_of_le (by omega) (by omega) fun _ =>
    cons_lt_of_le (by omega) (by omega) fun _ =>
      cons_lt_of_le (by omega) (by omega) fun _ => last_lt h (by omega) _ _

end Lengths

/-- The bytes of two characters are in the order of the characters, whatever
    stands behind them. -/
theorem utf8EncodeChar_lt {c d : Char} (h : c < d) (front back : Bytes) :
    String.utf8EncodeChar c ++ front < String.utf8EncodeChar d ++ back := by
  have hcode : c.toNat < d.toNat := h
  have hlast : d.toNat < 0x110000 := by
    have hvalid := d.valid
    unfold UInt32.isValidChar Nat.isValidChar at hvalid
    change d.val.toNat < _
    omega
  have hfront := utf8EncodeChar_ofNat (n := c.toNat) c.valid
  have hback := utf8EncodeChar_ofNat (n := d.toNat) d.valid
  rw [Char.ofNat_toNat] at hfront hback
  rw [hfront, hback]
  generalize c.toNat = m at hcode ⊢
  generalize d.toNat = n at hcode hlast ⊢
  -- A character with fewer bytes has a smaller first byte.
  by_cases hone : m ≤ 127
  · rw [if_pos hone]
    split
    · exact cons_lt_of_lt (by omega) hcode _ _
    · split
      · exact cons_lt_of_lt (by omega) (by omega) _ _
      · split
        · exact cons_lt_of_lt (by omega) (by omega) _ _
        · exact cons_lt_of_lt (by omega) (by omega) _ _
  rw [if_neg hone, if_neg (by omega : ¬n ≤ 127)]
  by_cases htwo : m ≤ 2047
  · rw [if_pos htwo]
    split
    · exact two_lt hcode (by assumption) _ _
    · split
      · exact cons_lt_of_lt (by omega) (by omega) _ _
      · exact cons_lt_of_lt (by omega) (by omega) _ _
  rw [if_neg htwo, if_neg (by omega : ¬n ≤ 2047)]
  by_cases hthree : m ≤ 65535
  · rw [if_pos hthree]
    split
    · exact three_lt hcode (by assumption) _ _
    · exact cons_lt_of_lt (by omega) (by omega) _ _
  rw [if_neg hthree, if_neg (by omega : ¬n ≤ 65535)]
  exact four_lt hcode hlast _ _

theorem encodeChars_lt {front back : List Char} (h : front < back) :
    encodeChars front < encodeChars back := by
  induction front generalizing back with
  | nil =>
      cases back with
      | nil => exact absurd h (List.lt_irrefl _)
      | cons d back =>
          rw [encodeChars_cons]
          cases hbytes : String.utf8EncodeChar d with
          | nil => exact absurd hbytes String.utf8EncodeChar_ne_nil
          | cons b bytes => exact List.nil_lt_cons _ _
  | cons c front ih =>
      cases back with
      | nil => exact absurd h (List.not_lt_nil _)
      | cons d back =>
          rw [encodeChars_cons, encodeChars_cons]
          rcases List.cons_lt_cons_iff.mp h with hfirst | ⟨rfl, hrest⟩
          · exact utf8EncodeChar_lt hfirst _ _
          · exact List.append_left_lt (ih hrest)

/-- Texts are in the order of their bytes. -/
theorem encode_lt_iff {a b : String} : encode a < encode b ↔ a < b := by
  refine ⟨fun h => ?_, fun h => encodeChars_lt h⟩
  by_cases hlt : a < b
  · exact hlt
  -- Otherwise they are the same, or the other way round.
  by_cases hgt : b < a
  · exact absurd h (List.lt_asymm (encodeChars_lt hgt))
  · have heq := String.le_antisymm (String.not_lt.mp hgt) (String.not_lt.mp hlt)
    rw [heq] at h
    exact absurd h (List.lt_irrefl _)

end Utf8

end BatchRun
