import BatchRun.Proofs.Text.Utf8
import BatchRun.Text.Percent

/-!
# Reading Percent Codes

What a reader of percent codes makes of bytes, and of bytes that were coded.

Bytes are read from the left: a percent sign with two digits behind it stands for
one byte, and any other byte for itself. `Percent.Reads` says this as a relation, so
what holds of the reading is shown by induction on how the bytes were read. Coding
some bytes and leaving percent signs and digits alone does not change what is read,
since every code that was there is still there. Coding the percent sign too makes
the reader give back what was coded.

## Main definitions

* `Percent.BeginsDigits`: Two hexadecimal digits stand at the front.
* `Percent.Reads`: What bytes are read as.

## Theorems

* `reads_iff`: The relation is what the decoder computes.
* `encodeChars_encodeWhere`: Coded bytes are coded one by one.
* `decode_encodeWhere`: Coding that leaves the codes alone.
* `decode_encodeWhere_sign`: Coding that codes the percent sign.
* `encodeWhere_of_plain`: Coding that has nothing to do.
* `decode_of_not_mem`: Reading that has nothing to do.
* `decode_append_cons`: A separator is read on its own.
* `length_decode_le`, `decode_eq_self`: What is read is shorter, unless nothing was
  coded.
-/

namespace BatchRun

namespace Percent

/-- Two hexadecimal digits stand at the front of some bytes. -/
def BeginsDigits : Bytes → Prop
  | high :: low :: _ => (Hex.byteValue high).isSome ∧ (Hex.byteValue low).isSome
  | _ => False

/-- What some bytes are read as. -/
inductive Reads : Bytes → Bytes → Prop
  | nil : Reads [] []
  | code {high low : UInt8} {x y : Nat} {bytes decoded : Bytes}
      (hhigh : Hex.byteValue high = some x) (hlow : Hex.byteValue low = some y)
      (h : Reads bytes decoded) :
      Reads (sign :: high :: low :: bytes) (UInt8.ofNat (16 * x + y) :: decoded)
  | plain {b : UInt8} {bytes decoded : Bytes} (hb : b = sign → ¬ BeginsDigits bytes)
      (h : Reads bytes decoded) : Reads (b :: bytes) (b :: decoded)

theorem decode_cons_of_not {b : UInt8} {bytes : Bytes} (hb : b = sign → ¬ BeginsDigits bytes) :
    decode (b :: bytes) = b :: decode bytes := by
  cases bytes with
  | nil => rfl
  | cons high rest =>
      cases rest with
      | nil => rfl
      | cons low rest =>
          rw [decode]
          by_cases hsign : b = sign
          · rw [if_pos hsign]
            have hnot := hb hsign
            rw [BeginsDigits] at hnot
            cases hhigh : Hex.byteValue high with
            | none => rfl
            | some x =>
                cases hlow : Hex.byteValue low with
                | none => rfl
                | some y => exact absurd (by rw [hhigh, hlow]; exact ⟨rfl, rfl⟩) hnot
          · rw [if_neg hsign]

/-- The decoder computes what bytes are read as. -/
theorem Reads.decode_eq {bytes decoded : Bytes} (h : Reads bytes decoded) :
    decode bytes = decoded := by
  induction h with
  | nil => rfl
  | code hhigh hlow _ ih => rw [decode, if_pos rfl, hhigh, hlow, ih]
  | plain hb _ ih => rw [decode_cons_of_not hb, ih]

theorem reads_decode (bytes : Bytes) : Reads bytes (decode bytes) := by
  -- A code takes three bytes, so the induction is on how many are left.
  induction hsize : bytes.length using Nat.strongRecOn generalizing bytes with
  | _ size ih =>
    cases bytes with
    | nil => exact .nil
    | cons b rest =>
        rw [List.length_cons] at hsize
        by_cases hcode : b = sign ∧ BeginsDigits rest
        · rcases hcode with ⟨rfl, hdigits⟩
          match rest, hdigits with
          | high :: low :: rest, hdigits =>
              rcases Option.isSome_iff_exists.mp hdigits.1 with ⟨x, hhigh⟩
              rcases Option.isSome_iff_exists.mp hdigits.2 with ⟨y, hlow⟩
              simp only [List.length_cons] at hsize
              have hread := Reads.code hhigh hlow (ih rest.length (by omega) rest rfl)
              rw [hread.decode_eq]
              exact hread
        · have hb : b = sign → ¬ BeginsDigits rest := fun hsign hdigits => hcode ⟨hsign, hdigits⟩
          have hread := Reads.plain hb (ih rest.length (by omega) rest rfl)
          rw [hread.decode_eq]
          exact hread

/-- Every byte list is read as exactly one. -/
theorem reads_iff {bytes decoded : Bytes} : Reads bytes decoded ↔ decode bytes = decoded :=
  ⟨Reads.decode_eq, fun h => h ▸ reads_decode bytes⟩

theorem Reads.length_le {bytes decoded : Bytes} (h : Reads bytes decoded) :
    decoded.length ≤ bytes.length := by
  induction h with
  | nil => exact Nat.le_refl _
  | code _ _ _ ih =>
      simp only [List.length_cons]
      omega
  | plain _ _ ih =>
      simp only [List.length_cons]
      omega

/-- What is read is at most as long. -/
theorem length_decode_le (bytes : Bytes) : (decode bytes).length ≤ bytes.length :=
  (reads_decode bytes).length_le

/-- Bytes of which none are lost hold no code, so they are read as themselves. -/
theorem decode_eq_self {bytes : Bytes} (h : bytes.length ≤ (decode bytes).length) :
    decode bytes = bytes := by
  have hread := reads_decode bytes
  generalize decode bytes = decoded at h hread
  induction hread with
  | nil => rfl
  | code _ _ hrest _ =>
      have hle := hrest.length_le
      simp only [List.length_cons] at h
      omega
  | plain _ _ ih =>
      rw [List.length_cons, List.length_cons] at h
      rw [ih (by omega)]

/-- A byte that is neither a percent sign nor a digit is read on its own, so what
    stands on its two sides is read apart. -/
theorem decode_append_cons {separator : UInt8} (hsign : separator ≠ sign)
    (hdigit : Hex.byteValue separator = none) (front back : Bytes) :
    decode (front ++ separator :: back) = decode front ++ separator :: decode back := by
  -- No code reaches across the separator.
  have hbegins : ∀ bytes : Bytes, BeginsDigits (bytes ++ separator :: back) →
      BeginsDigits bytes := by
    intro bytes h
    match bytes with
    | [] =>
        cases back with
        | nil => exact h
        | cons b back => exact absurd h.1 (by rw [hdigit]; exact Bool.false_ne_true)
    | [b] => exact absurd h.2 (by rw [hdigit]; exact Bool.false_ne_true)
    | high :: low :: rest => exact h
  rw [← reads_iff]
  have hread := reads_decode front
  generalize decode front = decoded at hread
  induction hread with
  | nil => exact .plain (fun h => absurd h hsign) (reads_decode back)
  | code hhigh hlow _ ih => exact .code hhigh hlow ih
  | plain hb _ ih => exact .plain (fun h hdigits => hb h (hbegins _ hdigits)) ih

/-- A byte as a percent code, in bytes. -/
theorem encodeChars_triplet (b : UInt8) :
    Utf8.encodeChars (triplet b) =
      [sign, UInt8.ofNat (Hex.upperDigit (b.toNat / 16)).toNat,
        UInt8.ofNat (Hex.upperDigit (b.toNat % 16)).toNat] := by
  have hdigit : ∀ n : Fin 16, String.utf8EncodeChar (Hex.upperDigit n.val) =
      [UInt8.ofNat (Hex.upperDigit n.val).toNat] := by decide
  have hb := b.toNat_lt
  rw [triplet, Utf8.encodeChars, List.flatMap_cons, List.flatMap_cons, List.flatMap_cons,
    List.flatMap_nil, hdigit ⟨b.toNat / 16, by omega⟩, hdigit ⟨b.toNat % 16, by omega⟩]
  rfl

theorem byteValue_upperDigit {n : Nat} (h : n < 16) :
    Hex.byteValue (UInt8.ofNat (Hex.upperDigit n).toNat) = some n := by
  have hall : ∀ m : Fin 16,
      Hex.byteValue (UInt8.ofNat (Hex.upperDigit m.val).toNat) = some m.val := by decide
  exact hall ⟨n, h⟩

/-- The code of a byte is read as that byte. -/
theorem reads_triplet (b : UInt8) {bytes decoded : Bytes} (h : Reads bytes decoded) :
    Reads (Utf8.encodeChars (triplet b) ++ bytes) (b :: decoded) := by
  have hb := b.toNat_lt
  have hvalue : UInt8.ofNat (16 * (b.toNat / 16) + b.toNat % 16) = b := by
    rw [Nat.div_add_mod, UInt8.ofNat_toNat]
  have hcode := Reads.code (byteValue_upperDigit (show b.toNat / 16 < 16 by omega))
    (byteValue_upperDigit (show b.toNat % 16 < 16 by omega)) h
  rw [hvalue] at hcode
  rw [encodeChars_triplet]
  exact hcode

theorem utf8EncodeChar_of_ascii {c : Char} (h : c.toNat < 0x80) :
    String.utf8EncodeChar c = [UInt8.ofNat c.toNat] :=
  forall_ascii c h (by decide +kernel)

/-- A set of bytes that holds all that are not ASCII. -/
def CodesBeyond (coded : UInt8 → Bool) : Prop := ∀ b : UInt8, 0x80 ≤ b.toNat → coded b = true

/-- Coded bytes, as bytes: each of the set by its code, the others as they are. -/
theorem encodeChars_encodeWhere {coded : UInt8 → Bool} (hcoded : CodesBeyond coded)
    (bytes : Bytes) :
    Utf8.encodeChars (encodeWhere coded bytes) =
      bytes.flatMap fun b => if coded b then Utf8.encodeChars (triplet b) else [b] := by
  rw [encodeWhere, Utf8.encodeChars, List.flatMap_assoc]
  refine congrArg (fun f => bytes.flatMap f) (funext fun b => ?_)
  by_cases hb : coded b = true
  · rw [if_pos hb, if_pos hb]
    rfl
  · have hsmall : b.toNat < 128 := Nat.lt_of_not_le fun h => hb (hcoded b h)
    have hvalue : (Char.ofNat b.toNat).toNat = b.toNat :=
      Utf8.toNat_ofNat (Or.inl (by omega))
    rw [if_neg hb, if_neg hb, List.flatMap_singleton, utf8EncodeChar_of_ascii (by rwa [hvalue]),
      hvalue, UInt8.ofNat_toNat]

/-- No two digits come to the front by coding. -/
theorem beginsDigits_of_flatMap {coded : UInt8 → Bool} {bytes : Bytes}
    (h : BeginsDigits
      (bytes.flatMap fun b => if coded b then Utf8.encodeChars (triplet b) else [b])) :
    BeginsDigits bytes := by
  have hsign : ¬ (Hex.byteValue sign).isSome := by decide
  cases bytes with
  | nil => exact h
  | cons high rest =>
      rw [List.flatMap_cons] at h
      by_cases hhigh : coded high = true
      · rw [if_pos hhigh, encodeChars_triplet] at h
        exact absurd h.1 hsign
      · rw [if_neg hhigh] at h
        cases rest with
        | nil => exact h
        | cons low rest =>
            rw [List.flatMap_cons] at h
            by_cases hlow : coded low = true
            · rw [if_pos hlow, encodeChars_triplet] at h
              exact absurd h.2 hsign
            · rw [if_neg hlow] at h
              exact h

/-- Coding bytes, but neither percent signs nor digits, leaves what is read. -/
theorem decode_encodeWhere {coded : UInt8 → Bool} (hcoded : CodesBeyond coded)
    (hsign : coded sign = false)
    (hdigit : ∀ b, (Hex.byteValue b).isSome → coded b = false) (bytes : Bytes) :
    decode (Utf8.encodeChars (encodeWhere coded bytes)) = decode bytes := by
  rw [encodeChars_encodeWhere hcoded, ← reads_iff]
  have hread := reads_decode bytes
  generalize decode bytes = decoded at hread
  induction hread with
  | nil => exact .nil
  | code hhigh hlow _ ih =>
      simp only [List.flatMap_cons, hsign, hdigit _ (Option.isSome_of_eq_some hhigh),
        hdigit _ (Option.isSome_of_eq_some hlow), Bool.false_eq_true, if_false]
      exact .code hhigh hlow ih
  | @plain b rest _ hb _ ih =>
      rw [List.flatMap_cons]
      by_cases hcode : coded b = true
      · rw [if_pos hcode]
        exact reads_triplet b ih
      · -- A percent sign without digits behind it has none behind it after coding either.
        rw [if_neg hcode]
        exact .plain (fun h hdigits => hb h (beginsDigits_of_flatMap hdigits)) ih

/-- Coding bytes, percent signs among them, is undone by reading. -/
theorem decode_encodeWhere_sign {coded : UInt8 → Bool} (hcoded : CodesBeyond coded)
    (hsign : coded sign = true) (bytes : Bytes) :
    decode (Utf8.encodeChars (encodeWhere coded bytes)) = bytes := by
  rw [encodeChars_encodeWhere hcoded, ← reads_iff]
  induction bytes with
  | nil => exact .nil
  | cons b rest ih =>
      rw [List.flatMap_cons]
      by_cases hb : coded b = true
      · rw [if_pos hb]
        exact reads_triplet b ih
      · rw [if_neg hb]
        exact .plain (fun h => absurd (h ▸ hsign) hb) ih

/-- A text of characters that need no coding is coded as it is. -/
theorem encodeWhere_of_plain {coded : UInt8 → Bool} {text : List Char}
    (h : ∀ c ∈ text, c.toNat < 0x80 ∧ coded (UInt8.ofNat c.toNat) = false) :
    encodeWhere coded (Utf8.encodeChars text) = text := by
  induction text with
  | nil => rfl
  | cons c rest ih =>
      rw [List.forall_mem_cons] at h
      rcases h with ⟨⟨hascii, hplain⟩, hrest⟩
      have hvalue : (UInt8.ofNat c.toNat).toNat = c.toNat := by
        rw [UInt8.toNat_ofNat', Nat.mod_eq_of_lt (by omega)]
      rw [Utf8.encodeChars, List.flatMap_cons, ← Utf8.encodeChars, utf8EncodeChar_of_ascii hascii,
        List.singleton_append, encodeWhere, List.flatMap_cons, ← encodeWhere, ih hrest, hplain,
        if_neg Bool.false_ne_true, hvalue, Char.ofNat_toNat, List.singleton_append]

/-- A byte of ASCII in a text is the code of a character. -/
theorem mem_of_ascii_mem_encodeChars {b : UInt8} {text : List Char}
    (h : b ∈ Utf8.encodeChars text) (hb : b.toNat < 0x80) : Char.ofNat b.toNat ∈ text := by
  rcases List.mem_flatMap.mp h with ⟨c, hc, hmem⟩
  have hvalid : c.toNat.isValidChar := c.valid
  rw [← Char.ofNat_toNat c, Utf8.utf8EncodeChar_ofNat hvalid] at hmem
  split at hmem
  · next hascii =>
    have hvalue : b.toNat = c.toNat := by
      rw [List.mem_singleton.mp hmem, UInt8.toNat_ofNat', Nat.mod_eq_of_lt (by omega)]
    rwa [hvalue, Char.ofNat_toNat]
  · -- A character of several bytes has no byte of ASCII.
    refine absurd hb (Nat.not_lt.mpr ?_)
    split at hmem
    · simp only [List.mem_cons, List.not_mem_nil, or_false] at hmem
      rcases hmem with rfl | rfl
      all_goals rw [UInt8.toNat_ofNat']; omega
    · split at hmem
      · simp only [List.mem_cons, List.not_mem_nil, or_false] at hmem
        rcases hmem with rfl | rfl | rfl
        all_goals rw [UInt8.toNat_ofNat']; omega
      · simp only [List.mem_cons, List.not_mem_nil, or_false] at hmem
        rcases hmem with rfl | rfl | rfl | rfl
        all_goals rw [UInt8.toNat_ofNat']; omega

/-- A text without percent signs has no codes to be read. -/
theorem decode_of_not_mem {text : List Char} (h : '%' ∉ text) :
    decode (Utf8.encodeChars text) = Utf8.encodeChars text := by
  have hsign : sign ∉ Utf8.encodeChars text := fun hmem =>
    h (mem_of_ascii_mem_encodeChars hmem (by decide))
  generalize Utf8.encodeChars text = bytes at hsign
  rw [← reads_iff]
  induction bytes with
  | nil => exact .nil
  | cons b rest ih =>
      rw [List.mem_cons, not_or] at hsign
      exact .plain (fun hb => absurd hb.symm hsign.1) (ih hsign.2)

end Percent

end BatchRun
