import BatchRun.Proofs.Text.Ascii

/-!
# Texts and Their Bytes

Every text is read back from its bytes, and no other bytes are read as it.

The walk over some bytes sees one at a time, while a character is written at once.
Between the two stands what ends a character that has begun: the bytes that are
still missing, each in its range. By the number of bytes that a character takes
there are four ways to write it, and in each the ranges that a first byte announces
are exactly those of the bytes behind it.

## Main definitions

* `Utf8.Unfinished.Ends`: Some bytes end a character that has begun.

## Theorems

* `announced_eq`: What a first byte announces, by its number.
* `utf8EncodeChar_of_ends`: A character is written as it was read.
* `decodeFrom_utf8EncodeChar`: A character is read as it was written.
* `encodeChars_of_decode`, `decode_encodeChars`: The same for whole texts.
* `encodeChars_injective`: Different texts have different bytes.
* `strict_eq_ok_iff`: Some bytes are a text exactly if it is written as them.
-/

namespace BatchRun

namespace Utf8

/-- Some bytes end a character that has begun. -/
inductive Unfinished.Ends : Unfinished → Bytes → Char → Prop
  | last {pending : Unfinished} {b : UInt8} (hmissing : pending.missing ≤ 1)
      (hrange : pending.low ≤ b ∧ b ≤ pending.high) :
      Ends pending [b] (Char.ofNat (pending.value * 64 + (b.toNat - 0x80)))
  | more {pending : Unfinished} {b : UInt8} {tail : Bytes} {c : Char}
      (hmissing : ¬ pending.missing ≤ 1) (hrange : pending.low ≤ b ∧ b ≤ pending.high)
      (h : Ends ⟨pending.read + 1, pending.missing - 1, 0x80, 0xBF,
        pending.value * 64 + (b.toNat - 0x80)⟩ tail c) : Ends pending (b :: tail) c

/-- A walk without faults ends the character that has begun, then goes on. -/
theorem ends_of_decodeFrom {pending : Unfinished} {bytes : Bytes} {cs : List Char}
    (h : decodeFrom (.inside pending) bytes = cs.map .char) :
    ∃ tail rest c more, bytes = tail ++ rest ∧ cs = c :: more ∧ pending.Ends tail c ∧
      decodeFrom .between rest = more.map .char := by
  induction bytes generalizing pending with
  | nil =>
      cases cs with
      | nil => exact absurd h (List.cons_ne_nil _ _)
      | cons c more =>
          exact absurd (List.head_eq_of_cons_eq h) (by simp only [reduceCtorEq, not_false_eq_true])
  | cons b rest ih =>
      simp only [decodeFrom, step] at h
      by_cases hrange : pending.low ≤ b ∧ b ≤ pending.high
      · by_cases hmissing : pending.missing ≤ 1
        · simp only [if_pos hrange, if_pos hmissing, List.singleton_append] at h
          cases cs with
          | nil => exact absurd h (List.cons_ne_nil _ _)
          | cons c more =>
              rw [List.map_cons, List.cons.injEq, Piece.char.injEq] at h
              refine ⟨[b], rest, c, more, rfl, rfl, ?_, h.2⟩
              rw [← h.1]
              exact .last hmissing hrange
        · simp only [if_pos hrange, if_neg hmissing, List.nil_append] at h
          rcases ih h with ⟨tail, after, c, more, hbytes, hcs, hends, hafter⟩
          exact ⟨b :: tail, after, c, more, by rw [hbytes, List.cons_append], hcs,
            .more hmissing hrange hends, hafter⟩
      · simp only [if_neg hrange, List.cons_append] at h
        cases cs with
        | nil => exact absurd h (List.cons_ne_nil _ _)
        | cons c more =>
            exact absurd (List.head_eq_of_cons_eq h) (by simp only [reduceCtorEq,
              not_false_eq_true])

theorem toNat_ofNat {n : Nat} (h : n.isValidChar) : (Char.ofNat n).toNat = n := by
  rw [Char.ofNat, dif_pos h]
  rfl

theorem Unfinished.Ends.last_cases {read value : Nat} {low high : UInt8} {tail : Bytes} {c : Char}
    (h : Ends ⟨read, 1, low, high, value⟩ tail c) :
    ∃ b, tail = [b] ∧ (low ≤ b ∧ b ≤ high) ∧ c = Char.ofNat (value * 64 + (b.toNat - 0x80)) := by
  cases h with
  | last _ hrange => exact ⟨_, rfl, hrange, rfl⟩
  | more hmore _ _ => exact absurd (Nat.le_refl 1) hmore

theorem Unfinished.Ends.more_cases {read missing value : Nat} {low high : UInt8} {tail : Bytes}
    {c : Char} (h : Ends ⟨read, missing + 2, low, high, value⟩ tail c) :
    ∃ b rest, tail = b :: rest ∧ (low ≤ b ∧ b ≤ high) ∧
      Ends ⟨read + 1, missing + 1, 0x80, 0xBF, value * 64 + (b.toNat - 0x80)⟩ rest c := by
  cases h with
  | last hlast _ => exact absurd hlast (by simp only [Nat.reduceLeDiff, not_false_eq_true])
  | more _ hrange hends => exact ⟨_, _, rfl, hrange, hends⟩

theorem utf8EncodeChar_ofNat {n : Nat} (h : n.isValidChar) :
    String.utf8EncodeChar (Char.ofNat n) =
      if n ≤ 127 then [UInt8.ofNat n]
      else if n ≤ 2047 then [UInt8.ofNat (n / 64 % 32 + 192), UInt8.ofNat (n % 64 + 128)]
      else if n ≤ 65535 then
        [UInt8.ofNat (n / 4096 % 16 + 224), UInt8.ofNat (n / 64 % 64 + 128),
          UInt8.ofNat (n % 64 + 128)]
      else
        [UInt8.ofNat (n / 262144 % 8 + 240), UInt8.ofNat (n / 4096 % 64 + 128),
          UInt8.ofNat (n / 64 % 64 + 128), UInt8.ofNat (n % 64 + 128)] := by
  rw [String.utf8EncodeChar, show (Char.ofNat n).val.toNat = n from toNat_ofNat h]

theorem ofNat_eq {n : Nat} {b : UInt8} (h : n = b.toNat) : UInt8.ofNat n = b := by
  rw [h, UInt8.ofNat_toNat]

theorem toNat_range {low b high : UInt8} (h : low ≤ b ∧ b ≤ high) :
    low.toNat ≤ b.toNat ∧ b.toNat ≤ high.toNat :=
  ⟨UInt8.le_iff_toNat_le.mp h.1, UInt8.le_iff_toNat_le.mp h.2⟩

/-- A byte that carries a character on, by its number. -/
theorem toNat_tail {b : UInt8} (h : 0x80 ≤ b ∧ b ≤ 0xBF) : 0x80 ≤ b.toNat ∧ b.toNat ≤ 0xBF := by
  simpa only [UInt8.reduceToNat] using toNat_range h

theorem encode_two {a b : UInt8} (ha : 0xC2 ≤ a.toNat ∧ a.toNat ≤ 0xDF)
    (hb : 0x80 ≤ b.toNat ∧ b.toNat ≤ 0xBF) :
    String.utf8EncodeChar (Char.ofNat ((a.toNat - 0xC0) * 64 + (b.toNat - 0x80))) = [a, b] := by
  rw [utf8EncodeChar_ofNat (Or.inl (by omega)), if_neg (by omega), if_pos (by omega),
    ofNat_eq (show _ = a.toNat by omega), ofNat_eq (show _ = b.toNat by omega)]

theorem encode_three {a b c : UInt8} (ha : 0xE0 ≤ a.toNat ∧ a.toNat ≤ 0xEF)
    (hb : 0x80 ≤ b.toNat ∧ b.toNat ≤ 0xBF) (hc : 0x80 ≤ c.toNat ∧ c.toNat ≤ 0xBF)
    (hshort : a.toNat = 0xE0 → 0xA0 ≤ b.toNat) (hhalf : a.toNat = 0xED → b.toNat ≤ 0x9F) :
    String.utf8EncodeChar (Char.ofNat
      (((a.toNat - 0xE0) * 64 + (b.toNat - 0x80)) * 64 + (c.toNat - 0x80))) = [a, b, c] := by
  rw [utf8EncodeChar_ofNat (by unfold Nat.isValidChar; omega), if_neg (by omega),
    if_neg (by omega), if_pos (by omega), ofNat_eq (show _ = a.toNat by omega),
    ofNat_eq (show _ = b.toNat by omega), ofNat_eq (show _ = c.toNat by omega)]

theorem encode_four {a b c d : UInt8} (ha : 0xF0 ≤ a.toNat ∧ a.toNat ≤ 0xF4)
    (hb : 0x80 ≤ b.toNat ∧ b.toNat ≤ 0xBF) (hc : 0x80 ≤ c.toNat ∧ c.toNat ≤ 0xBF)
    (hd : 0x80 ≤ d.toNat ∧ d.toNat ≤ 0xBF)
    (hshort : a.toNat = 0xF0 → 0x90 ≤ b.toNat) (hlong : a.toNat = 0xF4 → b.toNat ≤ 0x8F) :
    String.utf8EncodeChar (Char.ofNat ((((a.toNat - 0xF0) * 64 + (b.toNat - 0x80)) * 64 +
      (c.toNat - 0x80)) * 64 + (d.toNat - 0x80))) = [a, b, c, d] := by
  rw [utf8EncodeChar_ofNat (by unfold Nat.isValidChar; omega), if_neg (by omega),
    if_neg (by omega), if_neg (by omega), ofNat_eq (show _ = a.toNat by omega),
    ofNat_eq (show _ = b.toNat by omega), ofNat_eq (show _ = c.toNat by omega),
    ofNat_eq (show _ = d.toNat by omega)]

/-- What a first byte announces, by the number of bytes it leads. -/
theorem announced_eq (a : UInt8) :
    announced a =
      if 0xC2 ≤ a.toNat ∧ a.toNat ≤ 0xDF then some ⟨1, 1, 0x80, 0xBF, a.toNat - 0xC0⟩
      else if 0xE0 ≤ a.toNat ∧ a.toNat ≤ 0xEF then
        some ⟨1, 2, if a.toNat = 0xE0 then 0xA0 else 0x80,
          if a.toNat = 0xED then 0x9F else 0xBF, a.toNat - 0xE0⟩
      else if 0xF0 ≤ a.toNat ∧ a.toNat ≤ 0xF4 then
        some ⟨1, 3, if a.toNat = 0xF0 then 0x90 else 0x80,
          if a.toNat = 0xF4 then 0x8F else 0xBF, a.toNat - 0xF0⟩
      else none := by
  simp only [announced, UInt8.le_iff_toNat_le, ← UInt8.toNat_inj, UInt8.reduceToNat]
  grind

/-- A character of several bytes is written as it was read. -/
theorem utf8EncodeChar_of_ends {a : UInt8} {pending : Unfinished} {tail : Bytes} {c : Char}
    (hannounced : announced a = some pending) (h : pending.Ends tail c) :
    String.utf8EncodeChar c = a :: tail := by
  rw [announced_eq] at hannounced
  split at hannounced
  · next ha =>
    rw [Option.some.injEq] at hannounced
    rw [← hannounced] at h
    rcases h.last_cases with ⟨b, rfl, hb, hvalue⟩
    rw [hvalue]
    exact encode_two ha (toNat_tail hb)
  · split at hannounced
    · next ha =>
      rw [Option.some.injEq] at hannounced
      rw [← hannounced] at h
      rcases h.more_cases with ⟨b, _, rfl, hb, h⟩
      rcases h.last_cases with ⟨c, rfl, hc, hvalue⟩
      rw [hvalue]
      -- The bounds of the second byte keep out overlong forms and halves of pairs.
      have hb := toNat_range hb
      simp only [apply_ite UInt8.toNat, UInt8.reduceToNat] at hb
      exact encode_three ha (by grind) (toNat_tail hc) (by grind) (by grind)
    · split at hannounced
      · next ha =>
        rw [Option.some.injEq] at hannounced
        rw [← hannounced] at h
        rcases h.more_cases with ⟨b, _, rfl, hb, h⟩
        rcases h.more_cases with ⟨c, _, rfl, hc, h⟩
        rcases h.last_cases with ⟨d, rfl, hd, hvalue⟩
        rw [hvalue]
        have hb := toNat_range hb
        simp only [apply_ite UInt8.toNat, UInt8.reduceToNat] at hb
        exact encode_four ha (by grind) (toNat_tail hc) (toNat_tail hd) (by grind) (by grind)
      · exact absurd hannounced (by simp only [reduceCtorEq, not_false_eq_true])

/-- A walk without faults has read what its characters are written as. -/
theorem encodeChars_of_decode {bytes : Bytes} {cs : List Char}
    (h : decode bytes = cs.map .char) : encodeChars cs = bytes := by
  unfold decode at h
  -- A character takes several bytes, so the induction is on how many are left.
  induction hsize : bytes.length using Nat.strongRecOn generalizing bytes cs with
  | _ size ih =>
    cases bytes with
    | nil =>
        rw [decodeFrom, finish, eq_comm, List.map_eq_nil_iff] at h
        rw [h]
        rfl
    | cons a rest =>
        rw [List.length_cons] at hsize
        simp only [decodeFrom, step, begin] at h
        by_cases hascii : a < 0x80
        · simp only [if_pos hascii, List.singleton_append] at h
          cases cs with
          | nil => exact absurd h (List.cons_ne_nil _ _)
          | cons c more =>
              rw [List.map_cons, List.cons.injEq, Piece.char.injEq] at h
              have hmore := ih rest.length (by omega) h.2 rfl
              have hascii : a.toNat < 128 := UInt8.lt_iff_toNat_lt.mp hascii
              rw [encodeChars, List.flatMap_cons, ← encodeChars, hmore, ← h.1,
                utf8EncodeChar_ofNat (Or.inl (by omega)), if_pos (by omega), UInt8.ofNat_toNat,
                List.singleton_append]
        · cases hannounced : announced a with
          | none =>
              simp only [if_neg hascii, hannounced, List.singleton_append] at h
              cases cs with
              | nil => exact absurd h (List.cons_ne_nil _ _)
              | cons c more =>
                  exact absurd (List.head_eq_of_cons_eq h) (by simp only [reduceCtorEq,
                    not_false_eq_true])
          | some pending =>
              simp only [if_neg hascii, hannounced, List.nil_append] at h
              rcases ends_of_decodeFrom h with ⟨tail, after, c, more, hrest, rfl, hends, hmore⟩
              rw [hrest, List.length_append] at hsize
              have hafter := ih after.length (by omega) hmore rfl
              rw [encodeChars, List.flatMap_cons, ← encodeChars, hafter,
                utf8EncodeChar_of_ends hannounced hends, hrest, List.cons_append]

theorem toNat_ofNat_of_lt {n : Nat} (h : n < 256) : (UInt8.ofNat n).toNat = n := by
  rw [UInt8.toNat_ofNat', Nat.mod_eq_of_lt h]

theorem decodeFrom_last {read value : Nat} {low high b : UInt8} (hb : low ≤ b ∧ b ≤ high)
    (rest : Bytes) :
    decodeFrom (.inside ⟨read, 1, low, high, value⟩) (b :: rest) =
      .char (Char.ofNat (value * 64 + (b.toNat - 0x80))) :: decodeFrom .between rest := by
  simp only [decodeFrom, step, if_pos hb, if_pos (Nat.le_refl 1), List.singleton_append]

theorem decodeFrom_more {read missing value : Nat} {low high b : UInt8} (hb : low ≤ b ∧ b ≤ high)
    (rest : Bytes) :
    decodeFrom (.inside ⟨read, missing + 2, low, high, value⟩) (b :: rest) =
      decodeFrom (.inside ⟨read + 1, missing + 1, 0x80, 0xBF, value * 64 + (b.toNat - 0x80)⟩)
        rest := by
  have hmissing : ¬ missing + 2 ≤ 1 := by omega
  simp only [decodeFrom, step, if_pos hb, if_neg hmissing, List.nil_append]
  rfl

theorem decodeFrom_announced {a : UInt8} {pending : Unfinished}
    (hannounced : announced a = some pending) (rest : Bytes) :
    decodeFrom .between (a :: rest) = decodeFrom (.inside pending) rest := by
  have hascii : ¬ a < 0x80 := by
    intro hlt
    have hlt : a.toNat < 128 := UInt8.lt_iff_toNat_lt.mp hlt
    rw [announced_eq, if_neg (by omega), if_neg (by omega), if_neg (by omega)] at hannounced
    exact absurd hannounced (by simp only [reduceCtorEq, not_false_eq_true])
  simp only [decodeFrom, step, begin, if_neg hascii, hannounced, List.nil_append]

theorem range_of_tail {b : UInt8} (h : 0x80 ≤ b.toNat ∧ b.toNat ≤ 0xBF) :
    (0x80 : UInt8) ≤ b ∧ b ≤ 0xBF :=
  ⟨UInt8.le_iff_toNat_le.mpr h.1, UInt8.le_iff_toNat_le.mpr h.2⟩

theorem decode_two {a b : UInt8} (ha : 0xC2 ≤ a.toNat ∧ a.toNat ≤ 0xDF)
    (hb : 0x80 ≤ b.toNat ∧ b.toNat ≤ 0xBF) (rest : Bytes) :
    decodeFrom .between (a :: b :: rest) =
      .char (Char.ofNat ((a.toNat - 0xC0) * 64 + (b.toNat - 0x80))) ::
        decodeFrom .between rest := by
  have hannounced := announced_eq a
  rw [if_pos ha] at hannounced
  rw [decodeFrom_announced hannounced, decodeFrom_last (range_of_tail hb)]

theorem decode_three {a b c : UInt8} (ha : 0xE0 ≤ a.toNat ∧ a.toNat ≤ 0xEF)
    (hb : 0x80 ≤ b.toNat ∧ b.toNat ≤ 0xBF) (hc : 0x80 ≤ c.toNat ∧ c.toNat ≤ 0xBF)
    (hshort : a.toNat = 0xE0 → 0xA0 ≤ b.toNat) (hhalf : a.toNat = 0xED → b.toNat ≤ 0x9F)
    (rest : Bytes) :
    decodeFrom .between (a :: b :: c :: rest) =
      .char (Char.ofNat (((a.toNat - 0xE0) * 64 + (b.toNat - 0x80)) * 64 + (c.toNat - 0x80))) ::
        decodeFrom .between rest := by
  have hannounced := announced_eq a
  rw [if_neg (by omega), if_pos ha] at hannounced
  have hsecond : (if a.toNat = 0xE0 then (0xA0 : UInt8) else 0x80) ≤ b ∧
      b ≤ (if a.toNat = 0xED then (0x9F : UInt8) else 0xBF) := by
    simp only [UInt8.le_iff_toNat_le, apply_ite UInt8.toNat, UInt8.reduceToNat]
    grind
  rw [decodeFrom_announced hannounced, decodeFrom_more hsecond,
    decodeFrom_last (range_of_tail hc)]

theorem decode_four {a b c d : UInt8} (ha : 0xF0 ≤ a.toNat ∧ a.toNat ≤ 0xF4)
    (hb : 0x80 ≤ b.toNat ∧ b.toNat ≤ 0xBF) (hc : 0x80 ≤ c.toNat ∧ c.toNat ≤ 0xBF)
    (hd : 0x80 ≤ d.toNat ∧ d.toNat ≤ 0xBF)
    (hshort : a.toNat = 0xF0 → 0x90 ≤ b.toNat) (hlong : a.toNat = 0xF4 → b.toNat ≤ 0x8F)
    (rest : Bytes) :
    decodeFrom .between (a :: b :: c :: d :: rest) =
      .char (Char.ofNat ((((a.toNat - 0xF0) * 64 + (b.toNat - 0x80)) * 64 + (c.toNat - 0x80)) * 64 +
        (d.toNat - 0x80))) :: decodeFrom .between rest := by
  have hannounced := announced_eq a
  rw [if_neg (by omega), if_neg (by omega), if_pos ha] at hannounced
  have hsecond : (if a.toNat = 0xF0 then (0x90 : UInt8) else 0x80) ≤ b ∧
      b ≤ (if a.toNat = 0xF4 then (0x8F : UInt8) else 0xBF) := by
    simp only [UInt8.le_iff_toNat_le, apply_ite UInt8.toNat, UInt8.reduceToNat]
    grind
  rw [decodeFrom_announced hannounced, decodeFrom_more hsecond,
    decodeFrom_more (range_of_tail hc), decodeFrom_last (range_of_tail hd)]

theorem encodeChars_cons (c : Char) (rest : List Char) :
    encodeChars (c :: rest) = String.utf8EncodeChar c ++ encodeChars rest :=
  List.flatMap_cons

/-- A character is read back from the bytes it is written as. -/
theorem decodeFrom_utf8EncodeChar (c : Char) (rest : Bytes) :
    decodeFrom .between (String.utf8EncodeChar c ++ rest) =
      .char c :: decodeFrom .between rest := by
  generalize hn : c.toNat = n
  have hc : c = Char.ofNat n := by rw [← hn, Char.ofNat_toNat]
  have hvalid : n.isValidChar := by rw [← hn]; exact c.valid
  have hbound : n < 0x110000 := by
    rcases hvalid with hlow | hhigh
    · omega
    · exact hhigh.2
  rw [hc, utf8EncodeChar_ofNat hvalid]
  split
  · next hone =>
    rw [List.singleton_append, decodeFrom, step, begin, if_pos, toNat_ofNat_of_lt (by omega)]
    · rfl
    · rw [UInt8.lt_iff_toNat_lt, toNat_ofNat_of_lt (by omega)]
      exact Nat.lt_succ_of_le hone
  · split
    · next hone htwo =>
      rw [List.cons_append, List.cons_append, List.nil_append, decode_two]
      all_goals simp only [toNat_ofNat_of_lt (show n / 64 % 32 + 192 < 256 by omega),
        toNat_ofNat_of_lt (show n % 64 + 128 < 256 by omega)]
      · rw [show (n / 64 % 32 + 192 - 0xC0) * 64 + (n % 64 + 128 - 0x80) = n by omega]
      · omega
      · omega
    · unfold Nat.isValidChar at hvalid
      split
      · next hone htwo hthree =>
        simp only [List.cons_append, List.nil_append]
        rw [decode_three]
        all_goals simp only [toNat_ofNat_of_lt (show n / 4096 % 16 + 224 < 256 by omega),
          toNat_ofNat_of_lt (show n / 64 % 64 + 128 < 256 by omega),
          toNat_ofNat_of_lt (show n % 64 + 128 < 256 by omega)]
        · rw [show ((n / 4096 % 16 + 224 - 0xE0) * 64 + (n / 64 % 64 + 128 - 0x80)) * 64 +
            (n % 64 + 128 - 0x80) = n by omega]
        all_goals omega
      · next hone htwo hthree =>
        simp only [List.cons_append, List.nil_append]
        rw [decode_four]
        all_goals simp only [toNat_ofNat_of_lt (show n / 262144 % 8 + 240 < 256 by omega),
          toNat_ofNat_of_lt (show n / 4096 % 64 + 128 < 256 by omega),
          toNat_ofNat_of_lt (show n / 64 % 64 + 128 < 256 by omega),
          toNat_ofNat_of_lt (show n % 64 + 128 < 256 by omega)]
        · rw [show (((n / 262144 % 8 + 240 - 0xF0) * 64 + (n / 4096 % 64 + 128 - 0x80)) * 64 +
            (n / 64 % 64 + 128 - 0x80)) * 64 + (n % 64 + 128 - 0x80) = n by omega]
        all_goals omega

theorem decode_encodeChars (cs : List Char) : decode (encodeChars cs) = cs.map .char := by
  induction cs with
  | nil => rfl
  | cons c rest ih =>
      rw [encodeChars, List.flatMap_cons, decode, decodeFrom_utf8EncodeChar, ← encodeChars,
        ← decode, ih, List.map_cons]

/-- Different texts have different bytes. -/
theorem encodeChars_injective {front back : List Char} (h : encodeChars front = encodeChars back) :
    front = back := by
  have hpieces : front.map Piece.char = back.map Piece.char := by
    rw [← decode_encodeChars, h, decode_encodeChars]
  exact (List.map_inj_right fun _ _ hc => Piece.char.inj hc).mp hpieces

theorem strictFrom_map_char (index : Nat) (cs : List Char) :
    strictFrom index (cs.map .char) = .ok cs := by
  induction cs generalizing index with
  | nil => rfl
  | cons c rest ih => rw [List.map_cons, strictFrom, ih, Except.map]

/-- Some bytes are a text exactly if the text is written as these bytes. -/
theorem strict_eq_ok_iff {bytes : Bytes} {text : String} :
    strict bytes = .ok text ↔ bytes = encode text := by
  constructor
  · intro h
    have hread : text? bytes = some text := by rw [text?, h, Except.toOption]
    exact (encodeChars_of_decode (decode_of_text? hread)).symm
  · rintro rfl
    rw [strict, encode, decode_encodeChars, strictFrom_map_char, Except.map, String.ofList_toList]

theorem text?_encode (text : String) : text? (encode text) = some text := by
  rw [text?, strict_eq_ok_iff.mpr rfl]
  rfl

end Utf8

end BatchRun
