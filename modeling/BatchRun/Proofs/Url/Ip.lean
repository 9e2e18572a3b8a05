import BatchRun.Proofs.Text.Lines
import BatchRun.Url.Ip
import Mathlib.Data.List.Induction

/-!
# Internet Addresses Written and Read

An internet address that was written is read as the same address.

The digits of a number stand for it in any base. An IPv4 address is written in four
decimal parts without leading zeros, so each part is read as the byte it was. An
IPv6 address is read group by group. Where zero groups were left out, the reader
enters one and remembers its place, and in the end fills in as many as there is
room for, which is as many as there were.

## Main definitions

* `Ip.IsAddress4`, `Ip.IsAddress6`: What is an address.

## Theorems

* `Ip.digitsIn_toDigits`: The digits of a number stand for it.
* `Ip.digitsIn_induction`: Digits and their number, one digit after the other.
* `Ip.readV4_v4Text`, `Ip.readV6_v6Text`: A written address reads back.
* `Ip.isAddress4_of_read`, `Ip.isAddress6_of_read`: Only addresses are read.
-/

namespace BatchRun

namespace Ip

section Digits

variable {base : Nat}

theorem digitsIn_append_singleton (digits : List Char) (c : Char) :
    digitsIn base (digits ++ [c]) = (digitsIn base digits).bind fun value =>
      (Hex.digitValue c).bind fun d => if d < base then some (value * base + d) else none := by
  rw [digitsIn, List.foldlM_append]
  refine congrArg _ (funext fun value => ?_)
  cases hd : Hex.digitValue c with
  | none => simp only [List.foldlM_cons, hd, Option.bind_eq_bind, Option.bind_none]
  | some d =>
      simp only [List.foldlM_cons, List.foldlM_nil, hd, Option.bind_eq_bind, Option.bind_some]
      split
      · rfl
      · rfl

theorem digitValue_digitChar {n : Nat} (h : n < 16) :
    Hex.digitValue (Nat.digitChar n) = some n := by
  have hall : ∀ n < 16, Hex.digitValue (Nat.digitChar n) = some n := by decide
  exact hall n h

/-- The digits of a number stand for it. -/
theorem digitsIn_toDigits (hlow : 1 < base) (hhigh : base ≤ 16) (n : Nat) :
    digitsIn base (Nat.toDigits base n) = some n := by
  have hdigit : ∀ {d : Nat}, d < base → Hex.digitValue (Nat.digitChar d) = some d := fun h =>
    digitValue_digitChar (Nat.lt_of_lt_of_le h hhigh)
  induction n using Nat.strongRecOn with
  | ind n ih =>
      rw [Nat.toDigits_eq_if hlow]
      by_cases hsmall : n < base
      · rw [if_pos hsmall, ← List.nil_append [_], digitsIn_append_singleton]
        simp only [digitsIn, List.foldlM_nil, Option.pure_def, Option.bind_some, hdigit hsmall,
          if_pos hsmall, Nat.zero_mul, Nat.zero_add]
      · -- The last digit is the remainder, and the others are those of the quotient.
        have hmod := Nat.mod_lt n (Nat.zero_lt_of_lt hlow)
        rw [if_neg hsmall, digitsIn_append_singleton,
          ih _ (Nat.div_lt_self (by omega) hlow)]
        simp only [Option.bind_some, hdigit hmod, if_pos hmod]
        rw [Nat.mul_comm, Nat.div_add_mod]

/-- What holds of no digits, and of one digit more if it holds of those before it,
    holds of all digits and the number they stand for. -/
@[elab_as_elim]
theorem digitsIn_induction {motive : List Char → Nat → Prop} {digits : List Char} {n : Nat}
    (h : digitsIn base digits = some n) (nil : motive [] 0)
    (snoc : ∀ digits value c d, motive digits value → Hex.digitValue c = some d → d < base →
      motive (digits ++ [c]) (value * base + d)) : motive digits n := by
  induction digits using List.reverseRecOn generalizing n with
  | nil => exact Option.some.inj h ▸ nil
  | append_singleton digits c ih =>
      rw [digitsIn_append_singleton] at h
      rcases Option.bind_eq_some_iff.mp h with ⟨value, hvalue, h⟩
      rcases Option.bind_eq_some_iff.mp h with ⟨d, hc, h⟩
      split at h
      · next hd => exact Option.some.inj h ▸ snoc digits value c d (ih hvalue) hc hd
      · exact absurd h (by simp only [reduceCtorEq, not_false_eq_true])

/-- Digits stand for less than their number allows. -/
theorem lt_of_digitsIn {digits : List Char} {n : Nat} (h : digitsIn base digits = some n) :
    n < Nat.pow base digits.length := by
  rw [Nat.pow_eq]
  refine digitsIn_induction h Nat.one_pos fun digits value c d hlt _ hd => ?_
  rw [List.length_append, List.length_singleton, Nat.pow_succ]
  calc value * base + d < value * base + base := by omega
    _ = (value + 1) * base := by rw [Nat.add_mul, Nat.one_mul]
    _ ≤ base ^ digits.length * base := Nat.mul_le_mul_right _ hlt

/-- The digits that a number has in any base are digits. -/
theorem digitValue_of_mem_toDigits (hlow : 1 < base) (hhigh : base ≤ 16) {n : Nat} {c : Char}
    (h : c ∈ Nat.toDigits base n) : (Hex.digitValue c).isSome := by
  induction n using Nat.strongRecOn with
  | ind n ih =>
      have hdigit : ∀ {d : Nat}, d < base → c = Nat.digitChar d → (Hex.digitValue c).isSome := by
        intro d hd hc
        rw [hc, digitValue_digitChar (Nat.lt_of_lt_of_le hd hhigh)]
        rfl
      rw [Nat.toDigits_eq_if hlow] at h
      by_cases hsmall : n < base
      · rw [if_pos hsmall, List.mem_singleton] at h
        exact hdigit hsmall h
      · rw [if_neg hsmall, List.mem_append, List.mem_singleton] at h
        rcases h with h | h
        · exact ih _ (Nat.div_lt_self (by omega) hlow) h
        · exact hdigit (Nat.mod_lt n (Nat.zero_lt_of_lt hlow)) h

end Digits

/-- An IPv4 address: 32 bits. -/
def IsAddress4 (address : Nat) : Prop := address < 4294967296

/-- An IPv6 address: eight groups of 16 bits. -/
def IsAddress6 (groups : List Nat) : Prop :=
  groups.length = 8 ∧ ∀ g ∈ groups, g < 65536

/-- The four bytes of an IPv4 address. -/
def bytes4 (address : Nat) : List Nat :=
  [24, 16, 8, 0].map fun shift => (address >>> shift) % 256

theorem lt_of_mem_bytes4 {address n : Nat} (h : n ∈ bytes4 address) : n < 256 := by
  rcases List.mem_map.mp h with ⟨shift, _, rfl⟩
  exact Nat.mod_lt _ (by decide)

theorem toList_v4Text (address : Nat) :
    (v4Text address).toList = Text.joinWith ['.'] ((bytes4 address).map (Nat.toDigits 10)) := by
  rw [v4Text, Text.toList_intercalate, bytes4, List.map_map, List.map_map]
  refine congrArg _ (List.map_congr_left fun shift _ => ?_)
  rw [Function.comp_apply, Function.comp_apply, Nat.toString_eq_ofList_toDigits,
    String.toList_ofList]

theorem splitOn_v4Text (address : Nat) :
    Text.splitOn '.' (v4Text address).toList = (bytes4 address).map (Nat.toDigits 10) := by
  rw [toList_v4Text]
  refine Text.splitOn_joinWith (List.cons_ne_nil _ _) fun part hpart hdot => ?_
  rcases List.mem_map.mp hpart with ⟨n, _, rfl⟩
  have hdigit := Nat.isDigit_of_mem_toDigits (by decide) (by decide) hdot
  exact absurd hdigit (by decide)

theorem v4Part_toDigits {n : Nat} (h : n < 256) : v4Part (Nat.toDigits 10 n) = some n := by
  have hall : ∀ n < 256, v4Part (Nat.toDigits 10 n) = some n := by decide +kernel
  exact hall n h

/-- Four decimal parts are read as the address that their bytes make up. -/
theorem readV4_of_parts {host : List Char} {a b c d : Nat} (h : ∀ n ∈ [a, b, c, d], n < 256)
    (hhost : Text.splitOn '.' host = [a, b, c, d].map (Nat.toDigits 10)) :
    readV4 host = some (((a * 256 + b) * 256 + c) * 256 + d) := by
  simp only [List.forall_mem_cons] at h
  have hlast : ([a, b, c, d].map (Nat.toDigits 10)).getLast? ≠ some [] := fun hnil =>
    absurd (Option.some.inj hnil) Nat.toDigits_ne_nil
  have hparts : ([a, b, c, d].map (Nat.toDigits 10)).mapM v4Part = some [a, b, c, d] := by
    simp only [List.map_cons, List.map_nil, List.mapM_cons, List.mapM_nil, v4Part_toDigits h.1,
      v4Part_toDigits h.2.1, v4Part_toDigits h.2.2.1, v4Part_toDigits h.2.2.2.1,
      Option.bind_eq_bind, Option.bind_some, Option.pure_def]
  have hsmall : ([a, b, c].any (255 < ·) || decide (Nat.pow 256 1 ≤ d)) = false := by
    simp only [List.any_cons, List.any_nil, Bool.or_false, Bool.or_eq_false_iff,
      decide_eq_false_iff_not, Nat.pow_eq, Nat.pow_one]
    omega
  simp only [readV4, hhost, if_neg hlast, hparts]
  change (if ([a, b, c].any (255 < ·) || decide (Nat.pow 256 1 ≤ d)) = true then none
    else some ((((0 * 256 + a) * 256 + b) * 256 + c) * Nat.pow 256 1 + d)) = _
  rw [hsmall, if_neg Bool.false_ne_true, Nat.zero_mul, Nat.zero_add, Nat.pow_eq, Nat.pow_one]

/-- A written IPv4 address reads back. -/
theorem readV4_v4Text {address : Nat} (h : IsAddress4 address) :
    readV4 (v4Text address).toList = some address := by
  rw [readV4_of_parts (fun n => lt_of_mem_bytes4) (splitOn_v4Text address), Option.some.injEq]
  rw [IsAddress4] at h
  simp only [Nat.shiftRight_eq_div_pow]
  omega

theorem length_of_mapM {α β : Type} {f : α → Option β} {items : List α} {found : List β}
    (h : items.mapM f = some found) : found.length = items.length := by
  induction items generalizing found with
  | nil =>
      rw [List.mapM_nil] at h
      rw [← Option.some.inj h]
      rfl
  | cons item rest ih =>
      rw [List.mapM_cons] at h
      rcases Option.bind_eq_some_iff.mp h with ⟨first, _, h⟩
      rcases Option.bind_eq_some_iff.mp h with ⟨others, hothers, h⟩
      rw [← Option.some.inj h, List.length_cons, List.length_cons, ih hothers]

/-- Bytes make up less than their number allows. -/
theorem foldl_bytes_lt (bytes : List Nat) (value : Nat) (h : ∀ n ∈ bytes, n < 256) :
    bytes.foldl (fun value b => value * 256 + b) value <
      (value + 1) * Nat.pow 256 bytes.length := by
  rw [Nat.pow_eq]
  induction bytes generalizing value with
  | nil =>
      rw [List.foldl_nil, List.length_nil, Nat.pow_zero, Nat.mul_one]
      exact Nat.lt_succ_self value
  | cons b rest ih =>
      rw [List.forall_mem_cons] at h
      calc (b :: rest).foldl (fun value b => value * 256 + b) value
          < (value * 256 + b + 1) * 256 ^ rest.length := ih (value * 256 + b) h.2
        _ ≤ ((value + 1) * 256) * 256 ^ rest.length := Nat.mul_le_mul_right _ (by omega)
        _ = (value + 1) * 256 ^ (b :: rest).length := by
          rw [List.length_cons, Nat.pow_succ, Nat.mul_assoc, Nat.mul_comm 256]

/-- Only an address of 32 bits is read. -/
theorem isAddress4_of_read {host : List Char} {address : Nat} (h : readV4 host = some address) :
    IsAddress4 address := by
  simp only [readV4] at h
  generalize (if (Text.splitOn '.' host).getLast? = some [] then
    (Text.splitOn '.' host).dropLast else Text.splitOn '.' host) = parts at h
  split at h
  · exact absurd h (by simp only [reduceCtorEq, not_false_eq_true])
  · next hfour =>
    split at h
    · exact absurd h (by simp only [reduceCtorEq, not_false_eq_true])
    · next numbers hnumbers =>
      split at h
      · exact absurd h (by simp only [reduceCtorEq, not_false_eq_true])
      · next last bytes hreverse =>
        split at h
        · exact absurd h (by simp only [reduceCtorEq, not_false_eq_true])
        · next hsmall =>
          have hlength : bytes.reverse.length ≤ 3 := by
            have hall := length_of_mapM hnumbers
            rw [← List.length_reverse, hreverse, List.length_cons] at hall
            rw [List.length_reverse]
            omega
          rw [Bool.or_eq_true, not_or, List.any_eq_true, decide_eq_true_eq, Nat.not_le] at hsmall
          have hbytes : ∀ n ∈ bytes.reverse, n < 256 := by
            intro n hn
            refine Nat.lt_of_not_le fun hlarge => hsmall.1 ⟨n, hn, ?_⟩
            exact decide_eq_true (Nat.lt_of_succ_le hlarge)
          have hfold := foldl_bytes_lt bytes.reverse 0 hbytes
          rw [Nat.zero_add, Nat.one_mul, Nat.pow_eq] at hfold
          have hlast := hsmall.2
          rw [Nat.pow_eq] at hlast h
          -- The last part stands for as many bytes as the others leave of the four.
          generalize bytes.reverse.length = k at hlength hfold hlast h
          generalize bytes.reverse.foldl _ 0 = value at hfold h
          rw [IsAddress4, ← Option.some.inj h]
          calc value * 256 ^ (4 - k) + last < (value + 1) * 256 ^ (4 - k) := by
                rw [Nat.add_mul, Nat.one_mul]
                exact Nat.add_lt_add_left hlast _
            _ ≤ 256 ^ k * 256 ^ (4 - k) := Nat.mul_le_mul_right _ hfold
            _ = 4294967296 := by
              rw [← Nat.pow_add, Nat.add_sub_cancel' (by omega)]

theorem endsInNumber_v4Text (address : Nat) : endsInNumber (v4Text address).toList = true := by
  have hdigits : ∀ n < 256, (!(Nat.toDigits 10 n).isEmpty &&
      ((Nat.toDigits 10 n).all (fun c => '0' ≤ c && c ≤ '9'))) = true := by decide +kernel
  have hlast := hdigits _ (Nat.mod_lt (address >>> 0) (by decide))
  rw [Bool.and_eq_true] at hlast
  simp only [endsInNumber, splitOn_v4Text, bytes4, List.map_cons, List.map_nil,
    List.reverse_cons, List.reverse_nil, List.nil_append, List.cons_append]
  cases hpart : Nat.toDigits 10 ((address >>> 0) % 256) with
  | nil => exact absurd hpart Nat.toDigits_ne_nil
  | cons c rest =>
      rw [hpart] at hlast
      simp only [hlast.1, hlast.2, Bool.true_or, Bool.and_self]

/-- Groups in hexadecimal, with colons between them. -/
def colons (groups : List Nat) : List Char :=
  Text.joinWith [':'] (groups.map (Nat.toDigits 16))

theorem colons_cons (g : Nat) {groups : List Nat} (h : groups ≠ []) :
    colons (g :: groups) = Nat.toDigits 16 g ++ ':' :: colons groups := by
  rw [colons, List.map_cons, Text.joinWith_cons_of_ne_nil, List.append_assoc,
    List.singleton_append]
  · rfl
  · rwa [ne_eq, List.map_eq_nil_iff]

theorem length_le_colons (groups : List Nat) : groups.length ≤ (colons groups).length := by
  induction groups with
  | nil => exact Nat.le_refl 0
  | cons g rest ih =>
      have hpos : 0 < (Nat.toDigits 16 g).length := Nat.length_toDigits_pos
      cases rest with
      | nil => exact hpos
      | cons next rest =>
          calc (next :: rest).length + 1 ≤ (colons (next :: rest)).length + 1 :=
                Nat.succ_le_succ ih
            _ ≤ (colons (g :: next :: rest)).length := by
              rw [colons_cons g (List.cons_ne_nil _ _), List.length_append]
              exact Nat.le_add_left _ _

theorem toList_v6Text (groups : List Nat) :
    (v6Text groups).toList =
      if (longestZeros groups).2 < 2 then colons groups
      else colons (groups.take (longestZeros groups).1) ++ ':' :: ':' ::
        colons (groups.drop ((longestZeros groups).1 + (longestZeros groups).2)) := by
  have hcolons : ∀ groups : List Nat, (":".intercalate (groups.map Hex.ofNat)).toList =
      colons groups := by
    intro groups
    rw [Text.toList_intercalate, colons, List.map_map]
    refine congrArg _ (List.map_congr_left fun g _ => ?_)
    rw [Function.comp_apply, Hex.ofNat, String.toList_ofList]
  simp only [v6Text]
  split
  · exact hcolons groups
  · rw [String.toList_append, String.toList_append, hcolons, hcolons, List.append_assoc]
    rfl

/-- The digits of a group are read as the group, up to where no digit is. -/
theorem hexGroup_toDigits {g : Nat} (hg : g < 65536) (rest : List Char)
    (hrest : ∀ c, rest.head? = some c → (Hex.digitValue c).isSome = false) :
    hexGroup 4 (Nat.toDigits 16 g ++ rest) = (g, (Nat.toDigits 16 g).length, rest) := by
  have htail : rest.takeWhile (fun c => (Hex.digitValue c).isSome) = [] := by
    cases rest with
    | nil => rfl
    | cons c more => rw [List.takeWhile_cons, hrest c rfl, if_neg Bool.false_ne_true]
  have hdigits : (Nat.toDigits 16 g ++ rest).takeWhile (fun c => (Hex.digitValue c).isSome) =
      Nat.toDigits 16 g := by
    rw [List.takeWhile_append_of_pos, htail, List.append_nil]
    exact fun c hc => digitValue_of_mem_toDigits (by decide) (by decide) hc
  have hlength : (Nat.toDigits 16 g).length ≤ 4 :=
    (Nat.length_toDigits_le_iff (by decide) (by decide)).mpr hg
  rw [hexGroup, hdigits, List.take_of_length_le hlength,
    digitsIn_toDigits (by decide) (by decide), List.drop_left]
  rfl

/-- The digits of a group do not begin with a colon. -/
theorem ne_colon_of_toDigits {g : Nat} {c : Char} {digits : List Char}
    (h : Nat.toDigits 16 g = c :: digits) : c ≠ ':' := by
  have hmem : c ∈ Nat.toDigits 16 g := h ▸ List.mem_cons_self
  have hsome := digitValue_of_mem_toDigits (by decide) (by decide) hmem
  rintro rfl
  exact absurd hsome (by decide)

section Reading

variable {found : List Nat} {gap : Option Nat} {g fuel : Nat}

/-- A group that a colon follows is entered, and reading goes on behind the colon. -/
theorem v6Groups_group (hg : g < 65536) (hfound : found.length < 8) {next : List Char}
    (hnext : next ≠ []) :
    v6Groups (fuel + 1) ⟨found, gap⟩ (Nat.toDigits 16 g ++ ':' :: next) =
      v6Groups fuel ⟨found ++ [g], gap⟩ next := by
  have hgroup := hexGroup_toDigits hg (':' :: next) (by
    intro c hc
    rw [← Option.some.inj hc]
    decide)
  cases hdigits : Nat.toDigits 16 g with
  | nil => exact absurd hdigits Nat.toDigits_ne_nil
  | cons c more =>
      have hc : c ≠ ':' := ne_colon_of_toDigits hdigits
      have hempty : next.isEmpty = false := List.isEmpty_eq_false_iff.mpr hnext
      rw [hdigits, List.cons_append] at hgroup
      simp only [List.cons_append, v6Groups, if_neg (Nat.not_le.mpr hfound), if_neg hc, hgroup,
        hempty, Bool.false_eq_true, if_false]

/-- The last group is entered. -/
theorem v6Groups_last (hg : g < 65536) (hfound : found.length < 8) :
    v6Groups (fuel + 1) ⟨found, gap⟩ (Nat.toDigits 16 g) = some ⟨found ++ [g], gap⟩ := by
  have hgroup := hexGroup_toDigits hg [] (by
    intro c hc
    exact absurd hc (by simp only [List.head?_nil, reduceCtorEq, not_false_eq_true]))
  rw [List.append_nil] at hgroup
  cases hdigits : Nat.toDigits 16 g with
  | nil => exact absurd hdigits Nat.toDigits_ne_nil
  | cons c more =>
      have hc : c ≠ ':' := ne_colon_of_toDigits hdigits
      rw [hdigits] at hgroup
      simp only [v6Groups, if_neg (Nat.not_le.mpr hfound), if_neg hc, hgroup]

/-- Groups that two colons follow are entered, and reading goes on at the second
    one. -/
theorem v6Groups_colons_append {groups : List Nat} (hne : groups ≠ [])
    (hgroups : ∀ g ∈ groups, g < 65536) (hfound : found.length + groups.length ≤ 8)
    (rest : List Char) :
    v6Groups (fuel + groups.length) ⟨found, gap⟩ (colons groups ++ ':' :: ':' :: rest) =
      v6Groups fuel ⟨found ++ groups, gap⟩ (':' :: rest) := by
  induction groups generalizing found with
  | nil => exact absurd rfl hne
  | cons g more ih =>
      rw [List.forall_mem_cons] at hgroups
      rw [List.length_cons] at hfound
      cases more with
      | nil =>
          have hcolons : colons [g] = Nat.toDigits 16 g := rfl
          rw [hcolons, List.length_singleton,
            v6Groups_group hgroups.1 (by omega) (List.cons_ne_nil _ _)]
      | cons next more =>
          rw [colons_cons g (List.cons_ne_nil _ _), List.append_assoc, List.cons_append,
            List.length_cons, ← Nat.add_assoc, v6Groups_group hgroups.1 (by omega)
              (List.append_ne_nil_of_right_ne_nil _ (List.cons_ne_nil _ _)),
            ih (List.cons_ne_nil _ _) hgroups.2 (by
              rw [List.length_append, List.length_singleton]; omega),
            List.append_assoc, List.singleton_append]

/-- Groups up to the end are entered. -/
theorem v6Groups_colons {groups : List Nat} (hgroups : ∀ g ∈ groups, g < 65536)
    (hfound : found.length + groups.length ≤ 8) (hfuel : groups.length ≤ fuel) :
    v6Groups fuel ⟨found, gap⟩ (colons groups) = some ⟨found ++ groups, gap⟩ := by
  induction groups generalizing found fuel with
  | nil =>
      rw [List.append_nil]
      cases fuel with
      | zero => rfl
      | succ fuel => rfl
  | cons g more ih =>
      rw [List.forall_mem_cons] at hgroups
      rw [List.length_cons] at hfound hfuel
      cases fuel with
      | zero => exact absurd hfuel (Nat.not_succ_le_zero _)
      | succ fuel =>
          cases more with
          | nil => exact v6Groups_last hgroups.1 (by omega)
          | cons next more =>
              have hnext : colons (next :: more) ≠ [] := by
                intro hnil
                have hle := length_le_colons (next :: more)
                rw [hnil] at hle
                exact absurd hle (Nat.not_succ_le_zero _)
              rw [colons_cons g (List.cons_ne_nil _ _), v6Groups_group hgroups.1 (by omega) hnext,
                ih hgroups.2 (by rw [List.length_append, List.length_singleton]; omega) (by omega),
                List.append_assoc, List.singleton_append]

/-- Where groups were left out, one is entered and its place is kept. -/
theorem v6Groups_gap (hfound : found.length < 8) (rest : List Char) :
    v6Groups (fuel + 1) ⟨found, none⟩ (':' :: rest) =
      v6Groups fuel ⟨found ++ [0], some (found.length + 1)⟩ rest := by
  simp only [v6Groups, if_neg (Nat.not_le.mpr hfound), if_true, Option.isSome_none,
    Bool.false_eq_true, if_false]

end Reading

theorem replicate_zeroRun (groups : List Nat) :
    List.replicate (zeroRun groups) 0 ++ groups.drop (zeroRun groups) = groups := by
  induction groups with
  | nil => rfl
  | cons g rest ih =>
      by_cases hg : g = 0
      · have hrun : zeroRun (g :: rest) = zeroRun rest + 1 := by
          rw [zeroRun, List.takeWhile_cons, if_pos (decide_eq_true hg), List.length_cons, zeroRun]
        rw [hrun, List.replicate_succ, List.drop_succ_cons, List.cons_append, ih, hg]
      · have hrun : zeroRun (g :: rest) = 0 := by
          rw [zeroRun, List.takeWhile_cons, decide_eq_false hg, if_neg Bool.false_ne_true,
            List.length_nil]
        rw [hrun, List.replicate_zero, List.nil_append, List.drop_zero]

/-- What is left out are zero groups. -/
theorem longestZeros_spec (groups : List Nat) :
    (longestZeros groups).2 = 0 ∨
      (longestZeros groups).2 = zeroRun (groups.drop (longestZeros groups).1) := by
  rw [longestZeros]
  refine List.foldlRecOn
    (motive := fun best : Nat × Nat => best.2 = 0 ∨ best.2 = zeroRun (groups.drop best.1))
    (List.range groups.length) _ (.inl rfl) fun best hbest i _ => ?_
  simp only
  split
  · exact .inr rfl
  · exact hbest

/-- A list of groups with the left-out ones filled in. -/
theorem eq_of_longestZeros (groups : List Nat) (h : 2 ≤ (longestZeros groups).2) :
    groups.take (longestZeros groups).1 ++ List.replicate (longestZeros groups).2 0 ++
      groups.drop ((longestZeros groups).1 + (longestZeros groups).2) = groups := by
  rcases longestZeros_spec groups with hzero | hrun
  · rw [hzero] at h
    exact absurd h (by decide)
  · rw [List.append_assoc, ← List.drop_drop, hrun, replicate_zeroRun, List.take_append_drop]

/-- The eight groups that were read, the left-out ones filled in. -/
def Groups.whole (groups : Groups) : Option (List Nat) :=
  match groups.gap with
  | none => if groups.found.length = 8 then some groups.found else none
  | some gap =>
    some (groups.found.take gap ++ List.replicate (8 - groups.found.length) 0 ++
      groups.found.drop gap)

theorem readV6_colons (rest : List Char) :
    readV6 (':' :: ':' :: rest) =
      (v6Groups (rest.length + 1) ⟨[0], some 1⟩ rest).bind Groups.whole := by
  simp only [readV6]
  cases v6Groups (rest.length + 1) ⟨[0], some 1⟩ rest with
  | none => rfl
  | some groups => rfl

theorem readV6_of_head {text : List Char} (hhead : ∀ rest, text ≠ ':' :: rest) :
    readV6 text = (v6Groups (text.length + 1) ⟨[], none⟩ text).bind Groups.whole := by
  unfold readV6
  split
  · next rest => exact absurd rfl (hhead _)
  · next rest _ => exact absurd rfl (hhead _)
  · cases hread : v6Groups (text.length + 1) ⟨[], none⟩ text with
    | none => simp only [hread, Option.bind_none]
    | some groups =>
        simp only [hread, Option.bind_some]
        rfl

/-- A written group does not begin with a colon. -/
theorem colons_append_ne {groups : List Nat} (hne : groups ≠ []) (more rest : List Char) :
    colons groups ++ more ≠ ':' :: rest := by
  cases groups with
  | nil => exact absurd rfl hne
  | cons g others =>
      have hbegin : ∃ behind, colons (g :: others) = Nat.toDigits 16 g ++ behind := by
        cases others with
        | nil => exact ⟨[], (List.append_nil _).symm⟩
        | cons next others => exact ⟨_, colons_cons g (List.cons_ne_nil _ _)⟩
      rcases hbegin with ⟨behind, hbegin⟩
      cases hdigits : Nat.toDigits 16 g with
      | nil => exact absurd hdigits Nat.toDigits_ne_nil
      | cons c digits =>
          rw [hbegin, hdigits]
          intro heq
          rw [List.cons_append, List.cons_append, List.cons.injEq] at heq
          exact ne_colon_of_toDigits hdigits heq.1

/-- As many zeros are filled in as there is room for, besides the one that was
    entered. -/
theorem whole_gap (before after : List Nat) (hroom : before.length + after.length < 8) :
    Groups.whole ⟨before ++ [0] ++ after, some (before.length + 1)⟩ =
      some (before ++ List.replicate (8 - (before.length + after.length)) 0 ++ after) := by
  have hlength : (before ++ [0]).length = before.length + 1 := by
    rw [List.length_append, List.length_singleton]
  have hzeros : [0] ++ List.replicate (8 - (before.length + 1 + after.length)) 0 =
      List.replicate (8 - (before.length + after.length)) 0 := by
    rw [List.singleton_append, ← List.replicate_succ]
    congr 1
    omega
  simp only [Groups.whole, ← hlength, List.take_left, List.drop_left]
  rw [List.length_append, hlength, List.append_assoc before, hzeros]

/-- Groups with a gap in them are read as the groups and as many zeros as there is
    room for. -/
theorem readV6_gap {before after : List Nat} (hbefore : ∀ g ∈ before, g < 65536)
    (hafter : ∀ g ∈ after, g < 65536) (hroom : before.length + after.length < 8) :
    readV6 (colons before ++ ':' :: ':' :: colons after) =
      some (before ++ List.replicate (8 - (before.length + after.length)) 0 ++ after) := by
  have hfuel := length_le_colons after
  by_cases hne : before = []
  · subst hne
    rw [List.length_nil, Nat.zero_add] at hroom
    have hwhole := whole_gap [] after (by rwa [List.length_nil, Nat.zero_add])
    have hempty : colons [] = [] := rfl
    rw [hempty, List.nil_append, readV6_colons, v6Groups_colons hafter (by
      rw [List.length_singleton]; omega) (by omega), Option.bind_some]
    exact hwhole
  · -- The groups before the gap take as much fuel as there are of them.
    obtain ⟨fuel, htext, henough⟩ : ∃ fuel,
        (colons before ++ ':' :: ':' :: colons after).length + 1 = fuel + 1 + before.length ∧
          after.length ≤ fuel := by
      have hle := length_le_colons before
      refine ⟨(colons before).length - before.length + 2 + (colons after).length, ?_, by omega⟩
      rw [List.length_append, List.length_cons, List.length_cons]
      omega
    rw [readV6_of_head (colons_append_ne hne _), htext,
      v6Groups_colons_append hne hbefore (by rw [List.length_nil]; omega), List.nil_append,
      v6Groups_gap (by omega), v6Groups_colons hafter (by
        rw [List.length_append, List.length_singleton]; omega) henough,
      Option.bind_some, whole_gap before after hroom]

/-- A written IPv6 address reads back. -/
theorem readV6_v6Text {groups : List Nat} (h : IsAddress6 groups) :
    readV6 (v6Text groups).toList = some groups := by
  rcases h with ⟨hlength, hgroups⟩
  rw [toList_v6Text]
  by_cases hrun : (longestZeros groups).2 < 2
  · have hne : groups ≠ [] := by
      rintro rfl
      exact absurd hlength (by decide)
    have hhead := colons_append_ne hne []
    rw [List.append_nil] at hhead
    have hfuel := length_le_colons groups
    rw [if_pos hrun, readV6_of_head hhead, v6Groups_colons hgroups (by
      rw [List.length_nil, Nat.zero_add]; omega) (by omega), Option.bind_some, List.nil_append]
    exact if_pos hlength
  · have hsplit := eq_of_longestZeros groups (Nat.le_of_not_lt hrun)
    have hsum := congrArg List.length hsplit
    rw [List.length_append, List.length_append, List.length_replicate, hlength] at hsum
    rw [if_neg hrun, readV6_gap (fun g hg => hgroups g (List.mem_of_mem_take hg))
      (fun g hg => hgroups g (List.mem_of_mem_drop hg)) (by omega)]
    -- As many groups are missing as were left out.
    have hzeros : 8 - ((groups.take (longestZeros groups).1).length +
        (groups.drop ((longestZeros groups).1 + (longestZeros groups).2)).length) =
          (longestZeros groups).2 := by omega
    rw [hzeros, hsplit]

theorem hexGroup_lt (text : List Char) : (hexGroup 4 text).1 < 65536 := by
  rw [hexGroup]
  generalize hdigits : (text.takeWhile fun c => (Hex.digitValue c).isSome).take 4 = digits
  have hlength : digits.length ≤ 4 := hdigits ▸ List.length_take_le _ _
  cases hvalue : digitsIn 16 digits with
  | none => exact Nat.zero_lt_succ _
  | some value =>
      calc value < 16 ^ digits.length := lt_of_digitsIn hvalue
        _ ≤ 16 ^ 4 := Nat.pow_le_pow_right (by decide) hlength

theorem exists_of_mapM {α β : Type} {f : α → Option β} {items : List α} {found : List β}
    (h : items.mapM f = some found) {b : β} (hb : b ∈ found) : ∃ item ∈ items, f item = some b := by
  induction items generalizing found with
  | nil =>
      rw [List.mapM_nil] at h
      rw [← Option.some.inj h] at hb
      exact absurd hb List.not_mem_nil
  | cons item rest ih =>
      rw [List.mapM_cons] at h
      rcases Option.bind_eq_some_iff.mp h with ⟨first, hfirst, h⟩
      rcases Option.bind_eq_some_iff.mp h with ⟨others, hothers, h⟩
      rw [← Option.some.inj h, List.mem_cons] at hb
      rcases hb with rfl | hb
      · exact ⟨item, List.mem_cons_self, hfirst⟩
      · rcases ih hothers hb with ⟨other, hmem, hother⟩
        exact ⟨other, List.mem_cons_of_mem _ hmem, hother⟩

theorem lt_of_decimalByte {digits : List Char} {n : Nat} (h : decimalByte digits = some n) :
    n < 256 := by
  unfold decimalByte at h
  split at h
  · exact absurd h (by simp only [reduceCtorEq, not_false_eq_true])
  · rw [← Option.some.inj h]
    decide
  · exact absurd h (by simp only [reduceCtorEq, not_false_eq_true])
  · rcases Option.bind_eq_some_iff.mp h with ⟨value, _, hvalue⟩
    split at hvalue
    · next hle =>
      rw [← Option.some.inj hvalue]
      exact Nat.lt_succ_of_le hle
    · exact absurd hvalue (by simp only [reduceCtorEq, not_false_eq_true])

theorem embeddedV4_spec {text : List Char} {pair : List Nat} (h : embeddedV4 text = some pair) :
    pair.length = 2 ∧ ∀ g ∈ pair, g < 65536 := by
  unfold embeddedV4 at h
  split at h
  · next a b c d hbytes =>
    have hbyte : ∀ n ∈ [a, b, c, d], n < 256 := by
      intro n hn
      rcases exists_of_mapM hbytes hn with ⟨digits, _, hdigits⟩
      exact lt_of_decimalByte hdigits
    simp only [List.forall_mem_cons] at hbyte
    rw [← Option.some.inj h]
    refine ⟨rfl, fun g hg => ?_⟩
    rcases List.mem_cons.mp hg with rfl | hg
    · omega
    · rw [List.mem_singleton.mp hg]
      omega
  · exact absurd h (by simp only [reduceCtorEq, not_false_eq_true])

/-- At most eight groups have been entered, each of 16 bits. -/
def Groups.Fits (groups : Groups) : Prop :=
  groups.found.length ≤ 8 ∧ ∀ g ∈ groups.found, g < 65536

theorem Groups.Fits.enter {groups : Groups} (h : groups.Fits) (more : List Nat)
    (hroom : groups.found.length + more.length ≤ 8) (hmore : ∀ g ∈ more, g < 65536)
    (gap : Option Nat) : Groups.Fits ⟨groups.found ++ more, gap⟩ := by
  refine ⟨by rwa [List.length_append], fun g hg => ?_⟩
  rcases List.mem_append.mp hg with hg | hg
  · exact h.2 g hg
  · exact hmore g hg

theorem fits_of_v6Groups {fuel : Nat} {groups result : Groups} {text : List Char}
    (h : v6Groups fuel groups text = some result) (hfits : groups.Fits) : result.Fits := by
  -- Groups are entered for a gap, for four decimal parts and for a number; the other
  -- cases read nothing.
  fun_induction v6Groups fuel groups text with
  | case1 => rwa [← Option.some.inj h]
  | case5 fuel groups rest hroom _ ih =>
      exact ih h (hfits.enter [0] (Nat.lt_of_not_le hroom) (by decide) _)
  | case7 fuel groups c rest hroom _ value count tail hcount _ =>
      rcases Option.map_eq_some_iff.mp h with ⟨pair, hpair, rfl⟩
      rcases embeddedV4_spec hpair with ⟨htwo, hsmall⟩
      rw [Bool.or_eq_true, not_or, decide_eq_true_eq, decide_eq_true_eq, Nat.not_lt] at hcount
      exact hfits.enter pair (by omega) hsmall _
  | case9 fuel groups c rest hroom _ value count next _ hgroup ih =>
      have hvalue := hexGroup_lt (c :: rest)
      rw [hgroup] at hvalue
      refine ih h (hfits.enter [value] (Nat.lt_of_not_le hroom) ?_ _)
      exact fun g hg => List.mem_singleton.mp hg ▸ hvalue
  | case10 fuel groups c rest hroom _ value count hgroup =>
      have hvalue := hexGroup_lt (c :: rest)
      rw [hgroup] at hvalue
      rw [← Option.some.inj h]
      refine hfits.enter [value] (Nat.lt_of_not_le hroom) ?_ _
      exact fun g hg => List.mem_singleton.mp hg ▸ hvalue
  | _ => exact absurd h (by simp only [reduceCtorEq, not_false_eq_true])

theorem Groups.Fits.isAddress6 {groups : Groups} (h : groups.Fits) {whole : List Nat}
    (hwhole : groups.whole = some whole) : IsAddress6 whole := by
  unfold Groups.whole at hwhole
  split at hwhole
  · split at hwhole
    · next hlength => exact Option.some.inj hwhole ▸ ⟨hlength, h.2⟩
    · exact absurd hwhole (by simp only [reduceCtorEq, not_false_eq_true])
  · next gap _ =>
    rw [← Option.some.inj hwhole]
    constructor
    · have hle := h.1
      simp only [List.length_append, List.length_replicate, List.length_take, List.length_drop]
      omega
    · intro g hg
      simp only [List.mem_append, List.mem_replicate] at hg
      rcases hg with (hg | ⟨_, rfl⟩) | hg
      · exact h.2 g (List.mem_of_mem_take hg)
      · decide
      · exact h.2 g (List.mem_of_mem_drop hg)

/-- Only an address of eight groups is read. -/
theorem isAddress6_of_read {text : List Char} {groups : List Nat} (h : readV6 text = some groups) :
    IsAddress6 groups := by
  have hread : ∀ {start : Groups} {fuel : Nat} {rest : List Char}, start.Fits →
      (v6Groups fuel start rest).bind Groups.whole = some groups → IsAddress6 groups := by
    intro start fuel rest hfits hbind
    rcases Option.bind_eq_some_iff.mp hbind with ⟨result, hresult, hwhole⟩
    exact (fits_of_v6Groups hresult hfits).isAddress6 hwhole
  have hnone : (⟨[], none⟩ : Groups).Fits := ⟨by decide, by decide⟩
  have hgap : (⟨[0], some 1⟩ : Groups).Fits := ⟨by decide, by decide⟩
  cases text with
  | nil => exact hread hnone (readV6_of_head (fun rest => (List.cons_ne_nil _ _).symm) ▸ h)
  | cons c rest =>
      by_cases hc : c = ':'
      · subst hc
        cases rest with
        | nil => exact absurd h (by simp only [readV6, reduceCtorEq, not_false_eq_true])
        | cons d more =>
            by_cases hd : d = ':'
            · subst hd
              exact hread hgap (readV6_colons more ▸ h)
            · unfold readV6 at h
              split at h
              · next heq => exact absurd (List.cons.inj (List.cons.inj heq).2).1 hd
              · exact absurd h (by simp only [reduceCtorEq, not_false_eq_true])
              · next hne => exact absurd rfl (hne _)
      · refine hread hnone (readV6_of_head (fun more heq => hc ?_) ▸ h)
        rw [List.cons.injEq] at heq
        exact heq.1

end Ip

end BatchRun
