import BatchRun.Proofs.Text.Whole
import BatchRun.Proofs.Url.Domain
import BatchRun.Proofs.Url.Ip
import BatchRun.Proofs.Url.Parse

/-!
# Hosts Written and Read

A host that was read and written is read as the same host.

A numeric address is written in one of its forms and read back from any. A name
holds, once it has been read, only characters that stand for themselves: a domain is
folded, and in any other name what is not plain ASCII has been coded. So reading it
again changes nothing, and in a URL it ends where it should.

## Main definitions

* `UrlHost.read`: How a host is read.
* `UrlHost.IsWritten`: A host that stands for itself where it is written.

## Theorems

* `UrlHost.isWritten_of_readName`, `UrlHost.isWritten_of_readDomain`: Hosts that were
  read are such hosts.
-/

namespace BatchRun

namespace Ip

theorem mem_v4Text {address : Nat} {c : Char} (h : c ∈ (v4Text address).toList) :
    c = '.' ∨ c.isDigit = true := by
  rw [toList_v4Text] at h
  rcases Text.mem_of_mem_joinWith h with hdot | ⟨part, hpart, hc⟩
  · exact .inl hdot
  · rcases List.mem_map.mp hpart with ⟨n, _, rfl⟩
    exact .inr (Nat.isDigit_of_mem_toDigits (by decide) (by decide) hc)

theorem mem_colons {groups : List Nat} {c : Char} (h : c ∈ colons groups) :
    c = ':' ∨ (Hex.digitValue c).isSome := by
  rcases Text.mem_of_mem_joinWith h with hcolon | ⟨part, hpart, hc⟩
  · exact .inl hcolon
  · rcases List.mem_map.mp hpart with ⟨n, _, rfl⟩
    exact .inr (digitValue_of_mem_toDigits (by decide) (by decide) hc)

theorem mem_v6Text {groups : List Nat} {c : Char} (h : c ∈ (v6Text groups).toList) :
    c = ':' ∨ (Hex.digitValue c).isSome := by
  rw [toList_v6Text] at h
  split at h
  · exact mem_colons h
  · rw [List.mem_append, List.mem_cons, List.mem_cons] at h
    rcases h with h | h | h | h
    · exact mem_colons h
    · exact .inl h
    · exact .inl h
    · exact mem_colons h

end Ip

namespace UrlHost

/-- How the host of a kind of scheme is read. -/
def read (kind : Url.SchemeKind) (chars : List Char) : Except Url.Fault UrlHost :=
  match kind with
  | .other => readName chars
  | _ => readDomain chars

/-- A character of ASCII that ends nothing where a host is. -/
def isHostChar (c : Char) : Bool :=
  decide (0x20 < c.toNat ∧ c.toNat < 0x80) && c != '/' && c != '\\' && c != '?' && c != '#' &&
    c != '@'

/-- A host that stands for itself where it is written: nothing of it ends the
    authority or is taken for a user or a port, and it is read as the same host. -/
structure IsWritten (kind : Url.SchemeKind) (host : UrlHost) : Prop where
  ne_nil : host.text.toList ≠ []
  chars : ∀ c ∈ host.text.toList, isHostChar c = true
  whole : Url.hostChars kind false host.text.toList = host.text.toList
  reads : read kind host.text.toList = .ok host

theorem isAuthority_of_isHostChar {chars : List Char} (h : ∀ c ∈ chars, isHostChar c = true) :
    Url.IsAuthority chars ∧ '@' ∉ chars := by
  constructor
  · intro c hc
    have hchar := h c hc
    simp only [isHostChar, Bool.and_eq_true, decide_eq_true_eq, bne_iff_ne, ne_eq] at hchar
    rcases hchar with ⟨⟨⟨⟨⟨hcount, hslash⟩, hback⟩, hmark⟩, hhash⟩, _⟩
    exact ⟨hcount.1, hslash, hback, hmark, hhash⟩
  · intro hat
    exact absurd (h '@' hat) (by decide)

theorem hostChars_of_noColon {kind : Url.SchemeKind} {chars : List Char}
    (h : ∀ c ∈ chars, isHostChar c = true) (hcolon : ':' ∉ chars) (inside : Bool) :
    Url.hostChars kind inside chars = chars := by
  induction chars generalizing inside with
  | nil => rfl
  | cons c rest ih =>
      rw [List.mem_cons, not_or] at hcolon
      have hend : Url.endsAuthority kind c = false :=
        Url.endsAuthority_of_mem (isAuthority_of_isHostChar h).1 List.mem_cons_self
      rw [Url.hostChars, hend, beq_eq_false_iff_ne.mpr (Ne.symm hcolon.1), Bool.false_and,
        Bool.or_self, if_neg Bool.false_ne_true,
        ih (fun d hd => h d (List.mem_cons_of_mem c hd)) hcolon.2]

/-- Colons between brackets do not end a host. -/
theorem hostChars_of_brackets {kind : Url.SchemeKind} {chars : List Char}
    (h : ∀ c ∈ chars, isHostChar c = true) (hbracket : ']' ∉ chars) :
    Url.hostChars kind true (chars ++ [']']) = chars ++ [']'] := by
  induction chars with
  | nil =>
      cases kind with
      | web port => rfl
      | file => rfl
      | other => rfl
  | cons c rest ih =>
      rw [List.mem_cons, not_or] at hbracket
      have hend : Url.endsAuthority kind c = false :=
        Url.endsAuthority_of_mem (isAuthority_of_isHostChar h).1 List.mem_cons_self
      rw [List.cons_append, Url.hostChars, hend, Bool.not_true, Bool.and_false,
        Bool.or_self, if_neg Bool.false_ne_true, bne_iff_ne.mpr (Ne.symm hbracket.1),
        Bool.and_self, Bool.or_true, ih (fun d hd => h d (List.mem_cons_of_mem c hd)) hbracket.2]

theorem isHostChar_of_digitValue {c : Char} (h : (Hex.digitValue c).isSome) :
    isHostChar c = true ∧ c ≠ ']' := by
  have hascii := Hex.toNat_of_digitValue h
  revert h
  exact forall_ascii c hascii (by decide +kernel)

/-- An address in brackets stands for itself. -/
theorem isWritten_ipv6 {kind : Url.SchemeKind} {groups : List Nat} (h : Ip.IsAddress6 groups) :
    IsWritten kind (.ipv6 groups) := by
  have htext : (text (.ipv6 groups)).toList = '[' :: ((Ip.v6Text groups).toList ++ [']']) := by
    rw [text, String.toList_append, String.toList_append, List.append_assoc]
    rfl
  have hinside : ∀ c ∈ (Ip.v6Text groups).toList, isHostChar c = true ∧ c ≠ ']' := by
    intro c hc
    rcases Ip.mem_v6Text hc with rfl | hsome
    · decide
    · exact isHostChar_of_digitValue hsome
  have hall : ∀ c ∈ (text (.ipv6 groups)).toList, isHostChar c = true := by
    rw [htext]
    intro c hc
    rw [List.mem_cons, List.mem_append, List.mem_singleton] at hc
    rcases hc with rfl | hc | rfl
    · decide
    · exact (hinside c hc).1
    · decide
  have hread : ∀ read : List Char → Except Url.Fault UrlHost,
      (∀ inside, read ('[' :: inside) = readBracketed inside) →
        read (text (.ipv6 groups)).toList = .ok (.ipv6 groups) := by
    intro read hbracket
    rw [htext, hbracket, readBracketed, List.reverse_append, List.reverse_singleton]
    simp only [List.singleton_append, List.reverse_reverse, Ip.readV6_v6Text h]
  refine ⟨?_, hall, ?_, ?_⟩
  · rw [htext]
    exact List.cons_ne_nil _ _
  · have hopen : Url.endsAuthority kind '[' = false :=
      Url.endsAuthority_of_mem (isAuthority_of_isHostChar hall).1 (htext ▸ List.mem_cons_self)
    rw [htext, Url.hostChars, hopen]
    simp only [Bool.not_false, Bool.and_true, Bool.false_or, beq_self_eq_true, Bool.true_or]
    rw [if_neg (by decide), hostChars_of_brackets (fun c hc => (hinside c hc).1)
      fun hmem => (hinside ']' hmem).2 rfl]
  · cases kind with
    | other => exact hread readName fun inside => rfl
    | web port => exact hread readDomain fun inside => rfl
    | file => exact hread readDomain fun inside => rfl

/-- What is read from behind a bracket is an address. -/
theorem eq_ipv6_of_readBracketed {inside : List Char} {host : UrlHost}
    (h : readBracketed inside = .ok host) :
    ∃ groups, host = .ipv6 groups ∧ Ip.IsAddress6 groups := by
  unfold readBracketed at h
  split at h
  · split at h
    · next groups hgroups =>
      exact ⟨groups, (Except.ok.inj h).symm, Ip.isAddress6_of_read hgroups⟩
    · exact absurd h (by simp only [reduceCtorEq, not_false_eq_true])
  · exact absurd h (by simp only [reduceCtorEq, not_false_eq_true])

/-- A text without colons that is read as a host stands for itself. -/
theorem isWritten_of_reads {kind : Url.SchemeKind} {host : UrlHost} (hne : host.text.toList ≠ [])
    (hall : ∀ c ∈ host.text.toList, isHostChar c = true) (hcolon : ':' ∉ host.text.toList)
    (hread : read kind host.text.toList = .ok host) : IsWritten kind host :=
  ⟨hne, hall, hostChars_of_noColon hall hcolon false, hread⟩

section Names

/-- A character of a name that needs no coding. -/
def isNameChar (c : Char) : Bool :=
  decide (0x20 < c.toNat ∧ c.toNat < 0x7F) && !isForbiddenInName c

theorem toNat_of_isNameChar {c : Char} (h : isNameChar c = true) : c.toNat < 0x80 := by
  rw [isNameChar, Bool.and_eq_true, decide_eq_true_eq] at h
  exact Nat.lt_succ_of_lt h.1.2

theorem isHostChar_of_isNameChar {c : Char} (h : isNameChar c = true) :
    isHostChar c = true ∧ c ≠ ':' ∧ c ≠ '[' ∧ isForbiddenInName c = false ∧
      isCodedInName (UInt8.ofNat c.toNat) = false := by
  have hascii := toNat_of_isNameChar h
  revert h
  exact forall_ascii c hascii (by decide +kernel)

/-- A name that holds no forbidden character holds none that needs coding once it
    has been coded. -/
theorem isNameChar_of_coded {name : List Char} (h : name.any isForbiddenInName = false) {c : Char}
    (hc : c ∈ Percent.encodeWhere isCodedInName (Utf8.encodeChars name)) : isNameChar c = true := by
  rcases List.mem_flatMap.mp hc with ⟨b, hb, hmem⟩
  have hall : ∀ b : UInt8, (Percent.triplet b).all isNameChar = true :=
    forall_byte (by decide +kernel)
  have hplain : ∀ b : UInt8, isCodedInName b = false →
      isForbiddenInName (Char.ofNat b.toNat) = false → isNameChar (Char.ofNat b.toNat) = true :=
    forall_byte (by decide +kernel)
  have hsmall : ∀ b : UInt8, isCodedInName b = false → b.toNat < 0x80 :=
    forall_byte (by decide +kernel)
  split at hmem
  · exact List.all_eq_true.mp (hall b) c hmem
  · -- A byte that stays as it is was a character of the name.
    next hcoded =>
    rw [Bool.not_eq_true] at hcoded
    rw [List.mem_singleton.mp hmem]
    refine hplain b hcoded (Bool.eq_false_iff.mpr fun hforbidden => ?_)
    have hin := Percent.mem_of_ascii_mem_encodeChars hb (hsmall b hcoded)
    exact absurd (List.any_eq_true.mpr ⟨_, hin, hforbidden⟩) (Bool.eq_false_iff.mp h)

theorem readName_of_head {chars : List Char} (h : '[' ∉ chars) :
    readName chars = if chars.any isForbiddenInName then .error .badHostCharacter
      else .ok
        (.name (String.ofList (Percent.encodeWhere isCodedInName (Utf8.encodeChars chars)))) := by
  unfold readName
  split
  · exact absurd List.mem_cons_self h
  · rfl

/-- A host that a scheme does not interpret stands for itself. -/
theorem isWritten_of_readName {chars : List Char} {host : UrlHost} (h : readName chars = .ok host)
    (hne : host ≠ .name "") : IsWritten .other host := by
  unfold readName at h
  split at h
  · rcases eq_ipv6_of_readBracketed h with ⟨groups, rfl, hgroups⟩
    exact isWritten_ipv6 hgroups
  · split at h
    · exact absurd h (by simp only [reduceCtorEq, not_false_eq_true])
    · next hforbidden =>
      rw [Bool.not_eq_true] at hforbidden
      have hplain := fun c => isNameChar_of_coded hforbidden (c := c)
      generalize Percent.encodeWhere isCodedInName (Utf8.encodeChars chars) = coded at h hplain
      have hchar := fun c hc => isHostChar_of_isNameChar (hplain c hc)
      rw [← Except.ok.inj h] at hne ⊢
      have htext : (text (.name (String.ofList coded))).toList = coded := String.toList_ofList
      apply isWritten_of_reads
      · rw [htext]
        rintro rfl
        exact hne rfl
      · rw [htext]
        exact fun c hc => (hchar c hc).1
      · rw [htext]
        exact fun hmem => (hchar ':' hmem).2.1 rfl
      · rw [htext]
        have hpass : coded.any isForbiddenInName = false := by
          rw [List.any_eq_false]
          exact fun c hc => Bool.eq_false_iff.mp (hchar c hc).2.2.2.1
        have hsame : Percent.encodeWhere isCodedInName (Utf8.encodeChars coded) = coded :=
          Percent.encodeWhere_of_plain fun c hc =>
            ⟨toNat_of_isNameChar (hplain c hc), (hchar c hc).2.2.2.2⟩
        rw [read, readName_of_head fun hmem => (hchar '[' hmem).2.2.1 rfl, hpass,
          if_neg Bool.false_ne_true, hsame]

end Names

section Domains

variable {kind : Url.SchemeKind}

theorem isHostChar_of_isPlain {c : Char} (h : Domain.isPlain c = true) :
    isHostChar c = true ∧ c ≠ ':' ∧ c ≠ '|' ∧ c ≠ '[' ∧ c ≠ '%' := by
  have hascii := Domain.toNat_of_isPlain h
  revert h
  exact forall_ascii c hascii (by decide +kernel)

/-- A domain in ASCII is read as it is: as a number or as a name. -/
theorem readDomain_of_plain {domain : List Char} (h : ∀ c ∈ domain, Domain.isPlain c = true) :
    readDomain domain =
      if domain.isEmpty then .error .emptyHost
      else if Ip.endsInNumber domain then
        match Ip.readV4 domain with
        | some address => .ok (.ipv4 address)
        | none => .error .badIpv4
      else .ok (.name (String.ofList domain)) := by
  have hchars : Utf8.lossyChars (Percent.decode (Utf8.encodeChars domain)) = domain := by
    rw [Percent.decode_of_not_mem fun hmem => (isHostChar_of_isPlain (h '%' hmem)).2.2.2.2 rfl,
      Utf8.lossyChars, Utf8.decode_encodeChars, List.map_map]
    exact List.map_id domain
  unfold readDomain
  split
  · exact absurd rfl (isHostChar_of_isPlain (h '[' List.mem_cons_self)).2.2.2.1
  · cases hnumber : Ip.readV4 domain with
    | none => simp only [hchars, Domain.toAscii_of_plain h, hnumber]
    | some address => simp only [hchars, Domain.toAscii_of_plain h, hnumber]

theorem isPlain_of_mem_v4Text {address : Nat} {c : Char} (h : c ∈ (Ip.v4Text address).toList) :
    Domain.isPlain c = true := by
  rcases Ip.mem_v4Text h with rfl | hdigit
  · decide
  · have hascii : c.toNat < 0x80 :=
      toNat_of_isAlphanum (by rw [Char.isAlphanum, hdigit, Bool.or_true])
    revert hdigit
    exact forall_ascii c hascii (by decide +kernel)

theorem v4Text_ne_nil (address : Nat) : (Ip.v4Text address).toList ≠ [] := by
  intro hnil
  have hnumber := Ip.endsInNumber_v4Text address
  rw [hnil] at hnumber
  exact absurd hnumber (by decide)

theorem isDrive_bracket (rest : List Char) : Url.isDrive ('[' :: rest) = false := by
  unfold Url.isDrive
  split
  · next letter mark heq =>
    rw [← (List.cons.inj heq).1]
    rfl
  · rfl

theorem not_isDrive {domain : List Char} (h : ∀ c ∈ domain, Domain.isPlain c = true) :
    Url.isDrive domain = false := by
  unfold Url.isDrive
  split
  · next letter mark =>
    have hmark := isHostChar_of_isPlain (h mark (List.mem_cons_of_mem _ List.mem_cons_self))
    rw [beq_eq_false_iff_ne.mpr hmark.2.1, beq_eq_false_iff_ne.mpr hmark.2.2.1, Bool.or_self,
      Bool.and_false]
  · rfl

/-- A domain in ASCII stands for itself, however it is read. -/
theorem isWritten_of_plain {host : UrlHost} (hkind : kind ≠ .other) (hne : host.text.toList ≠ [])
    (h : ∀ c ∈ host.text.toList, Domain.isPlain c = true)
    (hread : readDomain host.text.toList = .ok host) :
    IsWritten kind host ∧ Url.isDrive host.text.toList = false := by
  refine ⟨isWritten_of_reads hne (fun c hc => (isHostChar_of_isPlain (h c hc)).1)
    (fun hmem => (isHostChar_of_isPlain (h ':' hmem)).2.1 rfl) ?_, not_isDrive h⟩
  cases kind with
  | other => exact absurd rfl hkind
  | web port => exact hread
  | file => exact hread

/-- A host of the web stands for itself. None is a drive. -/
theorem isWritten_of_readDomain {chars : List Char} {host : UrlHost}
    (h : readDomain chars = .ok host) (hkind : kind ≠ .other) :
    IsWritten kind host ∧ Url.isDrive host.text.toList = false := by
  unfold readDomain at h
  split at h
  · rcases eq_ipv6_of_readBracketed h with ⟨groups, rfl, hgroups⟩
    refine ⟨isWritten_ipv6 hgroups, ?_⟩
    rw [text, String.toList_append, String.toList_append, List.append_assoc]
    exact isDrive_bracket _
  · split at h
    · exact absurd h (by simp only [reduceCtorEq, not_false_eq_true])
    · next domain hdomain =>
      have hplain := Domain.isPlain_of_toAscii hdomain
      have hreads := readDomain_of_plain hplain
      split at h
      · exact absurd h (by simp only [reduceCtorEq, not_false_eq_true])
      · next hempty =>
        rw [if_neg hempty] at hreads
        split at h
        · split at h
          · -- A number is written in four parts and read as the number again.
            next address haddress =>
            have htext : ∀ c ∈ (Ip.v4Text address).toList, Domain.isPlain c = true :=
              fun c hc => isPlain_of_mem_v4Text hc
            have hnumber := readDomain_of_plain htext
            rw [if_neg fun h => v4Text_ne_nil address (List.isEmpty_iff.mp h),
              if_pos (Ip.endsInNumber_v4Text address),
              Ip.readV4_v4Text (Ip.isAddress4_of_read haddress)] at hnumber
            rw [← Except.ok.inj h]
            exact isWritten_of_plain hkind (v4Text_ne_nil address) htext hnumber
          · exact absurd h (by simp only [reduceCtorEq, not_false_eq_true])
        · -- A name is written as it was read.
          next hname =>
          rw [if_neg hname] at hreads
          rw [← Except.ok.inj h]
          have htext : (text (.name (String.ofList domain))).toList = domain := String.toList_ofList
          apply isWritten_of_plain hkind
          · rw [htext]
            rintro rfl
            exact hempty rfl
          · rwa [htext]
          · rwa [htext]

end Domains

end UrlHost

end BatchRun
