import BatchRun.Proofs.ObjectUri.Reading
import BatchRun.Proofs.Service.Addressing

/-!
# Coded Addresses

A text for every object.

The text that a URI is shown as need not be read as the URI again, since nothing in it
is coded. An address is coded segment by segment instead, the way a service is asked
for an object. No character of a coded segment has a meaning in a URL, so nothing of
the address is trimmed or dropped, no query and no fragment begins in it, and its
segments are those of the key. Each of them says what was coded. Only a segment of
dots cannot be written, since a dot is not coded and such a segment is resolved.

What this needs of a bucket is that it is read as a host and as no more than that. The
letters, digits and hyphens of which buckets are made need no coding there.

## Main definitions

* `ObjectUri.codedText`: An address with every segment of its key coded.

## Theorems

* `ObjectUri.isBase_plain`: A bucket behind the scheme of object stores.
* `ObjectUri.toNat_of_mem_codedText`: What a coded address is made of.
* `ObjectUri.said_of_coded`: What the path of a coded address says.
* `ObjectUri.parse_codedText`: A coded address is read as its object.
-/

namespace BatchRun

namespace ObjectUri

/-- An address in a bucket with every segment of the key coded. -/
def codedText (bucket key : String) : String :=
  "s3://" ++ bucket ++ "/" ++ "/".intercalate
    ((Text.splitOn '/' key.toList).map fun segment => Percent.component (String.ofList segment))

section Address

variable {bucket key : String}

/-- A letter, a digit or a hyphen needs no coding in a name. -/
theorem isNameChar_of_plain {c : Char} (h : (c.isLower || c.isDigit || c == '-') = true) :
    UrlHost.isNameChar c = true := by
  have hascii : c.toNat < 0x80 := by
    simp only [Bool.or_eq_true, beq_iff_eq] at h
    rcases h with (hlower | hdigit) | rfl
    · have halpha : c.isAlpha = true := Bool.or_eq_true_iff.mpr (.inr hlower)
      exact toNat_of_isAlphanum (by rw [Char.isAlphanum, halpha, Bool.true_or])
    · exact toNat_of_isAlphanum (by rw [Char.isAlphanum, hdigit, Bool.or_true])
    · decide
  revert h
  exact forall_ascii c hascii (by decide +kernel)

/-- A bucket by the rules is read as the host of a URL, and as no more than that. -/
theorem isBase_plain (hne : bucket ≠ "")
    (hplain : ∀ c ∈ bucket.toList, (c.isLower || c.isDigit || c == '-') = true) :
    Url.IsBase "s3" (.name bucket) := by
  have hchars : ∀ c ∈ bucket.toList, UrlHost.isNameChar c = true := fun c hc =>
    isNameChar_of_plain (hplain c hc)
  have hbracket : '[' ∉ bucket.toList := fun hmem =>
    absurd (hchars '[' hmem) (by decide)
  have hpass : bucket.toList.any UrlHost.isForbiddenInName = false := by
    rw [List.any_eq_false]
    intro c hc
    rw [(UrlHost.isHostChar_of_isNameChar (hchars c hc)).2.2.2.1]
    exact Bool.false_ne_true
  -- None of the characters is coded, so the name is the bucket itself.
  have hread : UrlHost.readName bucket.toList = .ok (.name bucket) := by
    rw [UrlHost.readName_of_head hbracket, hpass, if_neg Bool.false_ne_true,
      Percent.encodeWhere_of_plain, String.ofList_toList]
    intro c hc
    exact ⟨UrlHost.toNat_of_isNameChar (hchars c hc),
      (UrlHost.isHostChar_of_isNameChar (hchars c hc)).2.2.2.2⟩
  refine ⟨⟨⟨'s', rfl, by decide⟩, ?_⟩, by decide, ?_, ?_⟩
  · exact List.all_eq_true.mp (by decide)
  · refine UrlHost.isWritten_of_readName hread ?_
    rw [ne_eq, UrlHost.name.injEq]
    exact hne
  · intro hfile
    exact absurd hfile (by decide)

/-- Behind the bucket stands a slash, and then the coded segments. -/
theorem toList_codedText (bucket key : String) :
    (codedText bucket key).toList = Url.bareText "s3".toList (bucket.toList ++
      '/' :: Text.joinWith ['/'] ((Text.splitOn '/' key.toList).map Url.component)) := by
  have hpieces : ((Text.splitOn '/' key.toList).map fun segment =>
      Percent.component (String.ofList segment)).map String.toList =
        (Text.splitOn '/' key.toList).map Url.component := by
    rw [List.map_map]
    refine List.map_congr_left fun segment _ => ?_
    rw [Function.comp_apply, Percent.component, String.toList_ofList, Utf8.encode,
      String.toList_ofList, Url.component]
  have hslash : ("/" : String).toList = ['/'] := rfl
  have hfront : ("s3://" : String).toList = 's' :: '3' :: ':' :: '/' :: '/' :: [] := rfl
  unfold codedText Url.bareText
  simp only [String.toList_append, Text.toList_intercalate, hpieces, hslash, hfront,
    List.append_assoc, List.cons_append, List.nil_append]
  rfl

/-- Every character behind the bucket is safe, or separates segments. -/
theorem safe_of_mem_joined {segments : List (List Char)} {c : Char}
    (h : c ∈ Text.joinWith ['/'] (segments.map Url.component)) :
    c = '/' ∨ Url.isSafe c = true := by
  rcases Text.mem_of_mem_joinWith h with hslash | ⟨piece, hpiece, hc⟩
  · exact .inl hslash
  · rcases List.mem_map.mp hpiece with ⟨segment, _, rfl⟩
    exact .inr (Url.isSafe_of_mem_component hc)

/-- A coded address is of visible characters of ASCII. -/
theorem toNat_of_mem_codedText
    (hplain : ∀ c ∈ bucket.toList, (c.isLower || c.isDigit || c == '-') = true) {c : Char}
    (h : c ∈ (codedText bucket key).toList) : 0x20 < c.toNat ∧ c.toNat < 0x80 := by
  rw [toList_codedText] at h
  simp only [Url.bareText, List.mem_append, List.mem_cons] at h
  rcases h with h | rfl | rfl | rfl | h | rfl | h
  · exact visible_of_all (by decide) h
  · decide
  · decide
  · decide
  · have hname := isNameChar_of_plain (hplain c h)
    rw [UrlHost.isNameChar, Bool.and_eq_true, decide_eq_true_eq] at hname
    omega
  · decide
  · rcases safe_of_mem_joined h with rfl | hsafe
    · decide
    · simp only [Url.isSafe, Bool.and_eq_true, decide_eq_true_eq] at hsafe
      exact hsafe.1.1.1.1.1

/-- The path of a coded address says the key, unless a segment of it is of dots. -/
theorem said_of_coded (rules : Url.PathRules)
    (hdots : ∀ segment ∈ Text.splitOn '/' key.toList, segment ≠ ['.'] ∧ segment ≠ ['.', '.']) :
    Url.said (Url.pathText (Url.resolvePath rules
        (Text.joinWith ['/'] ((Text.splitOn '/' key.toList).map Url.component)))) =
      Utf8.encodeChars ('/' :: key.toList) := by
  have hne : Text.splitOn '/' key.toList ≠ [] := Text.splitWhere_ne_nil _ _
  have hsaid := (Url.said_resolvePath_components rules hne).mpr fun segment hmem hdot => by
    rcases hdot with hone | htwo
    · exact (hdots segment hmem).1 hone
    · exact (hdots segment hmem).2 htwo
  -- Both sides have a slash before each segment.
  calc Url.said (Url.pathText _)
      = ((Url.resolvePath rules (Text.joinWith ['/']
          ((Text.splitOn '/' key.toList).map Url.component))).map Url.said).flatMap
            (0x2F :: ·) := by
        rw [Url.said_pathText, List.flatMap_map]
    _ = Utf8.encodeChars (Url.pathText (Text.splitOn '/' key.toList)) := by
        rw [hsaid, Url.encodeChars_pathText, List.flatMap_map]
    _ = Utf8.encodeChars ('/' :: key.toList) := by
        rw [Url.pathText_eq_joinWith hne, Text.joinWith_splitOn]

/-- Every object has an address that is read as it: the one with each segment of the
    key coded. The bucket is one by the rules, the key neither begins nor ends with a
    slash, and no segment of it is of dots. Whatever else a key may hold is read back
    as it is, be it nothing at all between two slashes. -/
theorem parse_codedText (hne : bucket ≠ "")
    (hplain : ∀ c ∈ bucket.toList, (c.isLower || c.isDigit || c == '-') = true)
    (hends : key.toList.head? ≠ some '/' ∧ key.toList.getLast? ≠ some '/')
    (hdots : ∀ segment ∈ Text.splitOn '/' key.toList, segment ≠ ['.'] ∧ segment ≠ ['.', '.']) :
    parse (codedText bucket key) = .ok ⟨"s3", bucket, key⟩ := by
  have hbase := isBase_plain hne hplain
  have htext := toList_codedText bucket key
  -- All of the text counts, so it is read as the path behind the bucket.
  have hseen : Url.significant (Text.trim (codedText bucket key)) = Url.bareText "s3".toList
      ((UrlHost.name bucket).text.toList ++
        '/' :: Text.joinWith ['/'] ((Text.splitOn '/' key.toList).map Url.component)) := by
    have hvisible : ∀ c ∈ (codedText bucket key).toList, 0x20 < c.toNat ∧ c.toNat < 0x80 :=
      fun c hc => toNat_of_mem_codedText hplain hc
    rw [Text.trim_of_visible hvisible, Url.significant_of_forall fun c hc => (hvisible c hc).1,
      htext]
    rfl
  have hpath : Url.pathOf (Text.joinWith ['/']
      ((Text.splitOn '/' key.toList).map Url.component)) =
        Text.joinWith ['/'] ((Text.splitOn '/' key.toList).map Url.component) := by
    rw [Url.pathOf_eq_self_iff]
    intro c hc
    rcases safe_of_mem_joined hc with rfl | hsafe
    · decide
    · simp only [Url.isSafe, Bool.and_eq_true, bne_iff_ne, ne_eq] at hsafe
      exact ⟨hsafe.1.1.2, hsafe.1.2⟩
  rw [parse_of_url (Url.parse_written hbase (Url.opensPath_slash _) hseen)]
  refine (@ofUrl_eq_ok_iff ⟨"s3", bucket, key⟩ _ _ rfl rfl ?_).mpr ⟨rfl, ?_⟩
  · intro other hother
    exact (Option.some.inj hother).symm
  · refine ⟨'/' :: key.toList, ?_, ?_⟩
    · rw [Url.segments_behind, hpath, if_neg (by decide), said_of_coded _ hdots]
    · rw [trimSlashes_cons]
      exact trimSlashes_of_endsClear hends

end Address

/-- A key that its own text would not be read as: a percent code, a question mark, a
    number sign, a line break, an empty segment, and letters that are not ASCII. -/
theorem parse_codedText_marks :
    codedText "my-bucket" "a%20b?c//#d\né " = "s3://my-bucket/a%2520b%3Fc//%23d%0A%C3%A9%20" ∧
      parse "s3://my-bucket/a%2520b%3Fc//%23d%0A%C3%A9%20" =
        .ok ⟨"s3", "my-bucket", "a%20b?c//#d\né "⟩ := by
  have htext : codedText "my-bucket" "a%20b?c//#d\né " =
      "s3://my-bucket/a%2520b%3Fc//%23d%0A%C3%A9%20" := by decide +kernel
  refine ⟨htext, ?_⟩
  rw [← htext]
  exact parse_codedText (by decide) (List.all_eq_true.mp (by decide)) (by decide) (by decide)

end ObjectUri

end BatchRun
