import BatchRun.Proofs.Text.Trim
import BatchRun.Proofs.Url.Written

/-!
# URLs in Visible Characters

A URL is written in visible characters of ASCII.

The scheme is of letters and digits and the host stands for itself where it is written.
What is behind them may have been of any characters, but those that are not visible
were coded when it was read. So the text of a URL has no line break in it, and nothing
would be trimmed from its host.

## Main definitions

* `Url.IsTidy`: A URL of which no part has a line break, nor its host white space
  around it.

## Theorems

* `Url.cutPath_of_parse`: Where the path and the query of a URL are from.
* `Url.visible_of_parse`: A URL that was read is written in visible characters.
* `Url.isTidy_of_parse`: So it is tidy.
-/

namespace BatchRun

namespace Url

/-- A URL whose text has no line break, and whose host nothing is trimmed from. -/
structure IsTidy (url : Url) : Prop where
  unbroken : '\n' ∉ url.text.toList
  trimmed : Text.trim url.authority = url.authority

variable {url : Url}

/-- What makes up the text of a URL has no line break either. -/
theorem IsTidy.parts (h : url.IsTidy) : '\n' ∉ url.authority.toList ∧ '\n' ∉ url.path.toList ∧
    ∀ query, url.query = some query → '\n' ∉ query.toList := by
  have hunbroken := h.unbroken
  simp only [Url.text, String.toList_append, List.mem_append, not_or] at hunbroken
  rcases hunbroken with ⟨⟨⟨_, hauthority⟩, hpath⟩, hquery⟩
  refine ⟨hauthority, hpath, fun query hsome => ?_⟩
  rw [hsome] at hquery
  simp only [String.toList_append, List.mem_append, not_or] at hquery
  exact hquery.2

section Reading

/-- Coded bytes are visible if the others are. -/
theorem visible_of_mem_encodeWhere {coded : UInt8 → Bool}
    (hcoded : ∀ b, coded b = false → 0x20 < b.toNat ∧ b.toNat < 0x80) {bytes : Bytes} {c : Char}
    (h : c ∈ Percent.encodeWhere coded bytes) : 0x20 < c.toNat ∧ c.toNat < 0x80 := by
  have hcodes : ∀ b : UInt8, (Percent.triplet b).all
      (fun d => decide (0x20 < d.toNat ∧ d.toNat < 0x80)) = true := forall_byte (by decide +kernel)
  rcases List.mem_flatMap.mp h with ⟨b, _, hmem⟩
  split at hmem
  · exact visible_of_all (hcodes b) hmem
  · -- A byte that stays as it is becomes the character of its number.
    next hplain =>
    have hrange := hcoded b (Bool.not_eq_true _ ▸ hplain)
    have hvalue : (Char.ofNat b.toNat).toNat = b.toNat := Utf8.toNat_ofNat (Or.inl (by omega))
    rw [List.mem_singleton.mp hmem, hvalue]
    exact hrange

theorem visible_of_mem_encodeSegment {segment : List Char} {c : Char}
    (h : c ∈ encodeSegment segment) : 0x20 < c.toNat ∧ c.toNat < 0x80 :=
  visible_of_mem_encodeWhere (forall_byte (by decide +kernel)) h

/-- Resolving a path leaves coded segments and empty ones. -/
theorem visible_of_addSegments {rules : PathRules} {resolved segments : List (List Char)}
    (hresolved : ∀ segment ∈ resolved, ∀ c ∈ segment, 0x20 < c.toNat ∧ c.toNat < 0x80) :
    ∀ segment ∈ addSegments rules resolved segments,
      ∀ c ∈ segment, 0x20 < c.toNat ∧ c.toNat < 0x80 := by
  -- Going up drops segments and adds none.
  have habove : ∀ {resolved : List (List Char)} {segment : List Char},
      segment ∈ above rules resolved → segment ∈ resolved := by
    intro resolved segment hmem
    unfold above at hmem
    split at hmem
    · split at hmem
      · exact hmem
      · exact absurd hmem List.not_mem_nil
    · exact (List.dropLast_sublist resolved).mem hmem
  -- One more segment is coded, or empty where dots end the path.
  have hadd : ∀ (resolved : List (List Char)) (last : Bool) (segment : List Char),
      (∀ segment ∈ resolved, ∀ c ∈ segment, 0x20 < c.toNat ∧ c.toNat < 0x80) →
        ∀ other ∈ addSegment rules resolved last segment,
          ∀ c ∈ other, 0x20 < c.toNat ∧ c.toNat < 0x80 := by
    intro resolved last segment hresolved other hmem c hc
    have hempty : ∀ {others : List (List Char)}, (∀ other ∈ others, other ∈ resolved) →
        other ∈ others ++ [[]] → 0x20 < c.toNat ∧ c.toNat < 0x80 := by
      intro others hothers hmem
      rcases List.mem_append.mp hmem with hmem | hmem
      · exact hresolved other (hothers other hmem) c hc
      · rw [List.mem_singleton.mp hmem] at hc
        exact absurd hc List.not_mem_nil
    unfold addSegment at hmem
    split at hmem
    · split at hmem
      · exact hempty (fun _ => habove) hmem
      · exact hresolved other (habove hmem) c hc
    · split at hmem
      · split at hmem
        · exact hempty (fun _ h => h) hmem
        · exact hresolved other hmem c hc
      · rcases List.mem_append.mp hmem with hmem | hmem
        · exact hresolved other hmem c hc
        · rw [List.mem_singleton.mp hmem] at hc
          exact visible_of_mem_encodeSegment hc
  induction segments generalizing resolved with
  | nil => exact hresolved
  | cons segment rest ih =>
      cases rest with
      | nil => exact hadd resolved true segment hresolved
      | cons next rest => exact ih (hadd resolved false segment hresolved)

/-- What is cut off behind the host is visible. -/
theorem visible_of_cutPath (kind : SchemeKind) (text : List Char) :
    (∀ segment ∈ (cutPath kind text).1, ∀ c ∈ segment, 0x20 < c.toNat ∧ c.toNat < 0x80) ∧
      ∀ query, (cutPath kind text).2 = some query →
        ∀ c ∈ query.toList, 0x20 < c.toNat ∧ c.toNat < 0x80 := by
  have hresolve : ∀ (rules : PathRules) (path : List Char), ∀ segment ∈ resolvePath rules path,
      ∀ c ∈ segment, 0x20 < c.toNat ∧ c.toNat < 0x80 := by
    intro rules path
    exact visible_of_addSegments fun _ hmem => absurd hmem List.not_mem_nil
  constructor
  · intro segment hmem c hc
    simp only [cutPath] at hmem
    split at hmem
    · split at hmem
      · exact absurd hmem List.not_mem_nil
      · rw [List.mem_singleton.mp hmem] at hc
        exact absurd hc List.not_mem_nil
    · split at hmem
      · exact hresolve _ _ segment hmem c hc
      · exact hresolve _ _ segment hmem c hc
  · intro query hquery c hc
    simp only [cutPath] at hquery
    split at hquery
    · rw [← Option.some.inj hquery, String.toList_ofList] at hc
      refine visible_of_mem_encodeWhere (fun b hb => ?_) hc
      simp only [isCodedInQuery, Bool.or_eq_false_iff, decide_eq_false_iff_not] at hb
      have hlow : ¬ b.toNat ≤ 0x20 := fun hle => hb.1.1.1.1.1.1 (UInt8.le_iff_toNat_le.mpr hle)
      have hhigh : ¬ 0x7F ≤ b.toNat := fun hle => hb.1.1.1.1.1.2 (UInt8.le_iff_toNat_le.mpr hle)
      omega
    · exact absurd hquery (by simp only [reduceCtorEq, not_false_eq_true])

/-- The segments and the query of a URL were cut off behind its host, but for the empty
    segments that are dropped from a path of files. -/
theorem cutPath_of_parse {text : String} (h : parse text = .ok url) :
    ∃ kind rest, (∀ segment ∈ url.segments, segment = [] ∨ segment ∈ (cutPath kind rest).1) ∧
      url.query = (cutPath kind rest).2 := by
  have hauthority : ∀ {scheme : String} {kind : SchemeKind} {text : List Char},
      parseAuthority scheme kind text = .ok url →
        ∃ rest, url.segments = (cutPath kind rest).1 ∧ url.query = (cutPath kind rest).2 := by
    intro scheme kind text h
    rcases eq_ok_of_bind h with ⟨⟨named, rest⟩, _, h⟩
    rcases eq_ok_of_bind h with ⟨⟨host, port, behind⟩, _, h⟩
    simp only at h
    split at h
    · split at h
      · exact absurd h (by simp only [reduceCtorEq, not_false_eq_true])
      · rw [← Except.ok.inj h]
        exact ⟨behind, rfl, rfl⟩
    · rw [← Except.ok.inj h]
      exact ⟨behind, rfl, rfl⟩
  unfold parse at h
  split at h
  · exact absurd h (by simp only [reduceCtorEq, not_false_eq_true])
  · split at h
    · -- Only for a file is anything done with the segments afterwards.
      rcases eq_ok_of_map h with ⟨⟨host, rest⟩, _, hurl⟩
      refine ⟨.file, rest, fun segment hmem => ?_, by rw [← hurl]⟩
      rw [← hurl] at hmem
      simp only at hmem
      split at hmem
      · exact .inl (List.mem_singleton.mp hmem)
      · exact .inr ((List.dropWhile_sublist _).mem hmem)
    · rcases hauthority h with ⟨rest, hsegments, hquery⟩
      exact ⟨_, rest, fun segment hmem => .inr (hsegments ▸ hmem), hquery⟩
    · split at h
      · rcases hauthority h with ⟨rest, hsegments, hquery⟩
        exact ⟨_, rest, fun segment hmem => .inr (hsegments ▸ hmem), hquery⟩
      · simp only at h
        rw [← Except.ok.inj h]
        exact ⟨.other, _, fun segment hmem => .inr hmem, rfl⟩

theorem visible_of_mem_scheme {text : String} (h : parse text = .ok url) {c : Char}
    (hc : c ∈ url.scheme.toList) : 0x20 < c.toNat ∧ c.toNat < 0x80 := by
  have hscheme : IsScheme url.scheme.toList := by
    unfold parse at h
    split at h
    · exact absurd h (by simp only [reduceCtorEq, not_false_eq_true])
    · next scheme rest hcut =>
      have hnamed := (isScheme_of_cutScheme hcut).1
      split at h
      · next hkind =>
        rcases eq_ok_of_map h with ⟨_, _, hurl⟩
        rw [eq_file_of_ofText hkind] at hnamed
        rw [← hurl]
        exact hnamed
      · rw [scheme_of_parseAuthority h]
        exact hnamed
      · split at h
        · rw [scheme_of_parseAuthority h]
          exact hnamed
        · simp only at h
          rw [← Except.ok.inj h]
          exact hnamed
  exact ⟨toNat_of_isSchemeChar (hscheme.2 c hc), ascii_of_isSchemeChar (hscheme.2 c hc)⟩

theorem visible_of_mem_path (h : ∀ segment ∈ url.segments,
    ∀ c ∈ segment, 0x20 < c.toNat ∧ c.toNat < 0x80) :
    ∀ c ∈ url.path.toList, 0x20 < c.toNat ∧ c.toNat < 0x80 := by
  intro c hc
  rw [path, String.toList_ofList, pathText] at hc
  rcases List.mem_flatMap.mp hc with ⟨segment, hsegment, hmem⟩
  rcases List.mem_cons.mp hmem with rfl | hmem
  · decide
  · exact h segment hsegment c hmem

theorem visible_of_mem_portText {c : Char} (h : c ∈ url.portText.toList) :
    0x20 < c.toNat ∧ c.toNat < 0x80 := by
  unfold portText at h
  split at h
  · next port _ =>
    have htext : (s!":{port}").toList = ':' :: Nat.toDigits 10 port := by
      simp only [toString, String.toList_append, Nat.toList_repr]
      rfl
    rw [htext] at h
    rcases List.mem_cons.mp h with rfl | hdigit
    · decide
    · have hdigit := Nat.isDigit_of_mem_toDigits (by decide) (by decide) hdigit
      exact visible_of_isAlphanum (by rw [Char.isAlphanum, hdigit, Bool.or_true])
  · exact absurd h List.not_mem_nil

theorem visible_of_mem_authority {text : String} (h : parse text = .ok url) :
    ∀ c ∈ url.authority.toList, 0x20 < c.toNat ∧ c.toNat < 0x80 := by
  intro c hc
  rw [authority, String.toList_append, List.mem_append] at hc
  rcases hc with hc | hc
  · split at hc
    · next host hhost =>
      have hchar := (isBase_of_parse h hhost).written.chars c hc
      simp only [UrlHost.isHostChar, Bool.and_eq_true, decide_eq_true_eq] at hchar
      exact hchar.1.1.1.1.1
    · exact absurd hc List.not_mem_nil
  · exact visible_of_mem_portText hc

/-- A URL that was read is written in visible characters. -/
theorem visible_of_parse {text : String} (h : parse text = .ok url) :
    ∀ c ∈ url.text.toList, 0x20 < c.toNat ∧ c.toNat < 0x80 := by
  rcases cutPath_of_parse h with ⟨kind, rest, hsegments, hquery⟩
  rcases visible_of_cutPath kind rest with ⟨hpath, hcoded⟩
  intro c hc
  simp only [Url.text, String.toList_append, List.mem_append] at hc
  rcases hc with (((hc | hc) | hc) | hc) | hc
  · exact visible_of_mem_scheme h hc
  · exact visible_of_all (by decide) hc
  · exact visible_of_mem_authority h c hc
  · refine visible_of_mem_path (fun segment hmem d hd => ?_) c hc
    rcases hsegments segment hmem with rfl | hmem
    · exact absurd hd List.not_mem_nil
    · exact hpath segment hmem d hd
  · split at hc
    · next query hsome =>
      rw [String.toList_append, List.mem_append] at hc
      rcases hc with hc | hc
      · exact visible_of_all (by decide) hc
      · exact hcoded query (hquery ▸ hsome) c hc
    · exact absurd hc List.not_mem_nil

/-- A URL that was read has no line break, and nothing is trimmed from its host. -/
theorem isTidy_of_parse {text : String} (h : parse text = .ok url) : url.IsTidy := by
  refine ⟨fun hbreak => ?_, Text.trim_of_visible (visible_of_mem_authority h)⟩
  exact absurd (visible_of_parse h '\n' hbreak).1 (by decide)

end Reading

end Url

end BatchRun
