import BatchRun.Proofs.Service.Addressing
import BatchRun.Proofs.Url.Kept

/-!
# Coded Paths and Queries

Reading a URL whose path and query were coded.

A coded segment holds letters, digits, a few marks and percent signs. None of them ends
a path or a query and none is coded again where it stands, so behind a scheme and a
host the segments and the query are read as they were written. This holds of the URLs
of files too. There the host is read in another way, and a path loses its empty
segments in front and may name a drive; but a path that begins with a word does
neither.

## Main definitions

* `Url.IsOrigin`: A scheme and a host, maybe with a port.
* `Url.isCodedChar`, `Url.isQueryChar`: What coded segments and queries are made of.
* `Url.queryBehind`: A query behind a path.

## Theorems

* `Url.isCodedChar_of_mem_component`: The characters of a coded segment.
* `Url.cutPath_query`: The path and the query of a text.
* `Url.parseFile_append`, `Url.parse_behind`: A path behind an origin.
* `Url.parse_coded`: A coded path and a query behind an origin.
-/

namespace BatchRun

namespace Url

/-- A scheme and a host that can be read, maybe with a user and a port. -/
def IsOrigin (text : String) : Prop :=
  ∃ scheme authority url, text.toList = bareText scheme authority ∧ IsScheme scheme ∧
    IsAuthority authority ∧ parse text = .ok url ∧ url.host.isSome

/-- What a coded segment is made of: what needs no coding, and the percent sign. -/
def isCodedChar (c : Char) : Bool :=
  decide (c.toNat < 0x80) && (Percent.isUnreserved (UInt8.ofNat c.toNat) || c == '%')

/-- What a coded query is made of: this, and the marks that separate names from values and
    pairs from each other. -/
def isQueryChar (c : Char) : Bool := isCodedChar c || c == '=' || c == '&'

/-- A query behind a path. -/
def queryBehind : Option (List Char) → List Char
  | none => []
  | some query => '?' :: query

theorem isCodedChar_of_mem_component {segment : List Char} {c : Char} (h : c ∈ component segment) :
    isCodedChar c = true := by
  have hall : ∀ b : UInt8, (if !Percent.isUnreserved b then Percent.triplet b
      else [Char.ofNat b.toNat]).all isCodedChar = true := forall_byte (by decide +kernel)
  rw [component, Percent.encodeWhere, List.mem_flatMap] at h
  rcases h with ⟨b, _, hc⟩
  exact List.all_eq_true.mp (hall b) c hc

theorem toNat_of_isQueryChar {c : Char} (h : isQueryChar c = true) : c.toNat < 0x80 := by
  simp only [isQueryChar, isCodedChar, Bool.or_eq_true, Bool.and_eq_true, decide_eq_true_eq,
    beq_iff_eq] at h
  rcases h with (⟨hascii, _⟩ | rfl) | rfl
  · exact hascii
  · decide
  · decide

/-- A character of a coded query is visible, ends no query and is not coded there. -/
theorem kept_of_isQueryChar (kind : SchemeKind) {c : Char} (h : isQueryChar c = true) :
    0x20 < c.toNat ∧ c.toNat < 0x80 ∧ c ≠ '#' ∧
      isCodedInQuery kind (UInt8.ofNat c.toNat) = false := by
  have hascii := toNat_of_isQueryChar h
  have hstrict : isQueryChar c = true → 0x20 < c.toNat ∧ c.toNat < 0x80 ∧ c ≠ '#' ∧
      isCodedInQuery .file (UInt8.ofNat c.toNat) = false :=
    forall_ascii c hascii (by decide +kernel)
  rcases hstrict h with ⟨hsolid, _, hhash, hcoded⟩
  refine ⟨hsolid, hascii, hhash, ?_⟩
  -- The other kinds of schemes code no more than files do.
  rw [isCodedInQuery, Bool.or_eq_false_iff] at hcoded ⊢
  refine ⟨hcoded.1, ?_⟩
  have hquote := hcoded.2
  rw [Bool.and_eq_false_iff] at hquote ⊢
  rcases hquote with hkind | hquote
  · exact absurd hkind (by decide)
  · exact .inr hquote

/-- The path and the query of a text. -/
theorem cutPath_query (kind : SchemeKind) {path : List Char} {query : Option (List Char)}
    (hpath : ∀ c ∈ path, c ≠ '?' ∧ c ≠ '#')
    (hquery : ∀ text, query = some text → ∀ c ∈ text, isQueryChar c = true) :
    cutPath kind ('/' :: (path ++ queryBehind query)) =
      (resolvePath ⟨kind.backslash, kind == .file⟩ path, query.map String.ofList) := by
  cases query with
  | none =>
      rw [queryBehind, List.append_nil, cutPath_slash kind hpath]
      rfl
  | some text =>
      -- The path goes on to the question mark, and the query to the end of the text.
      have htake : ('/' :: (path ++ '?' :: text)).takeWhile (fun c => c != '?' && c != '#') =
          '/' :: path := by
        rw [List.takeWhile_cons, if_pos (by decide), takeWhile_append_of_head, ← pathOf,
          pathOf_eq_self_iff.mpr hpath]
        intro c hc
        rw [← Option.some.inj hc]
        rfl
      have hdrop : ('/' :: (path ++ '?' :: text)).drop ('/' :: path).length = '?' :: text :=
        List.drop_left
      have hall : text.takeWhile (· != '#') = text := by
        rw [← List.append_nil text, List.takeWhile_append_of_pos, List.takeWhile_nil]
        exact fun c hc => bne_iff_ne.mpr (kept_of_isQueryChar kind (hquery text rfl c hc)).2.2.1
      have hkept : Percent.encodeWhere (isCodedInQuery kind) (Utf8.encodeChars text) = text := by
        refine Percent.encodeWhere_of_plain fun c hc => ?_
        rcases kept_of_isQueryChar kind (hquery text rfl c hc) with ⟨_, hascii, _, hplain⟩
        exact ⟨hascii, hplain⟩
      simp only [cutPath, queryBehind, htake, hdrop, hall, hkept, beq_self_eq_true, Bool.true_or,
        if_true, Option.map_some]

section Behind

theorem bareText_append (scheme authority tail : List Char) :
    bareText scheme authority ++ tail = bareText scheme (authority ++ tail) := by
  rw [bareText, bareText, List.append_assoc]
  rfl

variable {scheme authority tail : List Char} {url : Url}

/-- The URL of a file with a host becomes the same URL with the path that is behind its
    host, if the path begins with a name that is no drive. -/
theorem parseFile_append (h : IsAuthority authority) (htail : OpensPath tail)
    (hparse : parseFile ('/' :: '/' :: authority) = .ok url) (hhost : url.host.isSome)
    {first : List Char} {rest : List (List Char)} (hpath : (cutPath .file tail).1 = first :: rest)
    (hfirst : first ≠ []) (hdrive : isDrive first = false) :
    parseFile ('/' :: '/' :: (authority ++ tail)) =
      .ok { url with segments := (cutPath .file tail).1, query := (cutPath .file tail).2 } := by
  have hslashes : ∀ text, parseFile ('/' :: '/' :: text) = (cutFileHost text).map fun found =>
      { scheme := "file"
        host := if ((cutPath .file found.2).1.head?.map isDrive).getD false then none else found.1
        port := none
        segments := withoutEmpty (cutPath .file found.2).1
        query := (cutPath .file found.2).2 } := fun _ => rfl
  rw [hslashes] at hparse ⊢
  rcases eq_ok_of_map hparse with ⟨⟨found, left⟩, hcut, hurl⟩
  have htake := takeWhile_authority .file h opensPath_nil
  rw [List.append_nil] at htake
  simp only [cutFileHost, htake, List.drop_length] at hcut
  simp only [cutFileHost, takeWhile_authority .file h htail, List.drop_left]
  -- A host was found, so the authority is neither empty nor a drive.
  split at hcut
  · have hnone : found = none := (Prod.mk.inj (Except.ok.inj hcut)).1.symm
    rw [← hurl, hnone, ite_self] at hhost
    exact absurd hhost Bool.false_ne_true
  · next hnamed =>
    rcases eq_ok_of_map hcut with ⟨host, hread, hpair⟩
    rcases Prod.mk.inj hpair with ⟨hfound, hleft⟩
    have hroot : (cutPath .file ([] : List Char)).1.head?.map isDrive = some false := rfl
    have hsame : url.host = found := by
      rw [← hurl, ← hleft, hroot]
      rfl
    rw [if_neg hnamed, hread]
    simp only [Except.map, hfound, hpath, List.head?_cons, Option.map_some, hdrive,
      Option.getD_some, Bool.false_eq_true, if_false, withoutEmpty_of_ne_nil hfirst, ← hurl]
    rw [← hleft, hroot]
    rfl

/-- The kind of the scheme of a URL is told by its text. -/
theorem ofText_of_parse {text : String} (hscheme : IsScheme scheme)
    (htext : significant text = bareText scheme authority) (hparse : parse text = .ok url) :
    SchemeKind.ofText url.scheme = SchemeKind.ofText (String.ofList (scheme.map Char.toLower)) := by
  rw [parse_bareText hscheme htext] at hparse
  split at hparse
  · next hkind =>
    rcases eq_ok_of_map hparse with ⟨_, _, hurl⟩
    rw [← hurl, hkind]
    rfl
  · rw [scheme_of_parseAuthority hparse]
  · rw [scheme_of_parseAuthority hparse]

/-- A URL with a host becomes the same URL with the path that is behind its host, if the
    path begins with a name that is no drive. -/
theorem parse_behind {text whole : String} (hscheme : IsScheme scheme)
    (h : IsAuthority authority) (htail : OpensPath tail)
    (htext : significant text = bareText scheme authority)
    (hwhole : significant whole = bareText scheme (authority ++ tail))
    (hparse : parse text = .ok url) (hhost : url.host.isSome) {first : List Char}
    {rest : List (List Char)} (hpath : ∀ kind, (cutPath kind tail).1 = first :: rest)
    (hfirst : first ≠ []) (hdrive : isDrive first = false) :
    parse whole = .ok { url with
      segments := first :: rest
      query := (cutPath (.ofText url.scheme) tail).2 } := by
  -- Only the URLs of files are read in another way.
  by_cases hfile : SchemeKind.ofText url.scheme = .file
  · have hkind := (ofText_of_parse hscheme htext hparse).symm.trans hfile
    rw [parse_bareText hscheme htext, hkind] at hparse
    rw [parse_bareText hscheme hwhole, hkind, hfile, ← hpath .file]
    exact parseFile_append h htail hparse hhost (hpath .file) hfirst hdrive
  · rw [parse_append hscheme h htail htext hwhole hparse hhost hfile, hpath]

/-- A coded segment is no drive, since the mark of a drive is coded. -/
theorem isDrive_component (segment : List Char) : isDrive (component segment) = false := by
  refine Bool.eq_false_iff.mpr fun hdrive => ?_
  unfold isDrive at hdrive
  split at hdrive
  · next letter mark heq =>
    have hmark : isCodedChar mark = true :=
      isCodedChar_of_mem_component (heq ▸ List.mem_cons_of_mem _ List.mem_cons_self)
    rw [Bool.and_eq_true, Bool.or_eq_true, beq_iff_eq, beq_iff_eq] at hdrive
    rcases hdrive.2 with rfl | rfl
    · exact absurd hmark (by decide)
    · exact absurd hmark (by decide)
  · exact Bool.false_ne_true hdrive

/-- Coding a segment keeps whether there is anything in it. -/
theorem component_ne_nil {segment : List Char} (h : segment ≠ []) : component segment ≠ [] := by
  intro hnil
  have hsaid := said_component segment
  rw [hnil] at hsaid
  exact encodeChars_ne_nil h hsaid.symm

/-- Coded segments that are not of dots are the segments of their path, and a coded
    query is the query behind them. -/
theorem cutPath_coded (kind : SchemeKind) {segments : List (List Char)}
    {query : Option (List Char)} (hne : segments ≠ [])
    (hplain : ∀ segment ∈ segments, ¬ (segment = ['.'] ∨ segment = ['.', '.']))
    (hquery : ∀ chars, query = some chars → ∀ c ∈ chars, isQueryChar c = true) :
    cutPath kind (pathText (segments.map component) ++ queryBehind query) =
      (segments.map component, query.map String.ofList) := by
  have hmap : segments.map component ≠ [] := by
    simpa only [ne_eq, List.map_eq_nil_iff] using hne
  rw [pathText_eq_joinWith hmap, List.cons_append,
    cutPath_query kind (fun c hc => (visible_of_mem_components hc).2) hquery,
    resolvePath_components _ hne, addSegments_of_plain _ [], List.nil_append, List.map_map]
  · have hcoded : segments.map (encodeSegment ∘ component) = segments.map component :=
      List.map_congr_left fun segment _ => encodeSegment_component segment
    rw [hcoded]
  · intro piece hpiece
    rcases List.mem_map.mp hpiece with ⟨segment, hmem, rfl⟩
    exact Bool.eq_false_iff.mpr fun hdots => hplain segment hmem (isDots_component.mp hdots)

theorem visible_of_mem_coded {segments : List (List Char)} {query : Option (List Char)}
    (hne : segments ≠ [])
    (hquery : ∀ chars, query = some chars → ∀ c ∈ chars, isQueryChar c = true) {c : Char}
    (h : c ∈ pathText (segments.map component) ++ queryBehind query) : 0x20 < c.toNat := by
  have hmap : segments.map component ≠ [] := by
    simpa only [ne_eq, List.map_eq_nil_iff] using hne
  rw [pathText_eq_joinWith hmap] at h
  rcases List.mem_append.mp h with h | h
  · rcases List.mem_cons.mp h with rfl | h
    · decide
    · exact (visible_of_mem_components h).1
  · cases query with
    | none => exact absurd h List.not_mem_nil
    | some chars =>
        rcases List.mem_cons.mp h with rfl | h
        · decide
        · exact (kept_of_isQueryChar .other (hquery chars rfl c h)).1

/-- Coded segments that are not of dots are read behind a host as they were written, and
    so is a coded query, if the first segment is not empty. -/
theorem parse_coded {text whole : String} (horigin : IsOrigin text) {first : List Char}
    {rest : List (List Char)} {query : Option (List Char)} (hfirst : first ≠ [])
    (hplain : ∀ segment ∈ first :: rest, ¬ (segment = ['.'] ∨ segment = ['.', '.']))
    (hquery : ∀ chars, query = some chars → ∀ c ∈ chars, isQueryChar c = true)
    (hwhole : whole.toList = text.toList ++
      (pathText ((first :: rest).map component) ++ queryBehind query)) :
    ∃ url, parse text = .ok url ∧ url.host.isSome ∧ parse whole = .ok { url with
      segments := (first :: rest).map component
      query := query.map String.ofList } := by
  rcases horigin with ⟨scheme, authority, url, htext, hscheme, hauthority, hparse, hhost⟩
  have hcut := fun kind => cutPath_coded kind (List.cons_ne_nil first rest) hplain hquery
  have hvisible := fun c => @visible_of_mem_coded _ _ (List.cons_ne_nil first rest) hquery c
  -- What stands behind the origin is a path without blanks at its end, so the text is read
  -- as a whole.
  have htail : OpensPath (pathText ((first :: rest).map component) ++ queryBehind query) :=
    opensPath_slash _
  generalize pathText ((first :: rest).map component) ++ queryBehind query = tail at *
  rw [htext, bareText_append] at hwhole
  have hbare := significant_of_bareText htext hscheme fun c hc => (hauthority c hc).1
  have hbehind := significant_of_bareText hwhole hscheme fun c hc =>
    (List.mem_append.mp hc).elim (fun hc => (hauthority c hc).1) (hvisible c)
  refine ⟨url, hparse, hhost, ?_⟩
  rw [parse_behind hscheme hauthority htail hbare hbehind hparse hhost
    (fun kind => congrArg Prod.fst (hcut kind)) (component_ne_nil hfirst)
    (isDrive_component first), hcut]
  rfl

end Behind

end Url

end BatchRun
