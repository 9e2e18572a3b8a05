import BatchRun.Proofs.Json.Text
import BatchRun.Proofs.ObjectUri
import BatchRun.Proofs.Text.Trim
import BatchRun.Proofs.Url.Written

/-!
# Reading What Is Shown of a URI

When the text of a URI is read as the same URI.

A URI is shown with its key as it is, nothing coded, and the text is read as a URL.
The scheme and the bucket are read as they were, because they have been read before.
The key need not be: its end may be trimmed, some of its characters are dropped or
end the path, its percent codes are read, and its segments of dots are resolved. Each
of these makes the key shorter, counted in bytes, and nothing makes it longer. So the
URI is read back exactly if none of them has anything to do.

## Main definitions

* `ObjectUri.seen`: What is seen of a key at the end of a text.
* `ObjectUri.IsPlain`: A key that stands for itself.
* `ObjectUri.toJson`, `ObjectUri.ofJson?`: A URI in a JSON text.

## Theorems

* `ObjectUri.parse_text_eq`: What the text of a URI is read as.
* `ObjectUri.isPlain_of_read`, `ObjectUri.read_of_isPlain`: What is read is the URI
  exactly if its key is plain.
* `ObjectUri.reads_text_iff`: The same for a URI that was read, as a text and in JSON.
-/

namespace BatchRun

namespace ObjectUri

/-- What is seen of a key at the end of a text: without blanks and controls at its
    end, and without tabs and line breaks anywhere. -/
def seen (key : List Char) : List Char :=
  (Text.dropEnd (fun c => decide (c.toNat ≤ 0x20)) (Text.dropEnd Text.isBlank key)).filter
    fun c => c != '\t' && c != '\n' && c != '\r'

theorem seen_sublist (key : List Char) : List.Sublist (seen key) key :=
  List.filter_sublist.trans ((Text.dropEnd_sublist _).trans (Text.dropEnd_sublist _))

/-- All of a key is seen exactly if there is nothing at its end to be trimmed, and
    nothing anywhere to be dropped. -/
theorem seen_eq_self_iff {key : List Char} :
    seen key = key ↔ (∀ c, key.getLast? = some c → Text.isBlank c = false ∧ 0x20 < c.toNat) ∧
      ∀ c ∈ key, c ≠ '\t' ∧ c ≠ '\n' ∧ c ≠ '\r' := by
  constructor
  · intro h
    have hall : List.Sublist key
        (Text.dropEnd (fun c => decide (c.toNat ≤ 0x20)) (Text.dropEnd Text.isBlank key)) := by
      rw [seen] at h
      conv_lhs => rw [← h]
      exact List.filter_sublist
    -- Each step leaves all of the key, since the last one does.
    have hblank : Text.dropEnd Text.isBlank key = key :=
      (Text.dropEnd_sublist _).eq_of_length_le (hall.trans (Text.dropEnd_sublist _)).length_le
    have hcontrol : Text.dropEnd (fun c => decide (c.toNat ≤ 0x20)) key = key := by
      rw [hblank] at hall
      exact (Text.dropEnd_sublist _).eq_of_length_le hall.length_le
    rw [seen, hblank, hcontrol, List.filter_eq_self] at h
    refine ⟨fun c hc => ⟨Text.dropEnd_eq_self_iff.mp hblank c hc, ?_⟩, fun c hc => ?_⟩
    · have hstays := Text.dropEnd_eq_self_iff.mp hcontrol c hc
      rw [decide_eq_false_iff_not] at hstays
      exact Nat.lt_of_not_le hstays
    · have hkept := h c hc
      rw [Bool.and_eq_true, Bool.and_eq_true, bne_iff_ne, bne_iff_ne, bne_iff_ne] at hkept
      exact ⟨hkept.1.1, hkept.1.2, hkept.2⟩
  · rintro ⟨hending, hbreaks⟩
    have hblank : Text.dropEnd Text.isBlank key = key :=
      Text.dropEnd_eq_self_iff.mpr fun c hc => (hending c hc).1
    have hcontrol : Text.dropEnd (fun c => decide (c.toNat ≤ 0x20)) key = key :=
      Text.dropEnd_eq_self_iff.mpr fun c hc =>
        decide_eq_false (Nat.not_le.mpr (hending c hc).2)
    rw [seen, hblank, hcontrol, List.filter_eq_self]
    intro c hc
    rw [bne_iff_ne.mpr (hbreaks c hc).1, bne_iff_ne.mpr (hbreaks c hc).2.1,
      bne_iff_ne.mpr (hbreaks c hc).2.2]
    rfl

/-- What a URL says about an object. -/
def ofUrl (url : Url) : Except Fault ObjectUri :=
  match url.host with
  | none => .error .missingBucket
  | some host =>
    match Utf8.strict (Percent.decode (Utf8.encode url.path)) with
    | .error fault => .error (.encoding fault)
    | .ok key => .ok (make url.scheme host.text key)

theorem parse_of_url {text : String} {url : Url} (h : Url.parse (Text.trim text) = .ok url) :
    parse text = ofUrl url := by
  rw [parse, h]
  rfl

/-- A URI that was read has the scheme and the host of a URL. -/
theorem isBase_of_parse {raw : String} {uri : ObjectUri} (h : parse raw = .ok uri) :
    ∃ host : UrlHost, uri.bucket = host.text ∧ Url.IsBase uri.scheme host ∧ uri.Normal := by
  unfold parse at h
  split at h
  · exact absurd h (by simp only [reduceCtorEq, not_false_eq_true])
  · next url hurl =>
    split at h
    · exact absurd h (by simp only [reduceCtorEq, not_false_eq_true])
    · next host hhost =>
      split at h
      · exact absurd h (by simp only [reduceCtorEq, not_false_eq_true])
      · next key hkey =>
        rw [← Except.ok.inj h]
        exact ⟨host, rfl, Url.isBase_of_parse hurl hhost, normal_make _ _ _⟩

section Base

variable {uri : ObjectUri} {host : UrlHost}

/-- What separates the bucket from the key: nothing, if there is no key. -/
def slash (key : List Char) : List Char := if key = [] then [] else ['/']

theorem toList_text (hbucket : uri.bucket = host.text) :
    uri.text.toList =
      Url.bareText uri.scheme.toList (host.text.toList ++ slash uri.key.toList) ++
        uri.key.toList := by
  have hmarks : ("://" : String).toList = [':', '/', '/'] := rfl
  have hempty : uri.key.isEmpty = true ↔ uri.key.toList = [] := by
    rw [String.isEmpty_iff, String.toList_eq_nil_iff]
  unfold text
  split
  · next hnone =>
    rw [slash, if_pos (hempty.mp hnone), hempty.mp hnone, List.append_nil, List.append_nil,
      String.toList_append, String.toList_append, hmarks, hbucket, Url.bareText, List.append_assoc]
    rfl
  · next hsome =>
    have hone : ("/" : String).toList = ['/'] := rfl
    rw [slash, if_neg fun hnil => hsome (hempty.mpr hnil), String.toList_append,
      String.toList_append, String.toList_append, String.toList_append, hmarks, hone, hbucket,
      Url.bareText]
    simp only [List.append_assoc, List.cons_append, List.nil_append]

/-- No character before the key is a blank or a control. -/
theorem solid_of_mem_bareText (hbase : Url.IsBase uri.scheme host) {c : Char}
    (h : c ∈ Url.bareText uri.scheme.toList (host.text.toList ++ slash uri.key.toList)) :
    Text.isBlank c = false ∧ 0x20 < c.toNat := by
  have hrange : 0x20 < c.toNat ∧ c.toNat < 0x80 := by
    simp only [Url.bareText, List.mem_append, List.mem_cons] at h
    rcases h with h | rfl | rfl | rfl | h | h
    · have hscheme := hbase.named.2 c h
      exact ⟨Url.toNat_of_isSchemeChar hscheme, Url.ascii_of_isSchemeChar hscheme⟩
    · decide
    · decide
    · decide
    · have hchar := hbase.written.chars c h
      simp only [UrlHost.isHostChar, Bool.and_eq_true, decide_eq_true_eq] at hchar
      exact hchar.1.1.1.1.1
    · unfold slash at h
      split at h
      · exact absurd h List.not_mem_nil
      · rw [List.mem_singleton.mp h]
        decide
  exact ⟨Text.isBlank_of_visible hrange, hrange.1⟩

/-- What the text of a URI is read as. -/
theorem parse_text_eq (hbucket : uri.bucket = host.text) (hbase : Url.IsBase uri.scheme host) :
    parse uri.text = ofUrl (Url.behind uri.scheme host
      (slash uri.key.toList ++ seen uri.key.toList)) := by
  have hne : Url.bareText uri.scheme.toList (host.text.toList ++ slash uri.key.toList) ≠ [] :=
    List.append_ne_nil_of_right_ne_nil _ (List.cons_ne_nil _ _)
  have hsolid := fun c => solid_of_mem_bareText hbase (c := c)
  have hcounts : ∀ c ∈ Url.bareText uri.scheme.toList (host.text.toList ++ slash uri.key.toList),
      (c != '\t' && c != '\n' && c != '\r') = true := fun c hc =>
    Url.counts_of_lt (hsolid c hc).2
  have hseen : Url.significant (Text.trim uri.text) = Url.bareText uri.scheme.toList
      (host.text.toList ++ (slash uri.key.toList ++ seen uri.key.toList)) := by
    rw [Url.significant, Text.trim, String.toList_ofList, toList_text hbucket,
      Text.trimWhere_append hne fun c hc => (hsolid c hc).1,
      Text.trimWhere_append hne fun c hc => decide_eq_false (Nat.not_le.mpr (hsolid c hc).2),
      List.filter_append, ← seen, List.filter_eq_self.mpr hcounts]
    simp only [Url.bareText, List.append_assoc, List.cons_append]
  refine parse_of_url (Url.parse_written hbase ?_ hseen)
  unfold slash
  split
  · next hnone =>
    rw [hnone]
    exact Url.opensPath_nil
  · exact Url.opensPath_slash _

/-- When a URL of this scheme and host says the URI. -/
theorem ofUrl_eq_ok_iff (url : Url) (hbucket : uri.bucket = host.text)
    (hscheme : url.scheme = uri.scheme) (hhost : ∀ other, url.host = some other → other = host) :
    ofUrl url = .ok uri ↔ url.host = some host ∧
      ∃ key, Utf8.encodeChars key = Url.said (Url.pathText url.segments) ∧
        trimSlashes key = uri.key.toList := by
  have hpath : Percent.decode (Utf8.encode url.path) = Url.said (Url.pathText url.segments) := by
    rw [Url.said, Url.path, Utf8.encode, String.toList_ofList]
  unfold ofUrl
  rw [hpath]
  split
  · next hnone =>
    rw [hnone]
    exact ⟨fun h => absurd h (by simp only [reduceCtorEq, not_false_eq_true]), fun h => absurd h.1
      (by simp only [reduceCtorEq, not_false_eq_true])⟩
  · next other hsome =>
    rw [hsome, hhost other hsome]
    constructor
    · intro h
      split at h
      · exact absurd h (by simp only [reduceCtorEq, not_false_eq_true])
      · next key hkey =>
        refine ⟨rfl, key.toList, (Utf8.strict_eq_ok_iff.mp hkey).symm, ?_⟩
        rw [← Except.ok.inj h, make, String.toList_ofList]
    · rintro ⟨_, key, hkey, htrim⟩
      have hread : Utf8.strict (Url.said (Url.pathText url.segments)) =
          .ok (String.ofList key) := by
        rw [Utf8.strict_eq_ok_iff, Utf8.encode, String.toList_ofList, hkey]
      rw [hread]
      simp only [make, String.toList_ofList, htrim, String.ofList_toList, hscheme, ← hbucket]

/-- What a path says begins with a slash, and the rest is one byte shorter. -/
theorem exists_cons_of_said {segments : List (List Char)} (hne : segments ≠ [])
    {text : List Char} (h : Utf8.encodeChars text = Url.said (Url.pathText segments)) :
    ∃ rest, text = '/' :: rest ∧
      (Utf8.encodeChars rest).length + 1 = Url.saidLength segments := by
  have hlength := congrArg List.length h
  rw [Url.length_said_pathText] at hlength
  cases segments with
  | nil => exact absurd rfl hne
  | cons segment segments =>
      rw [Url.said_pathText, List.flatMap_cons, List.cons_append] at h
      cases text with
      | nil => exact absurd h.symm (List.cons_ne_nil _ _)
      | cons c rest =>
          have hc : c = '/' := by
            have hmem : 0x2F ∈ Utf8.encodeChars [c] := by
              rw [Utf8.encodeChars_cons] at h ⊢
              cases hbytes : String.utf8EncodeChar c with
              | nil => exact absurd hbytes String.utf8EncodeChar_ne_nil
              | cons b more =>
                  rw [hbytes] at h
                  rw [(List.cons.inj h).1]
                  exact List.mem_append_left _ List.mem_cons_self
            exact (List.mem_singleton.mp
              (Percent.mem_of_ascii_mem_encodeChars hmem (by decide))).symm
          refine ⟨rest, by rw [hc], ?_⟩
          rw [← hlength, hc, Url.encodeChars_slash, List.length_cons]

theorem trimSlashes_cons (text : List Char) : trimSlashes ('/' :: text) = trimSlashes text := rfl

theorem trimSlashes_sublist (text : List Char) : List.Sublist (trimSlashes text) text := by
  rw [trimSlashes, Text.trimWhere, ← Text.dropEnd]
  exact (Text.dropEnd_sublist _).trans (List.dropWhile_sublist _)

/-- A URI with a key that stands for itself: nothing of it ends the path of a URL or is
    trimmed or dropped, it has no percent code and no segment of dots, and nothing of it
    has a meaning in a URL of its scheme. -/
structure IsPlain (uri : ObjectUri) : Prop where
  marks : ∀ c ∈ uri.key.toList, c ≠ '?' ∧ c ≠ '#'
  breaks : ∀ c ∈ uri.key.toList, c ≠ '\t' ∧ c ≠ '\n' ∧ c ≠ '\r'
  ending : ∀ c, uri.key.toList.getLast? = some c → Text.isBlank c = false ∧ 0x20 < c.toNat
  codes : Percent.decode (Utf8.encode uri.key) = Utf8.encode uri.key
  dots : ¬ uri.IsDotted
  slashes : (Url.SchemeKind.ofText uri.scheme).backslash = true → '\\' ∉ uri.key.toList
  drive : Url.SchemeKind.ofText uri.scheme = .file → ∀ segment,
    (Text.splitOn '/' uri.key.toList).head? = some segment → Url.isDrive segment = false

/-- What is written with a slash before each segment says the same if every segment
    does. -/
theorem said_eq_of_segments {segments : List (List Char)} (hne : segments ≠ [])
    (h : ∀ segment ∈ segments, Url.said segment = Utf8.encodeChars segment) :
    Url.said (Text.joinWith ['/'] segments) = Utf8.encodeChars (Text.joinWith ['/'] segments) := by
  have hpath : Url.said (Url.pathText segments) = Utf8.encodeChars (Url.pathText segments) := by
    rw [Url.said_pathText, Url.encodeChars_pathText, List.flatMap, List.flatMap]
    exact congrArg _ (List.map_congr_left fun segment hmem => by rw [h segment hmem])
  rw [Url.pathText_eq_joinWith hne, Url.encodeChars_slash] at hpath
  exact (List.cons.inj ((Url.said_append_slash [] _).symm.trans hpath)).2

/-- If a key comes back from what is shown of it, then nothing has been lost: all of it
    is shown, its path is kept, and only slashes separate the segments. -/
theorem kept_of_said {rules : Url.PathRules} {key shown text : List Char}
    {segments : List (List Char)} (hkey : key ≠ []) (hshown : List.Sublist shown key)
    (hle : Url.saidLength segments ≤ Url.saidLength (Url.resolvePath rules shown))
    (hsame : Url.saidLength (Url.resolvePath rules shown) ≤ Url.saidLength segments →
      segments = Url.resolvePath rules shown)
    (hsaid : Utf8.encodeChars text = Url.said (Url.pathText segments))
    (htrim : trimSlashes text = key) :
    shown = key ∧ Url.IsKept rules key ∧ segments = Url.resolvePath rules key ∧
      key = Text.joinWith ['/'] (Url.pieces rules key) := by
  have hne : segments ≠ [] := by
    rintro rfl
    have hnone : text = [] := Utf8.encodeChars_injective hsaid
    rw [hnone] at htrim
    exact hkey htrim.symm
  rcases exists_cons_of_said hne hsaid with ⟨rest, rfl, hrest⟩
  rw [trimSlashes_cons] at htrim
  have hinner : List.Sublist key rest := htrim ▸ trimSlashes_sublist rest
  have hinnerle := Utf8.length_encodeChars_le hinner
  have hshownle := Utf8.length_encodeChars_le hshown
  have hpath := Url.saidLength_resolvePath_le rules shown
  -- Each of these lengths is at most the next, and the last is the first.
  have hwhole : shown = key := Utf8.eq_of_length_encodeChars hshown (by omega)
  have hback : key = rest := Utf8.eq_of_length_encodeChars hinner (by omega)
  subst hwhole
  have hkept : Url.IsKept rules shown := Url.isKept_of_saidLength (by omega)
  have hsegments := hsame (by omega)
  refine ⟨rfl, hkept, hsegments, ?_⟩
  rw [hsegments, Url.resolvePath_of_isKept hkept, Url.said_pathText_of_isKept hkept, ← hback]
    at hsaid
  exact (List.cons.inj (Utf8.encodeChars_injective hsaid)).2

/-- If the text of a URI with a key is read as the URI, its key is plain. -/
theorem isPlain_of_read (hkey : uri.key.toList ≠ [])
    (hhost : (Url.behind uri.scheme host ('/' :: seen uri.key.toList)).host = some host)
    {text : List Char} (hsaid : Utf8.encodeChars text =
      Url.said (Url.pathText (Url.behind uri.scheme host ('/' :: seen uri.key.toList)).segments))
    (htrim : trimSlashes text = uri.key.toList) : uri.IsPlain := by
  have hlengths := Url.saidLength_segments_behind uri.scheme host (seen uri.key.toList)
  have hpath : List.Sublist (Url.pathOf (seen uri.key.toList)) (seen uri.key.toList) :=
    List.takeWhile_sublist _
  rcases kept_of_said hkey (hpath.trans (seen_sublist _)) hlengths.1 hlengths.2 hsaid htrim with
    ⟨hwhole, hkept, hsegments, hjoin⟩
  have hlength := hpath.length_le
  rw [hwhole] at hlength
  have hseen : seen uri.key.toList = uri.key.toList :=
    (seen_sublist _).eq_of_length_le hlength
  rw [hseen] at hwhole hhost
  have hmarks := Url.pathOf_eq_self_iff.mp hwhole
  rcases seen_eq_self_iff.mp hseen with ⟨hending, hbreaks⟩
  -- A backslash that separates would have come back as a slash.
  have hslashes : (Url.SchemeKind.ofText uri.scheme).backslash = true → '\\' ∉ uri.key.toList := by
    intro hback hmem
    rw [hjoin] at hmem
    rcases Text.mem_of_mem_joinWith hmem with heq | ⟨piece, hpiece, hin⟩
    · exact absurd heq (by decide)
    · have hno := (Text.mem_of_mem_splitWhere hpiece hin).2
      rw [Url.pathRules, hback, Bool.true_and, beq_self_eq_true, Bool.or_true] at hno
      exact absurd hno (by decide)
  have hpieces : Url.pieces (Url.pathRules uri.scheme) uri.key.toList =
      Text.splitOn '/' uri.key.toList := Url.pieces_eq_splitOn hslashes
  have hdrive := (Url.host_behind_iff hwhole hkept).mp hhost
  rw [Url.IsKept, hpieces] at hkept
  rw [hpieces] at hdrive
  refine ⟨hmarks, hbreaks, hending, ?_, ?_, hslashes, hdrive⟩
  · rw [Utf8.encode, ← Text.joinWith_splitOn '/' uri.key.toList]
    exact said_eq_of_segments (Text.splitWhere_ne_nil _ _)
      fun segment hmem => (hkept segment hmem).2
  · rintro (hone | htwo)
    · exact absurd (hkept _ hone).1 (by decide)
    · exact absurd (hkept _ htwo).1 (by decide)

/-- The first segment of a key is not empty. -/
theorem exists_cons_of_splitOn {key : List Char} (hne : key ≠ []) (hhead : key.head? ≠ some '/') :
    ∃ first rest, Text.splitOn '/' key = first :: rest ∧ first ≠ [] := by
  cases key with
  | nil => exact absurd rfl hne
  | cons c more =>
      rw [List.head?_cons, ne_eq, Option.some.injEq] at hhead
      rw [Text.splitOn]
      simp only [Text.splitWhere, hhead, decide_false, Bool.false_eq_true, if_false]
      split
      · exact ⟨_, _, rfl, List.cons_ne_nil _ _⟩
      · exact ⟨_, _, rfl, List.cons_ne_nil _ _⟩

/-- The text of a URI with a plain key is read as the URI. -/
theorem read_of_isPlain (host : UrlHost) (hkey : uri.key.toList ≠ []) (hnormal : uri.Normal)
    (hplain : uri.IsPlain) :
    (Url.behind uri.scheme host ('/' :: seen uri.key.toList)).host = some host ∧
      Utf8.encodeChars ('/' :: uri.key.toList) = Url.said (Url.pathText
        (Url.behind uri.scheme host ('/' :: seen uri.key.toList)).segments) := by
  have hseen := seen_eq_self_iff.mpr ⟨hplain.ending, hplain.breaks⟩
  have hpath := Url.pathOf_eq_self_iff.mpr hplain.marks
  have hpieces : Url.pieces (Url.pathRules uri.scheme) uri.key.toList =
      Text.splitOn '/' uri.key.toList := Url.pieces_eq_splitOn hplain.slashes
  have hkept : Url.IsKept (Url.pathRules uri.scheme) uri.key.toList :=
    Url.isKept_of_plain hplain.slashes hplain.codes (fun h => hplain.dots (.inl h))
      fun h => hplain.dots (.inr h)
  have hresolved := Url.resolvePath_of_isKept hkept
  rw [hseen]
  refine ⟨(Url.host_behind_iff hpath hkept).mpr (hpieces ▸ hplain.drive), ?_⟩
  have hsegments : (Url.behind uri.scheme host ('/' :: uri.key.toList)).segments =
      (Url.pieces (Url.pathRules uri.scheme) uri.key.toList).map Url.encodeSegment := by
    rw [Url.segments_behind, hpath, hresolved]
    split
    · -- No segment is dropped at the front, since the key begins with no slash.
      rcases exists_cons_of_splitOn hkey hnormal.1 with ⟨first, rest, hsplit, hfirst⟩
      rw [hpieces, hsplit, List.map_cons]
      exact Url.withoutEmpty_of_ne_nil (Url.encodeSegment_ne_nil hfirst) _
    · rfl
  rw [hsegments, Url.said_pathText_of_isKept hkept, hpieces, Text.joinWith_splitOn]

/-- There is nothing in an empty key that could not stand for itself. -/
theorem isPlain_of_key_nil (hkey : uri.key.toList = []) : uri.IsPlain := by
  have hempty : uri.key = "" := String.toList_eq_nil_iff.mp hkey
  constructor
  · rw [hkey]
    exact fun c hc => absurd hc List.not_mem_nil
  · rw [hkey]
    exact fun c hc => absurd hc List.not_mem_nil
  · rw [hkey]
    exact fun c hc => absurd hc (by simp only [List.getLast?_nil, reduceCtorEq,
      not_false_eq_true])
  · rw [hempty]
    rfl
  · rw [IsDotted, hkey]
    decide
  · rw [hkey]
    exact fun _ => List.not_mem_nil
  · rw [hkey]
    intro _ segment hsegment
    rw [← Option.some.inj hsegment]
    rfl

/-- A URI without a key is read back from its text. -/
theorem read_of_key_nil (hkey : uri.key.toList = []) :
    (Url.behind uri.scheme host []).host = some host ∧
      ∃ text, Utf8.encodeChars text =
          Url.said (Url.pathText (Url.behind uri.scheme host []).segments) ∧
        trimSlashes text = uri.key.toList := by
  rw [hkey, Url.behind]
  cases hkind : Url.SchemeKind.ofText uri.scheme with
  | file => exact ⟨rfl, ['/'], rfl, rfl⟩
  | web port => exact ⟨rfl, ['/'], rfl, rfl⟩
  | other => exact ⟨rfl, [], rfl, rfl⟩

/-- The text of a URI is read as the URI exactly if its key is plain. -/
theorem parse_text_eq_iff (hbucket : uri.bucket = host.text) (hbase : Url.IsBase uri.scheme host)
    (hnormal : uri.Normal) : parse uri.text = .ok uri ↔ uri.IsPlain := by
  rw [parse_text_eq hbucket hbase]
  generalize htail : slash uri.key.toList ++ seen uri.key.toList = tail
  rw [ofUrl_eq_ok_iff (Url.behind uri.scheme host tail) hbucket rfl ?_]
  · by_cases hkey : uri.key.toList = []
    · rw [hkey] at htail
      rw [← htail]
      exact ⟨fun _ => isPlain_of_key_nil hkey, fun _ => read_of_key_nil hkey⟩
    · rw [slash, if_neg hkey, List.singleton_append] at htail
      rw [← htail]
      constructor
      · rintro ⟨hhost, text, hsaid, htrim⟩
        exact isPlain_of_read hkey hhost hsaid htrim
      · intro hplain
        rcases read_of_isPlain host hkey hnormal hplain with ⟨hhost, hsaid⟩
        exact ⟨hhost, _, hsaid, (trimSlashes_cons _).trans (trimSlashes_of_endsClear hnormal)⟩
  · intro other hother
    simp only [Url.behind] at hother
    split at hother
    · exact absurd hother (by simp only [reduceCtorEq, not_false_eq_true])
    · exact (Option.some.inj hother).symm

end Base

/-- A URI as a JSON value. -/
def toJson (uri : ObjectUri) : Json := .ofText uri.text

/-- The URI that a JSON value stands for. -/
def ofJson? (value : Json) : Option ObjectUri :=
  value.text?.bind fun text => (parse text).toOption

/-- A URI that was read is read back from its text exactly if its key is plain, and
    from its JSON text exactly then. -/
theorem reads_text_iff {raw : String} {uri : ObjectUri} (h : parse raw = .ok uri) :
    (parse uri.text = .ok uri ↔ uri.IsPlain) ∧
      ((Json.read? (Json.write uri.toJson)).bind ofJson? = some uri ↔ uri.IsPlain) := by
  rcases isBase_of_parse h with ⟨host, hbucket, hbase, hnormal⟩
  have hiff := parse_text_eq_iff hbucket hbase hnormal
  refine ⟨hiff, ?_⟩
  rw [← hiff, toJson, Json.read?_write_ofText, Option.bind_some, ofJson?, Json.ofText, Json.text?,
    Option.bind_some]
  generalize parse uri.text = found
  cases found with
  | error fault => exact ⟨fun h => absurd h (by simp only [Except.toOption, reduceCtorEq,
      not_false_eq_true]), fun h => absurd h (by simp only [reduceCtorEq, not_false_eq_true])⟩
  | ok read => simp only [Except.toOption, Option.some.injEq, Except.ok.injEq]

/-- A space in the middle of a key does not keep a URI from being read back. -/
theorem reads_text_space :
    let uri : ObjectUri := ⟨"s3", "bucket", "my logs/run"⟩
    parse "s3://bucket/my%20logs/run" = .ok uri ∧ parse uri.text = .ok uri ∧
      (Json.read? (Json.write uri.toJson)).bind ofJson? = some uri := by
  intro uri
  have hread : parse "s3://bucket/my%20logs/run" = .ok uri := by rfl
  have hseen : seen uri.key.toList = uri.key.toList := by decide
  have hpath : Url.pathOf uri.key.toList = uri.key.toList := by decide
  rcases seen_eq_self_iff.mp hseen with ⟨hending, hbreaks⟩
  have hplain : uri.IsPlain := ⟨Url.pathOf_eq_self_iff.mp hpath, hbreaks, hending, by decide,
    by decide, by decide, by decide⟩
  have hiff := reads_text_iff hread
  exact ⟨hread, hiff.1.mpr hplain, hiff.2.mpr hplain⟩

/-- A key with a percent code, a question mark or a segment of dots is read back as
    another one. -/
theorem reads_text_coded :
    parse "s3://bucket/a%2520b" = .ok ⟨"s3", "bucket", "a%20b"⟩ ∧
      parse (text ⟨"s3", "bucket", "a%20b"⟩) = .ok ⟨"s3", "bucket", "a b"⟩ ∧
      parse "s3://bucket/a%3Fb" = .ok ⟨"s3", "bucket", "a?b"⟩ ∧
      parse (text ⟨"s3", "bucket", "a?b"⟩) = .ok ⟨"s3", "bucket", "a"⟩ ∧
      parse "s3://bucket/a%2F..%2Fb" = .ok ⟨"s3", "bucket", "a/../b"⟩ ∧
      parse (text ⟨"s3", "bucket", "a/../b"⟩) = .ok ⟨"s3", "bucket", "b"⟩ := by
  exact ⟨by rfl, by rfl, by rfl, by rfl, by rfl, by rfl⟩

end ObjectUri

end BatchRun
