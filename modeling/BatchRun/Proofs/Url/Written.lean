import BatchRun.Proofs.Url.Host
import BatchRun.Proofs.Url.Kept

/-!
# URLs Written and Read

What comes before the path of a URL, read again.

A URL that was read has a scheme in small letters and, if any, a host that stands
for itself. These two can be written before any path, and then they are read as they
were. Only the URL of a file may lose its host, to a path that begins with a drive.

## Main definitions

* `Url.IsBase`: A scheme and a host that were read.
* `Url.behind`: The URL of a path behind a scheme and a host.

## Theorems

* `Url.isBase_of_parse`: The scheme and the host of a URL.
* `Url.parse_written`: A path behind a scheme and a host.
-/

namespace BatchRun

namespace Url

/-- A scheme and a host as they are in a URL that was read. -/
structure IsBase (scheme : String) (host : UrlHost) : Prop where
  named : IsScheme scheme.toList
  lower : scheme.toList.map Char.toLower = scheme.toList
  written : host.IsWritten (.ofText scheme)
  file : SchemeKind.ofText scheme = .file →
    isDrive host.text.toList = false ∧ host ≠ .name "localhost"

/-- The URL of a path behind a scheme and a host. That of a file has no host if its
    path begins with a drive, and no empty segments at the front. -/
def behind (scheme : String) (host : UrlHost) (tail : List Char) : Url :=
  let found := cutPath (.ofText scheme) tail
  { scheme
    host := if SchemeKind.ofText scheme = .file ∧ (found.1.head?.map isDrive).getD false = true
      then none else some host
    port := none
    segments := if SchemeKind.ofText scheme = .file then withoutEmpty found.1 else found.1
    query := found.2 }

section Reading

variable {scheme : String} {host : UrlHost}

theorem eq_file_of_ofText (h : SchemeKind.ofText scheme = .file) : scheme = "file" := by
  unfold SchemeKind.ofText at h
  split at h
  · exact absurd h (by simp only [reduceCtorEq, not_false_eq_true])
  · split at h
    · exact absurd h (by simp only [reduceCtorEq, not_false_eq_true])
    · split at h
      · exact absurd h (by simp only [reduceCtorEq, not_false_eq_true])
      · split at h
        · next hfile => exact hfile
        · exact absurd h (by simp only [reduceCtorEq, not_false_eq_true])

theorem ascii_of_isSchemeChar {c : Char} (h : isSchemeChar c = true) : c.toNat < 0x80 := by
  simp only [isSchemeChar, Bool.or_eq_true, beq_iff_eq] at h
  rcases h with ((halnum | rfl) | rfl) | rfl
  · exact toNat_of_isAlphanum halnum
  all_goals decide

theorem toLower_schemeChar {c : Char} (h : isSchemeChar c = true) :
    isSchemeChar c.toLower = true ∧ c.toLower.toLower = c.toLower ∧
      (c.isAlpha = true → c.toLower.isAlpha = true) := by
  have hascii := ascii_of_isSchemeChar h
  revert h
  exact forall_ascii c hascii (by decide +kernel)

/-- The scheme that is cut off is a scheme in small letters. -/
theorem isScheme_of_cutScheme {text rest : List Char} (h : cutScheme text = some (scheme, rest)) :
    IsScheme scheme.toList ∧ scheme.toList.map Char.toLower = scheme.toList := by
  cases text with
  | nil => exact absurd h (by simp only [cutScheme, reduceCtorEq, not_false_eq_true])
  | cons first more =>
      simp only [cutScheme] at h
      split at h
      · next halpha =>
        split at h
        · simp only [Option.some.injEq, Prod.mk.injEq] at h
          have hfirst : isSchemeChar first = true := by
            rw [isSchemeChar, Char.isAlphanum, halpha, Bool.true_or, Bool.true_or, Bool.true_or,
              Bool.true_or]
          have hchars : ∀ c ∈ (first :: more).takeWhile isSchemeChar, isSchemeChar c = true :=
            fun c hc => List.all_eq_true.mp List.all_takeWhile c hc
          rw [← h.1, String.toList_ofList]
          refine ⟨⟨⟨first.toLower, ?_, (toLower_schemeChar hfirst).2.2 halpha⟩, ?_⟩, ?_⟩
          · rw [List.takeWhile_cons, if_pos hfirst]
            rfl
          · intro c hc
            rcases List.mem_map.mp hc with ⟨d, hd, rfl⟩
            exact (toLower_schemeChar (hchars d hd)).1
          · rw [List.map_map]
            exact List.map_congr_left fun c hc => (toLower_schemeChar (hchars c hc)).2.1
        · exact absurd h (by simp only [reduceCtorEq, not_false_eq_true])
      · exact absurd h (by simp only [reduceCtorEq, not_false_eq_true])

/-- The host that is cut off was read as one. -/
theorem read_of_cutHost {kind : SchemeKind} {text rest : List Char} {port : Option Nat}
    (h : cutHost kind text = .ok (host, port, rest)) :
    ∃ chars, UrlHost.read kind chars = .ok host := by
  rcases eq_ok_of_bind h with ⟨found, hfound, h⟩
  have hsame : found = host := by
    simp only at h
    split at h
    · split at h
      · exact absurd h (by simp only [reduceCtorEq, not_false_eq_true])
      · rcases eq_ok_of_map h with ⟨⟨_, _⟩, _, heq⟩
        exact (Prod.mk.inj heq).1
    · exact (Prod.mk.inj (Except.ok.inj h)).1
  rw [hsame] at hfound
  refine ⟨hostChars kind false text, ?_⟩
  cases kind with
  | other => exact hfound
  | web port =>
      simp only at hfound
      split at hfound
      · exact absurd hfound (by simp only [reduceCtorEq, not_false_eq_true])
      · exact hfound
  | file =>
      simp only at hfound
      split at hfound
      · exact absurd hfound (by simp only [reduceCtorEq, not_false_eq_true])
      · exact hfound

/-- The host of a URL that was read behind two slashes. -/
theorem read_of_parseAuthority {kind : SchemeKind} {text : List Char} {url : Url}
    (h : parseAuthority scheme kind text = .ok url) (hhost : url.host = some host) :
    host ≠ .name "" ∧ ∃ chars, UrlHost.read kind chars = .ok host := by
  rcases eq_ok_of_bind h with ⟨⟨named, rest⟩, _, h⟩
  rcases eq_ok_of_bind h with ⟨⟨found, port, behind⟩, hcut, h⟩
  simp only at h
  split at h
  · split at h
    · exact absurd h (by simp only [reduceCtorEq, not_false_eq_true])
    · rw [← Except.ok.inj h] at hhost
      exact absurd hhost (by simp only [reduceCtorEq, not_false_eq_true])
  · next hname =>
    rw [← Except.ok.inj h, Option.some.injEq] at hhost
    rw [← hhost]
    exact ⟨fun hempty => hname (beq_iff_eq.mpr hempty), read_of_cutHost hcut⟩

/-- The host of a file is one of the web, but not the machine itself. -/
theorem read_of_parseFile {text : List Char} {url : Url} (h : parseFile text = .ok url)
    (hhost : url.host = some host) : url.scheme = "file" ∧ host ≠ .name "localhost" ∧
      ∃ chars, UrlHost.read .file chars = .ok host := by
  rcases eq_ok_of_map h with ⟨⟨found, rest⟩, hfound, hurl⟩
  have hsome : found = some host := by
    rw [← hurl] at hhost
    simp only at hhost
    split at hhost
    · exact absurd hhost (by simp only [reduceCtorEq, not_false_eq_true])
    · exact hhost
  refine ⟨by rw [← hurl], ?_⟩
  rw [hsome] at hfound
  have hcut : ∀ text, cutFileHost text = .ok (some host, rest) → host ≠ .name "localhost" ∧
      ∃ chars, UrlHost.read .file chars = .ok host := by
    intro text hcut
    simp only [cutFileHost] at hcut
    split at hcut
    · exact absurd (Prod.mk.inj (Except.ok.inj hcut)).1 (by simp only [reduceCtorEq,
        not_false_eq_true])
    · rcases eq_ok_of_map hcut with ⟨named, hnamed, heq⟩
      have hhost := (Prod.mk.inj heq).1
      split at hhost
      · exact absurd hhost (by simp only [reduceCtorEq, not_false_eq_true])
      · next hlocal =>
        rw [← Option.some.inj hhost]
        exact ⟨fun heq => hlocal (beq_iff_eq.mpr heq), _, hnamed⟩
  split at hfound
  · split at hfound
    · exact hcut _ hfound
    · exact absurd (Prod.mk.inj (Except.ok.inj hfound)).1 (by simp only [reduceCtorEq,
        not_false_eq_true])
  · exact absurd (Prod.mk.inj (Except.ok.inj hfound)).1 (by simp only [reduceCtorEq,
      not_false_eq_true])

/-- The scheme and the host of a URL that was read. -/
theorem isBase_of_parse {text : String} {url : Url} (h : parse text = .ok url)
    (hhost : url.host = some host) : IsBase url.scheme host := by
  unfold parse at h
  split at h
  · exact absurd h (by simp only [reduceCtorEq, not_false_eq_true])
  · next scheme rest hcut =>
    rcases isScheme_of_cutScheme hcut with ⟨hnamed, hlower⟩
    split at h
    · next hkind =>
      rcases read_of_parseFile h hhost with ⟨hfile, hlocal, chars, hread⟩
      have hnot : SchemeKind.file ≠ .other := by
        simp only [ne_eq, reduceCtorEq, not_false_eq_true]
      rcases UrlHost.isWritten_of_readDomain hread hnot with ⟨hwritten, hdrive⟩
      rw [eq_file_of_ofText hkind] at hnamed hlower
      rw [hfile]
      exact ⟨hnamed, hlower, hwritten, fun _ => ⟨hdrive, hlocal⟩⟩
    · next port hkind =>
      rcases read_of_parseAuthority h hhost with ⟨_, chars, hread⟩
      rw [scheme_of_parseAuthority h]
      refine ⟨hnamed, hlower, ?_, ?_⟩
      · rw [hkind]
        exact (UrlHost.isWritten_of_readDomain hread (by simp only [ne_eq, reduceCtorEq,
          not_false_eq_true])).1
      · intro hfile
        rw [hkind] at hfile
        exact absurd hfile (by simp only [reduceCtorEq, not_false_eq_true])
    · next hkind =>
      split at h
      · rcases read_of_parseAuthority h hhost with ⟨hname, chars, hread⟩
        rw [scheme_of_parseAuthority h]
        refine ⟨hnamed, hlower, ?_, ?_⟩
        · rw [hkind]
          exact UrlHost.isWritten_of_readName hread hname
        · intro hfile
          rw [hkind] at hfile
          exact absurd hfile (by simp only [reduceCtorEq, not_false_eq_true])
      · simp only at h
        rw [← Except.ok.inj h] at hhost
        exact absurd hhost (by simp only [reduceCtorEq, not_false_eq_true])

theorem IsBase.authority (h : IsBase scheme host) : IsAuthority host.text.toList :=
  (UrlHost.isAuthority_of_isHostChar h.written.chars).1

/-- Nothing of a written host is taken for a user. -/
theorem cutUser_written {kind : SchemeKind} {tail : List Char} (h : host.IsWritten kind)
    (htail : OpensPath tail) :
    cutUser kind (host.text.toList ++ tail) = .ok (false, host.text.toList ++ tail) := by
  rcases UrlHost.isAuthority_of_isHostChar h.chars with ⟨hauthority, huser⟩
  have hcut : Text.cutAtLast '@' host.text.toList = none := by
    cases hcut : Text.cutAtLast '@' host.text.toList with
    | none => rfl
    | some cut =>
        rcases cut with ⟨before, after⟩
        refine absurd ?_ huser
        rw [(Text.eq_of_cutAtLast hcut).1]
        exact List.mem_append_right _ List.mem_cons_self
  rw [cutUser, takeWhile_authority kind hauthority htail, hcut]

/-- A written host is cut off as the same host. -/
theorem cutHost_written {kind : SchemeKind} {tail : List Char} (h : host.IsWritten kind)
    (htail : OpensPath tail) :
    cutHost kind (host.text.toList ++ tail) = .ok (host, none, tail) := by
  have hempty : host.text.toList.isEmpty = false := List.isEmpty_eq_false_iff.mpr h.ne_nil
  simp only [cutHost, hostChars_append htail, h.whole, List.drop_left]
  refine (bind_of_eq_ok (a := host) ?_ _).trans ?_
  · cases kind with
    | other => exact h.reads
    | web port =>
        simp only [hempty]
        exact h.reads
    | file =>
        simp only [hempty]
        exact h.reads
  · cases tail with
    | nil => rfl
    | cons c more =>
        rw [htail c rfl]
        rfl

theorem ne_empty_of_isWritten {kind : SchemeKind} (h : host.IsWritten kind) :
    (host == .name "") = false := by
  rw [beq_eq_false_iff_ne]
  rintro rfl
  exact h.ne_nil rfl

theorem parseAuthority_written {kind : SchemeKind} {tail : List Char} (h : host.IsWritten kind)
    (htail : OpensPath tail) :
    parseAuthority scheme kind (host.text.toList ++ tail) =
      .ok ⟨scheme, some host, none, (cutPath kind tail).1, (cutPath kind tail).2⟩ := by
  rw [parseAuthority, cutUser_written h htail]
  simp only [Except.bind]
  rw [cutHost_written h htail]
  simp only [ne_empty_of_isWritten h, Bool.false_eq_true, if_false]

/-- A path behind a scheme and a host is read as the URL of the path. -/
theorem parse_written (h : IsBase scheme host) {text : String} {tail : List Char}
    (htail : OpensPath tail)
    (htext : significant text = bareText scheme.toList (host.text.toList ++ tail)) :
    parse text = .ok (behind scheme host tail) := by
  rw [parse_bareText h.named htext, h.lower, String.ofList_toList, behind]
  have hwritten := h.written
  cases hkind : SchemeKind.ofText scheme with
  | file =>
      rw [hkind] at hwritten
      -- A host that is neither a drive nor the machine itself is not dropped.
      rcases h.file hkind with ⟨hdrive, hlocal⟩
      have hempty : host.text.toList.isEmpty = false :=
        List.isEmpty_eq_false_iff.mpr hwritten.ne_nil
      have hread : UrlHost.readDomain host.text.toList = .ok host := hwritten.reads
      have hcut : cutFileHost (host.text.toList ++ tail) = .ok (some host, tail) := by
        simp only [cutFileHost, takeWhile_authority .file h.authority htail,
          hempty, hdrive, Bool.or_self,
          Bool.false_eq_true, if_false, hread, Except.map, beq_eq_false_iff_ne.mpr hlocal,
          List.drop_left]
      simp only [parseFile, beq_self_eq_true, Bool.true_or, Bool.and_self, if_true, hcut,
        Except.map, eq_file_of_ofText hkind, true_and]
      rfl
  | web port =>
      rw [hkind] at hwritten
      simp only [dropSlashes_authority h.authority hwritten.ne_nil tail,
        parseAuthority_written hwritten htail, reduceCtorEq, false_and, if_false]
  | other =>
      rw [hkind] at hwritten
      simp only [parseAuthority_written hwritten htail, reduceCtorEq, false_and, if_false]

/-- What a scheme makes of a path. -/
def pathRules (scheme : String) : PathRules :=
  ⟨(SchemeKind.ofText scheme).backslash, SchemeKind.ofText scheme == .file⟩

theorem segments_behind (scheme : String) (host : UrlHost) (text : List Char) :
    (behind scheme host ('/' :: text)).segments =
      if SchemeKind.ofText scheme = .file then
        withoutEmpty (resolvePath (pathRules scheme) (pathOf text))
      else resolvePath (pathRules scheme) (pathOf text) := rfl

theorem host_behind (scheme : String) (host : UrlHost) (text : List Char) :
    (behind scheme host ('/' :: text)).host =
      if SchemeKind.ofText scheme = .file ∧
        ((resolvePath (pathRules scheme) (pathOf text)).head?.map isDrive).getD false = true
      then none else some host := rfl

/-- No more is said behind a host than was written, and if as much is said then nothing
    was dropped. -/
theorem saidLength_segments_behind (scheme : String) (host : UrlHost) (text : List Char) :
    saidLength (behind scheme host ('/' :: text)).segments ≤
        saidLength (resolvePath (pathRules scheme) (pathOf text)) ∧
      (saidLength (resolvePath (pathRules scheme) (pathOf text)) ≤
          saidLength (behind scheme host ('/' :: text)).segments →
        (behind scheme host ('/' :: text)).segments =
          resolvePath (pathRules scheme) (pathOf text)) := by
  rw [segments_behind]
  split
  · exact saidLength_withoutEmpty_le (resolvePath_ne_nil _ _)
  · exact ⟨Nat.le_refl _, fun _ => rfl⟩

/-- A kept path has a host before it unless it is the path of a file that begins with a
    drive. -/
theorem host_behind_iff {path : List Char} (hpath : pathOf path = path)
    (hkept : IsKept (pathRules scheme) path) :
    (behind scheme host ('/' :: path)).host = some host ↔
      (SchemeKind.ofText scheme = .file → ∀ segment,
        (pieces (pathRules scheme) path).head? = some segment → isDrive segment = false) := by
  rw [host_behind, hpath, resolvePath_of_isKept hkept, List.head?_map]
  cases hpieces : pieces (pathRules scheme) path with
  | nil => exact absurd hpieces (pieces_ne_nil _ _)
  | cons first rest =>
      have hdrive := isDrive_encodeSegment (hkept first (hpieces ▸ List.mem_cons_self)).2
      simp only [List.head?_cons, Option.map_some, Option.getD_some, hdrive, Option.some.injEq,
        forall_eq']
      by_cases hfile : SchemeKind.ofText scheme = .file
      · cases hfirst : isDrive first with
        | true => simp only [hfile, true_and, if_true, reduceCtorEq, Bool.true_eq_false, imp_false,
            not_true_eq_false]
        | false => simp only [hfile, Bool.false_eq_true, and_false, if_false, implies_true]
      · simp only [hfile, false_and, if_false, false_implies]

end Reading

end Url

end BatchRun
