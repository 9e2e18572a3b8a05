import BatchRun.Proofs.Text.Lines
import BatchRun.Proofs.Text.Trim
import BatchRun.Url.Basic

/-!
# Paths Behind Hosts

Reading a URL that has a path behind its host.

What stands before the first slash of a path is read as if the path were not
there: the user information, the host and the port end where the path begins. So a
URL that was read without a path is read with one as the same, apart from its
segments and its query.

## Main definitions

* `Url.IsScheme`, `Url.IsAuthority`: What may stand before the path.
* `Url.OpensPath`: A path, or nothing.
* `Url.bareText`: The text of a URL without a path.
* `Url.pathOf`: What of a text is the path.

## Theorems

* `Url.significant_of_forall`: A text of which every character counts.
* `Url.cutScheme_append`: The scheme of a text.
* `Url.cutHost_append`: The host before a path.
* `Url.parseAuthority_append`: A URL with a path behind its host.
* `Url.parse_append`: The same for a whole URL.
* `Url.cutPath_slash`: The segments of a path.
-/

namespace BatchRun

namespace Url

/-- A scheme, in small letters or capitals. -/
def IsScheme (text : List Char) : Prop :=
  (∃ first, text.head? = some first ∧ first.isAlpha = true) ∧ ∀ c ∈ text, isSchemeChar c = true

/-- A text that may name a user, a host and a port: every character of it counts,
    and none ends it. -/
def IsAuthority (text : List Char) : Prop :=
  ∀ c ∈ text, 0x20 < c.toNat ∧ c ≠ '/' ∧ c ≠ '\\' ∧ c ≠ '?' ∧ c ≠ '#'

instance (text : List Char) : Decidable (IsAuthority text) :=
  List.decidableBAll _ text

/-- A path, or nothing. -/
def OpensPath (text : List Char) : Prop := ∀ c, text.head? = some c → c = '/'

theorem opensPath_nil : OpensPath [] := by
  intro c h
  exact absurd h (by simp only [List.head?_nil, reduceCtorEq, not_false_eq_true])

theorem opensPath_slash (text : List Char) : OpensPath ('/' :: text) := by
  intro c h
  rw [List.head?_cons, Option.some.injEq] at h
  exact h.symm

section Steps

variable {ε α β : Type}

/-- If two steps succeed, the first did, and the second did from there. -/
theorem eq_ok_of_bind {first : Except ε α} {next : α → Except ε β} {b : β}
    (h : first.bind next = .ok b) : ∃ a, first = .ok a ∧ next a = .ok b := by
  cases first with
  | error e => exact absurd h (by simp only [Except.bind, reduceCtorEq, not_false_eq_true])
  | ok a => exact ⟨a, rfl, h⟩

theorem bind_of_eq_ok {first : Except ε α} {a : α} (h : first = .ok a)
    (next : α → Except ε β) : first.bind next = next a := by
  rw [h, Except.bind]

theorem eq_ok_of_map {first : Except ε α} {next : α → β} {b : β}
    (h : first.map next = .ok b) : ∃ a, first = .ok a ∧ next a = b := by
  cases first with
  | error e => exact absurd h (by simp only [Except.map, reduceCtorEq, not_false_eq_true])
  | ok a => exact ⟨a, rfl, Except.ok.inj h⟩

end Steps

section Cuts

variable {test : Char → Bool} {tail : List Char}

theorem takeWhile_append_of_head (htail : ∀ c, tail.head? = some c → test c = false)
    (text : List Char) : (text ++ tail).takeWhile test = text.takeWhile test := by
  induction text with
  | nil =>
      cases tail with
      | nil => rfl
      | cons c rest => rw [List.nil_append, List.takeWhile_cons, htail c rfl, if_neg
          Bool.false_ne_true, List.takeWhile_nil]
  | cons c rest ih => simp only [List.cons_append, List.takeWhile_cons, ih]

theorem dropWhile_append_of_head (htail : ∀ c, tail.head? = some c → test c = false)
    (text : List Char) : (text ++ tail).dropWhile test = text.dropWhile test ++ tail := by
  induction text with
  | nil =>
      cases tail with
      | nil => rfl
      | cons c rest => rw [List.nil_append, List.dropWhile_cons, htail c rfl, if_neg
          Bool.false_ne_true, List.dropWhile_nil, List.nil_append]
  | cons c rest ih =>
      simp only [List.cons_append, List.dropWhile_cons, ih]
      split
      · rfl
      · rfl

end Cuts

/-- A character that is more than a space is none of those that are dropped. -/
theorem counts_of_lt {c : Char} (h : 0x20 < c.toNat) :
    (c != '\t' && c != '\n' && c != '\r') = true := by
  have hne : ∀ d : Char, d.toNat ≤ 0x20 → (c != d) = true := by
    intro d hd
    rw [bne_iff_ne]
    rintro rfl
    omega
  rw [hne '\t' (by decide), hne '\n' (by decide), hne '\r' (by decide)]
  rfl

/-- A text of which every character is more than a space counts as it is. -/
theorem significant_of_forall {text : String} (h : ∀ c ∈ text.toList, 0x20 < c.toNat) :
    significant text = text.toList := by
  rw [significant, Text.trimWhere_of_forall fun c hc => decide_eq_false (Nat.not_le.mpr (h c hc)),
    List.filter_eq_self]
  exact fun c hc => counts_of_lt (h c hc)

/-- The scheme of a text, and what follows its colon. -/
theorem cutScheme_append {scheme : List Char} (h : IsScheme scheme) (rest : List Char) :
    cutScheme (scheme ++ ':' :: rest) =
      some (String.ofList (scheme.map Char.toLower), rest) := by
  rcases h with ⟨⟨first, hfirst, halpha⟩, hall⟩
  have hcolon : isSchemeChar ':' = false := by decide
  have hdrop : (scheme ++ ':' :: rest).dropWhile isSchemeChar = ':' :: rest := by
    rw [List.dropWhile_append_of_pos hall, List.dropWhile_cons, hcolon, if_neg Bool.false_ne_true]
  have htake : (scheme ++ ':' :: rest).takeWhile isSchemeChar = scheme := by
    rw [List.takeWhile_append_of_pos hall, List.takeWhile_cons, hcolon, if_neg Bool.false_ne_true,
      List.append_nil]
  cases scheme with
  | nil => exact absurd hfirst (by simp only [List.head?_nil, reduceCtorEq, not_false_eq_true])
  | cons c more =>
      rw [List.head?_cons, Option.some.injEq] at hfirst
      rw [List.cons_append] at hdrop htake ⊢
      rw [cutScheme, hfirst, if_pos halpha, ← hfirst, hdrop, htake]
      rfl

theorem endsAuthority_of_mem {kind : SchemeKind} {text : List Char} (h : IsAuthority text)
    {c : Char} (hc : c ∈ text) : endsAuthority kind c = false := by
  rcases h c hc with ⟨_, hslash, hback, hmark, hhash⟩
  simp only [endsAuthority, beq_eq_false_iff_ne.mpr hslash, beq_eq_false_iff_ne.mpr hback,
    beq_eq_false_iff_ne.mpr hmark, beq_eq_false_iff_ne.mpr hhash, Bool.and_false, Bool.or_self]

theorem endsAuthority_of_opensPath {kind : SchemeKind} {tail : List Char} (h : OpensPath tail)
    {c : Char} (hc : tail.head? = some c) : endsAuthority kind c = true := by
  rw [h c hc]
  rfl

theorem takeWhile_authority (kind : SchemeKind) {text tail : List Char} (h : IsAuthority text)
    (htail : OpensPath tail) :
    (text ++ tail).takeWhile (fun c => !endsAuthority kind c) = text := by
  rw [takeWhile_append_of_head fun c hc => by rw [endsAuthority_of_opensPath htail hc]; rfl,
    ← List.append_nil text, List.takeWhile_append_of_pos, List.takeWhile_nil]
  intro c hc
  rw [endsAuthority_of_mem h hc]
  rfl

/-- The name of a host ends where a path begins. -/
theorem hostChars_append {kind : SchemeKind} {text tail : List Char} (htail : OpensPath tail)
    (inside : Bool) : hostChars kind inside (text ++ tail) = hostChars kind inside text := by
  induction text generalizing inside with
  | nil =>
      cases tail with
      | nil => rfl
      | cons c rest =>
          simp only [List.nil_append, hostChars, endsAuthority_of_opensPath htail rfl, Bool.true_or,
            if_true]
  | cons c rest ih => simp only [List.cons_append, hostChars, ih]

/-- A text that may name a host is the name, or goes on with a colon behind it. -/
theorem hostChars_cases (kind : SchemeKind) {text : List Char} (h : IsAuthority text)
    (inside : Bool) : hostChars kind inside text = text ∨
      ∃ after, text = hostChars kind inside text ++ ':' :: after := by
  induction text generalizing inside with
  | nil => exact .inl rfl
  | cons c rest ih =>
      have hc : endsAuthority kind c = false := endsAuthority_of_mem h List.mem_cons_self
      have hrest : IsAuthority rest := fun d hd => h d (List.mem_cons_of_mem c hd)
      by_cases hcolon : (c == ':' && !inside) = true
      · right
        rw [hostChars, hc, hcolon, Bool.false_or, if_pos rfl]
        rw [Bool.and_eq_true, beq_iff_eq] at hcolon
        exact ⟨rest, by rw [hcolon.1, List.nil_append]⟩
      · rw [hostChars, hc, Bool.false_or, if_neg hcolon]
        rcases ih hrest (c == '[' || (inside && c != ']')) with hall | ⟨after, hsplit⟩
        · exact .inl (by rw [hall])
        · exact .inr ⟨after, by rw [List.cons_append, ← hsplit]⟩

/-- A port is read as if the path behind it were not there. -/
theorem cutPort_append {kind : SchemeKind} {text tail rest : List Char} {port : Option Nat}
    (h : IsAuthority text) (htail : OpensPath tail) (hcut : cutPort kind text = .ok (port, rest)) :
    rest = [] ∧ cutPort kind (text ++ tail) = .ok (port, tail) := by
  have hdigit : ∀ c, tail.head? = some c → c.isDigit = false := by
    intro c hc
    rw [htail c hc]
    decide
  simp only [cutPort] at hcut
  simp only [cutPort, takeWhile_append_of_head hdigit, dropWhile_append_of_head hdigit]
  split at hcut
  · exact absurd hcut (by simp only [reduceCtorEq, not_false_eq_true])
  · next hsmall =>
    rw [if_neg hsmall]
    cases hdropped : text.dropWhile Char.isDigit with
    | nil =>
        rw [hdropped] at hcut
        simp only [Except.ok.injEq, Prod.mk.injEq] at hcut
        refine ⟨hcut.2.symm, ?_⟩
        rw [hcut.1, List.nil_append]
        cases tail with
        | nil => rfl
        | cons c more =>
            rw [htail c rfl]
            rfl
    | cons c more =>
        -- What is left of the text begins with nothing that ends a port.
        rw [hdropped] at hcut
        have hmem : c ∈ text := (List.dropWhile_suffix _).mem (hdropped ▸ List.mem_cons_self)
        rcases h c hmem with ⟨_, hslash, hback, hmark, hhash⟩
        simp only [beq_eq_false_iff_ne.mpr hslash, beq_eq_false_iff_ne.mpr hback,
          beq_eq_false_iff_ne.mpr hmark, beq_eq_false_iff_ne.mpr hhash, Bool.or_self,
          Bool.false_eq_true, if_false, reduceCtorEq] at hcut

/-- A host is read as if the path behind it were not there. -/
theorem cutHost_append {kind : SchemeKind} {text tail rest : List Char} {host : UrlHost}
    {port : Option Nat} (h : IsAuthority text) (htail : OpensPath tail)
    (hcut : cutHost kind text = .ok (host, port, rest)) :
    rest = [] ∧ cutHost kind (text ++ tail) = .ok (host, port, tail) := by
  simp only [cutHost] at hcut
  simp only [cutHost, hostChars_append htail]
  rcases eq_ok_of_bind hcut with ⟨found, hfound, hcut⟩
  rw [hfound]
  have hcases := hostChars_cases kind h false
  generalize hostChars kind false text = chars at hcut hcases
  rcases hcases with rfl | ⟨after, rfl⟩
  · rw [List.drop_length] at hcut
    simp only [Except.ok.injEq, Prod.mk.injEq] at hcut
    simp only [Except.bind, List.drop_left]
    rw [hcut.1, hcut.2.1]
    refine ⟨hcut.2.2.symm, ?_⟩
    cases tail with
    | nil => rfl
    | cons c more =>
        rw [htail c rfl]
        rfl
  · have hafter : IsAuthority after := fun c hc =>
      h c (List.mem_append_right _ (List.mem_cons_of_mem _ hc))
    rw [List.drop_left] at hcut
    simp only [Except.bind, List.append_assoc, List.cons_append, List.drop_left] at hcut ⊢
    split at hcut
    · exact absurd hcut (by simp only [reduceCtorEq, not_false_eq_true])
    · next hnamed =>
      rcases eq_ok_of_map hcut with ⟨⟨port', rest'⟩, hport, heq⟩
      simp only [Prod.mk.injEq] at heq
      rcases cutPort_append hafter htail hport with ⟨hrest, hport⟩
      rw [if_neg hnamed, hport, ← heq.2.2, hrest, ← heq.1, ← heq.2.1]
      exact ⟨rfl, rfl⟩

/-- What stands behind the last at sign of an authority is left of it. -/
theorem cutUser_at (kind : SchemeKind) {user host tail : List Char}
    (h : IsAuthority (user ++ '@' :: host)) (hat : '@' ∉ host) (hhost : host ≠ [])
    (htail : OpensPath tail) :
    cutUser kind (user ++ '@' :: host ++ tail) =
      .ok (!user.isEmpty && user != [':'], host ++ tail) := by
  have hdrop : (user ++ '@' :: host ++ tail).drop (user.length + 1) = host ++ tail := by
    rw [List.append_assoc, List.cons_append, ← List.drop_drop, List.drop_left]
    rfl
  unfold cutUser
  rw [takeWhile_authority kind h htail, Text.cutAtLast_append_cons hat]
  simp only [hdrop]
  cases host with
  | nil => exact absurd rfl hhost
  | cons c more =>
      have hc : endsAuthority kind c = false :=
        endsAuthority_of_mem h (List.mem_append_right _ (List.mem_cons_of_mem _ List.mem_cons_self))
      cases user with
      | nil => simp only [List.cons_append, hc, Bool.false_eq_true, if_false, List.isEmpty_nil,
          Bool.not_true, Bool.false_and]
      | cons u us => rfl

/-- A user is read as if the path were not there. -/
theorem cutUser_append {kind : SchemeKind} {text tail rest : List Char} {named : Bool}
    (h : IsAuthority text) (htail : OpensPath tail) (hcut : cutUser kind text = .ok (named, rest))
    (hrest : rest ≠ []) :
    IsAuthority rest ∧ cutUser kind (text ++ tail) = .ok (named, rest ++ tail) := by
  have htext := takeWhile_authority kind h opensPath_nil
  rw [List.append_nil] at htext
  cases huser : Text.cutAtLast '@' text with
  | none =>
      rw [cutUser, htext, huser] at hcut
      simp only [Except.ok.injEq, Prod.mk.injEq] at hcut
      rw [cutUser, takeWhile_authority kind h htail, huser, ← hcut.1, ← hcut.2]
      exact ⟨h, rfl⟩
  | some cut =>
      rcases cut with ⟨user, host⟩
      rcases Text.eq_of_cutAtLast huser with ⟨rfl, hat⟩
      have hauthority : IsAuthority host := fun c hc =>
        h c (List.mem_append_right _ (List.mem_cons_of_mem _ hc))
      have hhost : host ≠ [] := by
        rintro rfl
        -- With nothing behind the user information there is no host to be read.
        have hdrop : (user ++ ['@']).drop (user.length + 1) = [] :=
          List.drop_eq_nil_of_le (Nat.le_of_eq (by rw [List.length_append, List.length_singleton]))
        rw [cutUser, htext, huser] at hcut
        simp only [hdrop] at hcut
        cases user with
        | nil => exact hrest (Prod.mk.inj (Except.ok.inj hcut)).2.symm
        | cons u us => exact hrest (Prod.mk.inj (Except.ok.inj hcut)).2.symm
      have hbare := cutUser_at kind h hat hhost opensPath_nil
      rw [List.append_nil, List.append_nil, hcut] at hbare
      simp only [Except.ok.injEq, Prod.mk.injEq] at hbare
      rw [hbare.1, hbare.2]
      exact ⟨hauthority, cutUser_at kind h hat hhost htail⟩

/-- Where there is nothing to name a host, there is none. -/
theorem cutHost_nil {kind : SchemeKind} {host : UrlHost} {port : Option Nat} {rest : List Char}
    (h : cutHost kind [] = .ok (host, port, rest)) : host = .name "" := by
  cases kind with
  | other => exact (Prod.mk.inj (Except.ok.inj h)).1.symm
  | web defaultPort => exact absurd h (by simp only [cutHost, hostChars, List.isEmpty_nil, if_true,
      Except.bind, reduceCtorEq, not_false_eq_true])
  | file => exact absurd h (by simp only [cutHost, hostChars, List.isEmpty_nil, if_true,
      Except.bind, reduceCtorEq, not_false_eq_true])

/-- A URL with a host becomes the same URL with the path that is behind its
    host. -/
theorem parseAuthority_append {scheme : String} {kind : SchemeKind} {text tail : List Char}
    {url : Url} (h : IsAuthority text) (htail : OpensPath tail)
    (hparse : parseAuthority scheme kind text = .ok url) (hhost : url.host.isSome) :
    parseAuthority scheme kind (text ++ tail) =
      .ok { url with segments := (cutPath kind tail).1, query := (cutPath kind tail).2 } := by
  rcases eq_ok_of_bind hparse with ⟨⟨named, rest⟩, huser, hparse⟩
  rcases eq_ok_of_bind hparse with ⟨⟨host, port, behind⟩, hcut, hparse⟩
  have hnamed : (host == .name "") = false := by
    by_cases hempty : (host == .name "") = true
    · simp only [hempty, if_true] at hparse
      split at hparse
      · exact absurd hparse (by simp only [reduceCtorEq, not_false_eq_true])
      · rw [← Except.ok.inj hparse] at hhost
        exact absurd hhost Bool.false_ne_true
    · exact Bool.eq_false_iff.mpr hempty
  simp only [hnamed, Bool.false_eq_true, if_false, Except.ok.injEq] at hparse
  have hrest : rest ≠ [] := by
    rintro rfl
    rw [cutHost_nil hcut] at hnamed
    exact absurd hnamed (by decide)
  rcases cutUser_append h htail huser hrest with ⟨hauthority, huser⟩
  rw [parseAuthority, huser]
  simp only [Except.bind]
  rw [(cutHost_append hauthority htail hcut).2]
  simp only [hnamed, Bool.false_eq_true, if_false, ← hparse]

theorem scheme_of_parseAuthority {scheme : String} {kind : SchemeKind} {text : List Char}
    {url : Url} (h : parseAuthority scheme kind text = .ok url) : url.scheme = scheme := by
  rcases eq_ok_of_bind h with ⟨⟨named, rest⟩, _, h⟩
  rcases eq_ok_of_bind h with ⟨⟨host, port, behind⟩, _, h⟩
  simp only at h
  split at h
  · split at h
    · exact absurd h (by simp only [reduceCtorEq, not_false_eq_true])
    · rw [← Except.ok.inj h]
  · rw [← Except.ok.inj h]

/-- The text of a URL without a path. -/
def bareText (scheme authority : List Char) : List Char :=
  scheme ++ ':' :: '/' :: '/' :: authority

theorem toNat_of_isSchemeChar {c : Char} (h : isSchemeChar c = true) : 0x20 < c.toNat := by
  have hsmall : ∀ n < 33, isSchemeChar (Char.ofNat n) = false := by decide
  refine Nat.lt_of_not_le fun hle => ?_
  have hno := hsmall c.toNat (Nat.lt_succ_of_le hle)
  rw [Char.ofNat_toNat, h] at hno
  exact absurd hno Bool.false_ne_true.symm

/-- Every character counts of a URL without a path. -/
theorem toNat_of_mem_bareText {scheme rest : List Char} (hscheme : IsScheme scheme)
    (hrest : ∀ c ∈ rest, 0x20 < c.toNat) {c : Char} (h : c ∈ bareText scheme rest) :
    0x20 < c.toNat := by
  simp only [bareText, List.mem_append, List.mem_cons] at h
  rcases h with h | rfl | rfl | rfl | h
  · exact toNat_of_isSchemeChar (hscheme.2 c h)
  · decide
  · decide
  · decide
  · exact hrest c h

/-- All of the text of a URL without a path counts. -/
theorem significant_of_bareText {text : String} {scheme rest : List Char}
    (htext : text.toList = bareText scheme rest) (hscheme : IsScheme scheme)
    (hrest : ∀ c ∈ rest, 0x20 < c.toNat) : significant text = bareText scheme rest := by
  rw [significant_of_forall, htext]
  rw [htext]
  exact fun c hc => toNat_of_mem_bareText hscheme hrest hc

/-- Behind the scheme and two slashes a URL is read by the kind of its scheme. -/
theorem parse_bareText {text : String} {scheme rest : List Char} (hscheme : IsScheme scheme)
    (htext : significant text = bareText scheme rest) :
    parse text =
      match SchemeKind.ofText (String.ofList (scheme.map Char.toLower)) with
      | .file => parseFile ('/' :: '/' :: rest)
      | .web port => parseAuthority (String.ofList (scheme.map Char.toLower)) (.web port)
          (rest.dropWhile fun c => c == '/' || c == '\\')
      | .other => parseAuthority (String.ofList (scheme.map Char.toLower)) .other rest := by
  rw [parse, htext, bareText, cutScheme_append hscheme]
  rfl

theorem dropSlashes_authority {text : List Char} (h : IsAuthority text) (hne : text ≠ [])
    (tail : List Char) :
    (text ++ tail).dropWhile (fun c => c == '/' || c == '\\') = text ++ tail := by
  cases text with
  | nil => exact absurd rfl hne
  | cons c rest =>
      rcases h c List.mem_cons_self with ⟨_, hslash, hback, _, _⟩
      rw [List.cons_append, List.dropWhile_cons, beq_eq_false_iff_ne.mpr hslash,
        beq_eq_false_iff_ne.mpr hback, if_neg (by decide)]

theorem parseAuthority_nil {scheme : String} {kind : SchemeKind} {url : Url}
    (h : parseAuthority scheme kind [] = .ok url) : url.host = none := by
  rcases eq_ok_of_bind h with ⟨⟨named, rest⟩, huser, h⟩
  rcases eq_ok_of_bind h with ⟨⟨host, port, behind⟩, hcut, h⟩
  have hrest : rest = [] := (Prod.mk.inj (Except.ok.inj huser)).2.symm
  rw [hrest] at hcut
  simp only [cutHost_nil hcut, beq_self_eq_true, if_true] at h
  split at h
  · exact absurd h (by simp only [reduceCtorEq, not_false_eq_true])
  · rw [← Except.ok.inj h]

/-- A URL with a host, of a scheme other than that of files, becomes the same URL
    with the path that is behind its host. -/
theorem parse_append {text whole : String} {scheme authority tail : List Char} {url : Url}
    (hscheme : IsScheme scheme) (h : IsAuthority authority) (htail : OpensPath tail)
    (htext : significant text = bareText scheme authority)
    (hwhole : significant whole = bareText scheme (authority ++ tail))
    (hparse : parse text = .ok url) (hhost : url.host.isSome)
    (hfile : SchemeKind.ofText url.scheme ≠ .file) :
    parse whole = .ok { url with
      segments := (cutPath (.ofText url.scheme) tail).1
      query := (cutPath (.ofText url.scheme) tail).2 } := by
  have hsome : ∀ {scheme : String} {kind : SchemeKind},
      parseAuthority scheme kind [] ≠ .ok url := by
    intro scheme kind hnil
    rw [parseAuthority_nil hnil] at hhost
    exact absurd hhost Bool.false_ne_true
  rw [parse_bareText hscheme htext] at hparse
  rw [parse_bareText hscheme hwhole]
  cases hkind : SchemeKind.ofText (String.ofList (scheme.map Char.toLower)) with
  | file =>
      rw [hkind] at hparse
      simp only at hparse
      rcases eq_ok_of_map hparse with ⟨_, _, hurl⟩
      rw [← hurl] at hfile
      exact absurd rfl hfile
  | web port =>
      rw [hkind] at hparse
      -- More slashes before a host would be dropped, but an authority begins with none.
      have hne : authority ≠ [] := by
        rintro rfl
        exact hsome hparse
      have hdrop := dropSlashes_authority h hne
      have hbare := hdrop []
      rw [List.append_nil] at hbare
      simp only [hbare] at hparse
      simp only [hdrop tail]
      rw [parseAuthority_append h htail hparse hhost, scheme_of_parseAuthority hparse, hkind]
  | other =>
      rw [hkind] at hparse
      simp only at hparse
      simp only
      rw [parseAuthority_append h htail hparse hhost, scheme_of_parseAuthority hparse, hkind]

/-- What of a text is the path: what stands before a query and a fragment. -/
def pathOf (text : List Char) : List Char := text.takeWhile fun c => c != '?' && c != '#'

/-- A path in which no query and no fragment begins. -/
theorem pathOf_eq_self_iff {text : List Char} :
    pathOf text = text ↔ ∀ c ∈ text, c ≠ '?' ∧ c ≠ '#' := by
  have hkept : ∀ c : Char, (c != '?' && c != '#') = true ↔ c ≠ '?' ∧ c ≠ '#' := by
    intro c
    rw [Bool.and_eq_true, bne_iff_ne, bne_iff_ne]
  constructor
  · intro h c hc
    rw [← h] at hc
    exact (hkept c).mp (List.all_eq_true.mp List.all_takeWhile c hc)
  · intro h
    rw [pathOf, ← List.append_nil text, List.takeWhile_append_of_pos fun c hc =>
      (hkept c).mpr (h c hc), List.takeWhile_nil]

/-- Behind a slash a path without a query and a fragment is resolved as it is. -/
theorem cutPath_slash (kind : SchemeKind) {path : List Char}
    (h : ∀ c ∈ path, c ≠ '?' ∧ c ≠ '#') :
    cutPath kind ('/' :: path) = (resolvePath ⟨kind.backslash, kind == .file⟩ path, none) := by
  have htake : ('/' :: path).takeWhile (fun c => c != '?' && c != '#') = '/' :: path := by
    rw [List.takeWhile_cons, if_pos (by decide), ← pathOf, pathOf_eq_self_iff.mpr h]
  simp only [cutPath, htake, List.drop_length, beq_self_eq_true, Bool.true_or, if_true]

end Url

end BatchRun
