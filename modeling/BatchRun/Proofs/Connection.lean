import BatchRun.Connection
import BatchRun.Proofs.Text.Lines

/-!
# Expanded Connections

What becomes of the placeholders in the fields of a connection.

A field is read once, from left to right. Where a placeholder begins, it is replaced
and the reading goes on behind it; otherwise one character is copied. Where a
placeholder ends follows from where it begins, because its name goes on to the next
closing brace. So the places of all placeholders are settled by the text alone, before
anything is looked up, and nothing that is put in can be taken for one.

The same comes out if the leftmost placeholder is looked for in the whole text, then
the leftmost one behind it and so on. What is skipped in such a search is what the
reading copies.

## Main definitions

* `Connection.Field`: A field of a connection.
* `Connection.Opens`: A text that begins with a placeholder.
* `Connection.Part`: What is taken off a text at once.
* `Connection.Scan`: One reading from left to right.
* `Connection.Replaces`: One replacement after the other, the leftmost first.

## Theorems

* `Connection.expandChars_placeholder`, `Connection.expandChars_copied`: One turn.
* `Connection.exists_scan`, `Connection.Scan.unique`: There is one reading.
* `Connection.Scan.expandChars_eq`: What the expansion shows of it.
* `Connection.replaces_iff`: The same by leftmost replacement.
* `Connection.expand_by_scan`: All of it, for every field.
-/

namespace BatchRun

namespace Connection

/-- A field of a connection. -/
inductive Field where
  | accessKey
  | secretKey
  | sessionToken
  | applicationId
  | executionRole
  | region
  | workspace
  deriving DecidableEq, Repr

/-- What a connection has in a field. -/
def Field.of : Field → Connection → String
  | accessKey, connection => connection.accessKey
  | secretKey, connection => connection.secretKey
  | sessionToken, connection => connection.sessionToken
  | applicationId, connection => connection.applicationId
  | executionRole, connection => connection.executionRole
  | region, connection => connection.region
  | workspace, connection => connection.workspace

/-- A name that a placeholder may have. -/
def IsName (name : List Char) : Prop := name ≠ [] ∧ '\x7d' ∉ name

/-- A name as a placeholder. -/
def placeholder (name : List Char) : List Char := '$' :: '\x7b' :: (name ++ ['\x7d'])

/-- A text that begins with a placeholder. -/
def Opens (text : List Char) : Prop :=
  ∃ name rest, IsName name ∧ text = placeholder name ++ rest

/-- What is put in for a name. -/
def valueOf (lookup : String → Option String) (name : List Char) : List Char :=
  ((lookup (String.ofList name)).getD "").toList

/-- What is taken off a text at once. -/
inductive Part where
  | copied (c : Char)
  | placeholder (name : List Char)
  deriving DecidableEq, Repr

variable {lookup : String → Option String} {text name rest : List Char} {parts : List Part}

/-- A part as it stands in the text. -/
def Part.written : Part → List Char
  | copied c => [c]
  | placeholder name => Connection.placeholder name

/-- A part as it is shown. -/
def Part.shown (lookup : String → Option String) : Part → List Char
  | copied c => [c]
  | placeholder name => valueOf lookup name

/-- One reading from left to right: a placeholder is taken as a whole wherever one
    begins, and one character is copied elsewhere. -/
inductive Scan : List Char → List Part → Prop
  | done : Scan [] []
  | placeholder {name rest : List Char} {more : List Part} (hname : IsName name)
      (hrest : Scan rest more) : Scan (placeholder name ++ rest) (.placeholder name :: more)
  | copied {c : Char} {rest : List Char} {more : List Part} (hnot : ¬ Opens (c :: rest))
      (hrest : Scan rest more) : Scan (c :: rest) (.copied c :: more)

/-- One replacement after the other: of the leftmost placeholder, then of the leftmost
    one behind it, until there is none. -/
inductive Replaces (lookup : String → Option String) : List Char → List Char → Prop
  | done {text : List Char} (hnone : ∀ front back, text = front ++ back → ¬ Opens back) :
      Replaces lookup text text
  | found {before name rest out : List Char} (hname : IsName name)
      (hfirst : ∀ front back, before = front ++ back → back ≠ [] →
        ¬ Opens (back ++ (placeholder name ++ rest)))
      (hrest : Replaces lookup rest out) :
      Replaces lookup (before ++ (placeholder name ++ rest))
        (before ++ (valueOf lookup name ++ out))

theorem not_opens_nil : ¬ Opens [] := by
  rintro ⟨name, rest, _, h⟩
  exact absurd h (by simp only [placeholder, List.cons_append, reduceCtorEq, not_false_eq_true])

/-- The name of a placeholder goes on to the next closing brace. -/
theorem cutAtFirst_of_isName (h : IsName name) (rest : List Char) :
    Text.cutAtFirst '\x7d' (name ++ '\x7d' :: rest) = some (name, rest) :=
  Text.cutAtFirst_append_cons h.2 rest

/-- Where a placeholder ends follows from where it begins. -/
theorem placeholder_append_inj {other behind : List Char} (hname : IsName name)
    (hother : IsName other) (h : placeholder name ++ rest = placeholder other ++ behind) :
    name = other ∧ rest = behind := by
  simp only [placeholder, List.cons_append, List.append_assoc, List.nil_append,
    List.cons.injEq, true_and] at h
  have hcut := cutAtFirst_of_isName hname rest
  rw [h, cutAtFirst_of_isName hother, Option.some.injEq, Prod.mk.injEq] at hcut
  exact ⟨hcut.1.symm, hcut.2.symm⟩

theorem expandChars_placeholder (hname : IsName name) (rest : List Char) :
    expandChars lookup (placeholder name ++ rest) =
      valueOf lookup name ++ expandChars lookup rest := by
  have hcut := cutAtFirst_of_isName hname rest
  simp only [placeholder, List.cons_append, List.append_assoc, List.nil_append]
  rw [expandChars, if_pos ⟨rfl, rfl⟩]
  -- The name that is cut off is the one that was put in.
  split
  · next found after hfound =>
    rw [hcut, Option.some.injEq, Prod.mk.injEq] at hfound
    rcases hfound with ⟨rfl, rfl⟩
    rw [if_neg (mt List.isEmpty_iff.mp hname.1)]
    rfl
  · next hnone =>
    rw [hcut] at hnone
    exact absurd hnone (by simp only [reduceCtorEq, not_false_eq_true])

theorem expandChars_copied {c : Char} (hnot : ¬ Opens (c :: rest)) :
    expandChars lookup (c :: rest) = c :: expandChars lookup rest := by
  cases rest with
  | nil => rw [expandChars, expandChars]
  | cons d tail =>
      rw [expandChars]
      split
      · next hfront =>
        split
        · next found after hfound =>
          -- With a name before the brace the text would begin with a placeholder.
          by_cases hempty : found = []
          · rw [hempty, List.isEmpty_nil, if_pos rfl]
          · refine absurd ⟨found, after, ⟨hempty, Text.not_mem_of_cutAtFirst hfound⟩, ?_⟩ hnot
            rw [hfront.1, hfront.2, Text.eq_of_cutAtFirst hfound]
            simp only [placeholder, List.cons_append, List.append_assoc, List.nil_append]
        · rfl
      · rfl

/-- Every text can be read. -/
theorem exists_scan (text : List Char) : ∃ parts, Scan text parts := by
  -- The induction is on the length, since a placeholder is taken as a whole.
  induction hlength : text.length using Nat.strongRecOn generalizing text with
  | _ length ih =>
    by_cases hopens : Opens text
    · rcases hopens with ⟨name, rest, hname, rfl⟩
      have hshorter : rest.length < length := by
        rw [← hlength, placeholder, List.cons_append, List.length_cons, List.length_append]
        omega
      rcases ih rest.length hshorter rest rfl with ⟨more, hmore⟩
      exact ⟨_, .placeholder hname hmore⟩
    · cases text with
      | nil => exact ⟨[], .done⟩
      | cons c rest =>
          rw [List.length_cons] at hlength
          rcases ih rest.length (by omega) rest rfl with ⟨more, hmore⟩
          exact ⟨_, .copied hopens hmore⟩

/-- There is one way only to read a text. -/
theorem Scan.unique (h : Scan text parts) : ∀ other, Scan text other → other = parts := by
  -- Whether a placeholder begins decides how either reading goes on, and its name is given
  -- by where it ends.
  induction h with
  | done =>
      intro other hother
      generalize htext : [] = text at hother
      cases hother with
      | done => rfl
      | placeholder hname hrest => exact absurd ⟨_, _, hname, htext⟩ not_opens_nil
      | copied hnot hrest => exact absurd htext (List.cons_ne_nil _ _).symm
  | @placeholder name rest more hname hrest ih =>
      intro other hother
      generalize htext : Connection.placeholder name ++ rest = text at hother
      cases hother with
      | done => exact absurd ⟨_, _, hname, htext.symm⟩ not_opens_nil
      | placeholder hother hbehind =>
          rcases placeholder_append_inj hname hother htext with ⟨rfl, rfl⟩
          rw [ih _ hbehind]
      | copied hnot hbehind => exact absurd ⟨_, _, hname, htext.symm⟩ hnot
  | @copied c rest more hnot hrest ih =>
      intro other hother
      generalize htext : c :: rest = text at hother
      cases hother with
      | done => exact absurd htext (List.cons_ne_nil _ _)
      | placeholder hname hbehind => exact absurd ⟨_, _, hname, htext⟩ hnot
      | copied hother hbehind =>
          rw [List.cons.injEq] at htext
          rcases htext with ⟨rfl, rfl⟩
          rw [ih _ hbehind]

/-- The parts are the text, part by part. -/
theorem Scan.flatMap_written (h : Scan text parts) : parts.flatMap Part.written = text := by
  induction h with
  | done => rfl
  | placeholder hname hrest ih => rw [List.flatMap_cons, ih, Part.written]
  | copied hnot hrest ih =>
      rw [List.flatMap_cons, ih, Part.written]
      rfl

/-- The expansion shows each part by itself. -/
theorem Scan.expandChars_eq (h : Scan text parts) (lookup : String → Option String) :
    expandChars lookup text = parts.flatMap (Part.shown lookup) := by
  induction h with
  | done => rw [expandChars, List.flatMap_nil]
  | placeholder hname hrest ih =>
      rw [expandChars_placeholder hname, ih, List.flatMap_cons, Part.shown]
  | copied hnot hrest ih =>
      rw [expandChars_copied hnot, ih, List.flatMap_cons, Part.shown]
      rfl

/-- A character in front at which no placeholder begins is skipped by the search. -/
theorem Replaces.cons {c : Char} {out : List Char} (hnot : ¬ Opens (c :: rest))
    (h : Replaces lookup rest out) : Replaces lookup (c :: rest) (c :: out) := by
  -- A placeholder begins at the new character, which is excluded, or behind it.
  cases h with
  | done hnone =>
      refine .done fun front back htext => ?_
      cases front with
      | nil =>
          rw [List.nil_append] at htext
          rwa [← htext]
      | cons d front => exact hnone front back (List.cons.inj htext).2
  | @found before name rest out hname hfirst hrest =>
      refine @Replaces.found lookup (c :: before) name rest out hname
        (fun front back hbefore hne => ?_) hrest
      cases front with
      | nil =>
          rw [List.nil_append] at hbefore
          rwa [← hbefore]
      | cons d front => exact hfirst front back (List.cons.inj hbefore).2 hne

/-- The reading replaces the leftmost placeholders one after the other. -/
theorem Scan.replaces (h : Scan text parts) (lookup : String → Option String) :
    Replaces lookup text (parts.flatMap (Part.shown lookup)) := by
  induction h with
  | done =>
      refine .done fun front back htext => ?_
      rw [(List.append_eq_nil_iff.mp htext.symm).2]
      exact not_opens_nil
  | @placeholder name rest more hname hrest ih =>
      refine @Replaces.found lookup [] name rest _ hname (fun front back hbefore hne => ?_) ih
      exact absurd (List.append_eq_nil_iff.mp hbefore.symm).2 hne
  | copied hnot hrest ih => exact .cons hnot ih

/-- Where no placeholder begins, the text is copied. -/
theorem expandChars_append {before : List Char}
    (hnone : ∀ front back, before = front ++ back → back ≠ [] → ¬ Opens (back ++ rest)) :
    expandChars lookup (before ++ rest) = before ++ expandChars lookup rest := by
  induction before with
  | nil => rfl
  | cons c tail ih =>
      have hfront := hnone [] (c :: tail) rfl (List.cons_ne_nil _ _)
      rw [List.cons_append] at hfront ⊢
      rw [expandChars_copied hfront, ih fun front back htail hne => ?_, List.cons_append]
      exact hnone (c :: front) back (by rw [htail, List.cons_append]) hne

/-- Replacing the leftmost placeholders one after the other is the expansion. -/
theorem replaces_iff {out : List Char} :
    Replaces lookup text out ↔ out = expandChars lookup text := by
  constructor
  · intro h
    induction h with
    | @done text hnone =>
        -- Without a placeholder all of the text is copied.
        have hcopied := @expandChars_append lookup [] text fun front back htext hne => by
          rw [List.append_nil]
          exact hnone front back htext
        rw [List.append_nil, expandChars, List.append_nil] at hcopied
        exact hcopied.symm
    | found hname hfirst hrest ih =>
        rw [expandChars_append hfirst, expandChars_placeholder hname, ih]
  · -- The expansion replaces what the reading from left to right has found.
    rintro rfl
    rcases exists_scan text with ⟨parts, hscan⟩
    rw [hscan.expandChars_eq]
    exact hscan.replaces lookup

/-- Each field is expanded by itself. -/
theorem of_expand (field : Field) (lookup : String → Option String) (connection : Connection) :
    field.of (connection.expand lookup) = expandText lookup (field.of connection) := by
  cases field <;> rfl

/-- What the expansion makes of a field. The trimmed text of the field is read in one
    way from left to right, and its parts are settled before anything is looked up.
    Whatever the other fields hold and whatever a lookup gives, the field is expanded
    to the parts with every placeholder replaced and all else as it was, which is also
    what replacing the leftmost placeholders one after the other gives. -/
theorem expand_by_scan (connection : Connection) (field : Field) :
    ∃ parts, (∀ other, Scan (Text.trim (field.of connection)).toList other ↔ other = parts) ∧
      parts.flatMap Part.written = (Text.trim (field.of connection)).toList ∧
      ∀ lookup sibling, field.of sibling = field.of connection →
        (field.of (sibling.expand lookup)).toList = parts.flatMap (Part.shown lookup) ∧
        ∀ out, Replaces lookup (Text.trim (field.of connection)).toList out ↔
          out = (field.of (sibling.expand lookup)).toList := by
  rcases exists_scan (Text.trim (field.of connection)).toList with ⟨parts, hscan⟩
  refine ⟨parts, fun other => ⟨hscan.unique other, fun h => h ▸ hscan⟩, hscan.flatMap_written, ?_⟩
  intro lookup sibling hsame
  have hshown : (field.of (sibling.expand lookup)).toList =
      expandChars lookup (Text.trim (field.of connection)).toList := by
    rw [of_expand, hsame, expandText, String.toList_ofList]
  rw [hshown]
  exact ⟨hscan.expandChars_eq lookup, fun out => replaces_iff⟩

/-- What is put in for a placeholder is kept though it looks like one, a name goes on
    to the first brace, and what is no placeholder stays. -/
theorem expand_by_scan_nested :
    let connection : Connection :=
      ⟨"", "", "", "", "", "", " s3://$\x7bBUCKET\x7d/$\x7b\x7d$$\x7bA$\x7bB\x7d$\x7bopen "⟩
    let lookup : String → Option String := fun name =>
      if name = "BUCKET" then some "$\x7bBUCKET\x7d" else none
    ∃ parts, Scan (Text.trim connection.workspace).toList parts ∧
      (connection.expand lookup).workspace.toList = parts.flatMap (Part.shown lookup) ∧
      (connection.expand lookup).workspace = "s3://$\x7bBUCKET\x7d/$\x7b\x7d$$\x7bopen" := by
  intro connection lookup
  rcases expand_by_scan connection .workspace with ⟨parts, hscan, _, hshown⟩
  exact ⟨parts, (hscan parts).mpr rfl, (hshown lookup connection rfl).1, by decide +kernel⟩

end Connection

end BatchRun
