import BatchRun.Proofs.Xml.Spelling
import BatchRun.Xml.Reader

/-!
# Documents as They Are Written

XML documents with all the freedom their writer has, and the nodes they stand for.

A document is markup, and markup is a tag without content, or two tags with texts and
markup in turn between them. A text may be empty; then nothing is written and there is
no node. So no two texts stand beside each other. Names have no colon here. An
attribute may declare the namespace of everything around it, and its value as well as
a text may be spelled in any way.

## Main definitions

* `Xml.Passage`, `Xml.Attribute`, `Xml.StartTag`: What markup is made of.
* `Xml.Markup`, `Xml.Content`: An element, and what stands inside it.
* `Xml.Markup.written`, `Xml.Markup.node`: An element as a text and as a node.
* `Xml.Document`, `Xml.Document.text`: A whole document.

## Theorems

* `Xml.Document.isVerbatim_of_mem`, `Xml.normalLines_of_isVerbatim`: No character of a
  document is changed before it is read.
-/

namespace BatchRun

namespace Xml

/-- The characters that are no text: those that begin markup or a reference, and the one
    that reads as the end of a line. -/
def marksText (c : Char) : Bool := c == '<' || c == '&' || c == '\r'

/-- The characters that are no value: those that are no text, and the one that ends it. -/
def marksValue (c : Char) : Bool := marksText c || c == '"'

/-- A text between two tags. A section that is read as it stands must not seem to end in
    it. -/
structure Passage where
  content : List Char
  written : List Char
  spells : Spells marksText content written
  unended : Text.occursIn [']', ']', '>'] written = false

/-- The text as nodes: none, if it is empty. -/
def Passage.nodes (passage : Passage) : List Node :=
  if passage.content = [] then [] else [.text (String.ofList passage.content)]

/-- An attribute with a name that has no colon. If it declares a namespace, it is not one of
    the two that no document may declare so. -/
structure Attribute where
  name : List Char
  value : List Char
  quoted : List Char
  plain : isPlainName name = true
  spells : Spells marksValue value quoted
  mayDeclare : mayDeclare ⟨none, name⟩ value = true

/-- The attribute behind what stands before it in its tag. -/
def Attribute.written (item : Attribute) : List Char :=
  ' ' :: (item.name ++ '=' :: '"' :: (item.quoted ++ ['"']))

/-- The tag that an element begins with. -/
structure StartTag where
  name : List Char
  attributes : List Attribute
  plain : isPlainName name = true
  distinct : (attributes.map Attribute.name).Nodup

/-- What stands between the brackets of a tag. -/
def StartTag.inside (tag : StartTag) : List Char :=
  tag.name ++ tag.attributes.flatMap Attribute.written

mutual

/-- An element: one with content, which may be an empty text, or one with a single tag. -/
inductive Markup where
  | element (tag : StartTag) (content : Content)
  | empty (tag : StartTag)

/-- What stands between the tags of an element. -/
inductive Content where
  | last (passage : Passage)
  | more (passage : Passage) (first : Markup) (rest : Content)

end

mutual

/-- An element as it is written. -/
def Markup.written : Markup → List Char
  | .element tag content =>
    '<' :: (tag.inside ++ '>' :: (content.written ++ '<' :: '/' :: (tag.name ++ ['>'])))
  | .empty tag => '<' :: (tag.inside ++ ['/', '>'])

/-- What stands inside an element as it is written. -/
def Content.written : Content → List Char
  | .last passage => passage.written
  | .more passage first rest => passage.written ++ (first.written ++ rest.written)

end

mutual

/-- The node that an element is. -/
def Markup.node : Markup → Node
  | .element tag content => .element (String.ofList tag.name) content.nodes
  | .empty tag => .element (String.ofList tag.name) []

/-- The nodes inside an element. -/
def Content.nodes : Content → List Node
  | .last passage => passage.nodes
  | .more passage first rest => passage.nodes ++ first.node :: rest.nodes

end

/-- The declaration that a document may begin with. -/
def declaration : List Char := "<?xml version=\"1.0\" encoding=\"UTF-8\"?>".toList

/-- Lines and spaces around the element that holds a document. -/
def isBlank (c : Char) : Bool := c == ' ' || c == '\t' || c == '\n'

/-- A whole document. -/
structure Document where
  isDeclared : Bool
  before : List Char
  root : Markup
  after : List Char
  blank_before : before.all isBlank = true
  blank_after : after.all isBlank = true

/-- A document as it is written. -/
def Document.written (document : Document) : List Char :=
  (if document.isDeclared then declaration else []) ++
    (document.before ++ (document.root.written ++ document.after))

/-- The text of a document. -/
def Document.text (document : Document) : String := String.ofList document.written

section Names

variable {c d : Char} {name : List Char}

theorem continuesName_of_mem (h : isPlainName name = true) :
    ∀ c ∈ name, continuesName c = true := by
  cases name with
  | nil => exact absurd h Bool.false_ne_true
  | cons c rest =>
      rw [isPlainName, Bool.and_eq_true, List.all_eq_true] at h
      exact List.forall_mem_cons.mpr ⟨by simp only [continuesName, h.1, Bool.true_or], h.2⟩

theorem ne_nil_of_isPlainName (h : isPlainName name = true) : name ≠ [] := by
  rintro rfl
  exact absurd h Bool.false_ne_true

/-- What may not stand in a name is none of its characters. -/
theorem ne_of_continuesName (h : continuesName c = true) (hd : continuesName d = false) :
    c ≠ d := by
  rintro rfl
  exact absurd h (Bool.eq_false_iff.mp hd)

theorem isAllowed_of_continuesName (h : continuesName c = true) : isAllowed c.toNat = true := by
  by_cases hline : c = '_'
  · rw [hline]
    decide
  · -- The other ranges lie in those of allowed codes.
    simp only [continuesName, beginsName, isAllowed, Bool.or_eq_true, Bool.and_eq_true,
      decide_eq_true_eq, beq_iff_eq, hline, false_or] at h ⊢
    by_cases hmark : c = '-' ∨ c = '.'
    · rcases hmark with rfl | rfl
      all_goals decide
    · rw [not_or] at hmark
      simp only [hmark.1, hmark.2, or_false] at h
      omega

end Names

section Verbatim

/-- The characters that are read as they stand. -/
def isVerbatim (c : Char) : Bool := isAllowed c.toNat && c != '\r'

variable {c : Char}

theorem isVerbatim_of_continuesName (h : continuesName c = true) : isVerbatim c = true := by
  rw [isVerbatim, isAllowed_of_continuesName h, bne_iff_ne.mpr (ne_of_continuesName h (by decide)),
    Bool.and_self]

/-- Neither texts nor values hold what ends a line. -/
theorem isVerbatim_of_spells {special : Char → Bool} {content written : List Char}
    (hreturn : special '\r' = true) (h : Spells special content written) :
    ∀ c ∈ written, isVerbatim c = true := by
  intro c hc
  rcases h.ordinary c hc with ⟨hallowed, hplain⟩
  have hne : c ≠ '\r' := by
    rintro rfl
    rcases hplain with hplain | hplain
    · exact absurd hreturn (Bool.eq_false_iff.mp hplain)
    · exact absurd hplain (by decide)
  rw [isVerbatim, hallowed, bne_iff_ne.mpr hne, Bool.and_self]

theorem Attribute.isVerbatim_of_mem {item : Attribute} :
    ∀ c ∈ item.written, isVerbatim c = true := by
  intro c hc
  simp only [Attribute.written, List.mem_cons, List.mem_append, List.not_mem_nil, or_false] at hc
  rcases hc with rfl | hname | rfl | rfl | hquoted | rfl
  · decide
  · exact isVerbatim_of_continuesName (continuesName_of_mem item.plain c hname)
  · decide
  · decide
  · exact isVerbatim_of_spells (by decide) item.spells c hquoted
  · decide

theorem StartTag.isVerbatim_of_mem {tag : StartTag} : ∀ c ∈ tag.inside, isVerbatim c = true := by
  intro c hc
  rw [StartTag.inside, List.mem_append, List.mem_flatMap] at hc
  rcases hc with hname | ⟨item, _, hitem⟩
  · exact isVerbatim_of_continuesName (continuesName_of_mem tag.plain c hname)
  · exact Attribute.isVerbatim_of_mem c hitem

theorem Passage.isVerbatim_of_mem {passage : Passage} :
    ∀ c ∈ passage.written, isVerbatim c = true :=
  isVerbatim_of_spells (by decide) passage.spells

mutual

theorem Markup.isVerbatim_of_mem : ∀ (markup : Markup), ∀ c ∈ markup.written, isVerbatim c = true
  | .element tag content => by
      intro c hc
      simp only [Markup.written, List.mem_cons, List.mem_append, List.not_mem_nil, or_false] at hc
      rcases hc with rfl | htag | rfl | hinside | rfl | rfl | hname | rfl
      · decide
      · exact StartTag.isVerbatim_of_mem c htag
      · decide
      · exact Content.isVerbatim_of_mem content c hinside
      · decide
      · decide
      · exact isVerbatim_of_continuesName (continuesName_of_mem tag.plain c hname)
      · decide
  | .empty tag => by
      intro c hc
      simp only [Markup.written, List.mem_cons, List.mem_append, List.not_mem_nil, or_false] at hc
      rcases hc with rfl | htag | rfl | rfl
      · decide
      · exact StartTag.isVerbatim_of_mem c htag
      · decide
      · decide

theorem Content.isVerbatim_of_mem :
    ∀ (content : Content), ∀ c ∈ content.written, isVerbatim c = true
  | .last passage => Passage.isVerbatim_of_mem
  | .more passage first rest => by
      intro c hc
      rw [Content.written, List.mem_append, List.mem_append] at hc
      rcases hc with hpassage | hfirst | hrest
      · exact Passage.isVerbatim_of_mem c hpassage
      · exact Markup.isVerbatim_of_mem first c hfirst
      · exact Content.isVerbatim_of_mem rest c hrest

end

/-- No character of a document is changed before it is read. -/
theorem Document.isVerbatim_of_mem {document : Document} :
    ∀ c ∈ document.written, isVerbatim c = true := by
  have hblank : ∀ {blanks : List Char}, blanks.all isBlank = true →
      ∀ c ∈ blanks, isVerbatim c = true := by
    intro blanks h c hc
    have hc := List.all_eq_true.mp h c hc
    simp only [isBlank, Bool.or_eq_true, beq_iff_eq] at hc
    rcases hc with (rfl | rfl) | rfl
    all_goals decide
  intro c hc
  rw [Document.written, List.mem_append, List.mem_append, List.mem_append] at hc
  rcases hc with hdeclaration | hbefore | hroot | hafter
  · split at hdeclaration
    · have hall : declaration.all isVerbatim = true := by decide +kernel
      exact List.all_eq_true.mp hall c hdeclaration
    · exact absurd hdeclaration List.not_mem_nil
  · exact hblank document.blank_before c hbefore
  · exact document.root.isVerbatim_of_mem c hroot
  · exact hblank document.blank_after c hafter

/-- Where lines end in line feeds alone, they stay as they are. -/
theorem normalLines_of_isVerbatim {chars : List Char} (h : ∀ c ∈ chars, isVerbatim c = true) :
    normalLines chars = chars := by
  induction chars with
  | nil => rfl
  | cons c rest ih =>
      rw [List.forall_mem_cons] at h
      have hne : c ≠ '\r' := by
        rintro rfl
        exact absurd h.1 (by decide)
      unfold normalLines
      split
      · next heq => exact absurd (List.cons.inj heq).1 hne
      · next heq => exact absurd (List.cons.inj heq).1 hne
      · next heq => rw [← (List.cons.inj heq).1, ← (List.cons.inj heq).2, ih h.2]
      · next heq => exact absurd heq (List.cons_ne_nil _ _)

end Verbatim

section Writing

variable {name text : List Char}

/-- The characters that are no text, and the one that ends a tag or a section. -/
def marksPlain (c : Char) : Bool := marksText c || c == '>'

/-- A text with references for everything that could be taken for markup. -/
def Passage.ofText (text : List Char) (h : text.all (fun c => isAllowed c.toNat) = true) :
    Passage where
  content := text
  written := spelling marksPlain text
  spells := (spells_spelling (List.all_eq_true.mp h)).weaken fun _ hc =>
    Bool.or_eq_true_iff.mpr (.inl hc)
  unended := by
    have hspells : Spells marksPlain text (spelling marksPlain text) :=
      spells_spelling (List.all_eq_true.mp h)
    have hbracket : '>' ∉ spelling marksPlain text := fun hmem =>
      absurd (hspells.ordinary _ hmem).2 (by decide)
    exact Text.occursIn_of_not_mem (by decide) hbracket

/-- A tag without attributes. -/
def StartTag.bare (name : List Char) (h : isPlainName name = true) : StartTag where
  name := name
  attributes := []
  plain := h
  distinct := List.nodup_nil

/-- An element that holds a text and nothing else. -/
def Markup.ofText (name text : List Char) (hname : isPlainName name = true)
    (htext : text.all (fun c => isAllowed c.toNat) = true) : Markup :=
  .element (StartTag.bare name hname) (.last (Passage.ofText text htext))

/-- Elements with nothing between them. -/
def Content.ofList : List Markup → Content
  | [] => .last (Passage.ofText [] rfl)
  | markup :: rest => .more (Passage.ofText [] rfl) markup (Content.ofList rest)

theorem Markup.node_ofText (hname : isPlainName name = true)
    (htext : text.all (fun c => isAllowed c.toNat) = true) (hne : text ≠ []) :
    (Markup.ofText name text hname htext).node =
      .element (String.ofList name) [.text (String.ofList text)] := by
  rw [Markup.ofText, Markup.node, Content.nodes, Passage.nodes]
  exact congrArg _ (if_neg hne)

theorem Content.nodes_ofList (markups : List Markup) :
    (Content.ofList markups).nodes = markups.map Markup.node := by
  induction markups with
  | nil => rw [Content.ofList, Content.nodes]; rfl
  | cons markup rest ih => rw [Content.ofList, Content.nodes, ih]; rfl

end Writing

end Xml

end BatchRun
