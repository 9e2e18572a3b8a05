import BatchRun.Proofs.Text.Trim
import BatchRun.Proofs.Xml.Reading
import BatchRun.Service.Listing

/-!
# Listings Written and Read

A page of a listing that was written as a document is read as the same page.

A document presents a page if its `Contents` elements describe the objects one after
the other, whatever else stands between them or in them, and if it names a cursor
together with saying that it is cut off. The writer has all the freedom that a
document leaves: what elements there are beside these, which of them declare
namespaces, how a character is spelled, and whether quotes stand around a tag.

## Main definitions

* `Xml.leaf`: An element that holds a text and nothing else.
* `ObjectSummary.Listable`, `ObjectPage.Listable`: What can be said in a listing.
* `ObjectSummary.Describes`: The elements that describe an object.
* `ObjectPage.Presents`: The documents that present a page.

## Theorems

* `ObjectSummary.ofNode_of_describes`: An object is read as it was described.
* `ObjectPage.ofNode_of_presents`: A page is read as it was presented.
* `ObjectPage.exists_presents`: Every page can be presented below any tag.
* `ObjectPage.reads_as_presented`: Pages that were presented are what is read.
-/

namespace BatchRun

namespace Xml

/-- The elements of a name inside an element. -/
def Node.named (node : Node) (name : String) : List Node := node.children.filter (isNamed name)

/-- An element that holds a text and nothing else. -/
def leaf (name text : String) : Node := .element name [.text text]

theorem Node.childText?_eq (node : Node) (name : String) :
    node.childText? name = (node.named name).head?.bind text? := by
  rw [childText?, named, List.head?_filter]

theorem Node.childText?_of_leaf {node : Node} {name text : String}
    (h : node.named name = [leaf name text]) : node.childText? name = some text := by
  rw [childText?_eq, h]
  rfl

theorem Node.childText?_of_none {node : Node} {name : String} (h : node.named name = []) :
    node.childText? name = none := by
  rw [childText?_eq, h]
  rfl

end Xml

/-- Texts whose characters a document may hold. -/
def isXmlText (text : String) : Bool := text.toList.all fun c => Xml.isAllowed c.toNat

theorem isXmlText_toDigits (n : Nat) : isXmlText (String.ofList (Nat.toDigits 10 n)) = true := by
  rw [isXmlText, String.toList_ofList, List.all_eq_true]
  intro c hc
  have halpha := Xml.isAlphanum_of_digitsIn (Ip.digitsIn_toDigits (by decide) (by decide) n) c hc
  refine Xml.isAllowed_of_isReferring ?_
  rw [Xml.isReferring, halpha, Bool.or_true]

namespace Xml

/-- Nodes that some markup stands for. -/
def IsWritable (node : Node) : Prop := ∃ markup : Markup, markup.node = node

/-- Any name and any text but the empty one make an element. -/
theorem isWritable_leaf {name text : String} (hname : isPlainName name.toList = true)
    (htext : isXmlText text = true) (hne : text ≠ "") : IsWritable (leaf name text) := by
  refine ⟨Markup.ofText name.toList text.toList hname htext, ?_⟩
  rw [Markup.node_ofText hname htext fun hnil => hne (String.toList_eq_nil_iff.mp hnil),
    String.ofList_toList, String.ofList_toList, leaf]

/-- Elements one after the other are the content of an element. -/
theorem exists_content {nodes : List Node} (h : ∀ node ∈ nodes, IsWritable node) :
    ∃ content : Content, content.nodes = nodes := by
  have hmarkups : ∃ markups : List Markup, markups.map Markup.node = nodes := by
    induction nodes with
    | nil => exact ⟨[], rfl⟩
    | cons node nodes ih =>
        rw [List.forall_mem_cons] at h
        rcases h.1 with ⟨markup, rfl⟩
        rcases ih h.2 with ⟨markups, rfl⟩
        exact ⟨markup :: markups, rfl⟩
  rcases hmarkups with ⟨markups, rfl⟩
  exact ⟨.ofList markups, Content.nodes_ofList markups⟩

theorem isWritable_element {name : String} {children : List Node}
    (hname : isPlainName name.toList = true) (h : ∀ node ∈ children, IsWritable node) :
    IsWritable (.element name children) := by
  rcases exists_content h with ⟨content, rfl⟩
  refine ⟨.element (.bare name.toList hname) content, ?_⟩
  rw [Markup.node, StartTag.bare, String.ofList_toList]

end Xml

namespace ObjectSummary

/-- A tag that can be told from the quotes around it. -/
structure IsTag (tag : String) : Prop where
  text : isXmlText tag = true
  ne_empty : tag ≠ ""
  start : tag.toList.head? ≠ some '"'
  finish : tag.toList.getLast? ≠ some '"'

/-- An object that a listing can name: its key is a text that is not empty, its size has
    sixty-four bits. -/
structure Listable (object : ObjectSummary) : Prop where
  key : isXmlText object.key = true
  key_ne : object.key ≠ ""
  size : object.size < Whole.bound64
  tag : ∀ tag, object.etag = some tag → IsTag tag

/-- The elements that give the size of an object, of which there need be none if it is
    zero. -/
def GivesSize (entry : Xml.Node) (size : Nat) : Prop :=
  (size = 0 ∧ entry.named "Size" = []) ∨
    ∃ digits : String, digits ≠ "" ∧ Ip.digitsIn 10 digits.toList = some size ∧
      entry.named "Size" = [Xml.leaf "Size" digits]

/-- The elements that give the tag of an object, in quotes or not. -/
def GivesTag (entry : Xml.Node) : Option String → Prop
  | none => entry.named "ETag" = []
  | some tag => entry.named "ETag" = [Xml.leaf "ETag" tag] ∨
      entry.named "ETag" = [Xml.leaf "ETag" (String.ofList ('"' :: (tag.toList ++ ['"'])))]

/-- The elements that describe an object, with others between them. -/
structure Describes (entry : Xml.Node) (object : ObjectSummary) : Prop where
  key : entry.named "Key" = [Xml.leaf "Key" object.key]
  size : GivesSize entry object.size
  tag : GivesTag entry object.etag

theorem readSize?_of_givesSize {entry : Xml.Node} {size : Nat} (h : GivesSize entry size)
    (hsize : size < Whole.bound64) : readSize? (entry.childText? "Size") = .ok size := by
  rcases h with ⟨rfl, hnone⟩ | ⟨digits, hne, hdigits, hleaf⟩
  · rw [Xml.Node.childText?_of_none hnone]
    rfl
  · rw [Xml.Node.childText?_of_leaf hleaf, readSize?, readSize,
      Whole.read_of_digitsIn hne hdigits hsize]
    rfl

theorem trimWhere_of_isTag {tag : String} (h : IsTag tag) :
    Text.trimWhere (· == '"') tag.toList = tag.toList := by
  refine Text.trimWhere_of_ends (fun c hc => ?_) fun c hc => ?_
  · refine beq_eq_false_iff_ne.mpr fun heq => h.start ?_
    rw [hc, heq]
  · refine beq_eq_false_iff_ne.mpr fun heq => h.finish ?_
    rw [hc, heq]

theorem plainTag_of_isTag {tag : String} (h : IsTag tag) : plainTag tag = tag := by
  rw [plainTag, trimWhere_of_isTag h, String.ofList_toList]

theorem plainTag_quoted {tag : String} (h : IsTag tag) :
    plainTag (String.ofList ('"' :: (tag.toList ++ ['"']))) = tag := by
  rw [plainTag, String.toList_ofList, Text.trimWhere_surround (by decide) (by decide),
    trimWhere_of_isTag h, String.ofList_toList]

theorem readTag_of_givesTag {entry : Xml.Node} {etag : Option String} (h : GivesTag entry etag)
    (htag : ∀ tag, etag = some tag → IsTag tag) :
    (entry.childText? "ETag").map plainTag = etag := by
  cases etag with
  | none => rw [Xml.Node.childText?_of_none h, Option.map_none]
  | some tag =>
      rcases h with hleaf | hquoted
      · rw [Xml.Node.childText?_of_leaf hleaf, Option.map_some, plainTag_of_isTag (htag tag rfl)]
      · rw [Xml.Node.childText?_of_leaf hquoted, Option.map_some, plainTag_quoted (htag tag rfl)]

/-- An element that describes an object. -/
def entry (object : ObjectSummary) : Xml.Node :=
  .element "Contents" (Xml.leaf "Key" object.key ::
    Xml.leaf "Size" (String.ofList (Nat.toDigits 10 object.size)) ::
    object.etag.toList.map (Xml.leaf "ETag"))

theorem digits_ne_empty (n : Nat) : String.ofList (Nat.toDigits 10 n) ≠ "" := by
  intro hempty
  rw [String.ofList_eq_empty_iff] at hempty
  exact Nat.toDigits_ne_nil hempty

theorem describes_entry (object : ObjectSummary) : Describes object.entry object := by
  have hdigits : Ip.digitsIn 10 (String.ofList (Nat.toDigits 10 object.size)).toList =
      some object.size := by
    rw [String.toList_ofList, Ip.digitsIn_toDigits (by decide) (by decide)]
  rcases object with ⟨key, size, _ | etag⟩
  · exact ⟨rfl, .inr ⟨_, digits_ne_empty size, hdigits, rfl⟩, rfl⟩
  · exact ⟨rfl, .inr ⟨_, digits_ne_empty size, hdigits, rfl⟩, .inl rfl⟩

theorem isWritable_entry {object : ObjectSummary} (h : object.Listable) :
    Xml.IsWritable object.entry := by
  have hkey : Xml.IsWritable (Xml.leaf "Key" object.key) :=
    Xml.isWritable_leaf rfl h.key h.key_ne
  have hsize : Xml.IsWritable (Xml.leaf "Size" (String.ofList (Nat.toDigits 10 object.size))) :=
    Xml.isWritable_leaf rfl (isXmlText_toDigits object.size) (digits_ne_empty object.size)
  refine Xml.isWritable_element rfl ?_
  rw [List.forall_mem_cons, List.forall_mem_cons]
  refine ⟨hkey, hsize, fun node hnode => ?_⟩
  rcases List.mem_map.mp hnode with ⟨etag, hetag, rfl⟩
  have htag := h.tag etag (Option.mem_toList.mp hetag)
  exact Xml.isWritable_leaf rfl htag.text htag.ne_empty

/-- An object is read as it was described. -/
theorem ofNode_of_describes {entry : Xml.Node} {object : ObjectSummary}
    (h : Describes entry object) (hobject : object.Listable) : ofNode entry = .ok object := by
  rw [ofNode, Xml.Node.childText?_of_leaf h.key]
  simp only [readSize?_of_givesSize h.size hobject.size, readTag_of_givesTag h.tag hobject.tag]
  rfl

end ObjectSummary

namespace ObjectPage

/-- A page that can be listed. -/
structure Listable (page : ObjectPage) : Prop where
  objects : ∀ object ∈ page.objects, object.Listable
  token : ∀ token, page.nextToken = some token → isXmlText token = true ∧ token ≠ ""

/-- The elements that name the cursor of a page. If there is none, the listing does not
    say that it is cut off. -/
def NamesCursor (root : Xml.Node) : Option String → Prop
  | none => root.childText? "IsTruncated" ≠ some "true"
  | some token => root.named "IsTruncated" = [Xml.leaf "IsTruncated" "true"] ∧
      root.named "NextContinuationToken" = [Xml.leaf "NextContinuationToken" token]

/-- The documents that present a page: their entries describe its objects in turn. -/
structure Presents (root : Xml.Node) (page : ObjectPage) : Prop where
  objects : List.Forall₂ ObjectSummary.Describes (root.named "Contents") page.objects
  cursor : NamesCursor root page.nextToken

theorem mapM_of_forall₂ {entries : List Xml.Node} {objects : List ObjectSummary}
    (h : List.Forall₂ ObjectSummary.Describes entries objects)
    (hobjects : ∀ object ∈ objects, object.Listable) :
    entries.mapM ObjectSummary.ofNode = .ok objects := by
  induction h with
  | nil => rfl
  | cons hentry _ ih =>
      rw [List.forall_mem_cons] at hobjects
      rw [List.mapM_cons, ObjectSummary.ofNode_of_describes hentry hobjects.1, ih hobjects.2]
      rfl

theorem filter_of_namesCursor {root : Xml.Node} {cursor : Option String}
    (h : NamesCursor root cursor) (hcursor : ∀ token, cursor = some token → token ≠ "") :
    ((root.childText? "NextContinuationToken").filter fun token =>
      decide (root.childText? "IsTruncated" = some "true") && !token.isEmpty) = cursor := by
  cases cursor with
  | none =>
      rw [decide_eq_false h]
      simp only [Bool.false_and]
      exact Option.filter_eq_none_iff.mpr fun _ _ => Bool.false_ne_true
  | some token =>
      have hne : token.isEmpty = false :=
        Bool.eq_false_iff.mpr fun hempty => hcursor token rfl (String.isEmpty_iff.mp hempty)
      rw [Xml.Node.childText?_of_leaf h.1, Xml.Node.childText?_of_leaf h.2]
      simp only [Option.filter_some, decide_true, hne, Bool.not_false, Bool.and_self, if_true]

/-- A page is read as it was presented. -/
theorem ofNode_of_presents {root : Xml.Node} {page : ObjectPage} (h : Presents root page)
    (hpage : page.Listable) : ofNode root = .ok page := by
  have hcursor := filter_of_namesCursor h.cursor fun token htoken => (hpage.token token htoken).2
  rw [ofNode, ← Xml.Node.named, mapM_of_forall₂ h.objects hpage.objects]
  simp only [hcursor]
  rfl

/-- There is no cursor unless the listing says that it is cut off and names one. -/
theorem nextToken_eq_none {root : Xml.Node} {page : ObjectPage} (h : ofNode root = .ok page)
    (hcursor : root.childText? "IsTruncated" ≠ some "true" ∨
      (root.childText? "NextContinuationToken").getD "" = "") : page.nextToken = none := by
  rw [ofNode] at h
  cases hobjects : (root.children.filter (Xml.Node.isNamed "Contents")).mapM
      ObjectSummary.ofNode with
  | error fault =>
      rw [hobjects] at h
      exact absurd h (by simp only [Except.map, reduceCtorEq, not_false_eq_true])
  | ok objects =>
      rw [hobjects] at h
      rw [← Except.ok.inj h]
      refine Option.filter_eq_none_iff.mpr fun token htoken => ?_
      rcases hcursor with hwhole | hempty
      · rw [decide_eq_false hwhole, Bool.false_and]
        exact Bool.false_ne_true
      · rw [htoken, Option.getD_some] at hempty
        have hisEmpty : token.isEmpty = true := String.isEmpty_iff.mpr hempty
        rw [hisEmpty, Bool.not_true, Bool.and_false]
        exact Bool.false_ne_true

/-- The elements that name a cursor. -/
def cursorNodes : Option String → List Xml.Node
  | none => []
  | some token => [Xml.leaf "IsTruncated" "true", Xml.leaf "NextContinuationToken" token]

theorem forall₂_describes : ∀ (objects : List ObjectSummary),
    List.Forall₂ ObjectSummary.Describes (objects.map ObjectSummary.entry) objects
  | [] => .nil
  | object :: rest => .cons object.describes_entry (forall₂_describes rest)

/-- The entries of the objects and the elements of the cursor present a page, whatever the
    element around them is called. -/
theorem presents_entries (page : ObjectPage) (name : String) :
    Presents (.element name (page.objects.map ObjectSummary.entry ++ cursorNodes page.nextToken))
      page := by
  -- An entry has none of the names of the cursor, and the cursor is no entry.
  have hothers : ∀ {name : String}, ("Contents" == name) = false →
      (page.objects.map ObjectSummary.entry).filter (Xml.Node.isNamed name) = [] := by
    intro name hname
    refine List.filter_eq_nil_iff.mpr fun node hnode => ?_
    rcases List.mem_map.mp hnode with ⟨object, _, rfl⟩
    rw [ObjectSummary.entry, Xml.Node.isNamed, hname]
    exact Bool.false_ne_true
  constructor
  · have hentries : (page.objects.map ObjectSummary.entry).filter (Xml.Node.isNamed "Contents") =
        page.objects.map ObjectSummary.entry := by
      refine List.filter_eq_self.mpr fun node hnode => ?_
      rcases List.mem_map.mp hnode with ⟨object, _, rfl⟩
      rfl
    have hcursor : (cursorNodes page.nextToken).filter (Xml.Node.isNamed "Contents") = [] := by
      cases page.nextToken with
      | none => rfl
      | some token => rfl
    rw [Xml.Node.named, Xml.Node.children, List.filter_append, hentries, hcursor, List.append_nil]
    exact forall₂_describes page.objects
  · cases page.nextToken with
    | none =>
        rw [NamesCursor, Xml.Node.childText?_eq, Xml.Node.named, Xml.Node.children,
          List.filter_append, hothers (by decide)]
        exact (Option.some_ne_none _).symm
    | some token =>
        rw [NamesCursor, Xml.Node.named, Xml.Node.named, Xml.Node.children, List.filter_append,
          List.filter_append, hothers (by decide), hothers (by decide)]
        exact ⟨rfl, rfl⟩

/-- Every page can be presented, below any tag. -/
theorem exists_presents {page : ObjectPage} (h : page.Listable) (tag : Xml.StartTag) :
    ∃ content, Presents (Xml.Markup.element tag content).node page := by
  have hwritable : ∀ node ∈ page.objects.map ObjectSummary.entry ++ cursorNodes page.nextToken,
      Xml.IsWritable node := by
    intro node hnode
    rcases List.mem_append.mp hnode with hentry | hcursor
    · rcases List.mem_map.mp hentry with ⟨object, hobject, rfl⟩
      exact ObjectSummary.isWritable_entry (h.objects object hobject)
    · cases htoken : page.nextToken with
      | none =>
          rw [htoken] at hcursor
          exact absurd hcursor List.not_mem_nil
      | some token =>
          have htext := h.token token htoken
          rw [htoken, cursorNodes, List.mem_cons, List.mem_singleton] at hcursor
          rcases hcursor with rfl | rfl
          · exact Xml.isWritable_leaf rfl (by decide) (by decide)
          · exact Xml.isWritable_leaf rfl htext.1 htext.2
  rcases Xml.exists_content hwritable with ⟨content, hcontent⟩
  refine ⟨content, ?_⟩
  rw [Xml.Markup.node, hcontent]
  exact presents_entries page _

/-- Every page that can be listed is presented by some document, below any tag; every
    document that presents it is read as the page; and no document gives a cursor unless it
    says that it is cut off and names one that is not empty. -/
theorem reads_as_presented :
    (∀ page : ObjectPage, page.Listable → ∀ tag : Xml.StartTag, ∃ document : Xml.Document,
      (∃ content, document.root = .element tag content) ∧ Presents document.root.node page) ∧
    (∀ (page : ObjectPage) (document : Xml.Document), page.Listable →
      Presents document.root.node page → ofText document.text = .ok page) ∧
    (∀ (text : String) (root : Xml.Node) (page : ObjectPage), Xml.read? text = some root →
      ofText text = .ok page →
      root.childText? "IsTruncated" ≠ some "true" ∨
        (root.childText? "NextContinuationToken").getD "" = "" → page.nextToken = none) := by
  refine ⟨fun page h tag => ?_, fun page document h hpresents => ?_,
    fun text root page hread hpage hcursor => ?_⟩
  · rcases exists_presents h tag with ⟨content, hcontent⟩
    exact ⟨⟨false, [], .element tag content, [], rfl, rfl⟩, ⟨content, rfl⟩, hcontent⟩
  · rw [ofText, document.read?_text]
    exact ofNode_of_presents hpresents h
  · rw [ofText, hread] at hpage
    exact nextToken_eq_none hpage hcursor

/-- A key with a bracket and a carriage return, spelled by a name and by a code. -/
def sampleKey : Xml.Passage where
  content := ['a', '<', '\r']
  written := "a&lt;&#x0d;".toList
  spells := by
    refine .plain rfl rfl (.reference rfl (?_ : Xml.Refers ['l', 't'] _)
      (.reference rfl (?_ : Xml.Refers "#x0d".toList _) .nil))
    · exact .known (by decide)
    · exact .hexadecimal (by decide) rfl
  unended := rfl

/-- A tag in quotes, one of which is spelled by its name. -/
def sampleTag : Xml.Passage where
  content := ['"', '9', 'b', '"']
  written := "&quot;9b\"".toList
  spells := by
    refine .reference rfl (?_ : Xml.Refers "quot".toList _) (Xml.spells_self rfl)
    exact .known (by decide)
  unended := rfl

/-- A listing with a default namespace, an element of another name, and the cursor before
    the last entry. -/
def sampleListing : Xml.Document where
  isDeclared := false
  before := []
  root := .element
    { name := "ListBucketResult".toList
      attributes := [
        { name := "xmlns".toList
          value := "urn:s3".toList
          quoted := "urn:s3".toList
          plain := rfl
          spells := Xml.spells_self rfl
          mayDeclare := by decide }]
      plain := rfl
      distinct := by decide }
    (.ofList [
      .element (.bare "Contents".toList rfl) (.ofList [
        .element (.bare "ETag".toList rfl) (.last sampleTag),
        .element (.bare "Key".toList rfl) (.last sampleKey)]),
      .ofText "IsTruncated".toList "true".toList rfl rfl,
      .ofText "NextContinuationToken".toList "1u/M=".toList rfl rfl,
      .empty (.bare "Name".toList rfl),
      .element (.bare "Contents".toList rfl) (.ofList [
        .ofText "Key".toList "b".toList rfl rfl,
        .ofText "Size".toList "012".toList rfl rfl])])
  after := ['\n']
  blank_before := rfl
  blank_after := rfl

/-- What the listing says. -/
def samplePage : ObjectPage where
  objects := [⟨"a<\r", 0, some "9b"⟩, ⟨"b", 12, none⟩]
  nextToken := some "1u/M="

theorem listable_samplePage : samplePage.Listable := by
  constructor
  · intro object hobject
    rw [samplePage, List.mem_cons, List.mem_singleton] at hobject
    rcases hobject with rfl | rfl
    · refine ⟨by decide, by decide, by decide, fun tag htag => ?_⟩
      exact Option.some.inj htag ▸ ⟨by decide, by decide, by decide, by decide⟩
    · refine ⟨by decide, by decide, by decide, fun tag htag => ?_⟩
      exact absurd htag (Option.some_ne_none tag).symm
  · intro token htoken
    exact Option.some.inj htoken ▸ ⟨by decide, by decide⟩

theorem presents_sampleListing : Presents sampleListing.root.node samplePage :=
  ⟨.cons ⟨rfl, .inl ⟨rfl, rfl⟩, .inr rfl⟩
    (.cons ⟨rfl, .inr ⟨"012", by decide, rfl, rfl⟩, rfl⟩ .nil), rfl, rfl⟩

theorem reads_as_presented_sample :
    ofText ("<ListBucketResult xmlns=\"urn:s3\">" ++
      "<Contents><ETag>&quot;9b\"</ETag><Key>a&lt;&#x0d;</Key></Contents>" ++
      "<IsTruncated>true</IsTruncated><NextContinuationToken>1u/M=</NextContinuationToken>" ++
      "<Name/><Contents><Key>b</Key><Size>012</Size></Contents></ListBucketResult>\n") =
      .ok samplePage := by
  calc ofText _ = ofText sampleListing.text := congrArg ofText (by decide +kernel)
    _ = .ok samplePage :=
      reads_as_presented.2.1 samplePage sampleListing listable_samplePage presents_sampleListing

end ObjectPage

end BatchRun
