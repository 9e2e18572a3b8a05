import BatchRun.Proofs.Xml.Tag

/-!
# Documents Written and Read

A document that was written is read as the node that it stands for.

The text is cut into the pieces that it was put together from, since a text between
tags goes on to the next tag and holds no bracket that could begin one. Then the
reader takes the pieces of an element all together: whatever is open around it, the
element ends up as one more node there, and what stands inside an open element ends
up as nodes behind those that it has already.

## Main definitions

* `Xml.Markup.pieces`, `Xml.Content.pieces`: What a document is cut into.
* `Xml.Opens`: A text with markup in front, or nothing.
* `Xml.EndsApart`: Nodes behind which a text is a node of its own.

## Theorems

* `Xml.Markup.pieces?_written`: An element is cut into its pieces.
* `Xml.Markup.read_pieces`: The pieces of an element are read as its node.
* `Xml.Document.read?_text`: A document is read as the node that holds it.
-/

namespace BatchRun

namespace Xml

/-- A text as a piece: none, if nothing is written. -/
def Passage.pieces (passage : Passage) : List Piece :=
  if passage.written = [] then [] else [.text passage.written]

mutual

/-- What an element is cut into. -/
def Markup.pieces : Markup → List Piece
  | .element tag content => .tag tag.inside :: (content.pieces ++ [.tag ('/' :: tag.name)])
  | .empty tag => [.tag (tag.inside ++ ['/'])]

/-- What the content of an element is cut into. -/
def Content.pieces : Content → List Piece
  | .last passage => passage.pieces
  | .more passage first rest => passage.pieces ++ (first.pieces ++ rest.pieces)

end

section Cutting

variable {text rest : List Char}

/-- A text with markup in front, or nothing. -/
def Opens (text : List Char) : Prop := ∀ c, text.head? = some c → c = '<'

theorem opens_nil : Opens [] := fun _ hc =>
  absurd hc (by simp only [List.head?_nil, reduceCtorEq, not_false_eq_true])

theorem opens_cons (rest : List Char) : Opens ('<' :: rest) :=
  fun _ hc => (Option.some.inj hc).symm

theorem pieces?_of_cutPiece {piece : Piece} {after : List Char}
    (h : cutPiece text = some (piece, after)) :
    pieces? text = (pieces? after).map (piece :: ·) := by
  cases text with
  | nil => exact absurd h (by simp only [cutPiece, reduceCtorEq, not_false_eq_true])
  | cons c rest =>
      rw [pieces?]
      split
      · next hnone =>
        rw [h] at hnone
        exact absurd hnone (by simp only [reduceCtorEq, not_false_eq_true])
      · next hsome =>
        rw [h, Option.some.injEq, Prod.mk.injEq] at hsome
        rw [hsome.1, hsome.2]

/-- A tag is a piece, unless it begins with a mark of another kind. -/
theorem pieces?_tag {inside : List Char} (h : PassesTag inside)
    (hmark : ∃ c more, inside = c :: more ∧ c ≠ '!' ∧ c ≠ '?') (rest : List Char) :
    pieces? ('<' :: (inside ++ '>' :: rest)) = (pieces? rest).map (.tag inside :: ·) := by
  have hcut := cutTag_of_passesTag h rest
  rcases hmark with ⟨c, more, rfl, hbang, hquestion⟩
  refine pieces?_of_cutPiece ?_
  -- Comments, sections and instructions have a mark behind the bracket.
  unfold cutPiece
  split
  · next heq => exact absurd heq (List.cons_ne_nil _ _)
  · next heq => exact absurd (List.cons.inj (List.cons.inj heq).2).1 hbang
  · next heq => exact absurd (List.cons.inj (List.cons.inj heq).2).1 hquestion
  · next heq => rw [← (List.cons.inj heq).2, hcut, Option.map_some]
  · next hne heq => exact absurd (List.cons.inj heq).1.symm hne

/-- A text up to the next markup is a piece. -/
theorem pieces?_text (hne : text ≠ []) (htext : '<' ∉ text) (hrest : Opens rest) :
    pieces? (text ++ rest) = (pieces? rest).map (.text text :: ·) := by
  rcases List.exists_cons_of_ne_nil hne with ⟨c, more, rfl⟩
  rw [List.mem_cons, not_or] at htext
  have hmore : ∀ d ∈ more, (d != '<') = true := fun d hd =>
    bne_iff_ne.mpr fun heq => htext.2 (heq ▸ hd)
  have hstop : ∀ d, rest.head? = some d → (d != '<') = false := by
    intro d hd
    rw [hrest d hd]
    rfl
  refine pieces?_of_cutPiece ?_
  rw [List.cons_append]
  unfold cutPiece
  split
  · next heq => exact absurd heq (List.cons_ne_nil _ _)
  · next heq => exact absurd (List.cons.inj heq).1.symm htext.1
  · next heq => exact absurd (List.cons.inj heq).1.symm htext.1
  · next heq => exact absurd (List.cons.inj heq).1.symm htext.1
  · next heq =>
    rw [← (List.cons.inj heq).1, ← (List.cons.inj heq).2,
      Text.takeWhile_append_of_head hmore hstop, Text.dropWhile_append_of_head hmore hstop]

theorem Spells.eq_nil_iff {special : Char → Bool} {content written : List Char}
    (h : Spells special content written) : written = [] ↔ content = [] := by
  cases h with
  | nil => exact Iff.rfl
  | plain _ _ _ => exact iff_of_false (List.cons_ne_nil _ _) (List.cons_ne_nil _ _)
  | reference _ _ _ => exact iff_of_false (List.cons_ne_nil _ _) (List.cons_ne_nil _ _)

theorem Passage.pieces?_written (passage : Passage) (hrest : Opens rest) :
    pieces? (passage.written ++ rest) = (pieces? rest).map (passage.pieces ++ ·) := by
  have hbracket : '<' ∉ passage.written := by
    intro hmem
    exact absurd (passage.spells.ordinary _ hmem).2 (by decide)
  unfold Passage.pieces
  by_cases hne : passage.written = []
  · rw [if_pos hne, hne]
    simp only [List.nil_append, Option.map_id']
  · rw [if_neg hne, pieces?_text hne hbracket hrest]
    rfl

theorem StartTag.pieces?_inside (tag : StartTag) (rest : List Char) :
    pieces? ('<' :: (tag.inside ++ '>' :: rest)) = (pieces? rest).map (.tag tag.inside :: ·) := by
  rcases tag.exists_inside_eq_cons with ⟨c, more, hinside, hc⟩
  exact pieces?_tag tag.passesTag ⟨c, more, hinside, ne_of_continuesName hc (by decide),
    ne_of_continuesName hc (by decide)⟩ rest

theorem StartTag.pieces?_inside_closed (tag : StartTag) (rest : List Char) :
    pieces? ('<' :: (tag.inside ++ '/' :: '>' :: rest)) =
      (pieces? rest).map (.tag (tag.inside ++ ['/']) :: ·) := by
  rcases tag.exists_inside_eq_cons with ⟨c, more, hinside, hc⟩
  have hclosed : PassesTag (tag.inside ++ ['/']) :=
    tag.passesTag.append (passesTag_singleton (by decide))
  have hcut := pieces?_tag hclosed ⟨c, more ++ ['/'], by rw [hinside, List.cons_append],
    ne_of_continuesName hc (by decide), ne_of_continuesName hc (by decide)⟩ rest
  rwa [List.append_assoc, List.singleton_append] at hcut

theorem StartTag.pieces?_finish (tag : StartTag) (rest : List Char) :
    pieces? ('<' :: '/' :: (tag.name ++ '>' :: rest)) =
      (pieces? rest).map (.tag ('/' :: tag.name) :: ·) := by
  have hslash : PassesTag ['/'] := passesTag_singleton (by decide)
  exact pieces?_tag (hslash.append (passesTag_of_isPlainName tag.plain))
    ⟨'/', tag.name, rfl, by decide, by decide⟩ rest

theorem Markup.opens (markup : Markup) (rest : List Char) : Opens (markup.written ++ rest) := by
  cases markup with
  | element tag content => exact opens_cons _
  | empty tag => exact opens_cons _

mutual

/-- An element is cut into its pieces, whatever stands behind it. -/
theorem Markup.pieces?_written : ∀ (markup : Markup) (rest : List Char),
    pieces? (markup.written ++ rest) = (pieces? rest).map (markup.pieces ++ ·)
  | .element tag content, rest => by
      simp only [Markup.written, List.cons_append, List.append_assoc, List.nil_append]
      rw [tag.pieces?_inside, Content.pieces?_written content (opens_cons _), tag.pieces?_finish]
      simp only [Option.map_map, Markup.pieces, List.cons_append, List.append_assoc,
        List.nil_append]
      rfl
  | .empty tag, rest => by
      simp only [Markup.written, List.cons_append, List.append_assoc, List.nil_append]
      exact tag.pieces?_inside_closed rest

/-- The content of an element is cut into its pieces, up to the markup behind it. -/
theorem Content.pieces?_written : ∀ (content : Content) {rest : List Char}, Opens rest →
    pieces? (content.written ++ rest) = (pieces? rest).map (content.pieces ++ ·)
  | .last passage, _, hrest => passage.pieces?_written hrest
  | .more passage first rest, after, hafter => by
      simp only [Content.written, List.append_assoc]
      rw [passage.pieces?_written (first.opens _), Markup.pieces?_written first,
        Content.pieces?_written rest hafter]
      simp only [Option.map_map, Content.pieces, List.append_assoc]
      rfl

end

end Cutting

section Reading

variable {reading : Reading} {inside : List Node}

/-- Nodes, in reverse, behind which a text is a node of its own. -/
def EndsApart (inside : List Node) : Prop := ∀ content rest, inside ≠ .text content :: rest

theorem attach_of_endsApart (h : EndsApart inside) (node : Node) :
    attach node inside = node :: inside := by
  unfold attach
  split
  · next heq => exact absurd rfl (h _ _)
  · rfl

/-- The attributes of a tag are known to the reader and declare what may be declared. -/
theorem all_isDeclared (spaces : List (List Char)) (items : List Attribute) :
    (items.map Attribute.read).all
      (fun a => isDeclaredAttribute spaces a.1 && mayDeclare a.1 a.2) = true := by
  rw [List.all_map, List.all_eq_true]
  intro item _
  rw [Function.comp_apply, Attribute.read, item.mayDeclare, Bool.and_true]
  rfl

theorem Reading.tag_closed (tag : StartTag) :
    reading.tag (.start ⟨none, tag.name⟩ (tag.attributes.map Attribute.read) true) =
      reading.add (.element (String.ofList tag.name) []) := by
  simp only [Reading.tag, isDeclared, all_isDeclared, Bool.and_self, if_true]

/-- An element may begin inside another, or where there is none yet. -/
def Reading.Ready (reading : Reading) : Prop := reading.stack ≠ [] ∨ reading.root = none

theorem Reading.tag_open (tag : StartTag) (h : reading.Ready) :
    ∃ spaces, reading.tag (.start ⟨none, tag.name⟩ (tag.attributes.map Attribute.read) false) =
      some { reading with stack := ⟨⟨none, tag.name⟩, spaces, []⟩ :: reading.stack } := by
  have hroom : (reading.stack.isEmpty && reading.root.isSome) = false := by
    rcases h with hstack | hroot
    · rw [List.isEmpty_eq_false_iff.mpr hstack, Bool.false_and]
    · rw [hroot, Option.isSome_none, Bool.and_false]
  simp only [Reading.tag, isDeclared, all_isDeclared, Bool.and_self, if_true, Bool.false_eq_true,
    if_false, hroom]
  exact ⟨_, rfl⟩

theorem Reading.tag_finish (top : Open) (below : List Open) (root : Option Node) :
    Reading.tag ⟨top :: below, root⟩ (.finish top.name) =
      Reading.add ⟨below, root⟩ (.element (String.ofList top.name.local') top.inside.reverse) := by
  simp only [Reading.tag, if_true]

theorem Reading.step_text (passage : Passage) (top : Open) (below : List Open)
    (root : Option Node) (h : EndsApart top.inside) :
    passage.pieces.foldlM Reading.step ⟨top :: below, root⟩ =
      some ⟨{ top with inside := passage.nodes.reverse ++ top.inside } :: below, root⟩ := by
  unfold Passage.pieces Passage.nodes
  by_cases hwritten : passage.written = []
  · rw [if_pos hwritten, if_pos (passage.spells.eq_nil_iff.mp hwritten)]
    rfl
  · rw [if_neg hwritten, if_neg fun hnil => hwritten (passage.spells.eq_nil_iff.mpr hnil)]
    simp only [List.foldlM_cons, List.foldlM_nil, Reading.step, passage.unended,
      Bool.false_eq_true, if_false, List.isEmpty_cons,
      resolve?_of_spells (by decide) passage.spells,
      Option.bind_some, Reading.add, attach_of_endsApart h]
    rfl

theorem Markup.exists_node (markup : Markup) :
    ∃ name children, markup.node = .element name children := by
  cases markup with
  | element tag content => exact ⟨_, _, Markup.node.eq_1 tag content⟩
  | empty tag => exact ⟨_, _, Markup.node.eq_2 tag⟩

theorem Reading.add_markup (markup : Markup) (top : Open) (below : List Open)
    (root : Option Node) :
    Reading.add ⟨top :: below, root⟩ markup.node =
      some ⟨{ top with inside := markup.node :: top.inside } :: below, root⟩ := by
  rcases markup.exists_node with ⟨name, children, hnode⟩
  rw [hnode]
  rfl

mutual

/-- The pieces of an element are read as its node, where an element may stand. -/
theorem Markup.read_pieces : ∀ (markup : Markup) (reading : Reading), reading.Ready →
    markup.pieces.foldlM Reading.step reading = reading.add markup.node
  | .element tag content, reading, hready => by
      -- The element is open while its content is read, and its last tag closes it.
      rcases reading.tag_open tag hready with ⟨spaces, hopen⟩
      have hcontent := Content.read_pieces content ⟨⟨none, tag.name⟩, spaces, []⟩ reading.stack
        reading.root fun _ _ => (List.cons_ne_nil _ _).symm
      have hfinish := Reading.tag_finish ⟨⟨none, tag.name⟩, spaces, content.nodes.reverse⟩
        reading.stack reading.root
      rw [List.append_nil] at hcontent
      rw [List.reverse_reverse] at hfinish
      simp only [Markup.pieces, List.foldlM_cons, Reading.step, Tag.read?_inside,
        Option.bind_some, hopen, Option.bind_eq_bind, List.foldlM_append, hcontent,
        List.foldlM_nil, Tag.read?_finish, hfinish, Markup.node]
      exact Option.bind_fun_some _
  | .empty tag, reading, hready => by
      simp only [Markup.pieces, List.foldlM_cons, List.foldlM_nil, Reading.step,
        Tag.read?_inside_closed, Option.bind_some, Reading.tag_closed, Markup.node]
      exact Option.bind_fun_some _

/-- The pieces of a content are read as its nodes, behind those that are there. -/
theorem Content.read_pieces : ∀ (content : Content) (top : Open) (below : List Open)
    (root : Option Node), EndsApart top.inside →
    content.pieces.foldlM Reading.step ⟨top :: below, root⟩ =
      some ⟨{ top with inside := content.nodes.reverse ++ top.inside } :: below, root⟩
  | .last passage, top, below, root, h => Reading.step_text passage top below root h
  | .more passage first rest, top, below, root, h => by
      have hfirst := fun top => Markup.read_pieces first ⟨top :: below, root⟩
        (.inl (List.cons_ne_nil _ _))
      have hrest := fun top => Content.read_pieces rest top below root
      simp only [Content.pieces, List.foldlM_append, Reading.step_text passage top below root h,
        Option.bind_eq_bind, Option.bind_some, hfirst, Reading.add_markup]
      rw [hrest]
      · simp only [Content.nodes, List.reverse_append, List.reverse_cons, List.append_assoc,
          List.cons_append, List.nil_append]
      · -- The next text stands behind an element, so it is not joined to the one before.
        rcases first.exists_node with ⟨name, children, hnode⟩
        rw [hnode]
        intro content rest heq
        exact absurd (List.cons.inj heq).1 (by simp only [reduceCtorEq, not_false_eq_true])

end

end Reading

section Documents

/-- What the blanks around an element are cut into. -/
def blankPieces (blanks : List Char) : List Piece :=
  if blanks = [] then [] else [.text blanks]

theorem not_mem_of_isBlank {blanks : List Char} {c : Char} (h : blanks.all isBlank = true)
    (hc : isBlank c = false) : c ∉ blanks := by
  intro hmem
  exact absurd (List.all_eq_true.mp h c hmem) (Bool.eq_false_iff.mp hc)

theorem pieces?_blanks {blanks rest : List Char} (h : blanks.all isBlank = true)
    (hrest : Opens rest) :
    pieces? (blanks ++ rest) = (pieces? rest).map (blankPieces blanks ++ ·) := by
  unfold blankPieces
  by_cases hne : blanks = []
  · rw [if_pos hne, hne]
    simp only [List.nil_append, Option.map_id']
  · rw [if_neg hne, pieces?_text hne (not_mem_of_isBlank h (by decide)) hrest]
    rfl

/-- Blanks around the element that holds a document are passed over. -/
theorem Reading.step_blanks {blanks : List Char} (h : blanks.all isBlank = true)
    (root : Option Node) :
    (blankPieces blanks).foldlM Reading.step ⟨[], root⟩ = some ⟨[], root⟩ := by
  have hspace : blanks.all isSpace = true := by
    refine List.all_eq_true.mpr fun c hc => ?_
    have hblank := List.all_eq_true.mp h c hc
    simp only [isBlank, Bool.or_eq_true] at hblank
    simp only [isSpace, hblank, Bool.or_eq_true, true_or]
  have hbracket : '>' ∉ blanks := not_mem_of_isBlank h (by decide)
  have hend : Text.occursIn [']', ']', '>'] blanks = false :=
    Text.occursIn_of_not_mem (by decide) hbracket
  unfold blankPieces
  split
  · rfl
  · simp only [List.foldlM_cons, List.foldlM_nil, Reading.step, hend, Bool.false_eq_true, if_false,
      List.isEmpty_nil, if_true, hspace, Option.bind_eq_bind, Option.bind_some, Option.pure_def]

/-- What stands in the declaration of a document. -/
def declarationInside : List Char := "xml version=\"1.0\" encoding=\"UTF-8\"".toList

theorem pieces?_declaration (rest : List Char) :
    pieces? (declaration ++ rest) = (pieces? rest).map (.instruction declarationInside :: ·) :=
  pieces?_of_cutPiece rfl

/-- What a document is cut into. -/
def Document.pieces (document : Document) : List Piece :=
  (if document.isDeclared then [.instruction declarationInside] else []) ++
    (blankPieces document.before ++ (document.root.pieces ++ blankPieces document.after))

theorem Document.pieces?_written (document : Document) :
    pieces? document.written = some document.pieces := by
  have hafter : pieces? document.after = some (blankPieces document.after) := by
    have hblanks := pieces?_blanks document.blank_after opens_nil
    rwa [List.append_nil, pieces?, Option.map_some, List.append_nil] at hblanks
  have hroot : pieces? (document.before ++ (document.root.written ++ document.after)) =
      some (blankPieces document.before ++
        (document.root.pieces ++ blankPieces document.after)) := by
    rw [pieces?_blanks document.blank_before (document.root.opens _),
      document.root.pieces?_written, hafter, Option.map_some, Option.map_some]
  unfold Document.written Document.pieces
  by_cases hdeclared : document.isDeclared = true
  · rw [if_pos hdeclared, if_pos hdeclared, pieces?_declaration, hroot]
    rfl
  · rw [if_neg hdeclared, if_neg hdeclared, List.nil_append, hroot, List.nil_append]

theorem Document.head_written {document : Document} {c : Char} {rest : List Char}
    (h : document.written = c :: rest) : c = '<' ∨ isBlank c = true := by
  unfold Document.written at h
  by_cases hdeclared : document.isDeclared = true
  · rw [if_pos hdeclared] at h
    exact .inl (List.cons.inj h).1.symm
  · rw [if_neg hdeclared, List.nil_append] at h
    cases hbefore : document.before with
    | nil =>
        rw [hbefore, List.nil_append] at h
        refine .inl (document.root.opens document.after c ?_)
        rw [h, List.head?_cons]
    | cons d blanks =>
        rw [hbefore, List.cons_append] at h
        have hblank := List.all_eq_true.mp document.blank_before d (hbefore ▸ List.mem_cons_self)
        exact .inr ((List.cons.inj h).1 ▸ hblank)

/-- The declaration is passed over, and nothing else. -/
theorem Document.withoutDeclaration_pieces (document : Document) :
    withoutDeclaration document.pieces =
      blankPieces document.before ++ (document.root.pieces ++ blankPieces document.after) := by
  unfold Document.pieces
  by_cases hdeclared : document.isDeclared = true
  · rw [if_pos hdeclared]
    rfl
  · rw [if_neg hdeclared, List.nil_append]
    unfold blankPieces
    by_cases hbefore : document.before = []
    · rw [if_pos hbefore, List.nil_append]
      cases hroot : document.root with
      | element tag content => rw [Markup.pieces]; rfl
      | empty tag => rw [Markup.pieces]; rfl
    · rw [if_neg hbefore]
      rfl

/-- A document is read as the node of the element that holds it. -/
theorem Document.read?_text (document : Document) :
    read? document.text = some document.root.node := by
  have hmark : withoutMark document.text.toList = document.written := by
    rw [Document.text, String.toList_ofList]
    cases hwritten : document.written with
    | nil => rfl
    | cons c rest =>
        refine if_neg ?_
        rintro rfl
        exact absurd (document.head_written hwritten) (by decide)
  have hallowed : document.written.all (fun c => isAllowed c.toNat) = true := by
    refine List.all_eq_true.mpr fun c hc => ?_
    exact (Bool.and_eq_true_iff.mp (document.isVerbatim_of_mem c hc)).1
  have hroot : document.root.pieces.foldlM Reading.step ⟨[], none⟩ =
      some ⟨[], some document.root.node⟩ := by
    rcases document.root.exists_node with ⟨name, children, hnode⟩
    rw [document.root.read_pieces _ (.inr rfl), hnode]
    rfl
  simp only [read?, hmark, hallowed, if_true, normalLines_of_isVerbatim document.isVerbatim_of_mem,
    document.pieces?_written, Option.bind_some, document.withoutDeclaration_pieces,
    List.foldlM_append, Reading.step_blanks document.blank_before, hroot,
    Reading.step_blanks document.blank_after, Option.bind_eq_bind]
  rfl

end Documents

end Xml

end BatchRun
