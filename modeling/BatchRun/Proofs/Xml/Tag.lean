import BatchRun.Proofs.Text.Trim
import BatchRun.Proofs.Xml.Document

/-!
# Tags Cut and Read

A tag that was written is cut where it ends and read as what it says.

A name has nothing that a tag could end with, and a value that has it stands in
quotes; so the cut is behind the whole tag, whatever follows. Each attribute is read
on its own: the space before it ends what stands there, and the quote behind its
value is the first one.

## Main definitions

* `Xml.PassesTag`: What belongs to a tag as a whole, wherever in the tag it stands.
* `Xml.Attribute.read`: What an attribute says.

## Theorems

* `Xml.StartTag.passesTag`, `Xml.cutTag_of_passesTag`: A tag is cut behind its inside.
* `Xml.attributes?_written`: The attributes of a tag are read.
* `Xml.Tag.read?_inside`, `Xml.Tag.read?_inside_closed`, `Xml.Tag.read?_finish`: What a
  tag says.
-/

namespace BatchRun

namespace Xml

section Cut

variable {front back : List Char}

/-- What belongs to a tag as a whole, whatever follows in the tag. -/
def PassesTag (front : List Char) : Prop :=
  ∀ rest, cutTag none (front ++ rest) =
    (cutTag none rest).map fun cut => (front ++ cut.1, cut.2)

theorem passesTag_nil : PassesTag [] := by
  intro rest
  simp only [List.nil_append, Prod.eta, Option.map_id']

theorem PassesTag.append (hfront : PassesTag front) (hback : PassesTag back) :
    PassesTag (front ++ back) := by
  intro rest
  rw [List.append_assoc, hfront, hback, Option.map_map]
  refine congrArg (Option.map · _) (funext fun cut => ?_)
  simp only [Function.comp_apply, List.append_assoc]

theorem PassesTag.flatten {parts : List (List Char)} (h : ∀ part ∈ parts, PassesTag part) :
    PassesTag parts.flatten := by
  induction parts with
  | nil => exact passesTag_nil
  | cons part rest ih =>
      rw [List.forall_mem_cons] at h
      exact h.1.append (ih h.2)

/-- A character without a meaning to the cut. -/
theorem passesTag_singleton {c : Char} (h : c ≠ '<' ∧ c ≠ '>' ∧ c ≠ '"' ∧ c ≠ '\'') :
    PassesTag [c] := by
  intro rest
  have hquote : ¬(c = '"' ∨ c = '\'') := not_or.mpr h.2.2
  simp only [List.cons_append, List.nil_append, cutTag, if_neg h.1, Option.isNone_none,
    Bool.true_and, decide_eq_true_eq, if_neg h.2.1, Bool.or_eq_true, if_neg hquote]

theorem passesTag_of_forall
    (h : ∀ c ∈ front, c ≠ '<' ∧ c ≠ '>' ∧ c ≠ '"' ∧ c ≠ '\'') : PassesTag front := by
  induction front with
  | nil => exact passesTag_nil
  | cons c front ih =>
      rw [List.forall_mem_cons] at h
      exact (passesTag_singleton h.1).append (ih h.2)

theorem passesTag_of_isPlainName (h : isPlainName front = true) : PassesTag front := by
  refine passesTag_of_forall fun c hc => ?_
  have hname := continuesName_of_mem h c hc
  exact ⟨ne_of_continuesName hname (by decide), ne_of_continuesName hname (by decide),
    ne_of_continuesName hname (by decide), ne_of_continuesName hname (by decide)⟩

/-- In quotes the cut looks only for the quote, and for what may stand nowhere. -/
theorem cutTag_quoted {value : List Char} (h : ∀ c ∈ value, c ≠ '<' ∧ c ≠ '"')
    (rest : List Char) :
    cutTag (some '"') (value ++ '"' :: rest) =
      (cutTag none rest).map fun cut => (value ++ '"' :: cut.1, cut.2) := by
  induction value with
  | nil => rfl
  | cons c value ih =>
      rw [List.forall_mem_cons] at h
      simp only [List.cons_append, cutTag, if_neg h.1.1, Option.isNone_some, Bool.false_and,
        Bool.false_eq_true, if_false, if_neg h.1.2, ih h.2, Option.map_map]
      rfl

theorem ne_of_spells_value {value quoted : List Char} (h : Spells marksValue value quoted) :
    ∀ c ∈ quoted, c ≠ '<' ∧ c ≠ '"' := by
  intro c hc
  have hplain := (h.ordinary c hc).2
  constructor
  · rintro rfl
    exact absurd hplain (by decide)
  · rintro rfl
    exact absurd hplain (by decide)

theorem Attribute.passesTag (item : Attribute) : PassesTag item.written := by
  have hvalue : PassesTag ('"' :: (item.quoted ++ ['"'])) := by
    intro rest
    have hquote : cutTag none ('"' :: (item.quoted ++ '"' :: rest)) =
        (cutTag (some '"') (item.quoted ++ '"' :: rest)).map fun cut => ('"' :: cut.1, cut.2) :=
      rfl
    rw [List.cons_append, List.append_assoc, List.singleton_append, hquote,
      cutTag_quoted (ne_of_spells_value item.spells) rest, Option.map_map]
    refine congrArg (Option.map · _) (funext fun cut => ?_)
    simp only [Function.comp_apply, List.cons_append, List.append_assoc, List.nil_append]
  have hspace : PassesTag [' '] := passesTag_singleton (by decide)
  have hequal : PassesTag ['='] := passesTag_singleton (by decide)
  exact hspace.append ((passesTag_of_isPlainName item.plain).append (hequal.append hvalue))

theorem StartTag.passesTag (tag : StartTag) : PassesTag tag.inside := by
  refine (passesTag_of_isPlainName tag.plain).append ?_
  rw [List.flatMap_def]
  refine PassesTag.flatten fun part hpart => ?_
  rcases List.mem_map.mp hpart with ⟨item, _, rfl⟩
  exact item.passesTag

/-- A tag is cut behind its inside. -/
theorem cutTag_of_passesTag {inside : List Char} (h : PassesTag inside) (rest : List Char) :
    cutTag none (inside ++ '>' :: rest) = some (inside, rest) := by
  have hend : cutTag none ('>' :: rest) = some ([], rest) := rfl
  rw [h, hend, Option.map_some, List.append_nil]

end Cut

section Names

variable {name back : List Char}

theorem readName_of_isPlainName (h : isPlainName name = true) :
    QName.read? name = some ⟨none, name⟩ := by
  have hcolon : ':' ∉ name := fun hmem =>
    ne_of_continuesName (continuesName_of_mem h _ hmem) (by decide) rfl
  rw [QName.read?, Text.splitOn_of_not_mem hcolon]
  simp only [h, if_true]

/-- A name is taken up to what stops it. -/
theorem takeName_append (h : isPlainName name = true)
    (hback : ∀ c, back.head? = some c → continuesQName c = false) :
    (name ++ back).takeWhile continuesQName = name := by
  refine Text.takeWhile_append_of_head (fun c hc => ?_) hback
  rw [continuesQName, continuesName_of_mem h c hc, Bool.true_or]

theorem isSpace_of_mem (h : isPlainName name = true) : ∀ c ∈ name, isSpace c = false := by
  intro c hc
  have hne : ∀ {d : Char}, continuesName d = false → c ≠ d :=
    ne_of_continuesName (continuesName_of_mem h c hc)
  simp only [isSpace, Bool.or_eq_false_iff, beq_eq_false_iff_ne]
  exact ⟨⟨⟨hne (by decide), hne (by decide)⟩, hne (by decide)⟩, hne (by decide)⟩

theorem dropSpace_of_isPlainName (h : isPlainName name = true) (back : List Char) :
    (name ++ back).dropWhile isSpace = name ++ back := by
  refine Text.dropWhile_of_head fun c hc => ?_
  rw [List.head?_append, List.head?_eq_some_head (ne_nil_of_isPlainName h), Option.some_or,
    Option.some.injEq] at hc
  exact isSpace_of_mem h c (hc ▸ List.head_mem _)

end Names

section Attributes

/-- What an attribute says. -/
def Attribute.read (item : Attribute) : QName × List Char := (⟨none, item.name⟩, item.value)

theorem cutValue_quoted (item : Attribute) (rest : List Char) :
    cutValue ('"' :: (item.quoted ++ '"' :: rest)) = some (item.value, rest) := by
  have hquote : '"' ∉ item.quoted := fun hmem => (ne_of_spells_value item.spells _ hmem).2 rfl
  have hvalue := resolve?_of_spells (by decide) item.spells
  simp only [cutValue, decide_true, Bool.true_or, if_true, Text.cutAtFirst_append_cons hquote,
    Option.bind_some, hvalue, Option.map_some]

theorem cutAttribute_written (item : Attribute) (rest : List Char) :
    cutAttribute (item.name ++ '=' :: '"' :: (item.quoted ++ '"' :: rest)) =
      some (item.read, rest) := by
  have hstop : ∀ c, ('=' :: '"' :: (item.quoted ++ '"' :: rest)).head? = some c →
      continuesQName c = false := by
    intro c hc
    rw [List.head?_cons, Option.some.injEq] at hc
    exact hc ▸ (by decide)
  have hname := takeName_append item.plain hstop
  have hequal : ('=' :: '"' :: (item.quoted ++ '"' :: rest)).dropWhile isSpace =
      '=' :: '"' :: (item.quoted ++ '"' :: rest) := rfl
  have hvalue : ('"' :: (item.quoted ++ '"' :: rest)).dropWhile isSpace =
      '"' :: (item.quoted ++ '"' :: rest) := rfl
  simp only [cutAttribute, hname, List.drop_left, hequal, if_true, hvalue, cutValue_quoted,
    readName_of_isPlainName item.plain, Option.bind_some, Option.map_some, Attribute.read]

theorem attributes?_cons (item : Attribute) (fuel : Nat) (rest : List Char) :
    attributes? (fuel + 1) (item.written ++ rest) =
      (attributes? fuel rest).map (item.read :: ·) := by
  have hwritten : item.written ++ rest =
      ' ' :: (item.name ++ '=' :: '"' :: (item.quoted ++ '"' :: rest)) := by
    simp only [Attribute.written, List.cons_append, List.append_assoc, List.nil_append]
  have hdrop : (item.written ++ rest).dropWhile isSpace =
      item.name ++ '=' :: '"' :: (item.quoted ++ '"' :: rest) := by
    rw [hwritten, List.dropWhile_cons_of_pos (by decide), dropSpace_of_isPlainName item.plain]
  have htake : ((item.written ++ rest).takeWhile isSpace).isEmpty = false := by
    rw [hwritten, List.takeWhile_cons_of_pos (by decide), List.isEmpty_cons]
  have hall : (item.written ++ rest).all isSpace = false := by
    rw [hwritten, List.all_eq_false]
    exact ⟨'=', List.mem_cons_of_mem _ (List.mem_append_right _ List.mem_cons_self), by decide⟩
  -- Behind the space that sets it off, the attribute is cut from what follows.
  rw [attributes?, hall, if_neg Bool.false_ne_true, htake, if_neg Bool.false_ne_true, hdrop,
    cutAttribute_written, Option.bind_some]

/-- The attributes of a tag are read, with fuel to spare. -/
theorem attributes?_written (items : List Attribute) {fuel : Nat} (h : items.length < fuel) :
    attributes? fuel (items.flatMap Attribute.written) = some (items.map Attribute.read) := by
  induction items generalizing fuel with
  | nil =>
      cases fuel with
      | zero => exact absurd h (Nat.not_lt_zero _)
      | succ fuel => rfl
  | cons item items ih =>
      cases fuel with
      | zero => exact absurd h (Nat.not_lt_zero _)
      | succ fuel =>
          rw [List.flatMap_cons, attributes?_cons, ih (Nat.lt_of_succ_lt_succ h), Option.map_some,
            List.map_cons]

theorem eraseDups_of_nodup {α : Type} [BEq α] [LawfulBEq α] {items : List α} (h : items.Nodup) :
    items.eraseDups = items := by
  induction items with
  | nil => rfl
  | cons x rest ih =>
      rw [List.nodup_cons] at h
      have hrest : rest.filter (fun y => !y == x) = rest := by
        refine List.filter_eq_self.mpr fun y hy => ?_
        have hne : y ≠ x := fun heq => h.1 (heq ▸ hy)
        rw [beq_eq_false_iff_ne.mpr hne, Bool.not_false]
      rw [List.eraseDups_cons, hrest, ih h.2]

end Attributes

section Tags

variable (tag : StartTag)

/-- A tag begins with its name. -/
theorem StartTag.exists_inside_eq_cons :
    ∃ c rest, tag.inside = c :: rest ∧ continuesName c = true := by
  rcases List.exists_cons_of_ne_nil (ne_nil_of_isPlainName tag.plain) with ⟨c, rest, hname⟩
  refine ⟨c, rest ++ tag.attributes.flatMap Attribute.written, ?_, ?_⟩
  · rw [StartTag.inside, hname, List.cons_append]
  · exact continuesName_of_mem tag.plain c (hname ▸ List.mem_cons_self)

/-- What a tag ends with is the end of its name or a quote. -/
theorem StartTag.ne_of_getLast? {c : Char} (h : tag.inside.getLast? = some c) : c ≠ '/' := by
  rw [StartTag.inside] at h
  cases hitems : tag.attributes.getLast? with
  | none =>
      rw [List.getLast?_eq_none_iff.mp hitems, List.flatMap_nil, List.append_nil] at h
      exact ne_of_continuesName (continuesName_of_mem tag.plain c (List.mem_of_getLast? h))
        (by decide)
  | some item =>
      rcases List.getLast?_eq_some_iff.mp hitems with ⟨front, hfront⟩
      have hwritten : item.written =
          (' ' :: (item.name ++ '=' :: '"' :: item.quoted)) ++ ['"'] := by
        simp only [Attribute.written, List.cons_append, List.append_assoc]
      rw [hfront, List.flatMap_append, List.flatMap_singleton, hwritten, ← List.append_assoc,
        ← List.append_assoc, List.getLast?_concat, Option.some.injEq] at h
      exact h ▸ (by decide)

theorem length_attributes_le : ∀ (items : List Attribute),
    items.length ≤ (items.flatMap Attribute.written).length
  | [] => Nat.zero_le _
  | item :: items => by
      have hle := length_attributes_le items
      rw [List.flatMap_cons, List.length_append, Attribute.written, List.length_cons,
        List.length_cons]
      omega

theorem StartTag.takeName_inside : tag.inside.takeWhile continuesQName = tag.name := by
  refine takeName_append tag.plain fun c hc => ?_
  cases hitems : tag.attributes with
  | nil =>
      rw [hitems] at hc
      exact absurd hc (by simp only [List.flatMap_nil, List.head?_nil, reduceCtorEq,
        not_false_eq_true])
  | cons item items =>
      rw [hitems, List.flatMap_cons, Attribute.written, List.cons_append, List.head?_cons,
        Option.some.injEq] at hc
      exact hc ▸ (by decide)

theorem nodup_read : (tag.attributes.map fun item => item.read.1).Nodup := by
  refine List.pairwise_map.mpr ((List.pairwise_map.mp tag.distinct).imp fun hne heq => ?_)
  exact hne (congrArg QName.local' heq)

/-- What stands in a tag says the name and the attributes that were written, and whether
    it is the only tag of its element. -/
theorem Tag.read?_of_inside {text : List Char} {closed : Bool}
    (hstart : ∀ rest, text ≠ '/' :: rest) (hclosed : decide (text.getLast? = some '/') = closed)
    (hbody : (if closed then text.dropLast else text) = tag.inside) :
    Tag.read? text =
      some (.start ⟨none, tag.name⟩ (tag.attributes.map Attribute.read) closed) := by
  have hfuel : tag.attributes.length < tag.inside.length + 1 := by
    have hle := length_attributes_le tag.attributes
    rw [StartTag.inside, List.length_append]
    omega
  -- The name ends where the first attribute is set off, or the tag ends.
  have hdrop : tag.inside.drop tag.name.length = tag.attributes.flatMap Attribute.written :=
    List.drop_left
  have hdistinct : ((tag.attributes.map Attribute.read).map (·.1)).eraseDups.length =
      (tag.attributes.map Attribute.read).length := by
    rw [List.map_map, List.length_map]
    exact (congrArg List.length (eraseDups_of_nodup (nodup_read tag))).trans (List.length_map _)
  unfold Tag.read?
  split
  · next rest => exact absurd rfl (hstart rest)
  · subst hclosed
    simp only [decide_eq_true_eq] at hbody
    simp only [hbody, tag.takeName_inside, readName_of_isPlainName tag.plain, hdrop,
      attributes?_written _ hfuel, if_pos hdistinct]

theorem Tag.read?_inside : Tag.read? tag.inside =
    some (.start ⟨none, tag.name⟩ (tag.attributes.map Attribute.read) false) := by
  rcases tag.exists_inside_eq_cons with ⟨c, rest, hinside, hc⟩
  refine Tag.read?_of_inside tag ?_ (decide_eq_false fun hlast => tag.ne_of_getLast? hlast rfl) rfl
  intro rest h
  rw [hinside] at h
  exact ne_of_continuesName hc (by decide) (List.cons.inj h).1

theorem Tag.read?_inside_closed : Tag.read? (tag.inside ++ ['/']) =
    some (.start ⟨none, tag.name⟩ (tag.attributes.map Attribute.read) true) := by
  rcases tag.exists_inside_eq_cons with ⟨c, rest, hinside, hc⟩
  refine Tag.read?_of_inside tag ?_ (decide_eq_true List.getLast?_concat) List.dropLast_concat
  intro rest h
  rw [hinside, List.cons_append] at h
  exact ne_of_continuesName hc (by decide) (List.cons.inj h).1

theorem Tag.read?_finish : Tag.read? ('/' :: tag.name) = some (.finish ⟨none, tag.name⟩) := by
  have hspace := isSpace_of_mem tag.plain
  have hhead : (tag.name.head?.map isSpace).getD true = false := by
    rcases List.exists_cons_of_ne_nil (ne_nil_of_isPlainName tag.plain) with ⟨c, rest, hname⟩
    rw [hname, List.head?_cons, Option.map_some, Option.getD_some]
    exact hspace c (hname ▸ List.mem_cons_self)
  simp only [Tag.read?, Text.trimWhere_of_forall hspace, readName_of_isPlainName tag.plain,
    Option.bind_some, hhead, Bool.false_eq_true, if_false]

end Tags

end Xml

end BatchRun
