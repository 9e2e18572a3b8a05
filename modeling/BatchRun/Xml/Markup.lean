import BatchRun.Text.Percent
import BatchRun.Text.Split

/-!
# XML Markup

An XML text cut into its pieces.

A piece is a stretch of text, a tag, a comment, a section of uninterpreted text
or a processing instruction. What a tag says is read apart from where it stands.
A document type is no piece: documents that declare one are refused.

References stand for characters. The five names that every document knows and
the codes of allowed characters are replaced; any other reference is an error.

## Main definitions

* `Xml.Piece`: A piece of a text.
* `Xml.pieces?`: The pieces of a text.
* `Xml.resolve?`: A text with its references replaced.
* `Xml.Tag`, `Xml.Tag.read?`: What a tag says.
-/

namespace BatchRun

namespace Xml

/-- A piece of an XML text, without the marks around it. -/
inductive Piece where
  | text (content : List Char)
  | tag (inside : List Char)
  | comment (inside : List Char)
  | section (content : List Char)
  | instruction (inside : List Char)
  deriving DecidableEq, Repr

/-- The white space of markup. -/
def isSpace (c : Char) : Bool := c == ' ' || c == '\t' || c == '\n' || c == '\r'

/-- The characters that a document may hold. -/
def isAllowed (code : Nat) : Bool :=
  code == 0x9 || code == 0xA || code == 0xD || (0x20 ≤ code && code ≤ 0xD7FF) ||
    (0xE000 ≤ code && code ≤ 0xFFFD) || (0x10000 ≤ code && code ≤ 0x10FFFF)

/-- The characters that may begin a name, the colon apart. -/
def beginsName (c : Char) : Bool :=
  let within := fun (low high : Nat) => low ≤ c.toNat && c.toNat ≤ high
  c == '_' || within 0x41 0x5A || within 0x61 0x7A || within 0xC0 0xD6 || within 0xD8 0xF6 ||
    within 0xF8 0x2FF || within 0x370 0x37D || within 0x37F 0x1FFF || within 0x200C 0x200D ||
    within 0x2070 0x218F || within 0x2C00 0x2FEF || within 0x3001 0xD7FF ||
    within 0xF900 0xFDCF || within 0xFDF0 0xFFFD || within 0x10000 0xEFFFF

/-- The characters that may stand in a name, the colon apart. -/
def continuesName (c : Char) : Bool :=
  let within := fun (low high : Nat) => low ≤ c.toNat && c.toNat ≤ high
  beginsName c || c == '-' || c == '.' || within 0x30 0x39 || within 0xB7 0xB7 ||
    within 0x300 0x36F || within 0x203F 0x2040

/-- Whether some characters are a name without a colon. -/
def isPlainName : List Char → Bool
  | [] => false
  | c :: rest => beginsName c && rest.all continuesName

/-- A text in which every line ends with a line feed alone. -/
def normalLines : List Char → List Char
  | '\r' :: '\n' :: rest => '\n' :: normalLines rest
  | '\r' :: rest => '\n' :: normalLines rest
  | c :: rest => c :: normalLines rest
  | [] => []

/-- The inside of a tag and what follows it. A closing bracket in quotes does
    not end a tag, and an opening one may stand nowhere in it. -/
def cutTag : Option Char → List Char → Option (List Char × List Char)
  | _, [] => none
  | quote, c :: rest =>
    if c = '<' then none
    else if quote.isNone && c = '>' then some ([], rest)
    else
      let next := match quote with
        | some q => if c = q then none else some q
        | none => if c = '"' || c = '\'' then some c else none
      (cutTag next rest).map fun (inside, after) => (c :: inside, after)

/-- What follows a tag is shorter than the text it was cut from. -/
theorem length_of_cutTag {quote : Option Char} {text inside after : List Char}
    (h : cutTag quote text = some (inside, after)) : after.length < text.length := by
  induction text generalizing quote inside with
  | nil => simp [cutTag] at h
  | cons c rest ih =>
    simp only [cutTag] at h
    split at h
    · simp at h
    · split at h
      · simp only [Option.some.injEq, Prod.mk.injEq] at h
        simp [h.2]
      · simp only [Option.map_eq_some_iff] at h
        obtain ⟨cut, hc, hcut⟩ := h
        have ha : cut.2 = after := by simpa using congrArg Prod.snd hcut
        have := ih (hc.trans (congrArg some (show cut = (cut.1, after) from Prod.ext rfl ha)))
        simp only [List.length_cons]
        omega

/-- The first piece of a text and what follows it. -/
def cutPiece (text : List Char) : Option (Piece × List Char) :=
  match text with
  | [] => none
  | '<' :: '!' :: rest =>
    match Text.afterStart ['-', '-'] rest with
    | some rest => (Text.cutAtSequence ['-', '-', '>'] rest).map fun (inside, after) =>
        (.comment inside, after)
    | none =>
      match Text.afterStart ['[', 'C', 'D', 'A', 'T', 'A', '['] rest with
      | some rest => (Text.cutAtSequence [']', ']', '>'] rest).map fun (content, after) =>
          (.section content, after)
      | none => none
  | '<' :: '?' :: rest =>
    (Text.cutAtSequence ['?', '>'] rest).map fun (inside, after) => (.instruction inside, after)
  | '<' :: rest => (cutTag none rest).map fun (inside, after) => (.tag inside, after)
  | c :: rest =>
    some (.text (c :: rest.takeWhile (· != '<')), rest.dropWhile (· != '<'))

/-- What follows a piece is shorter than the text it was cut from. -/
theorem length_of_cutPiece {text after : List Char} {piece : Piece}
    (h : cutPiece text = some (piece, after)) : after.length < text.length := by
  unfold cutPiece at h
  split at h
  · simp at h
  · next rest =>
    split at h
    · next cut hcut =>
      simp only [Option.map_eq_some_iff] at h
      obtain ⟨parts, hp, h⟩ := h
      have h₁ := congrArg List.length (Text.eq_of_afterStart hcut)
      have h₂ := congrArg List.length (Text.eq_of_cutAtSequence hp)
      have h₃ : parts.2 = after := congrArg Prod.snd h
      simp only [List.length_append, List.length_cons, h₃] at h₁ h₂ ⊢
      omega
    · split at h
      · next cut hcut =>
        simp only [Option.map_eq_some_iff] at h
        obtain ⟨parts, hp, h⟩ := h
        have h₁ := congrArg List.length (Text.eq_of_afterStart hcut)
        have h₂ := congrArg List.length (Text.eq_of_cutAtSequence hp)
        have h₃ : parts.2 = after := congrArg Prod.snd h
        simp only [List.length_append, List.length_cons, h₃] at h₁ h₂ ⊢
        omega
      · simp at h
  · next rest =>
    simp only [Option.map_eq_some_iff] at h
    obtain ⟨parts, hp, h⟩ := h
    have h₂ := congrArg List.length (Text.eq_of_cutAtSequence hp)
    have h₃ : parts.2 = after := congrArg Prod.snd h
    simp only [List.length_append, List.length_cons, h₃] at h₂ ⊢
    omega
  · simp only [Option.map_eq_some_iff] at h
    obtain ⟨parts, hp, h⟩ := h
    have h₂ := length_of_cutTag hp
    have h₃ : parts.2 = after := congrArg Prod.snd h
    simp only [List.length_cons, h₃] at h₂ ⊢
    omega
  · next c rest _ _ _ =>
    simp only [Option.some.injEq, Prod.mk.injEq] at h
    have h₁ : (rest.dropWhile (· != '<')).length ≤ rest.length :=
      (List.dropWhile_sublist _).length_le
    rw [← h.2]
    simp only [List.length_cons]
    omega

/-- The pieces of a text. -/
def pieces? (text : List Char) : Option (List Piece) :=
  match text with
  | [] => some []
  | c :: rest =>
    match _h : cutPiece (c :: rest) with
    | none => none
    | some (piece, after) => (pieces? after).map (piece :: ·)
  termination_by text.length
  decreasing_by exact length_of_cutPiece _h

/-- The character with a code of thirty-two bits, if a document may hold it. The
    replacement character stands for codes that no character has. -/
def ofCode (code : Option Nat) : Option Char :=
  code.bind fun n =>
    let isScalar := n < 0xD800 || (0xDFFF < n && n < 0x110000)
    let character := if isScalar then Char.ofNat n else '\uFFFD'
    if n < 0x100000000 && isAllowed character.toNat then some character else none

/-- The value of decimal digits. -/
def decimalCode (digits : List Char) : Option Nat :=
  if digits.isEmpty then none
  else digits.foldlM (fun n c => if c.isDigit then some (n * 10 + (c.toNat - 48)) else none) 0

/-- The value of hexadecimal digits. -/
def hexCode (digits : List Char) : Option Nat :=
  if digits.isEmpty then none
  else digits.foldlM (fun n c => (Hex.digitValue c).map fun d => n * 16 + d) 0

/-- The character that a reference stands for. -/
def referent (name : List Char) : Option Char :=
  match name with
  | ['l', 't'] => some '<'
  | ['g', 't'] => some '>'
  | ['a', 'm', 'p'] => some '&'
  | ['q', 'u', 'o', 't'] => some '"'
  | ['a', 'p', 'o', 's'] => some '\''
  | '#' :: 'x' :: digits => ofCode (hexCode digits)
  | '#' :: digits => ofCode (decimalCode digits)
  | _ => none

/-- A text with its references replaced. -/
def resolve? (text : List Char) : Option (List Char) :=
  match text with
  | [] => some []
  | c :: rest =>
    if c = '&' then
      match _h : Text.cutAtFirst ';' rest with
      | none => none
      | some (name, after) =>
        match referent name, resolve? after with
        | some r, some tail => some (r :: tail)
        | _, _ => none
    else (resolve? rest).map (c :: ·)
  termination_by text.length
  decreasing_by
    · have := congrArg List.length (Text.eq_of_cutAtFirst _h)
      simp only [List.length_append, List.length_cons] at this ⊢
      omega
    · simp

/-- The namespace mark before the colon of a name, if there is one, and the
    local name. -/
structure QName where
  space : Option (List Char)
  local' : List Char
  deriving DecidableEq, Repr

/-- The name that some characters are. -/
def QName.read? (text : List Char) : Option QName :=
  match Text.splitOn ':' text with
  | [name] => if isPlainName name then some ⟨none, name⟩ else none
  | [space, name] =>
    if isPlainName space && isPlainName name then some ⟨some space, name⟩ else none
  | _ => none

/-- What a tag says. -/
inductive Tag where
  | start (name : QName) (attributes : List (QName × List Char)) (closed : Bool)
  | finish (name : QName)
  deriving DecidableEq, Repr

/-- The characters that may stand in a name with a colon. -/
def continuesQName (c : Char) : Bool := continuesName c || c == ':'

/-- The value in quotes that some characters begin with, and what follows it. -/
def cutValue (text : List Char) : Option (List Char × List Char) :=
  match text with
  | [] => none
  | quote :: rest =>
    if quote = '"' || quote = '\'' then
      (Text.cutAtFirst quote rest).bind fun (raw, after) =>
        (resolve? raw).map fun value => (value, after)
    else none

/-- The attribute that some characters begin with, and what follows it. White
    space may stand around the equality sign. -/
def cutAttribute (text : List Char) : Option ((QName × List Char) × List Char) :=
  let raw := text.takeWhile continuesQName
  match (text.drop raw.length).dropWhile isSpace with
  | [] => none
  | c :: rest =>
    if c = '=' then
      (QName.read? raw).bind fun name =>
        (cutValue (rest.dropWhile isSpace)).map fun (value, after) => ((name, value), after)
    else none

/-- The attributes in the inside of a tag. Each is set off by white space and
    has its value in quotes; the fuel is the number of characters, of which an
    attribute takes several. -/
def attributes? : Nat → List Char → Option (List (QName × List Char))
  | 0, _ => none
  | fuel + 1, text =>
    if text.all isSpace then some []
    else if (text.takeWhile isSpace).isEmpty then none
    else
      (cutAttribute (text.dropWhile isSpace)).bind fun (item, after) =>
        (attributes? fuel after).map (item :: ·)

/-- What the inside of a tag says. No attribute may occur twice. -/
def Tag.read? (inside : List Char) : Option Tag :=
  match inside with
  | '/' :: rest =>
    (QName.read? (Text.trimWhere isSpace rest)).bind fun name =>
      if (rest.head?.map isSpace).getD true then none else some (.finish name)
  | _ =>
    let closed := inside.getLast? = some '/'
    let body := if closed then inside.dropLast else inside
    let raw := body.takeWhile continuesQName
    match QName.read? raw, attributes? (body.length + 1) (body.drop raw.length) with
    | some name, some attributes =>
      if (attributes.map (·.1)).eraseDups.length = attributes.length then
        some (.start name attributes closed)
      else none
    | _, _ => none

end Xml

end BatchRun
