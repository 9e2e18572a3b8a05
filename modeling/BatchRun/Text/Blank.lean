import BatchRun.Text.Split

/-!
# Blank Characters

Trimming and splitting text at white space.

Everything a user types, be it a parameter, a setting or a URI, is trimmed
before it is looked at, and arguments are split at white space. White space
means the Unicode property of that name: twenty-five characters, from the tab
to the ideographic space. The function on `Char` that core calls `isWhitespace`
knows four of them, so the table is written out here.

## Main definitions

* `isBlank`: The Unicode property `White_Space`.
* `trim`: A text without its surrounding white space.
* `words`: The maximal runs of a text that hold no white space.
* `given`: A trimmed text, where a blank one counts as absent.

## Theorems

* `isBlank_of_isWhitespace`: What core calls white space is white space.
-/

namespace BatchRun

namespace Text

/-- The characters with the Unicode property `White_Space`. -/
def blanks : List Char :=
  ['\u0009', '\u000a', '\u000b', '\u000c', '\u000d', '\u0020', '\u0085', '\u00a0', '\u1680',
    '\u2000', '\u2001', '\u2002', '\u2003', '\u2004', '\u2005', '\u2006', '\u2007', '\u2008',
    '\u2009', '\u200a', '\u2028', '\u2029', '\u202f', '\u205f', '\u3000']

/-- Whether a character is white space. -/
def isBlank (c : Char) : Bool :=
  blanks.contains c

/-- A text without its surrounding white space. -/
def trim (text : String) : String :=
  String.ofList (trimWhere isBlank text.toList)

/-- The maximal runs of a text that hold no white space. The cut at every
    blank leaves an empty piece wherever two of them meet, and those are no
    runs. -/
def words (text : String) : List String :=
  ((splitWhere isBlank text.toList).filter (!·.isEmpty)).map String.ofList

/-- A value that counts as given: trimmed, and absent when nothing is left. -/
def given (text : String) : Option String :=
  let trimmed := trim text
  if trimmed.isEmpty then none else some trimmed

/-- What core calls white space is white space here too. -/
theorem isBlank_of_isWhitespace {c : Char} (h : c.isWhitespace = true) : isBlank c = true := by
  simp only [Char.isWhitespace, Bool.or_eq_true, decide_eq_true_eq] at h
  rcases h with ((rfl | rfl) | rfl) | rfl <;> decide

end Text

end BatchRun
