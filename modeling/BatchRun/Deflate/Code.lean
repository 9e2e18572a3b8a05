import BatchRun.Deflate.Bits

/-!
# Prefix Codes

The codes of a compressed block, as trees.

A block tells only how long the code of each symbol is. The codes follow from
that: shorter codes come before longer ones, and among codes of one length the
lower symbol comes first. So the tree of a code is grown from the left, from
the list of symbols in that order, by putting the next symbol wherever its
length has been reached.

Lengths that want more room than there is do not make a code. Lengths that
leave room do so only if there is at most one symbol; reading the unused codes
then fails.

## Main definitions

* `Code`: A tree of codes.
* `Code.ofLengths?`: The code with given lengths.
* `Code.read`: The next symbol of a stream.
-/

namespace BatchRun

/-- A tree of codes. A zero bit goes to the left. -/
inductive Code where
  | unused
  | symbol (value : Nat)
  | branch (zero one : Code)
  deriving DecidableEq, Repr, Inhabited

namespace Code

/-- The longest code that a block may use. -/
def longest : Nat := 15

/-- The symbols that have a code, each behind the length of its code, in the
    order of the codes. -/
def ranked (lengths : List Nat) : List (Nat × Nat) :=
  (List.range longest).flatMap fun length =>
    lengths.zipIdx.filter fun entry => entry.1 = length + 1

/-- The tree below a node at some depth, and the symbols that are left when it
    is full. The first argument bounds how much deeper it may grow. -/
def grow : Nat → Nat → List (Nat × Nat) → Code × List (Nat × Nat)
  | _, _, [] => (unused, [])
  | 0, _, (_, value) :: rest => (symbol value, rest)
  | more + 1, depth, (length, value) :: rest =>
    if length ≤ depth then (symbol value, rest)
    else
      let (zero, rest) := grow more (depth + 1) ((length, value) :: rest)
      let (one, rest) := grow more (depth + 1) rest
      (branch zero one, rest)

/-- Whether every sequence of bits leads to a symbol. -/
def isComplete : Code → Bool
  | unused => false
  | symbol _ => true
  | branch zero one => zero.isComplete && one.isComplete

/-- The code with given lengths, of which zero stands for no code. -/
def ofLengths? (lengths : List Nat) : Option Code :=
  let symbols := ranked lengths
  let (code, left) := grow longest 0 symbols
  if symbols.length ≤ 1 || (left.isEmpty && code.isComplete) then some code else none

/-- The next symbol of a stream, and the bits behind it. -/
def read : Code → List Bool → Option (Nat × List Bool)
  | unused, _ => none
  | symbol value, bits => some (value, bits)
  | branch _ _, [] => none
  | branch zero one, bit :: bits => if bit then one.read bits else zero.read bits

end Code

end BatchRun
