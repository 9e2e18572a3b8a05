import BatchRun.Text.Percent
import BatchRun.Text.Split

/-!
# Internet Addresses in URLs

Reading and writing the numeric hosts of a URL.

An IPv4 address has one to four parts in decimal, octal or hexadecimal, and its
last part fills whatever the others leave. A host whose last part looks like a
number must be an address, so that `1.2.3` is not a domain. An IPv6 address is
eight groups of which one run of zero groups may be left out.

## Main definitions

* `Ip.readV4`: The 32 bits of an IPv4 address.
* `Ip.v4Text`: An IPv4 address in four decimal parts.
* `Ip.readV6`: The eight groups of an IPv6 address.
* `Ip.v6Text`: An IPv6 address in its shortest form.
-/

namespace BatchRun

namespace Ip

/-- The value of digits in a base up to sixteen, if all of them are digits of
    that base. -/
def digitsIn (base : Nat) (digits : List Char) : Option Nat :=
  digits.foldlM (fun value c =>
    match Hex.digitValue c with
    | some d => if d < base then some (value * base + d) else none
    | none => none) 0

/-- One part of an IPv4 address. A leading `0x` announces hexadecimal and a
    leading `0` octal; with nothing behind it, either is zero. -/
def v4Part (part : List Char) : Option Nat :=
  match part with
  | [] => none
  | '0' :: 'x' :: digits => digitsIn 16 digits
  | '0' :: 'X' :: digits => digitsIn 16 digits
  | '0' :: d :: digits => digitsIn 8 (d :: digits)
  | digits => digitsIn 10 digits

/-- Whether the last part of a host is a number, which makes the whole host an
    address. -/
def endsInNumber (host : List Char) : Bool :=
  let parts := (Text.splitOn '.' host).reverse
  let last := match parts with
    | [] :: next :: _ => next
    | part :: _ => part
    | [] => []
  !last.isEmpty && (last.all (fun c => '0' ≤ c && c ≤ '9') || (v4Part last).isSome)

/-- The 32 bits of an IPv4 address. Every part but the last is one byte. -/
def readV4 (host : List Char) : Option Nat :=
  let parts := Text.splitOn '.' host
  let parts := if parts.getLast? = some [] then parts.dropLast else parts
  if 4 < parts.length then none
  else match parts.mapM v4Part with
    | none => none
    | some numbers =>
      match numbers.reverse with
      | [] => none
      | last :: bytes =>
        let bytes := bytes.reverse
        if bytes.any (255 < ·) || Nat.pow 256 (4 - bytes.length) ≤ last then none
        else some (bytes.foldl (fun value b => value * 256 + b) 0 *
          Nat.pow 256 (4 - bytes.length) + last)

/-- An IPv4 address in four decimal parts. -/
def v4Text (address : Nat) : String :=
  ".".intercalate ([24, 16, 8, 0].map fun shift => toString ((address >>> shift) % 256))

/-- What has been read of an IPv6 address: the groups from the left, and how
    many of them stand before the run that was left out. The run itself is
    entered as one zero group. -/
structure Groups where
  found : List Nat
  gap : Option Nat

/-- Up to four hexadecimal digits from the left, their value, how many there
    are, and what follows. -/
def hexGroup (limit : Nat) (text : List Char) : Nat × Nat × List Char :=
  let digits := (text.takeWhile fun c => (Hex.digitValue c).isSome).take limit
  ((digitsIn 16 digits).getD 0, digits.length, text.drop digits.length)

/-- A decimal byte without leading zeros. -/
def decimalByte (digits : List Char) : Option Nat :=
  match digits with
  | [] => none
  | ['0'] => some 0
  | '0' :: _ => none
  | digits => (digitsIn 10 digits).bind fun n => if n ≤ 255 then some n else none

/-- The two groups that a trailing IPv4 address in four decimal parts makes. -/
def embeddedV4 (text : List Char) : Option (List Nat) :=
  match (Text.splitOn '.' text).mapM decimalByte with
  | some [a, b, c, d] => some [a * 256 + b, c * 256 + d]
  | _ => none

/-- The groups of an IPv6 address from the left. The fuel bounds the number of
    groups and gaps, of which there can be no more than characters. -/
def v6Groups : Nat → Groups → List Char → Option Groups
  | _, groups, [] => some groups
  | 0, _, _ => none
  | fuel + 1, groups, c :: rest =>
    if 8 ≤ groups.found.length then none
    else if c = ':' then
      if groups.gap.isSome then none
      else v6Groups fuel ⟨groups.found ++ [0], some (groups.found.length + 1)⟩ rest
    else
      let (value, count, after) := hexGroup 4 (c :: rest)
      match after with
      | '.' :: _ =>
        if count = 0 || 6 < groups.found.length then none
        else (embeddedV4 (c :: rest)).map fun pair => ⟨groups.found ++ pair, groups.gap⟩
      | ':' :: next =>
        if next.isEmpty then none
        else v6Groups fuel ⟨groups.found ++ [value], groups.gap⟩ next
      | [] => some ⟨groups.found ++ [value], groups.gap⟩
      | _ => none

/-- The eight groups of an IPv6 address, the left-out ones filled in. -/
def readV6 (text : List Char) : Option (List Nat) :=
  let start : Option (Groups × List Char) := match text with
    | ':' :: ':' :: rest => some (⟨[0], some 1⟩, rest)
    | ':' :: _ => none
    | rest => some (⟨[], none⟩, rest)
  match start with
  | none => none
  | some (groups, rest) =>
    match v6Groups (rest.length + 1) groups rest with
    | none => none
    | some groups =>
      match groups.gap with
      | none => if groups.found.length = 8 then some groups.found else none
      | some gap =>
        some (groups.found.take gap ++ List.replicate (8 - groups.found.length) 0 ++
          groups.found.drop gap)

/-- The length of the run of zeros that a list begins with. -/
def zeroRun (groups : List Nat) : Nat :=
  (groups.takeWhile (· = 0)).length

/-- The place and length of the first of the longest runs of zeros. -/
def longestZeros (groups : List Nat) : Nat × Nat :=
  (List.range groups.length).foldl (fun best i =>
    let run := zeroRun (groups.drop i)
    if best.2 < run then (i, run) else best) (0, 0)

/-- An IPv6 address with its longest run of two or more zero groups left
    out. -/
def v6Text (groups : List Nat) : String :=
  let colons := fun gs => ":".intercalate (gs.map Hex.ofNat)
  let (place, run) := longestZeros groups
  if run < 2 then colons groups
  else colons (groups.take place) ++ "::" ++ colons (groups.drop (place + run))

end Ip

end BatchRun
