import BatchRun.Deflate.Code

/-!
# Deflate Streams

Reading the compressed format of archives and compressed logs.

A stream is a sequence of blocks, the last of which says so. A block is stored
as it is, or written in two codes: one for bytes and for the lengths of
repetitions, one for the distances at which they begin. The two codes are fixed
ones, or the block brings them along, their lengths being written in a third
code. A repetition may overlap what it produces.

Writing uses stored blocks only: what is written is small, and the format asks
for no more.

## Main definitions

* `Deflate.inflate?`: What a stream holds, and the bytes behind it.
* `Deflate.store`: A stream that holds some bytes.
-/

namespace BatchRun

namespace Deflate

/-- The symbol that ends a block. -/
def endOfBlock : Nat := 256

/-- The shortest repetition of each length symbol, and how many bits are added
    to it. -/
def lengthTable : List (Nat × Nat) :=
  [(3, 0), (4, 0), (5, 0), (6, 0), (7, 0), (8, 0), (9, 0), (10, 0), (11, 1), (13, 1), (15, 1),
    (17, 1), (19, 2), (23, 2), (27, 2), (31, 2), (35, 3), (43, 3), (51, 3), (59, 3), (67, 4),
    (83, 4), (99, 4), (115, 4), (131, 5), (163, 5), (195, 5), (227, 5), (258, 0)]

/-- The shortest distance of each distance symbol, and how many bits are added
    to it. -/
def distanceTable : List (Nat × Nat) :=
  [(1, 0), (2, 0), (3, 0), (4, 0), (5, 1), (7, 1), (9, 2), (13, 2), (17, 3), (25, 3), (33, 4),
    (49, 4), (65, 5), (97, 5), (129, 6), (193, 6), (257, 7), (385, 7), (513, 8), (769, 8),
    (1025, 9), (1537, 9), (2049, 10), (3073, 10), (4097, 11), (6145, 11), (8193, 12),
    (12289, 12), (16385, 13), (24577, 13)]

/-- The two codes of a block. -/
structure Codes where
  literals : Code
  distances : Code

/-- The lengths of the fixed code for bytes and repetitions. -/
def fixedLiterals : List Nat :=
  List.replicate 144 8 ++ List.replicate 112 9 ++ List.replicate 24 7 ++ List.replicate 8 8

/-- The codes of a block that does not bring its own. -/
def fixedCodes : Option Codes :=
  (Code.ofLengths? fixedLiterals).bind fun literals =>
    (Code.ofLengths? (List.replicate 32 5)).map fun distances => ⟨literals, distances⟩

/-- A number that a symbol and some bits behind it write. -/
def readNumber (table : List (Nat × Nat)) (symbol : Nat) (bits : List Bool) :
    Option (Nat × List Bool) :=
  match table[symbol]? with
  | none => none
  | some (least, width) =>
    (Bits.take width bits).map fun (more, bits) => (least + more, bits)

/-- Some bytes with a part of them repeated at the end, byte by byte. -/
def repeatFrom (distance : Nat) : Nat → Array UInt8 → Array UInt8
  | 0, output => output
  | length + 1, output =>
    repeatFrom distance length (output.push (output[output.size - distance]?.getD 0))

/-- The rest of a coded block. Every round reads a symbol, so there are at most
    as many as there are bits. -/
def readCoded (codes : Codes) : Nat → Array UInt8 → List Bool →
    Option (Array UInt8 × List Bool)
  | 0, _, _ => none
  | rounds + 1, output, bits =>
    match codes.literals.read bits with
    | none => none
    | some (symbol, bits) =>
      if symbol < endOfBlock then
        readCoded codes rounds (output.push (UInt8.ofNat symbol)) bits
      else if symbol = endOfBlock then some (output, bits)
      else
        match readNumber lengthTable (symbol - 257) bits with
        | none => none
        | some (length, bits) =>
          match codes.distances.read bits with
          | none => none
          | some (symbol, bits) =>
            match readNumber distanceTable symbol bits with
            | none => none
            | some (distance, bits) =>
              if output.size < distance then none
              else readCoded codes rounds (repeatFrom distance length output) bits

/-- The order in which the lengths of the third code are written. -/
def lengthOrder : List Nat :=
  [16, 17, 18, 0, 8, 7, 9, 6, 10, 5, 11, 4, 12, 3, 13, 2, 14, 1, 15]

/-- So many numbers of three bits. -/
def readTriples : Nat → List Bool → Option (List Nat × List Bool)
  | 0, bits => some ([], bits)
  | count + 1, bits =>
    (Bits.take 3 bits).bind fun (n, bits) =>
      (readTriples count bits).map fun (rest, bits) => (n :: rest, bits)

/-- Code lengths, until there are as many as asked for. Three symbols stand for
    repetitions, of the last length or of zero. -/
def readLengths (code : Code) (count : Nat) : Nat → List Nat → List Bool →
    Option (List Nat × List Bool)
  | 0, _, _ => none
  | rounds + 1, found, bits =>
    if found.length = count then some (found, bits)
    else if count < found.length then none
    else
      match code.read bits with
      | none => none
      | some (symbol, bits) =>
        if symbol < 16 then readLengths code count rounds (found ++ [symbol]) bits
        else
          let (repeated, least, width) :=
            if symbol = 16 then (found.getLast?, 3, 2)
            else if symbol = 17 then (some 0, 3, 3)
            else (some 0, 11, 7)
          match repeated, Bits.take width bits with
          | some length, some (more, bits) =>
            readLengths code count rounds (found ++ List.replicate (least + more) length) bits
          | _, _ => none

/-- The codes that a block brings along. -/
def readCodes (bits : List Bool) : Option (Codes × List Bool) :=
  (Bits.take 5 bits).bind fun (literals, bits) =>
  (Bits.take 5 bits).bind fun (distances, bits) =>
  (Bits.take 4 bits).bind fun (lengths, bits) =>
  if 286 < literals + 257 || 30 < distances + 1 then none
  else
    (readTriples (lengths + 4) bits).bind fun (triples, bits) =>
    let places := lengthOrder.zip triples
    let third := (List.range 19).map fun symbol => ((places.lookup symbol).getD 0)
    (Code.ofLengths? third).bind fun code =>
    (readLengths code (literals + distances + 258) (bits.length + 1) [] bits).bind
      fun (found, bits) =>
    (Code.ofLengths? (found.take (literals + 257))).bind fun first =>
    (Code.ofLengths? (found.drop (literals + 257))).map fun second => (⟨first, second⟩, bits)

/-- A block that is stored as it is: its length, its length once more with all
    bits turned over, and its bytes. -/
def readStored (output : Array UInt8) (bits : List Bool) : Option (Array UInt8 × List Bool) :=
  (Bits.take 16 (Bits.aligned bits)).bind fun (length, bits) =>
  (Bits.take 16 bits).bind fun (turned, bits) =>
  if length + turned ≠ 65535 then none
  else (Bits.takeBytes length bits).map fun (bytes, bits) => (output ++ bytes.toArray, bits)

/-- One block. -/
def readBlock (kind : Nat) (output : Array UInt8) (bits : List Bool) :
    Option (Array UInt8 × List Bool) :=
  match kind with
  | 0 => readStored output bits
  | 1 => fixedCodes.bind fun codes => readCoded codes (bits.length + 1) output bits
  | 2 => (readCodes bits).bind fun (codes, bits) => readCoded codes (bits.length + 1) output bits
  | _ => none

/-- The blocks up to the last one. Every block reads three bits, so there are
    fewer than there are bits. -/
def readBlocks : Nat → Array UInt8 → List Bool → Option (Array UInt8 × List Bool)
  | 0, _, _ => none
  | rounds + 1, output, bits =>
    (Bits.take 1 bits).bind fun (last, bits) =>
    (Bits.take 2 bits).bind fun (kind, bits) =>
    (readBlock kind output bits).bind fun (output, bits) =>
    if last = 1 then some (output, bits) else readBlocks rounds output bits

/-- What a stream holds, and the bytes behind it. -/
def inflate? (bytes : Bytes) : Option (Bytes × Bytes) :=
  let bits := Bits.ofBytes bytes
  (readBlocks (bits.length + 1) #[] bits).map fun (output, left) =>
    (output.toList, bytes.drop (bytes.length - left.length / 8))

/-- A stored block with at most 65535 bytes. -/
def storedBlock (last : Bool) (bytes : Bytes) : Bytes :=
  UInt8.ofNat last.toNat :: (Bits.littleEndian 2 bytes.length ++
    Bits.littleEndian 2 (65535 - bytes.length) ++ bytes)

/-- Stored blocks for some bytes. The count bounds how many there may be before
    the last one. -/
def storedBlocks : Nat → Bytes → Bytes
  | 0, bytes => storedBlock true bytes
  | count + 1, bytes =>
    if bytes.length ≤ 65535 then storedBlock true bytes
    else storedBlock false (bytes.take 65535) ++ storedBlocks count (bytes.drop 65535)

/-- A stream that holds some bytes. -/
def store (bytes : Bytes) : Bytes :=
  storedBlocks (bytes.length / 65535) bytes

end Deflate

end BatchRun
