import BatchRun.Archive.Basic
import BatchRun.Deflate.Inflate
import BatchRun.Digest.Crc32

/-!
# Zip Files

Archives as bytes.

Each entry is written as a header with its compressed content behind it. A
directory follows that repeats the headers and says where each of them stands,
and a last record says where the directory does. All entries carry the first
moment that the format can express, so that an archive depends on nothing but
the files in it.

A reader starts at the last record. It accepts content that is compressed or
stored, and checks the lengths and the checksums.

## Main definitions

* `Zip.write`: The bytes of an archive.
* `Zip.read?`: The archive in some bytes.
-/

namespace BatchRun

namespace Zip

/-- The mark of a header. -/
def headerMark : Bytes := [0x50, 0x4B, 3, 4]

/-- The mark of a record of the directory. -/
def directoryMark : Bytes := [0x50, 0x4B, 1, 2]

/-- The mark of the last record. -/
def endMark : Bytes := [0x50, 0x4B, 5, 6]

/-- A number of two bytes. -/
def short (n : Nat) : Bytes := Bits.littleEndian 2 n

/-- A number of four bytes. -/
def long (n : Nat) : Bytes := Bits.littleEndian 4 n

/-- The flag that says that a name is UTF-8, where that matters. -/
def nameFlag (name : Bytes) : Nat :=
  if name.all (· < 0x80) then 0 else 2048

/-- What a header and its copy in the directory share: flags, method, the first
    of January 1980, checksum, both lengths, and the length of the name. -/
def shared (name content packed : Bytes) : Bytes :=
  short (nameFlag name) ++ short 8 ++ short 0 ++ short 33 ++
    long (Crc32.checksum content).toNat ++ long packed.length ++ long content.length ++
    short name.length ++ short 0

/-- An entry: its header, its name and its compressed content. -/
def writeEntry (entry : ArchiveEntry) : Bytes :=
  let name := Utf8.encode entry.name
  let packed := Deflate.store entry.content
  headerMark ++ short 20 ++ shared name entry.content packed ++ name ++ packed

/-- The record of an entry in the directory. The file is a regular one that
    everybody may read and its owner may write. -/
def writeRecord (entry : ArchiveEntry) (place : Nat) : Bytes :=
  let name := Utf8.encode entry.name
  directoryMark ++ short 788 ++ short 20 ++
    shared name entry.content (Deflate.store entry.content) ++
    short 0 ++ short 0 ++ short 0 ++ long 2175008768 ++ long place ++ name

/-- The records of some entries, of which the first stands at a given place. -/
def writeDirectory : Nat → Archive → Bytes
  | _, [] => []
  | place, entry :: rest =>
    writeRecord entry place ++ writeDirectory (place + (writeEntry entry).length) rest

/-- The bytes of an archive. -/
def write (archive : Archive) : Bytes :=
  let entries := archive.flatMap writeEntry
  let directory := writeDirectory 0 archive
  entries ++ directory ++ endMark ++ short 0 ++ short 0 ++ short archive.length ++
    short archive.length ++ long directory.length ++ long entries.length ++ short 0

/-- A number of so many bytes at a place. -/
def number (bytes : Bytes) (place width : Nat) : Nat :=
  Bits.ofLittleEndian ((bytes.drop place).take width)

/-- What an entry holds, packed by a method. -/
def unpack? (method : Nat) (packed : Bytes) : Option Bytes :=
  if method = 0 then some packed
  else if method = 8 then (Deflate.inflate? packed).map (·.1)
  else none

/-- The entry whose record stands at the beginning of some bytes. -/
def entryOfRecord? (bytes record : Bytes) : Option ArchiveEntry :=
  if record.take 4 ≠ directoryMark then none
  else
    let header := bytes.drop (number record 42 4)
    if header.take 4 ≠ headerMark then none
    else
      let packed := (header.drop (30 + number header 26 2 + number header 28 2)).take
        (number record 20 4)
      (unpack? (number record 10 2) packed).bind fun content =>
        if content.length = number record 24 4 ∧
            (Crc32.checksum content).toNat = number record 16 4 then
          some ⟨Utf8.lossy ((record.drop 46).take (number record 28 2)), content⟩
        else none

/-- So many entries of a directory. -/
def entriesOfRecords? (bytes : Bytes) : Nat → Bytes → Option Archive
  | 0, _ => some []
  | count + 1, records =>
    (entryOfRecord? bytes records).bind fun entry =>
      let size := 46 + number records 28 2 + number records 30 2 + number records 32 2
      (entriesOfRecords? bytes count (records.drop size)).map (entry :: ·)

/-- The last place where the mark of the last record stands. -/
def endPlace? (bytes : Bytes) : Option Nat :=
  (List.range bytes.length).reverse.find? fun place => (bytes.drop place).take 4 = endMark

/-- The archive in some bytes. -/
def read? (bytes : Bytes) : Option Archive :=
  (endPlace? bytes).bind fun place =>
    let last := bytes.drop place
    if last.length < 22 then none
    else entriesOfRecords? bytes (number last 10 2) (bytes.drop (number last 16 4))

end Zip

end BatchRun
