import Ember.Ed2k.PartTracker
import Ember.Library.Reader

/-! The `.part.met` sidecar: its tags, the writer, and the loader, which takes any byte string and
falls back to nothing downloaded when the file does not add up. -/
namespace Ember.Ed2k
open Ranges Bytes Reader List
variable (n : Nat) (name : Bytes)

def oldPartMetMagic : Nat := 0x504D4554
def partfileVersion : UInt8 := 0xE0
def partfileSplittedVersion : UInt8 := 0xE1
def partfileVersionLargefile : UInt8 := 0xE2

def ftFilename : UInt8 := 0x01
def ftFilesize : UInt8 := 0x02
def ftGapstart : UInt8 := 0x09
def ftGapend : UInt8 := 0x0A
def ftTransferred : UInt8 := 0x08
def ftStatus : UInt8 := 0x14
def ftEmberVerifiedBitmap : UInt8 := 0xEB
def ftEmberGapFormat : UInt8 := 0xEC
def gapFormatExclusiveEnd : Nat := 1

def tagtypeUint32 : UInt8 := 0x03
def tagtypeUint64 : UInt8 := 0x0B
def tagtypeString : UInt8 := 0x02
def tagtypeBlob : UInt8 := 0x07

def maxTagCount : Nat := 100000

def unexpectedEof : String := "failed to fill whole buffer"

inductive MetTag where
  | fileSize (size : Nat)
  | fileName (name : Text)
  | gapStart (idx value : Nat)
  | gapEnd (idx value : Nat)
  | verifiedBitmap (bytes : Bytes)
  | gapFormat (version : Nat)
  | transferred (bytes : Nat)
  | status (value : Nat)
  | unknown
  deriving DecidableEq

def decimal : Bytes := if n = 0 then [48] else (Nat.digits 10 n).reverse.map fun d => UInt8.ofNat (48+d)

def isDigit (byte : UInt8) : Bool := 48 ≤ byte && byte ≤ 57

/-- Text as a number of 64 bits. A leading plus sign is allowed. -/
def parseUsize (text : Bytes) : Option Nat :=
  let digits := if text.head? = some 43 then text.drop 1 else text
  if digits = [] ∨ digits.all isDigit = false then none
  else
    let value := digits.foldl (fun value digit => value*10+(digit.toNat-48)) 0
    if value < 2^64 then some value else none

def decodeMetString (bytes : Bytes) : Text :=
  Text.fromUtf8Lossy (if bytes.take 3 = [0xEF,0xBB,0xBF] then bytes.drop 3 else bytes)

/-- What a tag with a number for its value is, by its name. -/
def numberTag (value : Nat) : MetTag :=
  match name with
  | [] => .unknown
  | [id] =>
    if id = ftFilesize then .fileSize value
    else if id = ftEmberGapFormat then .gapFormat value
    else if id = ftTransferred then .transferred value
    else if id = ftStatus then .status value
    else .unknown
  | id :: digits =>
    if id = ftGapstart ∨ id = ftGapend then
      match parseUsize digits with
      | some idx => if id = ftGapstart then .gapStart idx value else .gapEnd idx value
      | none => .unknown
    else .unknown

def readTagName (rawType : UInt8) : Reader String (UInt8 × Bytes) :=
  if rawType &&& 0x80 ≠ 0 then do
    let nameId ← byte unexpectedEof
    return (rawType &&& 0x7F,[nameId])
  else do
    let nameLen ← little unexpectedEof 2
    if 4096 < nameLen then fail s!"part.met tag name too long: {nameLen}"
    else do
      let name ← exact unexpectedEof nameLen
      return (rawType,name)

def readNumber (width : Nat) : Reader String MetTag := do
  let value ← little unexpectedEof width
  return numberTag name value

def readString : Reader String MetTag := do
  let length ← little unexpectedEof 2
  let bytes ← exact "part.met string tag length exceeds data boundary" length
  return if name = [ftFilename] then .fileName (decodeMetString bytes) else .unknown

def readBlob : Reader String MetTag := do
  let length ← little unexpectedEof 4
  let bytes ← exact "blob tag length exceeds data boundary" length
  return if name = [ftEmberVerifiedBitmap] ∧ length ≤ 1000000 then .verifiedBitmap bytes else .unknown

def skipValue (short : String) (length : Nat) : Reader String MetTag := do
  let _ ← exact short length
  return .unknown

def hexDigit : Char := if n < 10 then Char.ofNat (48+n) else Char.ofNat (55+n)

def hexByte (byte : UInt8) : String := String.ofList [hexDigit (byte.toNat/16),hexDigit (byte.toNat%16)]

def readTagValue (tagType : UInt8) (name : Bytes) : Reader String MetTag :=
  if tagType = tagtypeUint32 then readNumber name 4
  else if tagType = tagtypeUint64 then readNumber name 8
  else if tagType = 0x09 then readNumber name 1
  else if tagType = tagtypeString then readString name
  else if tagType = 0x01 then skipValue unexpectedEof 16
  else if tagType = tagtypeBlob then readBlob name
  else if tagType = 0x04 then skipValue unexpectedEof 4
  else if tagType = 0x05 then readNumber name 1
  else if tagType = 0x06 then do
    let count ← little unexpectedEof 2
    skipValue "BitSet tag overflows buffer" ((count+7)/8)
  else if tagType = 0x08 then readNumber name 2
  else if tagType = 0x0A then do
    let length ← little unexpectedEof 1
    skipValue "BSOB tag overflows buffer" length
  else fail ("Unknown part.met tag type 0x"++hexByte tagType++", cannot determine value size")

def readEmuleTag : Reader String MetTag := do
  let rawType ← byte unexpectedEof
  let named ← readTagName rawType
  readTagValue named.1 named.2

section Writer
variable (tagId : UInt8) (value : Nat)

def writeUint32Tag : Bytes :=
  [tagtypeUint32]++ofNatLittleEndian 2 1++[tagId]++ofNatLittleEndian 4 value

def writeUint64Tag : Bytes :=
  [tagtypeUint64]++ofNatLittleEndian 2 1++[tagId]++ofNatLittleEndian 8 value

def writeSizedTag (useLarge : Bool) (tagId : UInt8) (value : Nat) : Bytes :=
  if useLarge then writeUint64Tag tagId value else writeUint32Tag tagId value

/-- The last place at or before `stop` where a character of the text starts. -/
def charBoundary (bytes : Bytes) : Nat → Nat
  | 0 => 0
  | stop+1 => if bytes[stop+1]?.any Utf8.continues then charBoundary bytes stop else stop+1

def writeStringTag (value : Text) : Bytes :=
  let clamped := if value.bytes.length ≤ 65535 then value.bytes else value.bytes.take (charBoundary value.bytes 65535)
  [tagtypeString]++ofNatLittleEndian 2 1++[tagId]++ofNatLittleEndian 2 clamped.length++clamped

def writeBlobTag (data : Bytes) : Except String Bytes :=
  if data.length < 2^32 then
    .ok ([tagtypeBlob]++ofNatLittleEndian 2 1++[tagId]++ofNatLittleEndian 4 data.length++data)
  else .error s!"blob tag payload too large ({data.length} bytes)"

def writeGapTag (gapType : UInt8) (index value : Nat) (useLarge : Bool) : Except String Bytes :=
  let name := ofNatLittleEndian 2 (1+(decimal index).length)++[gapType]++decimal index
  if useLarge then .ok ([tagtypeUint64]++name++ofNatLittleEndian 8 value)
  else if value < 2^32 then .ok ([tagtypeUint32]++name++ofNatLittleEndian 4 value)
  else .error s!"gap offset {value} exceeds u32 range but use_large=false — refusing to truncate resume data (gap_type={gapType}, index={index})"

def writeGapTags (useLarge : Bool) : Nat → List Range → Except String (List Bytes)
  | _, [] => .ok []
  | i, gap :: rest => do
    let start ← writeGapTag ftGapstart i gap.1 useLarge
    let stop ← writeGapTag ftGapend i gap.2 useLarge
    let others ← writeGapTags useLarge (i+1) rest
    return start :: stop :: others

def packBits (flags : List Bool) : Bytes :=
  (range ((flags.length+7)/8)).map fun j =>
    (range 8).foldl (fun byte k => if flags[8*j+k]?.getD false then byte ||| UInt8.ofNat (2^k) else byte) 0

def bitAt (bytes : Bytes) (i : Nat) : Bool := (bytes.getD (i/8) 0).toNat.testBit (i%8)

def emptyMd4 : Hash := 0x31d6cfe0d16ae931b73c59d7e0c089c0

def ed2kKnownMetPartHashCount (fileSize : Nat) : Nat :=
  if fileSize < partSize then 0 else (fileSize+partSize-1)/partSize+if fileSize%partSize = 0 then 1 else 0

def ed2kKnownMetHashset (partHashes : List Hash) (fileSize : Nat) : List Hash :=
  if partSize ≤ fileSize ∧ fileSize%partSize = 0 ∧ partHashes.length = fileSize/partSize then partHashes++[emptyMd4]
  else partHashes

structure SaveSnapshot where
  fileSize : Nat
  fileHash : Hash
  fileName : Text
  partHashes : List Hash
  gaps : List Range
  partVerified : List Bool
  transferred : UInt64
  deriving DecidableEq

namespace SaveSnapshot
variable (snap : SaveSnapshot) (date : UInt32)

def useLarge : Bool := 0xFFFFFFFF < snap.fileSize

def tags : Except String (List Bytes) := do
  let gapTags ← writeGapTags snap.useLarge 0 snap.gaps
  let bitmap ← if snap.partVerified.any id then do
      let tag ← writeBlobTag ftEmberVerifiedBitmap (packBits snap.partVerified)
      pure [tag]
    else pure []
  return (if snap.fileName.bytes = [] then [] else [writeStringTag ftFilename snap.fileName])++
    [writeSizedTag snap.useLarge ftFilesize snap.fileSize,writeSizedTag snap.useLarge ftTransferred snap.transferred.toNat]++
    gapTags++[writeUint32Tag ftEmberGapFormat gapFormatExclusiveEnd]++bitmap

def header (hashes : List Hash) : Bytes :=
  [if snap.useLarge then partfileVersionLargefile else partfileVersion]++ofNatLittleEndian 4 date.toNat++
    ofArray snap.fileHash++ofNatLittleEndian 2 hashes.length++hashes.flatMap fun hash => ofArray hash

def overwrite (buffer : Bytes) (position : Nat) (bytes : Bytes) : Bytes :=
  buffer.take position++bytes++buffer.drop (position+bytes.length)

def writeToDisk : Except String Bytes := do
  let hashes := ed2kKnownMetHashset snap.partHashes snap.fileSize
  if 65535 < hashes.length then
    .error s!"part.met: {hashes.length} part hashes exceeds u16::MAX — refusing to write a mismatched count (file too large for classic part.met)"
  else do
    let tagCountPos := 5+16+2+hashes.length*16
    let tags ← snap.tags
    return overwrite (snap.header date hashes++ofNatLittleEndian 4 0++tags.flatten) tagCountPos
      (ofNatLittleEndian 4 tags.length)

end SaveSnapshot

def PartTracker.buildSaveSnapshot (t : PartTracker) : SaveSnapshot :=
  { fileSize := t.fileSize, fileHash := t.fileHash, fileName := t.fileName, partHashes := t.partHashes, gaps := t.gaps
    partVerified := t.partVerified, transferred := t.transferred }

end Writer

structure MetTags where
  gapStarts : Table Nat Nat := ∅
  gapEnds : Table Nat Nat := ∅
  gapEndIsExclusive : Bool := false
  fileSizeFromTags : Option Nat := none
  verifiedBitmapBytes : Option Bytes := none
  fileName : Option Text := none
  transferred : Option Nat := none
  tagsParsed : Nat := 0

namespace MetTags

/-- Takes in one tag. The first name wins, and the last of everything else. -/
def note (tags : MetTags) (tag : MetTag) : MetTags :=
  let tags := { tags with tagsParsed := tags.tagsParsed+1 }
  match tag with
  | .fileSize size => { tags with fileSizeFromTags := some size }
  | .fileName name => if tags.fileName.isSome then tags else { tags with fileName := some name }
  | .gapStart idx value => { tags with gapStarts := tags.gapStarts.insert idx value }
  | .gapEnd idx value => { tags with gapEnds := tags.gapEnds.insert idx value }
  | .verifiedBitmap bytes => { tags with verifiedBitmapBytes := some bytes }
  | .gapFormat version => { tags with gapEndIsExclusive := decide (gapFormatExclusiveEnd ≤ version) }
  | .transferred bytes => { tags with transferred := some bytes }
  | .status _ => tags
  | .unknown => tags

/-- The tag loop: it stops at the end of the file and at the first tag it cannot read. -/
def readAll : Nat → Bytes → MetTags → MetTags
  | 0, _, tags => tags
  | count+1, rest, tags =>
    if rest = [] then tags
    else match readEmuleTag rest with
      | .error _ => tags
      | .ok (tag,rest) => readAll count rest (tags.note tag)

def gapAt (tags : MetTags) (fileSize idx start : Nat) : Option Range :=
  let stop := match tags.gapEnds.lookup idx with
    | some raw => if tags.gapEndIsExclusive then raw else min (raw+1) 18446744073709551615
    | none => fileSize
  let stop := min stop fileSize
  if start < stop ∧ stop ≤ fileSize then some (start,stop) else none

def gaps (tags : MetTags) (fileSize : Nat) : List Range :=
  merge (tags.gapStarts.entries.filterMap fun entry => tags.gapAt fileSize entry.1 entry.2)

end MetTags

/-- Where the file hash starts and whether the part hashes follow it. -/
def partMetHashLayout (data : Bytes) (version : UInt8) : Except String (Nat × Bool) :=
  if version = partfileSplittedVersion then
    .error "eDonkey split-format part.met (version 0xE1) keeps its data outside the .part file"
  else if version = partfileVersion ∧ get data 24 28 = some [0,0,2,1] ∧ (get data 1 5).any (· != [0,0,0,0]) then .ok (6,false)
  else .ok (5,true)

/-- What a load finds: the sidecar, the length of the data file, and the parts whose verification
was withdrawn in memory and not renewed. -/
structure Disk where
  met : Option Bytes := none
  partLength : Option Nat := none
  pending : List Nat := []

namespace PartTracker
variable (fileSize : Nat) (t : PartTracker) (data : Bytes)

def resetToIncomplete : PartTracker := { t with gaps := if 0 < t.fileSize then [(0,t.fileSize)] else [] }

def adoptTags (rawTagCount : Nat) (tags : MetTags) : PartTracker :=
  let t := { t with fileName := tags.fileName.getD t.fileName, transferred := (tags.transferred.map UInt64.ofNat).getD t.transferred }
  let unknown := { t with gaps := [(0,t.fileSize)] }
  if tags.fileSizeFromTags.any (· != t.fileSize) ∧ 0 < t.fileSize then unknown.clearPartHashesAndVerified
  else if (tags.tagsParsed < min rawTagCount maxTagCount ∨ maxTagCount < rawTagCount) ∧ 0 < t.fileSize then unknown
  else if 0 < t.fileSize ∧ tags.gapEnds.keys.any (fun idx => (tags.gapStarts.lookup idx).isNone) then unknown
  else if tags.gapStarts.entries = [] ∧ 0 < t.fileSize then { t with gaps := [] }
  else
    let t := { t with gaps := tags.gaps t.fileSize }
    match tags.verifiedBitmapBytes with
    | none => t
    | some bytes => { t with partVerified := (range t.partCount).map fun i => bitAt bytes i && t.isPartComplete i }

def readPartHashes (hasHashset : Bool) : Reader String (Option (List Hash)) := do
  let count ← if hasHashset then little unexpectedEof 2 else pure 0
  if count ≠ 0 ∧ count ≠ ed2kPartCountForSize fileSize ∧ count ≠ ed2kKnownMetPartHashCount fileSize then return none
  else do
    let bytes ← exact "truncated part hashes in part.met" (count*16)
    let hashes := (range count).map fun i => array 128 (slice bytes (16*i) (16*i+16))
    return some (hashes.take (ed2kPartCountForSize fileSize))

def loadTags (rest : Bytes) : PartTracker × Except String Unit :=
  match little unexpectedEof 4 rest with
  | .error error => (t,.error error)
  | .ok (rawTagCount,rest) =>
    (t.adoptTags rawTagCount (MetTags.readAll (min rawTagCount maxTagCount) rest {}),.ok ())

def loadEmuleFormat (version : UInt8) : PartTracker × Except String Unit :=
  match partMetHashLayout data version with
  | .error error => (t,.error error)
  | .ok (hashAt,hasHashset) =>
    match exact unexpectedEof 20 (data.drop (hashAt-4)) with
    | .error error => (t,.error error)
    | .ok (dateAndHash,rest) =>
      let hash := array 128 (dateAndHash.drop 4)
      if t.fileHash ≠ 0 ∧ hash ≠ 0 ∧ hash ≠ t.fileHash then (t.resetToIncomplete,.ok ())
      else
        let t := if t.fileHash = 0 then { t with fileHash := hash } else t
        match readPartHashes t.fileSize hasHashset rest with
        | .error error => (t,.error error)
        | .ok (none,_) => (t.resetToIncomplete,.ok ())
        | .ok (some partHashes,rest) => { t with partHashes := partHashes }.loadTags rest

def fillParts (bitmap : Bytes) : PartTracker :=
  (range t.partCount).foldl (fun t i => if bitAt bitmap i then t.filled (t.partRange i) else t) t

def loadLegacy : PartTracker × Except String Unit :=
  match little unexpectedEof 8 (data.drop 4) with
  | .error error => (t,.error error)
  | .ok (storedSize,rest) =>
    if storedSize ≠ t.fileSize then (t,.error "file size mismatch in legacy part.met")
    else match little unexpectedEof 4 rest with
      | .error error => (t,.error error)
      | .ok (storedCount,bitmap) =>
        if storedCount ≠ t.partCount then (t,.error "part count mismatch in legacy part.met")
        else if bitmap.length < (t.partCount+7)/8 then (t,.error "truncated bitmap in legacy part.met")
        else ({ t with gaps := [(0,t.fileSize)] }.fillParts bitmap,.ok ())

def loadInner (met : Option Bytes) : PartTracker × Except String Unit :=
  match met with
  | none => (t,.error "No such file or directory")
  | some data =>
    if data.length < 4 then (t,.error "part.met too small")
    else
      let version := data.getD 0 0
      if version = partfileVersion ∨ version = partfileVersionLargefile ∨ version = partfileSplittedVersion then
        t.loadEmuleFormat data version
      else if littleEndian (data.take 4) = oldPartMetMagic then t.loadLegacy data
      else (t,.error ("unknown part.met format: 0x"++hexByte version))

/-- Clears the verified bits withdrawn in memory, whatever the sidecar said of them. -/
def applyPendingInvalidations (pending : List Nat) : PartTracker :=
  { t with
    partVerified := pending.foldl (fun flags p => flags.set p false) t.partVerified
    fileHashVerified := t.fileHashVerified && !pending.any t.isPartVerified }

def load (disk : Disk) : PartTracker :=
  let read := t.loadInner disk.met
  let t := match read.2 with
    | .error _ => read.1.resetToIncomplete
    | .ok () => read.1
  let t := { t with writeReservations := [] }
  let t := match disk.partLength with
    | some length => t.invalidateUnreadable length
    | none => t
  t.applyPendingInvalidations disk.pending

def newWithIdentity (expectedFileHash : Hash) (disk : Disk) : PartTracker :=
  if (trackedPartCount fileSize).isSome then (newEmpty fileSize expectedFileHash).load disk else newEmpty fileSize expectedFileHash

end PartTracker
end Ember.Ed2k
