import Ember.Ed2k.PartTracker
import Ember.Library.SplitTree

/-! The two-level hash tree of a file. Block hashes are the leaves of each part's tree, and the
roots of the parts the leaves of the tree above; a peer repairs one part from its leaves and the
roots beside its way up. -/
namespace Ember.Ed2k.Aich
open Bytes List

abbrev Digest := BitVec 160

def aichBlockSize : Nat := 184320
def blocksPerFullPart : Nat := (partSize+aichBlockSize-1)/aichBlockSize
def oldMaxEmuleFileSize : Nat := 4290048000

def numParts (fileSize : Nat) : Nat := (fileSize+partSize-1)/partSize

def partDataSize (fileSize partIndex numParts : Nat) : Nat :=
  if partIndex < numParts-1 then partSize
  else if fileSize%partSize = 0 then partSize else fileSize%partSize

def blocksInPart (fileSize partIndex numParts : Nat) : Nat :=
  if numParts ≤ partIndex then 0 else (partDataSize fileSize partIndex numParts+aichBlockSize-1)/aichBlockSize

def leafCountForSize (fileSize : Nat) : Nat :=
  if fileSize = 0 then 0
  else ((range (numParts fileSize)).map fun part => blocksInPart fileSize part (numParts fileSize)).sum

def computePartIsLeft (numParts : Nat) : List Bool := SplitTree.sides numParts true

def topLevelPathStructure (numParts targetPart : Nat) : (Nat × Bool) × List (Nat × Bool) := SplitTree.path numParts targetPart 1 true

def leafIds (count startId : Nat) (startIsLeft : Bool) : List Nat := if 0 < count then SplitTree.ids count startId startIsLeft else []

section Hashes
variable (sha1 : Bytes → Digest)
variable (leaves : List Digest) (allLeaves : List Digest) (data : Bytes)

def hashLeaf : Digest := sha1 data

def hashInternal (left right : Digest) : Digest := sha1 (ofArray left++ofArray right)

def buildTreeRecursive (isLeftBranch : Bool) : Digest :=
  SplitTree.root (hashInternal sha1) (hashLeaf sha1 []) leaves isLeftBranch

def partRoot (isLeft : Bool) : Digest :=
  match leaves with
  | [leaf] => leaf
  | _ => buildTreeRecursive sha1 leaves isLeft

def partBytes (p numParts : Nat) : Bytes :=
  if p < numParts-1 then slice data (p*partSize) ((p+1)*partSize) else data.drop (p*partSize)

/-- Block boundaries start afresh at every part; no read of the file falls short. -/
def hashLeavesFromReader : List Digest :=
  (range (max (numParts data.length) 1)).flatMap fun p =>
    (chunks aichBlockSize (partBytes data p (max (numParts data.length) 1))).map (hashLeaf sha1)

def partHashesFrom (allLeaves : List Digest) (fileSize numParts : Nat) : List Bool → Nat → Nat → List Digest
  | [], _, _ => []
  | isLeft :: rest, p, offset =>
    let stop := min (offset+(partDataSize fileSize p numParts+aichBlockSize-1)/aichBlockSize) allLeaves.length
    partRoot sha1 ((allLeaves.drop offset).take (stop-offset)) isLeft :: partHashesFrom allLeaves fileSize numParts rest (p+1) stop

def computeAllPartHashes (fileSize numParts : Nat) : List Digest :=
  partHashesFrom sha1 allLeaves fileSize numParts (computePartIsLeft numParts) 0 0

def hierarchicalRoot (fileSize : Nat) : Digest :=
  match allLeaves with
  | [] => hashLeaf sha1 []
  | [leaf] => leaf
  | _ =>
    if numParts fileSize ≤ 1 then buildTreeRecursive sha1 allLeaves true
    else buildTreeRecursive sha1 (computeAllPartHashes sha1 allLeaves fileSize (numParts fileSize)) true

/-- Siblings on the left go through `merkle_root`, the tree of a left branch. -/
def topLevelAuditPath (partHashes : List Digest) (targetPart : Nat) : (Nat × Bool) × List (Nat × Digest) :=
  SplitTree.audit (hashInternal sha1) (hashLeaf sha1 []) partHashes targetPart 1 true

end Hashes

section Wire

def writeEntry (width : Nat) (entry : Nat × Digest) : Bytes := ofNatLittleEndian width entry.1++ofArray entry.2

def writeEntries (width : Nat) (entries : List (Nat × Digest)) : Bytes :=
  ofNatLittleEndian 2 entries.length++entries.flatMap (writeEntry width)

def readEntries (data : Bytes) (offset width count : Nat) : List (Nat × Digest) :=
  ((range count).map fun i =>
    let record := slice data (offset+i*(width+20)) (offset+(i*(width+20)+(width+20)))
    (littleEndian (record.take width),array 160 (record.drop width))).filter fun entry => 0 < entry.1

def parseWireEntries (data : Bytes) : Option (List (Nat × Digest)) :=
  if data.length < 4 then none else
  let count16 := littleEndian (slice data 0 2)
  let section16End := 2+count16*22
  if data.length < section16End+2 then none else
  let count32 := littleEndian (slice data section16End (section16End+2))
  if data.length ≠ section16End+2+count32*24 then none
  else if count16 = 0 ∧ count32 = 0 then none else
  let entries := readEntries data 2 2 count16++readEntries data (section16End+2) 4 count32
  if entries = [] then none else some entries

def emptyEnvelope : Bytes := ofNatLittleEndian 2 0++ofNatLittleEndian 2 0

end Wire

structure AICHRecoveryHashSet where
  rootHash : Digest
  leafHashes : List Digest := []
  fileSize : Nat

namespace AICHRecoveryHashSet

def new (rootHash : Digest) (fileSize : Nat) : AICHRecoveryHashSet := { rootHash := rootHash, fileSize := fileSize }

def parts (hs : AICHRecoveryHashSet) : Nat := max (numParts hs.fileSize) 1

def partLeaves (hs : AICHRecoveryHashSet) (partIndex : Nat) : List Digest :=
  if hs.leafHashes.length ≤ partIndex*blocksPerFullPart then []
  else (hs.leafHashes.drop (partIndex*blocksPerFullPart)).take
    (min (partIndex*blocksPerFullPart+blocksPerFullPart) hs.leafHashes.length-partIndex*blocksPerFullPart)

variable (sha1 : Bytes → Digest)
variable (hs : AICHRecoveryHashSet) (partIndex : Nat)

def buildFromData (data : Bytes) : AICHRecoveryHashSet :=
  let leafHashes := hashLeavesFromReader sha1 data
  { rootHash := hierarchicalRoot sha1 leafHashes data.length, leafHashes := leafHashes, fileSize := data.length }

/-- What an answer about a part holds: the siblings on the way down, then its leaves. -/
def recoveryEntries : List (Nat × Digest) :=
  let audit := if hs.parts ≤ 1 then ((1,true),[])
    else topLevelAuditPath sha1 (computeAllPartHashes sha1 hs.leafHashes hs.fileSize hs.parts) partIndex
  audit.2++(leafIds (hs.partLeaves partIndex).length audit.1.1 audit.1.2).zip (hs.partLeaves partIndex)

def use32 (entries : List (Nat × Digest)) : Bool :=
  oldMaxEmuleFileSize < hs.fileSize || entries.any fun entry => 65535 < entry.1

def createPartRecoveryData : Bytes :=
  if hs.partLeaves partIndex = [] then emptyEnvelope
  else if hs.parts ≤ partIndex then emptyEnvelope
  else
    let entries := hs.recoveryEntries sha1 partIndex
    let use32 := hs.use32 entries
    writeEntries 2 (if use32 then [] else entries)++writeEntries 4 (if use32 then entries else [])

end AICHRecoveryHashSet

section Verification
variable (sha1 : Bytes → Digest)

def partPlace (numParts partIndex : Nat) : Nat × Bool := if numParts ≤ 1 then (1,true) else (topLevelPathStructure numParts partIndex).1

def verifyPartLeaves (leaves : List Digest) (trustedMaster : Digest) (fileSize partIndex : Nat)
    (siblingLookup : Nat → Option Digest) : Bool :=
  if leaves = [] then false else
  let numParts := max (numParts fileSize) 1
  let curHash := partRoot sha1 leaves (partPlace numParts partIndex).2
  if numParts ≤ 1 then curHash = trustedMaster
  else SplitTree.climb (hashInternal sha1) siblingLookup (topLevelPathStructure numParts partIndex).2 curHash = some trustedMaster

/-- The leaves an answer puts forward, and what it says of the nodes above; the flat form says nothing of them. -/
def claimedLeaves (fileSize partIndex : Nat) (data : Bytes) : Option (List Digest × (Nat → Option Digest)) :=
  let numParts := max (numParts fileSize) 1
  let blockCount := blocksInPart fileSize partIndex numParts
  match parseWireEntries data with
  | some entries =>
    let map := Table.collect entries
    let place := partPlace numParts partIndex
    ((leafIds blockCount place.1 place.2).mapM fun id => map.lookup id).map fun leaves => (leaves,fun id => map.lookup id)
  | none =>
    if data.length < 2 then none else
    let flatCount := littleEndian (slice data 0 2)
    if flatCount ≠ blockCount then none
    else if data.length < 2+flatCount*20 then none
    else some ((range flatCount).map fun i => array 160 (slice data (2+i*20) (2+i*20+20)),fun _ => none)

namespace AICHRecoveryHashSet

def place (table : List Digest) (start : Nat) (leaves : List Digest) : List Digest :=
  let table := table++replicate (start+leaves.length-table.length) 0
  table.take start++leaves++table.drop (start+leaves.length)

def readRecoveryData (hs : AICHRecoveryHashSet) (data : Bytes) (partIndex : Nat) : Bool × AICHRecoveryHashSet :=
  let blockCount := blocksInPart hs.fileSize partIndex hs.parts
  if blockCount = 0 ∨ blocksPerFullPart < blockCount then (false,hs) else
  match claimedLeaves hs.fileSize partIndex data with
  | none => (false,hs)
  | some (leaves,siblingLookup) =>
    if verifyPartLeaves sha1 leaves hs.rootHash hs.fileSize partIndex siblingLookup then
      (true,{ hs with leafHashes := place hs.leafHashes (partIndex*blocksPerFullPart) leaves })
    else (false,hs)

/-- Blocks past the known leaves end the scan. -/
def findCorruptBlocks (hs : AICHRecoveryHashSet) (partIndex : Nat) (partData : Bytes) : List Nat :=
  (((chunks aichBlockSize partData).zipIdx.takeWhile fun block => partIndex*blocksPerFullPart+block.2 < hs.leafHashes.length).filter
    fun block => some (hashLeaf sha1 block.1) ≠ hs.leafHashes[partIndex*blocksPerFullPart+block.2]?).map Prod.snd

end AICHRecoveryHashSet

def corruptBlocksFromAichRecovery (trustedMaster : Digest) (recoveryData : Bytes) (partIndex : Nat) (partData : Bytes)
    (fileSize : Nat) : Option (List Nat) :=
  let read := (AICHRecoveryHashSet.new trustedMaster fileSize).readRecoveryData sha1 recoveryData partIndex
  if read.1 then some (read.2.findCorruptBlocks sha1 partIndex partData) else none

end Verification
end Ember.Ed2k.Aich
