import Ember.Library.Bisect
import Ember.Library.Ranges
import Ember.Library.Recount
import Ember.Library.Utf8

/-! The download tracker. The bytes that have not arrived are a list of gaps; workers take sub-
ranges of them out of circulation while they write, and a part counts as verified only while all of
it is there. -/
namespace Ember.Ed2k
open Ranges List

def partSize : Nat := 9728000
def ed2kMaxWireParts : Nat := 65535
def ed2kMaxFileSizeBytes : Nat := ed2kMaxWireParts*partSize-1
def maxGapEntries : Nat := 8192
def maxWriteReservations : Nat := 1024

abbrev Hash := BitVec 128

def ed2kPartCountForSize (fileSize : Nat) : Nat := if fileSize = 0 then 0 else (fileSize+partSize-1)/partSize

/-- The parts modelled for a size, none for one past what the wire can count. -/
def trackedPartCount (fileSize : Nat) : Option Nat :=
  if fileSize = 0 then some 0
  else if ed2kMaxFileSizeBytes < fileSize then none
  else some ((fileSize+partSize-1)/partSize)

structure PartTracker where
  fileSize : Nat
  partCount : Nat
  gaps : List Range
  writeReservations : List Range := []
  fileHash : Hash := 0
  fileName : Text := {}
  partHashes : List Hash := []
  partVerified : List Bool
  transferred : UInt64 := 0
  fileHashVerified : Bool := false
  partContentGeneration : List UInt64
  deriving DecidableEq

namespace PartTracker

variable (t : PartTracker) (partIdx : Nat) (start stop : Nat)

def newEmpty (fileSize : Nat) (fileHash : Hash := 0) : PartTracker :=
  let partCount := (trackedPartCount fileSize).getD 0
  { fileSize := fileSize, partCount := partCount, gaps := if 0 < fileSize then [(0,fileSize)] else [], fileHash := fileHash
    partVerified := replicate partCount false, partContentGeneration := replicate partCount 0 }

def partRange : Range := (partIdx*partSize,min ((partIdx+1)*partSize) t.fileSize)

def firstGapReaching (start : Nat) : Nat := partitionPoint (fun gap => gap.2 ≤ start) t.gaps

def gapOverlapsFrom (idx stop : Nat) : Bool := t.gaps[idx]?.any fun gap => gap.1 < stop

def isPartComplete : Bool :=
  if t.partCount ≤ partIdx then false
  else !t.gapOverlapsFrom (t.firstGapReaching (t.partRange partIdx).1) (t.partRange partIdx).2

def isPartVerified : Bool := t.partVerified[partIdx]?.getD false

def bumpContentGeneration : PartTracker :=
  if stop ≤ start ∨ t.partContentGeneration = [] then t
  else
    let last := min ((stop-1)/partSize) (t.partContentGeneration.length-1)
    { t with partContentGeneration := t.partContentGeneration.mapIdx fun i generation =>
        if start/partSize ≤ i ∧ i ≤ last then generation+1 else generation }

def addGap : PartTracker :=
  let stop := min stop t.fileSize
  if stop ≤ start then t
  else { t with gaps := join start stop t.gaps }.bumpContentGeneration start stop

def invalidateRange : PartTracker :=
  let stop := min stop t.fileSize
  let opened := t.addGap start stop
  if start < stop ∧ opened.partVerified ≠ [] then
    let last := min ((stop-1)/partSize) (t.partCount-1)
    { opened with partVerified := opened.partVerified.mapIdx fun p verified =>
        if start/partSize ≤ p ∧ p ≤ last then false else verified }
  else opened

def invalidateUnreadable (readableLen : Nat) : PartTracker :=
  if readableLen < t.fileSize then { t.invalidateRange readableLen t.fileSize with fileHashVerified := false } else t

def filledAfter (i : Nat) : Range := ((t.gaps.getD i (0,0)).2,(t.gaps.getD (i+1) (0,0)).1)

def shorterRun (best : Option (Nat × Nat)) (i : Nat) : Option (Nat × Nat) :=
  let between := (t.filledAfter i).2-(t.filledAfter i).1
  match best with
  | none => some (i,between)
  | some (_,least) => if between < least then some (i,between) else best

def findSmallestCoalesceCandidate : Option Nat :=
  if t.gaps.length < 2 then none
  else ((range (t.gaps.length-1)).foldl t.shorterRun none).map (·.1)

/-- Reopens the shortest filled runs until the gaps fit their cap; gives the bytes reopened. A turn
takes a gap away, so as many turns as gaps are enough. -/
def coalesce : Nat → PartTracker → Nat → PartTracker × Nat
  | 0, t, reopened => (t,reopened)
  | fuel+1, t, reopened =>
    if t.gaps.length ≤ maxGapEntries then (t,reopened)
    else match t.findSmallestCoalesceCandidate with
      | none => (t,reopened)
      | some i =>
        let filled := t.filledAfter i
        if filled.2 ≤ filled.1 then (t,reopened)
        else coalesce fuel (t.invalidateRange filled.1 filled.2) (reopened+(filled.2-filled.1))

def fillGaps : PartTracker :=
  let rest := { t with gaps := cut start stop t.gaps }
  if 0 < (t.gaps.map (overlap start stop)).sum then rest.bumpContentGeneration start stop else rest

/-- Records received bytes; gives how many were missing, less those reopened to bound the gaps. -/
def fillRange : PartTracker × Nat :=
  if stop ≤ start then (t,0)
  else
    let newlyFilled := (t.gaps.map (overlap start stop)).sum
    let rest := t.fillGaps start stop
    let settled := coalesce rest.gaps.length rest 0
    (settled.1,newlyFilled-settled.2)

def filled (range : Range) : PartTracker := (t.fillRange range.1 range.2).1

def markComplete : PartTracker := t.filled (t.partRange partIdx)

def markIncomplete : PartTracker :=
  let opened := t.addGap (t.partRange partIdx).1 (t.partRange partIdx).2
  { opened with partVerified := opened.partVerified.set partIdx false }

def clearPartHashesAndVerified : PartTracker :=
  { t with partHashes := [], fileHashVerified := false, partVerified := t.partVerified.map fun _ => false }

def setPartVerified (partIdx : Nat) : PartTracker := { t with partVerified := t.partVerified.set partIdx true }

def markFileHashVerified : PartTracker :=
  { t with fileHashVerified := true, partVerified := t.partVerified.map fun _ => true }

def fillableSubranges : List Range :=
  if stop ≤ start then [] else clip start stop t.gaps

def unblocked (stop : Nat) : Nat → List Range → List Range
  | cursor, [] => if cursor < stop then [(cursor,stop)] else []
  | cursor, blocked :: rest =>
    if blocked.2 ≤ cursor ∨ stop ≤ blocked.1 then unblocked stop cursor rest
    else (if cursor < blocked.1 then [(cursor,blocked.1)] else [])++
      if stop ≤ blocked.2 then [] else unblocked stop blocked.2 rest

def blockedIn : List Range :=
  (t.writeReservations.filter fun held => held.1 < stop && start < held.2).insertionSort
    fun r s => r.1 < s.1 ∨ r.1 = s.1 ∧ r.2 ≤ s.2

def grantable : List Range :=
  (t.fillableSubranges start stop).flatMap fun run => unblocked run.2 run.1 (t.blockedIn start stop)

def room : Nat := maxWriteReservations-t.writeReservations.length

def reserveWriteSubranges : PartTracker × List Range :=
  let granted := (t.grantable start stop).take t.room
  ({ t with writeReservations := t.writeReservations++granted },granted)

def releaseWriteReservation : PartTracker :=
  { t with writeReservations := swapRemove t.writeReservations (start,stop) }

def commitWriteReservation : PartTracker × Nat :=
  (t.releaseWriteReservation start stop).fillRange start stop

def completedBytes : Nat := t.fileSize-(t.gaps.map fun gap => gap.2-gap.1).sum

def completedFrom (t : PartTracker) : List Nat → List Range → List Bool
  | [], _ => []
  | partIdx :: later, ahead =>
    let ahead := ahead.dropWhile fun gap => gap.2 ≤ (t.partRange partIdx).1
    (!ahead.head?.any fun gap => gap.1 < (t.partRange partIdx).2) :: t.completedFrom later ahead

def completedParts : List Bool := t.completedFrom (range t.partCount) t.gaps

def addGapBytes (result : List Nat) (gap : Range) : List Nat :=
  let last := min ((gap.2-1)/partSize) (t.partCount-1)
  result.mapIdx fun p bytes =>
    if gap.1/partSize ≤ p ∧ p ≤ last then bytes+overlap (t.partRange p).1 (t.partRange p).2 gap else bytes

def partGapBytesVec : List Nat := t.gaps.foldl t.addGapBytes (replicate t.partCount 0)

end PartTracker

inductive TrackerOp where
  | fillRange (start stop : Nat)
  | markComplete (partIdx : Nat)
  | markIncomplete (partIdx : Nat)
  | invalidateRange (start stop : Nat)
  | invalidateUnreadable (readableLen : Nat)
  | reserve (start stop : Nat)
  | commit (start stop : Nat)
  | release (start stop : Nat)
  | clearPartHashesAndVerified

namespace PartTracker

def step (t : PartTracker) : TrackerOp → PartTracker
  | .fillRange start stop => (t.fillRange start stop).1
  | .markComplete partIdx => t.markComplete partIdx
  | .markIncomplete partIdx => t.markIncomplete partIdx
  | .invalidateRange start stop => t.invalidateRange start stop
  | .invalidateUnreadable readableLen => t.invalidateUnreadable readableLen
  | .reserve start stop => (t.reserveWriteSubranges start stop).1
  | .commit start stop => (t.commitWriteReservation start stop).1
  | .release start stop => t.releaseWriteReservation start stop
  | .clearPartHashesAndVerified => t.clearPartHashesAndVerified

def run (t : PartTracker) (ops : List TrackerOp) : PartTracker := ops.foldl step t

end PartTracker
end Ember.Ed2k
