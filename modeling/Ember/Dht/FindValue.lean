import Ember.Dht.Store

/-! FIND_VALUE paging on both sides: the responder's packer, which fills one datagram, and the
searcher's follow-ups, which name the record the last page ended on. -/
namespace Ember.Dht
open Bytes

abbrev Anchor := BitVec 64
variable (packing : Packing) (i : Nat) (reader : NameReader) (m : Moment) (store : DhtStore) (keys : List Key) (data : Bytes)
  (record : DhtRecord)

def maxResumeAnchors : Nat := 3
def maxNameKeysPerRecord : Nat := 64
def maxPosition : Nat := 65535

def recordAnchor : Option Anchor :=
  if data.length < recordHeaderLen then none
  else some (array 64 (slice data 17 21++slice data 73 77))

theorem few_nil : ([] : List Anchor).length ≤ maxResumeAnchors := by decide

/-- The records a follow-up asks to resume after, nearest first. -/
structure ResumeAnchors where
  anchors : List Anchor := []
  few : anchors.length ≤ maxResumeAnchors := by first | exact few_nil | decide
  deriving DecidableEq

def ResumeAnchors.push (resume : ResumeAnchors) (anchor : Anchor) : ResumeAnchors :=
  if room : resume.anchors.length < maxResumeAnchors then
    ⟨resume.anchors++[anchor],by rw [List.length_append]; exact room⟩
  else resume

/-- What a responder reads off a record's name: the keys of its words, the type of its extension,
and whether it has a given one. -/
structure NameReader where
  nameWordKeyList : Bytes → List Key
  inferFileType : Bytes → Bytes
  hasExtension : Bytes → Bytes → Bool

structure ValueConstraints where
  minSize : Option Nat := none
  maxSize : Option Nat := none
  fileType : Option Bytes := none
  fileExtension : Option Bytes := none
  extraKeys : List Key := []

def ValueConstraints.isEmpty (constraints : ValueConstraints) : Bool :=
  constraints.minSize.isNone && constraints.maxSize.isNone && constraints.fileType.isNone &&
    constraints.fileExtension.isNone && constraints.extraKeys.isEmpty

def nameBytesFromRecordData : Option Bytes := do
  let nameLen := littleEndian (← get data (recordHeaderLen-2) recordHeaderLen)
  get data recordHeaderLen (recordHeaderLen+nameLen)

def recordMatchesConstraints (constraints : ValueConstraints) : Bool :=
  if constraints.minSize.isNone && constraints.maxSize.isNone && constraints.fileType.isNone &&
      constraints.fileExtension.isNone then true
  else if data.length < recordHeaderLen then false
  else
    let fileSize := littleEndian (slice data 65 73)
    if constraints.minSize.any fun least => fileSize < least then false
    else if constraints.maxSize.any fun most => 0 < most && most < fileSize then false
    else if constraints.fileType.isSome || constraints.fileExtension.isSome then
      match nameBytesFromRecordData data with
      | none => false
      | some name =>
        constraints.fileType.all (fun want => reader.inferFileType name == want) &&
          constraints.fileExtension.all (fun want => reader.hasExtension name want)
    else true

def nameKeys : List Key :=
  (((nameBytesFromRecordData record.data).map reader.nameWordKeyList).getD []).take maxNameKeysPerRecord

/-- The live records under the first key, those with every other key in their name ahead. -/
def intersectLiveRecords : Option (Key × List DhtRecord × Nat) :=
  match keys with
  | [] => none
  | primary :: others =>
    let primaryRecs := store.liveRecords m primary
    if primaryRecs.isEmpty then none
    else
      let extras := others.foldl (fun extras key => if key ∈ extras then extras else extras++[key]) []
      if extras.isEmpty then some (primary,primaryRecs,primaryRecs.length)
      else
        let carries := fun r => extras.all fun key => key ∈ nameKeys reader r
        let ordered := primaryRecs.filter carries
        some (primary,ordered++primaryRecs.filter (fun r => !carries r),ordered.length)

def recordBlob : Bytes := record.data++ofArray record.signature

def blobCost : Nat := 2+record.data.length+64

def resumeStart (filtered : List DhtRecord) (startPosition : Nat) (resumeAfter : ResumeAnchors) : Nat :=
  let within := filtered.take (min startPosition filtered.length)
  match resumeAfter.anchors.findSome? fun anchor =>
      within.findIdx? fun r => recordAnchor r.data == some anchor with
  | some found => found+1
  | none => startPosition

structure Packing where
  used : Nat := 0
  blobs : List Bytes := []
  pastLastTaken : Nat
  firstPassedOver : Option Nat := none

def Packing.passOver : Packing :=
  { packing with firstPassedOver := packing.firstPassedOver.or (some i) }

def Packing.take : Packing :=
  { packing with
    used := packing.used+blobCost record
    blobs := packing.blobs++[recordBlob record]
    pastLastTaken := i+1 }

def pack : Nat → List DhtRecord → Packing → Packing
  | _, [], packing => packing
  | i, record :: rest, packing =>
    if maxFoundValueRecords ≤ packing.blobs.length then packing
    else if maxFoundValueRecordBytes < packing.used+minFoundValueRecordBytes then packing.passOver i
    else if maxFoundValueRecordBytes < packing.used+blobCost record then pack (i+1) rest (packing.passOver i)
    else pack (i+1) rest (packing.take i record)

structure FoundValueReply where
  key : Key
  blobs : List Bytes
  withheld : Nat
  nextPosition : Nat
  totalAvailable : Nat

def toSearcher (startPosition start index : Nat) : Nat :=
  (max 0 (min ((index : Int)+startPosition-start) maxPosition)).toNat

def packReply (primary : Key) (filtered : List DhtRecord) (startPosition : Nat) (resumeAfter : ResumeAnchors) :
    Option FoundValueReply :=
  let start := resumeStart filtered startPosition resumeAfter
  if filtered.length ≤ start then none
  else
    let packing := pack start (filtered.drop start) { pastLastTaken := start }
    if packing.blobs.isEmpty then none
    else
      let next := packing.firstPassedOver.getD packing.pastLastTaken
      some
        { key := primary
          blobs := packing.blobs
          withheld := filtered.length-packing.pastLastTaken
          nextPosition := toSearcher startPosition start next
          totalAvailable := toSearcher startPosition start filtered.length }

def intersectFindValueRecords
    (startPosition : Nat) (resumeAfter : ResumeAnchors) (constraints : ValueConstraints) :
    Option FoundValueReply :=
  match intersectLiveRecords reader m store keys with
  | none => none
  | some (primary,filtered,_) =>
    if constraints.isEmpty then packReply primary filtered startPosition resumeAfter
    else
      let matched := filtered.filter fun record => recordMatchesConstraints reader record.data constraints
      if matched.isEmpty then none else packReply primary matched startPosition resumeAfter

def blobAnchor (blob : Bytes) : Option Anchor :=
  if blob.length < 64 then none else recordAnchor (blob.take (blob.length-64))

def pushAnchors : List Bytes → ResumeAnchors → ResumeAnchors
  | [], anchors => anchors
  | blob :: rest, anchors =>
    match blobAnchor blob with
    | none => anchors
    | some anchor => pushAnchors rest (anchors.push anchor)

def pageResumeAnchors (blobs : List Bytes) (askedStart nextPosition : Nat) : ResumeAnchors :=
  if askedStart+1 ≤ nextPosition ∧ nextPosition-askedStart-1 < blobs.length then
    pushAnchors ((blobs.take (nextPosition-askedStart)).reverse.take maxResumeAnchors) {}
  else {}

structure FindValueRequest where
  startPosition : Nat := 0
  resumeAfter : ResumeAnchors := {}

def nextPage (asked : FindValueRequest) (reply : FoundValueReply) : Option FindValueRequest :=
  if reply.totalAvailable ≤ reply.nextPosition then none
  else if reply.nextPosition ≤ asked.startPosition then none
  else some ⟨reply.nextPosition,pageResumeAnchors reply.blobs asked.startPosition reply.nextPosition⟩

def nextWindow (_ : FindValueRequest) (reply : FoundValueReply) : Option FindValueRequest :=
  if reply.totalAvailable ≤ reply.nextPosition then none else some ⟨reply.nextPosition,{}⟩

/-- The `k`th request of a walk over the pages of one key, as long as it lasts. -/
def pageRequest (answer : Nat → FindValueRequest → Option FoundValueReply)
    (follow : FindValueRequest → FoundValueReply → Option FindValueRequest) : Nat → Option FindValueRequest
  | 0 => some {}
  | k+1 => (pageRequest answer follow k).bind fun asked => (answer k asked).bind (follow asked)

def pageReply (answer : Nat → FindValueRequest → Option FoundValueReply)
    (follow : FindValueRequest → FoundValueReply → Option FindValueRequest) (k : Nat) : Option FoundValueReply :=
  (pageRequest answer follow k).bind (answer k)

end Ember.Dht
