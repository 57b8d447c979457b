import Ember.Dht.Search

/-! What a search makes of an answer's records: which it takes, which wait for a second node, and
how much of one node's word it takes at all. -/
namespace Ember.Dht
open Bytes Table
attribute [local instance] nodeId_lawful
variable (data : Bytes)

def recordIsCurrent (nowUnix : Int) : Bool :=
  match get data 105 113 with
  | none => false
  | some bytes =>
    let createdAt := i64 bytes
    let ttlSecs := recordTtl data
    let skew := skewToleranceSecs ttlSecs
    createdAt ≤ nowUnix+2*skew && clampI64 (nowUnix-createdAt) < ttlSecs+skew

def valueBlobIsCurrent (blob : Bytes) (nowUnix : Int) : Bool :=
  64 ≤ blob.length && recordIsCurrent (blob.take (blob.length-64)) nowUnix

def channelTrailerMinLen : Nat := 3

def channelTrailerLen (nameLen : Nat) : Option Nat :=
  let off := 115+nameLen
  if data.length < off+channelTrailerMinLen then none
  else some (channelTrailerMinLen+littleEndian (slice data (off+1) (off+3)))

def valueBlobIsAuthentic (crypto : Crypto) (blob : Bytes) : Bool :=
  if blob.length < 115+64 then false
  else
    let data := blob.take (blob.length-64)
    let nameLen := littleEndian (slice data 113 115)
    if data.length < 115+nameLen then false
    else if isType data recordTypeSource && data.length < 115+nameLen+sourceContactWireLen then false
    else if (isType data recordTypeChannel || isType data recordTypeFeed || isType data recordTypeFeedListing) &&
        !(channelTrailerLen data nameLen).any (fun n => data.length == 115+nameLen+n) then false
    else (crypto.verifyingKeyFromBytes (array 256 (slice data 73 105))).any fun key =>
      crypto.verify key data (array 512 (blob.drop (blob.length-64)))

/-- What one blob buys: its file when it is a keyword record, itself otherwise. -/
def budgetIdentity (blobDigest : Digest) : FileHash :=
  if isType data recordTypeKeyword && 33 ≤ data.length then fileHashFromRecordData data
  else blobDigest.extractLsb' 128 128

def publisherShare : Option (FileHash × Digest) :=
  if !isType data recordTypeKeyword || data.length < 65 then none
  else some (fileHashFromRecordData data,emberDigestFromRecordData data)

def differ : Option Nat → Option Nat → Bool
  | some a, some b => a != b
  | _, _ => false

namespace Harvest

variable (h : Harvest) (node : EmberNodeId)

def remoteBlobs : Nat := h.results.length-h.seededCount-h.absorbedCount

def valueBudgetFull : Bool :=
  maxSearchResults ≤ h.budgetSpent.card || maxSearchResultBlobs ≤ h.remoteBlobs

def noteContributor : Harvest :=
  if h.localNode = some node ∨ node ∈ h.contributors then h
  else { h with contributors := h.contributors++[node], soleHeld := [] }

def holdsSoleWord : Bool :=
  if h.localNode = some node then h.contributors.isEmpty
  else h.seededCount == 0 && h.contributors == [node]

def offersMostlyAdmissible : Bool :=
  let held := if h.holdsSoleWord node then h.heldDelivered.count node else 0
  h.offeredResults.count node ≤ (h.deliveredResults.count node+held)*2

def push (blobDigest : Digest) (record : SearchResultRecord) : Harvest :=
  { h with
    resultSlots := h.resultSlots.insert blobDigest h.results.length
    results := h.results++[record] }

def chargeOffer : Harvest :=
  { h with offeredResults := h.offeredResults.bump node }

end Harvest

namespace IterativeSearch
variable (crypto : Crypto) (clock : Clock) (s : IterativeSearch) (node : EmberNodeId) (fromId : EmberNodeId)
  (fromSubnet : Option Nat) (blobDigest : Digest) (data : Bytes)

def nodeSubnet : Option Nat :=
  if s.localNode = some node then none
  else (s.responderSubnets.lookup node).or ((s.contactOf node).map EmberContact.subnetKey)

def holdTurnedAway : Harvest :=
  let h := s.noteContributor node
  let h := { h with
    turnedAway := h.turnedAway.insert blobDigest (node,s.nodeSubnet node)
    heldDelivered := h.heldDelivered.bump node }
  if h.holdsSoleWord node then { h with soleHeld := h.soleHeld++[(blobDigest,data)] } else h

def confirm : Harvest :=
  match (s.resultSlots.lookup blobDigest).bind fun slot => (s.results[slot]?).map fun held => (slot,held) with
  | none => s.toHarvest
  | some (slot,held) =>
    let independent := s.localNode == some held.fromNode || differ (s.nodeSubnet held.fromNode) fromSubnet
    let h := if independent && held.fromNode != fromId && held.confirmedBy.isNone then
        { s.toHarvest with
          results := s.results.set slot { held with confirmedBy := some fromId, confirmedSubnet := fromSubnet } }
      else s.toHarvest
    h.noteContributor fromId

/-- Gives an authentic blob its slot, while the budget has one. `unlocked` is the node whose share had
turned it away, when this copy admits it, and `prior` whoever offered it first. -/
def keep (h : Harvest) (fromId : EmberNodeId) (fromSubnet : Option Nat) (blobDigest : Digest)
    (data : Bytes) (unlocked prior : Option EmberNodeId) (share : Option (FileHash × Digest)) : Harvest :=
  if h.valueBudgetFull then h
  else
    let priorSubnet := (h.turnedAway.lookup blobDigest).bind Prod.snd
    let h := { h with
      budgetSpent := insert (budgetIdentity data blobDigest) h.budgetSpent
      publishersTaken := share.elim h.publishersTaken fun owned => h.publishersTaken.bump (fromId,owned)
      confirmationsTaken := if unlocked.isNone then h.confirmationsTaken
        else (publisherShare data).elim h.confirmationsTaken fun owned => h.confirmationsTaken.bump (fromId,owned)
      turnedAway := h.turnedAway.erase blobDigest
      lastNewRecord := clock.instant }
    h.push blobDigest (match unlocked with
      | some first => ⟨data,first,some fromId,priorSubnet,fromSubnet,h.localNode == some first⟩
      | none => ⟨data,fromId,prior,fromSubnet,prior.bind fun _ => priorSubnet,h.localNode == some fromId⟩)

/-- Weighs a blob not held as `fromId`'s offer, charged whatever comes of it. Says whether it
delivered. -/
def weigh (unlocked prior : Option EmberNodeId) : Harvest × Bool :=
  let share := if unlocked.isNone then publisherShare data else none
  let overShare := share.any fun owned => maxPublishersPerFilePerNode ≤ s.publishersTaken.count (fromId,owned)
  let h := s.chargeOffer fromId
  if !valueBlobIsCurrent data clock.unix then (h,false)
  else if overShare then
    if valueBlobIsAuthentic crypto data then
      ({ s with toHarvest := h : IterativeSearch }.holdTurnedAway fromId blobDigest data,false)
    else (h,false)
  else
    let h := { h with seenResults := insert blobDigest h.seenResults }
    if !valueBlobIsAuthentic crypto data then (h,false)
    else
      let h := { h with deliveredResults := h.deliveredResults.bump fromId }.noteContributor fromId
      (keep clock h fromId fromSubnet blobDigest data unlocked prior share,true)

def answersKey : Bool :=
  17+64 ≤ data.length && array 128 (slice data 1 17) == s.target &&
    (!s.keywordLookup || isType data recordTypeKeyword)

structure Intake where
  harvest : Harvest
  cutShort : Bool := false
  deliveredNow : Nat := 0
  carried : Nat := 0

def takeRecord (w : Walk) (fromId : EmberNodeId) (fromSubnet : Option Nat)
    (offerAllowance : Nat) (intake : Intake) (data : Bytes) : Intake :=
  let s : IterativeSearch := { toWalk := w, toHarvest := intake.harvest }
  if w.searchType = .findValue && !s.answersKey data then intake
  else
    let intake := { intake with carried := intake.carried+1 }
    if offerAllowance ≤ s.offeredResults.count fromId then { intake with cutShort := true }
    else
      let blobDigest := crypto.blake3 data
      if blobDigest ∈ s.seenResults then { intake with harvest := s.confirm fromId fromSubnet blobDigest }
      else
        let weighed := fun unlocked prior =>
          let (h,delivered) := weigh crypto clock s fromId fromSubnet blobDigest data unlocked prior
          { intake with harvest := h, deliveredNow := intake.deliveredNow+delivered.toNat }
        match s.turnedAway.lookup blobDigest with
        | none => weighed none none
        | some (first,firstSubnet) =>
          if first = fromId then intake
          else if !(s.localNode == some first || differ firstSubnet fromSubnet) then
            { intake with harvest := s.chargeOffer fromId }
          else
            let within := (publisherShare data).all fun owned =>
              s.confirmationsTaken.count (fromId,owned) < maxConfirmedPerFilePerNode
            weighed (if within then some first else none) (some first)

def takeRecords (offerAllowance : Nat) (records : List Bytes) : Intake :=
  records.foldl (takeRecord crypto clock s.toWalk fromId fromSubnet offerAllowance) { harvest := s.toHarvest }

/-- Takes what the share turned away from `node`, until the budget it counts against is full. -/
def takeHeld (s : IterativeSearch) (node : EmberNodeId) (seeded : Bool) :
    List (Digest × Bytes) → Harvest → Harvest
  | [], h => h
  | (blobDigest,data) :: rest, h =>
    if (if seeded then decide (maxLocalSeedResults ≤ h.seededCount) else h.valueBudgetFull) then h
    else if (h.turnedAway.lookup blobDigest).isNone then takeHeld s node seeded rest h
    else
      let h := { h with turnedAway := h.turnedAway.erase blobDigest }
      if blobDigest ∈ h.seenResults then takeHeld s node seeded rest h
      else
        let h := { h with
          seenResults := insert blobDigest h.seenResults
          seededCount := if seeded then h.seededCount+1 else h.seededCount
          budgetSpent := if seeded then h.budgetSpent
            else insert (budgetIdentity data blobDigest) h.budgetSpent }
        takeHeld s node seeded rest (h.push blobDigest ⟨data,node,none,s.nodeSubnet node,none,seeded⟩)

def takeSoleContributorsHeld : Harvest :=
  if s.searchType ≠ .findValue ∨ s.soleHeld = [] then s.toHarvest
  else
    let sole := match s.contributors with
      | [] => s.localNode
      | [only] => some only
      | _ => none
    match sole with
    | none => s.toHarvest
    | some node =>
      if !s.holdsSoleWord node then { s.toHarvest with soleHeld := [] }
      else takeHeld s node (s.localNode == some node) s.soleHeld { s.toHarvest with soleHeld := [] }

end IterativeSearch
end Ember.Dht
