import Ember.Dht.Store

/-! The store's operations: `store_record` from the body checks to the byte budget, the two sweeps,
republishing and restoring, and runs of them. -/
namespace Ember.Dht
open Bytes Table

/-- What the store does not implement: signatures, and the shard-key rules of a restored record. -/
structure Env where
  verifyingKeyFromBytes : PublisherKey → Option PublisherKey
  verify : PublisherKey → Bytes → Signature → Bool
  channelStoreOk : Bytes → Signature → Bool
  feedStoreOk : Bytes → Signature → Bool
  feedListingStoreOk : Bytes → Signature → Bool
  isFeedIndexKey : Key → Bool

variable (data : Bytes) (scale : NetworkScale) (ipClass : Ipv4Addr × Bool)

def Env.trusting : Env where
  verifyingKeyFromBytes := some
  verify _ _ _ := true
  channelStoreOk _ _ := true
  feedStoreOk _ _ := true
  feedListingStoreOk _ _ := true
  isFeedIndexKey _ := false

def verifyRecordSignature (env : Env) (data : Bytes) (signature : Signature)
    (publisherKey : PublisherKey) : Bool :=
  (env.verifyingKeyFromBytes publisherKey).any (env.verify · data signature)

def residentGivesWay (resident : DhtRecord) (data : Bytes) (createdAt : Int) (signature : Signature) : Bool :=
  let byDate := if resident.createdAt < createdAt then true
    else if createdAt < resident.createdAt then false
    else resident.signature ≤ signature
  match feedHeadSequenceOf resident.data, feedHeadSequenceOf data with
  | some held, some incoming => if held = incoming then byDate else held < incoming
  | _, _ => byDate

def storerReplicates : Bool :=
  isType data recordTypeKeyword || isType data recordTypeFeed || isType data recordTypeFeedListing ||
    (isType data recordTypeChannel && !isPresence data)

def sourceIpClass (record : DhtRecord) : Option (Ipv4Addr × Bool) :=
  match record.attributedIp with
  | some ip => some (ip,true)
  | none => (sourceIpFromRecordData record.data).map (·,false)

def sourceIpCap : Nat :=
  if ipClass.2 then scale.maxSourcesPerIp*relayedSourcesPerIpFactor else scale.maxSourcesPerIp

def sourceIpFull (others : List DhtRecord) : Bool :=
  sourceIpCap scale ipClass ≤ others.countP fun r => sourceIpClass r == some ipClass

def publisherCap : Nat :=
  if isFeedListing data then maxFeedListingsPerPublisherPerKey else maxRecordsPerPublisherPerKey

def newRecord (m : Moment) (data : Bytes) (signature : Signature) (publisherKey : PublisherKey)
    (createdAt : Int) (attributedIp : Option Ipv4Addr) : DhtRecord :=
  let agedFrom := if isPresenceDeparture data then createdAt else min createdAt m.unix
  { data := data
    signature := signature
    publisherKey := publisherKey
    createdAt := createdAt
    attributedIp := attributedIp
    expiresAtUnix := clampI64 (agedFrom+recordTtl data)
    lastRepublished := m.instant
    republishDue := false }

namespace DhtStore
variable (env : Env) (m : Moment) (store : DhtStore) (key : Key) (data : Bytes) (publisherKey : PublisherKey)
  (signature : Signature) (attributedIp : Option Ipv4Addr) (signatureChecked : Bool) (record : DhtRecord)
  (records : List DhtRecord)

def admitCreatedAt (createdAt ttlSecs nowUnix : Int) : DhtStore × Bool :=
  if nowUnix+skewToleranceSecs ttlSecs < createdAt then (store.reject .timestamp,false)
  else
    let age := clampI64 (nowUnix-createdAt)
    let store := store.noteAge (nowUnix-createdAt)
    if ttlSecs ≤ max age 0 then (store.reject .timestamp,false) else (store,true)

def createdAtAdmissible (createdAt : Int) : DhtStore × Bool :=
  store.admitCreatedAt createdAt (recordTtl data) m.unix

def checkBody : DhtStore × Option (PublisherKey × Int) :=
  if maxStoreRecordBytes < data.length then (store,none)
  else if data.length < minStoreRecordBytes then (store.reject .unparseable,none)
  else match signedIdentityFromRecordData data with
    | none => (store.reject .unparseable,none)
    | some (signedKey,publisherKey,createdAt) =>
      if signedKey ≠ key then (store.reject .unparseable,none)
      else
        let admitted := store.admitCreatedAt createdAt (recordTtl data) m.unix
        if !admitted.2 then (admitted.1,none)
        else if !signatureChecked && !verifyRecordSignature env data signature publisherKey then
          (admitted.1.reject .signature,none)
        else (admitted.1,some (publisherKey,createdAt))

def headRefused : Bool :=
  isFeedHead data && store.publisherIndex.feedHeadsFull publisherKey &&
    !(store.records key).any fun r =>
      r.publisherKey == publisherKey && isFeedHead r.data && r.fileHash == fileHashFromRecordData data

def admitKey : DhtStore × Bool :=
  if key ∈ store.entries then (store,true)
  else
    let room := store.makeRoomForKey m key publisherKey
    if !room.2 then (room.1.reject .keyCap,false)
    else
      let bound := match room.1.furthestKeyDistance, room.1.localId with
        | some bound, some localId =>
          let distance := xorDistance localId key
          some (if bound < distance then distance else bound)
        | _, _ => none
      (room.1.setBound bound,true)

def substitute (record resident : DhtRecord) (records : List DhtRecord) : DhtStore :=
  { store with
    entries := store.entries.insert key records
    bytes := store.bytes+record.cost-min resident.cost store.bytes
    saturated := store.saturated || decide (store.bytes < resident.cost)
    publisherIndex := (store.publisherIndex.discharge record.publisherKey resident.cost false
      (isFeedHead resident.data)).charge record.publisherKey record.cost false (isFeedHead record.data) }

def replaceResident
    (before : List DhtRecord) (resident : DhtRecord) (after : List DhtRecord) : DhtStore × Bool :=
  if !residentGivesWay resident record.data record.createdAt record.signature then
    (store.reject .timestamp,false)
  else if emberDigestFromRecordData resident.data ≠ 0 ∧ emberDigestFromRecordData record.data = 0 ∧
      m.unix+recordTtl record.data/2 < resident.expiresAtUnix then
    let stamped := { resident with lastRepublished := m.instant, republishDue := false }
    (store.setEntries (store.entries.insert key (before++stamped :: after)),true)
  else if (sourceIpClass record).any fun ipClass => sourceIpClass resident != some ipClass &&
      sourceIpFull store.scale ipClass ((before++after).filter (DhtRecord.liveAt m.unix)) then
    (store.reject .sourceIpCap,false)
  else
    ((store.substitute key record resident (before++record :: after)).enforceByteBudget m key,true)

def stalestListing : Option DhtRecord :=
  if maxRecordsPerKey ≤ records.length && isFeedListing record.data then
    (records.filter fun r => isFeedListing r.data && r.expiresAtUnix < record.expiresAtUnix).argmin
      DhtRecord.expiresAtUnix
  else none

def dropStalest : DhtStore × List DhtRecord :=
  match stalestListing record records with
  | none => (store,records)
  | some dropped =>
    let rest := records.erase dropped
    let last := dropped.publisherKey != record.publisherKey &&
      !rest.any (·.publisherKey == dropped.publisherKey)
    let released : Release := ⟨dropped.publisherKey,dropped.cost,last,isFeedHead dropped.data⟩
    (((store.setEntries (store.entries.insert key rest)).release dropped.cost [released]).logEviction
      (.stalestListing key dropped.createdAt),rest)

def reclaim : DhtStore :=
  let live := records.filter (DhtRecord.liveAt m.unix)
  let lapsed := records.filter fun r => !r.liveAt m.unix
  (store.setEntries (store.entries.insert key live)).release (costs lapsed) (releases live ∅ lapsed)

def push (record : DhtRecord) (first : Bool) : DhtStore :=
  { store with
    entries := store.entries.insert key (records++[record])
    bytes := store.bytes+record.cost
    publisherIndex := store.publisherIndex.charge record.publisherKey record.cost first (isFeedHead record.data) }

/-- A new slot under the key: lapsed records are reclaimed before any cap counts them. -/
def insertRecord : DhtStore × Bool :=
  let live := records.filter (DhtRecord.liveAt m.unix)
  let store := store.reclaim m key records
  let mine := live.countP (·.publisherKey == record.publisherKey)
  if (sourceIpClass record).any fun ipClass => sourceIpFull store.scale ipClass live then
    (store.reject .sourceIpCap,false)
  else if publisherCap record.data ≤ mine then (store.reject .publisherCap,false)
  else
    let cleared := store.dropStalest key record live
    if maxRecordsPerKey ≤ cleared.2.length then (cleared.1.reject .perKeyCap,false)
    else ((cleared.1.push key cleared.2 record (mine == 0)).enforceByteBudget m key,true)

def sameSlot (record resident : DhtRecord) : Bool :=
  resident.publisherKey == record.publisherKey && resident.fileHash == record.fileHash

def placeRecord : DhtStore × Bool :=
  let records := store.records key
  match records.dropWhile fun r => !sameSlot record r with
  | resident :: after =>
    store.replaceResident m key record (records.takeWhile fun r => !sameSlot record r) resident after
  | [] => store.insertRecord m key record records

def storeRecord : DhtStore × Bool :=
  let checked := store.checkBody env m key data signature signatureChecked
  match checked.2 with
  | none => (checked.1,false)
  | some (publisherKey,createdAt) =>
    if checked.1.headRefused key data publisherKey then (checked.1.reject .publisherCap,false)
    else
      let room := checked.1.admitKey m key publisherKey
      if !room.2 then (room.1,false)
      else room.1.placeRecord m key (newRecord m data signature publisherKey createdAt attributedIp)

def storeAttributed : DhtStore × Bool :=
  store.storeRecord env m key data signature attributedIp false

end DhtStore
end Ember.Dht
