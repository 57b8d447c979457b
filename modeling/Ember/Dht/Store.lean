import Ember.Dht.PublisherIndex
import Ember.Dht.Scale

/-! The record store: its state, how records are given up, and the two evictors (room for a new key,
and the byte budget). A call's clock reading and the order in which its walks visit the hash map
arrive with the call. -/
namespace Ember.Dht
open Bytes Table List

def maxRecordsPerKey : Nat := 1000
def maxRecordsPerPublisherPerKey : Nat := 150
def maxFeedListingsPerPublisherPerKey : Nat := 2*feedsPerIdentity
def relayedSourcesPerIpFactor : Nat := 4

/-- `size_of::<DhtRecord>()` on a 64-bit target. -/
def dhtRecordSize : Nat := 200

def recordCost (dataLen : Nat) : Nat := dataLen+dhtRecordSize

structure DhtRecord where
  data : Bytes
  signature : Signature
  publisherKey : PublisherKey
  createdAt : Int
  attributedIp : Option Ipv4Addr
  expiresAtUnix : Int
  lastRepublished : Nat
  republishDue : Bool
  deriving DecidableEq

namespace DhtRecord

def cost (record : DhtRecord) : Nat := recordCost record.data.length

def fileHash (record : DhtRecord) : FileHash := fileHashFromRecordData record.data

def slot (record : DhtRecord) : PublisherKey × FileHash := (record.publisherKey,record.fileHash)

def liveAt (nowUnix : Int) (record : DhtRecord) : Bool := nowUnix < record.expiresAtUnix

end DhtRecord

abbrev Entries := Table Key (List DhtRecord)

def held (entries : Entries) (key : Key) : List DhtRecord := (entries.lookup key).getD []

/-- What a call finds outside the store: both clocks, in the range of `chrono`, and the order its
walks take. -/
structure Moment where
  unix : Int
  instant : Nat
  order : Entries → List (Σ _ : Key, List DhtRecord)
  perm : ∀ entries, (order entries).Perm entries.entries
  range : -8334601228800 ≤ unix ∧ unix ≤ 8210266876799

theorem range_million : (-8334601228800 : Int) ≤ 1000000 ∧ (1000000 : Int) ≤ 8210266876799 := by decide

def Moment.reading (unix : Int) (range : -8334601228800 ≤ unix ∧ unix ≤ 8210266876799) : Moment where
  unix := unix
  instant := 0
  order entries := entries.entries
  perm _ := .refl _
  range := range

inductive Rejection where
  | signature
  | timestamp
  | keyCap
  | sourceIpCap
  | publisherCap
  | perKeyCap
  | unparseable

structure StoreRejectStats where
  signature : Nat := 0
  timestamp : Nat := 0
  keyCap : Nat := 0
  sourceIpCap : Nat := 0
  publisherCap : Nat := 0
  perKeyCap : Nat := 0
  unparseable : Nat := 0

def saturatingSucc (count : Nat) : Nat := min (count+1) (2^64-1)

def StoreRejectStats.note (stats : StoreRejectStats) : Rejection → StoreRejectStats
  | .signature => { stats with signature := saturatingSucc stats.signature }
  | .timestamp => { stats with timestamp := saturatingSucc stats.timestamp }
  | .keyCap => { stats with keyCap := saturatingSucc stats.keyCap }
  | .sourceIpCap => { stats with sourceIpCap := saturatingSucc stats.sourceIpCap }
  | .publisherCap => { stats with publisherCap := saturatingSucc stats.publisherCap }
  | .perKeyCap => { stats with perKeyCap := saturatingSucc stats.perKeyCap }
  | .unparseable => { stats with unparseable := saturatingSucc stats.unparseable }

inductive Eviction where
  | crowdingKey (key : Key)
  | furthestKey (key : Key)
  | overBudget (dropped : Nat)
  | stalestListing (key : Key) (signedAt : Int)

def Eviction.forced : Eviction → Bool
  | stalestListing .. => false
  | _ => true

structure DhtStore where
  entries : Entries
  publisherIndex : PublisherIndex
  responsibilityFiltered : Bool
  scale : NetworkScale
  republishCursor : Option (Key × Nat)
  bytes : Nat
  localId : Option EmberNodeId
  byteBudget : Nat
  keyBudget : Nat
  rejects : StoreRejectStats
  furthestKeyDistance : Option Key
  /-- Ghost: some `saturating_sub` of the byte counter went below zero. -/
  saturated : Bool
  /-- Ghost: some `saturating_sub` of two times left the range of `i64`. -/
  ageSaturated : Bool
  /-- Ghost: what was given up, newest first. -/
  evictions : List Eviction

def xorDistance (a b : Key) : Key := a ^^^ b

structure Release where
  publisher : PublisherKey
  cost : Nat
  last : Bool
  feedHead : Bool

/-- The releases of `gone` beside the records `kept` under the key: a publisher gives up its key
slot once, and only when none of its records stay. -/
def releases (kept : List DhtRecord) : Finset PublisherKey → List DhtRecord → List Release
  | _, [] => []
  | released, record :: rest =>
    let absent := !kept.any (·.publisherKey == record.publisherKey)
    { publisher := record.publisherKey
      cost := record.cost
      last := absent && decide (record.publisherKey ∉ released)
      feedHead := isFeedHead record.data } ::
    releases kept (if absent then insert record.publisherKey released else released) rest

def PublisherIndex.dischargeAll (index : PublisherIndex) (released : List Release) : PublisherIndex :=
  released.foldl (fun index r => index.discharge r.publisher r.cost r.last r.feedHead) index

def costs (records : List DhtRecord) : Nat := (records.map DhtRecord.cost).sum

namespace DhtStore

def new : DhtStore where
  entries := ∅
  publisherIndex := .new maxKeysPerPublisher maxBytesPerPublisher
  responsibilityFiltered := true
  scale := .bootstrap
  republishCursor := none
  bytes := 0
  localId := none
  byteBudget := maxStoreBytes
  keyBudget := maxKeys
  rejects := {}
  furthestKeyDistance := none
  saturated := false
  ageSaturated := false
  evictions := []

variable (store : DhtStore)

def setScale (scale : NetworkScale) : DhtStore := { store with scale := scale }

def setResponsibilityFiltered (filtered : Bool) : DhtStore :=
  if store.responsibilityFiltered = filtered then store
  else if filtered then
    { store with
      responsibilityFiltered := filtered
      publisherIndex := store.publisherIndex.setShares maxKeysPerPublisher maxBytesPerPublisher }
  else
    { store with
      responsibilityFiltered := filtered
      publisherIndex :=
        store.publisherIndex.setShares maxKeysPerPublisherUnfiltered maxBytesPerPublisherUnfiltered }

def setLocalId (localId : EmberNodeId) : DhtStore :=
  { store with localId := some localId }

def setLocalPublisherKey (publisherKey : PublisherKey) : DhtStore :=
  { store with publisherIndex := store.publisherIndex.setLocal publisherKey }

def reject (why : Rejection) : DhtStore :=
  { store with rejects := store.rejects.note why }

def setEntries (entries : Entries) : DhtStore := { store with entries := entries }

def setBound (bound : Option Key) : DhtStore := { store with furthestKeyDistance := bound }

def logEviction (eviction : Eviction) : DhtStore :=
  { store with evictions := eviction :: store.evictions }

def noteNoVictim : DhtStore :=
  { store with publisherIndex := { store.publisherIndex with noCrowdingVictim := true } }

def noteAge (exact : Int) : DhtStore :=
  { store with ageSaturated := store.ageSaturated || clampI64 exact != exact }

def release (freed : Nat) (released : List Release) : DhtStore :=
  { store with
    bytes := store.bytes-freed
    saturated := store.saturated || decide (store.bytes < freed)
    publisherIndex := store.publisherIndex.dischargeAll released }

def keyCount : Nat := store.entries.entries.length

def records (key : Key) : List DhtRecord := held store.entries key

def liveRecords (m : Moment) (key : Key) : List DhtRecord :=
  (store.records key).filter (DhtRecord.liveAt m.unix)

def dropKey (key : Key) : DhtStore :=
  match store.entries.lookup key with
  | none => store
  | some records =>
    (store.setEntries (store.entries.erase key)).release (costs records) (releases [] ∅ records)

def crowds (records : List DhtRecord) : Bool :=
  store.publisherIndex.anyoneOverShare && !records.isEmpty &&
    records.all (fun r => store.publisherIndex.isOverShare r.publisherKey)

structure Scan where
  furthest : Option (Key × Key) := none
  runnerUp : Option Key := none
  crowding : Option (Key × Key) := none

def scanKey (localId : EmberNodeId) (scan : Scan) (entry : Σ _ : Key, List DhtRecord) : Scan :=
  let distance := xorDistance localId entry.1
  let crowding :=
    if store.crowds entry.2 && scan.crowding.all (fun held => held.2 < distance) then
      some (entry.1,distance)
    else scan.crowding
  match scan.furthest with
  | none => { scan with furthest := some (entry.1,distance), crowding := crowding }
  | some current =>
    if current.2 < distance then
      { furthest := some (entry.1,distance), runnerUp := some current.2, crowding := crowding }
    else if scan.runnerUp.all (· < distance) then
      { scan with runnerUp := some distance, crowding := crowding }
    else { scan with crowding := crowding }

/-- The eviction half of `make_room_for_key`, once no key has wholly lapsed. -/
def giveUpKey (m : Moment) (store : DhtStore) (localId : EmberNodeId) (incomingDistance : Key) :
    DhtStore × Bool :=
  let scan := (m.order store.entries).foldl (scanKey store localId) {}
  match scan.crowding with
  | some victim => ((store.dropKey victim.1).logEviction (.crowdingKey victim.1),true)
  | none =>
    let store := if store.publisherIndex.anyoneOverShare then store.noteNoVictim else store
    match scan.furthest with
    | none => (store,false)
    | some furthest =>
      if furthest.2 ≤ incomingDistance then (store.setBound (some furthest.2),false)
      else
        let bound := match scan.runnerUp with
          | some runnerUp => if incomingDistance ≤ runnerUp then runnerUp else incomingDistance
          | none => incomingDistance
        (((store.dropKey furthest.1).logEviction (.furthestKey furthest.1)).setBound (some bound),true)

def expiredKeys (m : Moment) (store : DhtStore) : List Key :=
  ((m.order store.entries).filter fun e => e.2.all fun r => !r.liveAt m.unix).map Sigma.fst

def makeRoomForKey (m : Moment) (store : DhtStore) (incoming : Key) (publisher : PublisherKey) :
    DhtStore × Bool :=
  if store.keyCount < store.keyBudget then (store,true)
  else match store.localId with
    | none => (store,false)
    | some localId =>
      let incomingDistance := xorDistance localId incoming
      if store.publisherIndex.isOverShare publisher then (store,false)
      else if store.furthestKeyDistance.any (· ≤ incomingDistance) &&
          (!store.publisherIndex.anyoneOverShare || store.publisherIndex.noCrowdingVictim) then
        (store,false)
      else
        let expired := store.expiredKeys m
        if expired.isEmpty then store.giveUpKey m localId incomingDistance
        else
          let store := (expired.foldl dropKey store).setBound none
          if store.keyCount < store.keyBudget then (store,true)
          else store.giveUpKey m localId incomingDistance

structure Ranked where
  key : Key
  crowding : Bool
  distance : Key

def Ranked.ahead (a b : Ranked) : Prop :=
  if a.crowding = b.crowding then b.distance ≤ a.distance else a.crowding = true

instance (a b : Ranked) : Decidable (a.ahead b) := by unfold Ranked.ahead; infer_instance

def ranked (m : Moment) (store : DhtStore) (spare : Key) : List Ranked :=
  (((m.order store.entries).filter fun e => e.1 != spare).map fun e =>
    { key := e.1
      crowding := store.crowds e.2
      distance := store.localId.elim 0 (xorDistance · e.1) }).insertionSort Ranked.ahead

def dropRecord (key : Key) (records : List DhtRecord) (victim : DhtRecord) : DhtStore :=
  let rest := records.erase victim
  (store.setEntries (store.entries.insert key rest)).release victim.cost (releases rest ∅ [victim])

def trimKey (target : Nat) (key : Key) (store : DhtStore) (records : List DhtRecord) :
    DhtStore × List DhtRecord :=
  if store.bytes ≤ target then (store,records)
  else match _least : records.argmin DhtRecord.expiresAtUnix with
    | none => (store,records)
    | some victim => trimKey target key (store.dropRecord key records victim) (records.erase victim)
termination_by records.length
decreasing_by
  have found := argmin_mem _least
  rw [length_erase_of_mem found]
  exact Nat.sub_lt (length_pos_of_mem found) Nat.one_pos

def trimKeys (target : Nat) : List Key → DhtStore → Nat → DhtStore × Nat
  | [], store, dropped => (store,dropped)
  | key :: rest, store, dropped =>
    match store.entries.lookup key with
    | none => trimKeys target rest store dropped
    | some records =>
      let trimmed := trimKey target key store records
      let left := if trimmed.2.isEmpty then trimmed.1.setEntries (trimmed.1.entries.erase key) else trimmed.1
      let dropped := dropped+(records.length-trimmed.2.length)
      if left.bytes ≤ target then (left,dropped) else trimKeys target rest left dropped

def enforceByteBudget (m : Moment) (store : DhtStore) (spare : Key) : DhtStore :=
  if store.bytes ≤ store.byteBudget then store
  else
    let target := store.byteBudget-store.byteBudget/10
    let trimmed := trimKeys target ((store.ranked m spare).map Ranked.key) store 0
    if 0 < trimmed.2 then trimmed.1.logEviction (.overBudget trimmed.2) else trimmed.1

end DhtStore
end Ember.Dht
