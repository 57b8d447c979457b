import Ember.Dht.StoreRecord

/-! The store's remaining operations (the two sweeps, republishing, restoring) and runs: every
operation a caller can make, from an empty store. -/
namespace Ember.Dht
open Bytes Table

structure PersistedRecord where
  key : Key
  data : Bytes
  signature : Signature
  publisherKey : PublisherKey
  createdAt : Int
  attributedIp : Option Ipv4Addr

def PersistedRecord.verifies (env : Env) (m : Moment) (record : PersistedRecord) : Bool :=
  (signedIdentityFromRecordData record.data).any fun (_,author,createdAt) =>
    clampI64 (m.unix-createdAt) < recordTtl record.data &&
      verifyRecordSignature env record.data record.signature author

structure VerifiedRecords (env : Env) where
  records : List PersistedRecord
  signed : ∀ record ∈ records, (signedIdentityFromRecordData record.data).any
    fun (_,author,_) => verifyRecordSignature env record.data record.signature author

def VerifiedRecords.verify (env : Env) (m : Moment) (records : List PersistedRecord) :
    VerifiedRecords env where
  records := (records.filter fun record => !isType record.data recordTypeSource).filter
    (PersistedRecord.verifies env m)
  signed := by
    intro record member
    have checked := (List.mem_filter.1 member).2
    unfold PersistedRecord.verifies at checked
    cases identity : signedIdentityFromRecordData record.data with
    | none => simp [identity] at checked
    | some signed =>
      simp only [identity,Option.any_some,Bool.and_eq_true] at checked ⊢
      exact checked.2

namespace DhtStore

variable (env : Env) (m : Moment) (store : DhtStore)

def sweep (keep : DhtRecord → Bool) : DhtStore × Nat :=
  let walk := m.order store.entries
  let gone := fun records : List DhtRecord => records.filter fun r => !keep r
  let freed := (walk.map fun e => costs (gone e.2)).sum
  let released := walk.flatMap fun e => releases (e.2.filter keep) ∅ (gone e.2)
  let removed := (walk.map fun e => (gone e.2).length).sum
  let left := fun records : List DhtRecord =>
    if (records.filter keep).isEmpty then none else some (records.filter keep)
  ((store.setEntries (retain left store.entries)).release freed released,removed)

def expire : DhtStore × Nat :=
  store.sweep m (DhtRecord.liveAt m.unix)

def dropPublisherFiles (publisherKey : PublisherKey)
    (fileHashes : Finset FileHash) : DhtStore × Nat :=
  if fileHashes = ∅ then (store,0)
  else store.sweep m fun r => !(r.publisherKey == publisherKey && decide (r.fileHash ∈ fileHashes))

structure Republish where
  interval : Nat
  max : Nat
  force : Bool

abbrev Batch := List (Bytes × Signature)

def republishRecords (m : Moment) (request : Republish) (skip : Nat) :
    Nat → Batch → List DhtRecord → List DhtRecord × Batch × Option Nat
  | _, out, [] => ([],out,none)
  | idx, out, record :: rest =>
    let due := request.force || record.republishDue ||
      decide (request.interval ≤ m.instant-record.lastRepublished)
    if idx < skip then
      let taken := republishRecords m request skip (idx+1) out rest
      (record :: taken.1,taken.2)
    else if request.max ≤ out.length then (record :: rest,out,some idx)
    else if storerReplicates record.data && record.liveAt m.unix && due then
      let sent := { record with lastRepublished := m.instant, republishDue := false }
      let taken := republishRecords m request skip (idx+1) (out++[(record.data,record.signature)]) rest
      (sent :: taken.1,taken.2)
    else
      let taken := republishRecords m request skip (idx+1) out rest
      (record :: taken.1,taken.2)

def republishKeys (m : Moment) (request : Republish) : List Key → Nat → DhtStore → Batch → DhtStore × Batch
  | [], _, store, out => ({ store with republishCursor := none },out)
  | key :: rest, skip, store, out =>
    match store.entries.lookup key with
    | none => republishKeys m request rest 0 store out
    | some records =>
      let taken := republishRecords m request skip 0 out records
      let store := store.setEntries (store.entries.insert key taken.1)
      match taken.2.2 with
      | some idx => ({ store with republishCursor := some (key,idx) },taken.2.1)
      | none => republishKeys m request rest 0 store taken.2.1

def takeRepublishBatch (request : Republish) : DhtStore × Batch :=
  let ordered := (m.order store.entries).map Sigma.fst
  let resume : Nat × Nat := match store.republishCursor with
    | some (key,idx) => (ordered.idxOf? key).elim (0,0) (·,idx)
    | none => (0,0)
  republishKeys m request (ordered.rotate resume.1) resume.2 store []

def markRepublishDue (key : Key) (signature : Signature) : DhtStore :=
  let records := store.records key
  match records.dropWhile fun r => r.signature != signature with
  | [] => store
  | record :: after =>
    let before := records.takeWhile fun r => r.signature != signature
    store.setEntries (store.entries.insert key (before++{ record with republishDue := true } :: after))

def restoreRecord (record : PersistedRecord) : DhtStore × Bool :=
  let data := record.data
  if isType data recordTypeSource then (store,false)
  else match signedIdentityFromRecordData data with
    | none => (store,false)
    | some (key,_,createdAt) =>
      let age := clampI64 (m.unix-createdAt)
      let store := store.noteAge (m.unix-createdAt)
      if recordTtl data ≤ age then (store,false)
      else if isType data recordTypeChannel && !env.channelStoreOk data record.signature then (store,false)
      else if isFeedHead data && !env.feedStoreOk data record.signature then (store,false)
      else if isFeedListing data && !env.feedListingStoreOk data record.signature then (store,false)
      else if !isFeedListing data && env.isFeedIndexKey key then (store,false)
      else store.storeRecord env m key data record.signature none true

def restoreAll (env : Env) : List PersistedRecord → (Nat → Moment) → DhtStore → DhtStore × Nat
  | [], _, store => (store,0)
  | record :: rest, clock, store =>
    let stored := store.restoreRecord env (clock 0) record
    let others := restoreAll env rest (fun n => clock (n+1)) stored.1
    (others.1,others.2+stored.2.toNat)

/-- The clock is read anew for every record of the file. -/
def restoreVerified (clock : Nat → Moment) (store : DhtStore)
    (records : VerifiedRecords env) : DhtStore × Nat :=
  restoreAll env records.records clock store

end DhtStore

inductive StoreOp (env : Env) where
  | storeAttributed (m : Moment) (key : Key) (data : Bytes) (signature : Signature)
      (attributedIp : Option Ipv4Addr)
  | restoreVerified (clock : Nat → Moment) (records : VerifiedRecords env)
  | expire (m : Moment)
  | dropPublisherFiles (m : Moment) (publisherKey : PublisherKey) (fileHashes : Finset FileHash)
  | setLocalId (localId : EmberNodeId)
  | setLocalPublisherKey (publisherKey : PublisherKey)
  | setResponsibilityFiltered (filtered : Bool)
  | setScale (scale : NetworkScale)
  | takeRepublishBatch (m : Moment) (request : DhtStore.Republish)
  | markRepublishDue (key : Key) (signature : Signature)
  | createdAtAdmissible (m : Moment) (data : Bytes) (createdAt : Int)

def StoreOp.apply {env : Env} (store : DhtStore) : StoreOp env → DhtStore
  | storeAttributed m key data signature ip => (store.storeAttributed env m key data signature ip).1
  | restoreVerified clock records => (store.restoreVerified env clock records).1
  | expire m => (store.expire m).1
  | dropPublisherFiles m publisher files => (store.dropPublisherFiles m publisher files).1
  | setLocalId localId => store.setLocalId localId
  | setLocalPublisherKey publisher => store.setLocalPublisherKey publisher
  | setResponsibilityFiltered filtered => store.setResponsibilityFiltered filtered
  | setScale scale => store.setScale scale
  | takeRepublishBatch m request => (store.takeRepublishBatch m request).1
  | markRepublishDue key signature => store.markRepublishDue key signature
  | createdAtAdmissible m data createdAt => (store.createdAtAdmissible m data createdAt).1

def DhtStore.run {env : Env} (store : DhtStore) (ops : List (StoreOp env)) : DhtStore :=
  ops.foldl StoreOp.apply store

end Ember.Dht
