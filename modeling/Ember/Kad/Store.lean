import Ember.Dht.Record
import Ember.Kad.Tags
import Ember.Library.Recount
import Ember.Library.Stock

/-! The index this node keeps for others: keyword, source and notes records by target, the totals
over them, and what each publisher holds of the keyword records. -/
namespace Ember.Kad

def maxEntriesPerKey : Nat := 1000
def maxTotalEntries : Nat := 50000
def maxTotalRetainedBytes : Nat := 64*1024*1024
def maxSourceRetainedBytes : Nat := maxTotalRetainedBytes/2
def maxSourceTotalEntries : Nat := maxTotalEntries/2
def maxNotesRetainedBytes : Nat := maxTotalRetainedBytes/8
def maxRetainedBytesPerKey : Nat := 4*1024*1024
def maxRetainedBytesPerPublisherPerKey : Nat := 2*1024*1024
def maxKeywordEntriesPerSender : Nat := 150
def maxKeywordEntriesPerPublisher : Nat := 2000
def maxKeywordBytesPerPublisher : Nat := 4*1024*1024
def keywordEvictionTargetProbes : Nat := 4
def maxKeywordEvictionsPerPublish : Nat := 8
def keywordTtlSecs : Int := 86400
def sourceTtlSecs : Int := 18000
def notesTtlSecs : Int := 86400
def maxNotesPerFile : Nat := 150
def maxNotesTotalEntries : Nat := 10000
def maxSourcesPerIp : Nat := 3

inductive PublisherKey where
  | ip (ip : Dht.Ipv4Addr)
  | id (id : KadId)
  deriving DecidableEq

def keywordBudgetKey (senderId : KadId) (senderIp : Option Dht.Ipv4Addr) : PublisherKey :=
  match senderIp with
  | some ip => .ip ip
  | none => .id senderId

structure StoredEntry where
  id : KadId
  tags : List KadTag
  storedAt : Int
  ttlSecs : Int
  sourceId : KadId
  publisherIp : Option Dht.Ipv4Addr
  retainedBytes : Nat
  deriving DecidableEq

namespace StoredEntry
variable (self : StoredEntry)

def isExpired (now : Int) : Bool := self.ttlSecs ≤ now-self.storedAt

def budgetKey : PublisherKey := keywordBudgetKey self.sourceId self.publisherIp

/-- The largest goes first, of equals the one refreshed longest ago. -/
def bulk : ℕ ×ₗ ℤ := toLex (self.retainedBytes,-self.storedAt)

end StoredEntry
variable (c : Charges) (publisher : PublisherKey) (target : KadId)

def retainedBytes (entries : List StoredEntry) : Nat := (entries.map StoredEntry.retainedBytes).sum

def unexpired (now : Int) (entries : List StoredEntry) : List StoredEntry := entries.filter fun e => !e.isExpired now

structure PublisherUsage where
  entries : Nat := 0
  bytes : Nat := 0
  targets : Table KadId Nat := ∅

/-- `keyword_publisher_usage` and `heaviest_keyword_publisher`. -/
structure Charges where
  usage : Table PublisherKey PublisherUsage
  heaviest : Option PublisherKey

def publisherUsageAdd (addedEntries bytes freedBytes : Nat) : Charges :=
  let before := (c.usage.lookup publisher).getD {}
  let record : PublisherUsage :=
    { entries := before.entries+addedEntries
      bytes := before.bytes-freedBytes+bytes
      targets :=
        if 0 < addedEntries then before.targets.insert target (before.targets.count target+addedEntries)
        else if target ∈ before.targets then before.targets else before.targets.insert target 1 }
  let usage := c.usage.insert publisher record
  let heaviestBytes := (c.heaviest.bind fun p => usage.lookup p).elim 0 PublisherUsage.bytes
  { usage, heaviest := if heaviestBytes < record.bytes then some publisher else c.heaviest }

def publisherUsageRemove (bytes : Nat) : Charges :=
  match c.usage.lookup publisher with
  | none => c
  | some before =>
    let record : PublisherUsage :=
      { entries := before.entries-1, bytes := before.bytes-bytes, targets := before.targets.release target }
    if record.entries = 0 then
      { usage := c.usage.erase publisher, heaviest := if c.heaviest = some publisher then none else c.heaviest }
    else { c with usage := c.usage.insert publisher record }

/-- The order in which a walk over a hash map meets its keys. -/
structure Iteration where
  targets : Table KadId Nat → List KadId
  publishers : Table PublisherKey PublisherUsage → List PublisherKey
  targets_perm : ∀ t, (targets t).Perm t.keys
  publishers_perm : ∀ t, (publishers t).Perm t.keys

structure DhtStore where
  keywordEntries : Table KadId (List StoredEntry)
  sourceEntries : Table KadId (List StoredEntry)
  notesEntries : Table KadId (List StoredEntry)
  totalCount : Nat
  totalRetainedBytes : Nat
  charges : Charges

structure PublishEntry where
  id : KadId
  tags : List KadTag

/-- One keyword publish: the clock and, for each eviction left, the order of the maps, its target and
who sent it. -/
structure Packet where
  now : Int
  order : Nat → Iteration
  target : KadId
  senderId : KadId
  senderIp : Option Dht.Ipv4Addr

namespace Packet

def budgetKey (p : Packet) : PublisherKey := keywordBudgetKey p.senderId p.senderIp

def stored (p : Packet) (entry : PublishEntry) : StoredEntry where
  id := entry.id
  tags := entry.tags
  storedAt := p.now
  ttlSecs := keywordTtlSecs
  sourceId := p.senderId
  publisherIp := p.senderIp
  retainedBytes := sizeOfTags entry.tags

end Packet

def heaviestOf (order : Iteration) (usage : Table PublisherKey PublisherUsage) : Option PublisherKey :=
  lastMax (fun p => ((usage.lookup p).elim 0 PublisherUsage.bytes : Nat)) (order.publishers usage)

namespace DhtStore
variable (now : Int) (p : Packet) (t : Table KadId (List StoredEntry)) (order : Iteration) (s : DhtStore)
  (publisher : PublisherKey) (target : KadId)

def new : DhtStore where
  keywordEntries := ∅
  sourceEntries := ∅
  notesEntries := ∅
  totalCount := 0
  totalRetainedBytes := 0
  charges := ⟨∅,none⟩

def dropBare : Table KadId (List StoredEntry) :=
  if shelf t target = [] then t.erase target else t

def prunedTable (now : Int) : Table KadId (List StoredEntry) :=
  t.insert target (unexpired now (shelf t target))

def pruneKeywords (s : DhtStore) : DhtStore :=
  let bucket := shelf s.keywordEntries target
  let kept := unexpired now bucket
  let expired := bucket.filter fun e => e.isExpired now
  { s with
    keywordEntries := prunedTable s.keywordEntries target now
    totalCount := s.totalCount-(bucket.length-kept.length)
    totalRetainedBytes := s.totalRetainedBytes-(retainedBytes bucket-retainedBytes kept)
    charges := expired.foldl (fun c e => publisherUsageRemove c e.budgetKey target e.retainedBytes) s.charges }

def recomputeHeaviestKeywordPublisher : DhtStore :=
  { s with charges := { s.charges with heaviest := heaviestOf order s.charges.usage } }

def best : Option StoredEntry :=
  lastMax StoredEntry.bulk ((shelf s.keywordEntries target).filter fun e => e.budgetKey = publisher)

def victim (s : DhtStore) (publisher : PublisherKey) (candidates : List KadId) : Option (KadId × StoredEntry) :=
  candidates.foldl (fun victim target =>
    match s.best publisher target with
    | some e => if victim.all fun v => v.2.retainedBytes < e.retainedBytes then some (target,e) else victim
    | none => victim) none

def forget (record : PublisherUsage) (stale : List KadId) (s : DhtStore) : DhtStore :=
  let targets := stale.foldl (fun t target => t.erase target) record.targets
  { s with charges := { s.charges with usage := s.charges.usage.insert publisher { record with targets } } }

/-- `remove(index)` of the record found, the last equal to it. -/
def dropKeyword (e : StoredEntry) (s : DhtStore) : DhtStore :=
  let bucket := eraseLast (shelf s.keywordEntries target) e
  { s with
    keywordEntries := if bucket = [] then s.keywordEntries.erase target else s.keywordEntries.insert target bucket
    totalCount := s.totalCount-1
    totalRetainedBytes := s.totalRetainedBytes-e.retainedBytes
    charges := publisherUsageRemove s.charges publisher target e.retainedBytes }

def evictOneKeywordEntry (s : DhtStore) : DhtStore × Option Nat :=
  match s.charges.usage.lookup publisher with
  | none => (s,none)
  | some record =>
    let candidates := (order.targets record.targets).take keywordEvictionTargetProbes
    let stale := candidates.filter fun target => (s.best publisher target).isNone
    match s.victim publisher candidates with
    | none => (s.forget publisher record stale,none)
    | some (target,e) => ((s.forget publisher record stale).dropKeyword publisher target e,some e.retainedBytes)

/-- The publisher to shed from: the one hinted at, else the heaviest. -/
def aim : DhtStore :=
  match s.charges.heaviest with
  | some _ => s
  | none => s.recomputeHeaviestKeywordPublisher order

def evictKeywordBytes (order : Nat → Iteration) (needed : Nat) : Nat → Nat → DhtStore → DhtStore × Nat × Nat
  | 0, freed, s => (s,0,freed)
  | budget+1, freed, s =>
    if freed < needed then
      let aimed := s.aim (order (budget+1))
      match aimed.charges.heaviest with
      | none => (aimed,budget+1,freed)
      | some publisher =>
        match aimed.evictOneKeywordEntry (order (budget+1)) publisher with
        | (s,none) => (s,budget+1,freed)
        | (s,some bytes) => evictKeywordBytes order needed budget (freed+bytes) s
    else (s,budget+1,freed)

def senderEntries : List StoredEntry :=
  (shelf s.keywordEntries p.target).filter fun e => e.sourceId = p.senderId

def replaced (id : KadId) (s : DhtStore) : Option StoredEntry :=
  (shelf s.keywordEntries p.target).find? fun e => e.id = id && e.sourceId = p.senderId

end DhtStore

structure Batch where
  store : DhtStore
  senderEntryCount : Nat
  evictionBudget : Nat

namespace Batch
open DhtStore

variable (p : Packet) (stored : StoredEntry) (s : DhtStore) (id : KadId) (entryBytes : Nat) (b : Batch)

def overAllowance : Bool :=
  let s := b.store
  let bucket := shelf s.keywordEntries p.target
  let usage := s.charges.usage.lookup p.budgetKey
  let old := s.replaced p id
  let oldBytes := old.elim 0 StoredEntry.retainedBytes
  let sameBudgetKey := old.any fun e => e.budgetKey = p.budgetKey
  let publisherCredit := if sameBudgetKey then oldBytes else 0
  old.isNone && (maxKeywordEntriesPerSender ≤ b.senderEntryCount || maxEntriesPerKey ≤ bucket.length) ||
    (old.isNone || !sameBudgetKey) && maxKeywordEntriesPerPublisher ≤ usage.elim 0 PublisherUsage.entries ||
    maxRetainedBytesPerKey < retainedBytes bucket-oldBytes+entryBytes ||
    maxRetainedBytesPerPublisherPerKey < retainedBytes (s.senderEntries p)-oldBytes+entryBytes ||
    maxKeywordBytesPerPublisher < usage.elim 0 PublisherUsage.bytes-publisherCredit+entryBytes

def oldBytes : Nat := (b.store.replaced p id).elim 0 StoredEntry.retainedBytes

def needsRoom : Bool :=
  let overTotalBytes := maxTotalRetainedBytes < b.store.totalRetainedBytes+entryBytes
  let overTotalCount := maxTotalEntries ≤ b.store.totalCount
  let needsBytes := maxTotalRetainedBytes < b.store.totalRetainedBytes-b.oldBytes p id+entryBytes
  let needsSlot := overTotalCount && (b.store.replaced p id).isNone
  (overTotalBytes || overTotalCount) && (needsBytes || needsSlot)

def makeRoom : Batch :=
  if b.needsRoom p id entryBytes then
    let (store,evictionBudget,freed) :=
      evictKeywordBytes p.order (entryBytes-b.oldBytes p id) b.evictionBudget 0 b.store
    { store, evictionBudget, senderEntryCount := if 0 < freed then (store.senderEntries p).length else b.senderEntryCount }
  else b

def refresh (old stored : StoredEntry) (s : DhtStore) : DhtStore :=
  { s with
    keywordEntries := s.keywordEntries.insert p.target ((shelf s.keywordEntries p.target).replace old stored)
    totalRetainedBytes := s.totalRetainedBytes-old.retainedBytes+stored.retainedBytes
    charges :=
      if old.budgetKey = p.budgetKey then
        publisherUsageAdd s.charges p.budgetKey p.target 0 stored.retainedBytes old.retainedBytes
      else
        publisherUsageAdd (publisherUsageRemove s.charges old.budgetKey p.target old.retainedBytes) p.budgetKey p.target 1
          stored.retainedBytes 0 }

def append : DhtStore :=
  { s with
    keywordEntries := s.keywordEntries.insert p.target (shelf s.keywordEntries p.target++[stored])
    totalCount := s.totalCount+1
    totalRetainedBytes := s.totalRetainedBytes+stored.retainedBytes
    charges := publisherUsageAdd s.charges p.budgetKey p.target 1 stored.retainedBytes 0 }

/-- `entry(target).or_default()`. -/
def touch : DhtStore :=
  { s with keywordEntries := s.keywordEntries.insert p.target (shelf s.keywordEntries p.target) }

def enter : Batch :=
  match b.store.replaced p stored.id with
  | some old =>
    if maxTotalRetainedBytes < b.store.totalRetainedBytes-old.retainedBytes+stored.retainedBytes then
      { b with store := touch p b.store }
    else { b with store := refresh p old { stored with ttlSecs := old.ttlSecs } b.store }
  | none =>
    if maxTotalEntries ≤ b.store.totalCount || maxTotalRetainedBytes < b.store.totalRetainedBytes+stored.retainedBytes then
      { b with store := touch p b.store }
    else { b with store := append p stored b.store, senderEntryCount := b.senderEntryCount+1 }

def offer (entry : PublishEntry) : Batch :=
  if !keywordEntryHasMinContent entry.tags then b
  else
    match normalizeAndSizeTags entry.tags with
    | none => b
    | some (_,entryBytes) =>
      if b.overAllowance p entry.id entryBytes then b
      else (b.makeRoom p entry.id entryBytes).enter p (p.stored entry)

end Batch
namespace DhtStore

variable (p : Packet) (n : UInt8) (now : Int) (target senderId : KadId) (tags : List KadTag) (senderIp : Dht.Ipv4Addr)
  (senderPort : UInt16) (s : DhtStore) (t : Table KadId (List StoredEntry))

def opened : Batch :=
  let pruned := s.pruneKeywords p.now p.target
  ⟨pruned,(pruned.senderEntries p).length,maxKeywordEvictionsPerPublish⟩

def storeKeywordEntries (entries : List PublishEntry) (s : DhtStore) : DhtStore :=
  let published := (entries.foldl (Batch.offer p) (s.opened p)).store
  { published with keywordEntries := dropBare published.keywordEntries p.target }

/-- A record with its place in the bucket: over the one with its id, or last. -/
def settle (kept : List StoredEntry) (existing : Option StoredEntry) (stored : StoredEntry) : List StoredEntry :=
  match existing with
  | some old => kept.replace old stored
  | none => kept++[stored]

def hasUint (n : UInt8) : Bool := tags.any fun t => t.named n && t.asUint.any (0 < ·)

def withoutTag : List KadTag := tags.filter fun t => !t.named n

def servedFrom (ip : Dht.Ipv4Addr) (e : StoredEntry) : Bool :=
  e.tags.any fun t => t.named tagSourceip && t.value == .uint32 (.ofBitVec ip)

/-- The source address is the sender's whatever the tags say; a missing port is the packet's. -/
def sourceTags : List KadTag :=
  let tags := withoutTag tagSourceip tags++[⟨.id tagSourceip,.uint32 (.ofBitVec senderIp)⟩]
  if hasUint tags tagSourceuport then tags
  else withoutTag tagSourceuport tags++[⟨.id tagSourceuport,.uint16 senderPort⟩]

def storeSourceEntry : DhtStore :=
  if !tags.any (·.named tagSourcetype) || !hasUint tags tagSourceport then s
  else
    let sourceBytesAll := (s.sourceEntries.values.map retainedBytes).sum
    let sourceCountAll := (s.sourceEntries.values.map List.length).sum
    let bucket := shelf s.sourceEntries target
    let kept := unexpired now bucket
    let removed := bucket.length-kept.length
    let prunedBytes := retainedBytes bucket-retainedBytes kept
    let totalCount := s.totalCount-removed
    let totalRetainedBytes := s.totalRetainedBytes-prunedBytes
    let pruned := { s with sourceEntries := prunedTable s.sourceEntries target now, totalCount, totalRetainedBytes }
    let bare := { pruned with sourceEntries := dropBare pruned.sourceEntries target }
    let existing := kept.find? fun e => e.id = senderId
    let oldBytes := existing.elim 0 StoredEntry.retainedBytes
    if existing.isNone && (maxTotalEntries ≤ totalCount || maxSourceTotalEntries ≤ sourceCountAll-removed ||
        maxEntriesPerKey ≤ kept.length) then bare
    else if maxSourcesPerIp ≤ (kept.filter fun e => e.id ≠ senderId && servedFrom senderIp e).length then pruned
    else
      match normalizeAndSizeTags (sourceTags tags senderIp senderPort) with
      | none => bare
      | some (tags,entryBytes) =>
        if maxRetainedBytesPerKey < retainedBytes kept-oldBytes+entryBytes ||
            maxSourceRetainedBytes < sourceBytesAll-prunedBytes-oldBytes+entryBytes ||
            maxTotalRetainedBytes < totalRetainedBytes-oldBytes+entryBytes then bare
        else
          let stored : StoredEntry := ⟨senderId,tags,now,sourceTtlSecs,senderId,none,entryBytes⟩
          { pruned with
            sourceEntries := pruned.sourceEntries.insert target (settle kept existing stored)
            totalCount := if existing.isNone then totalCount+1 else totalCount
            totalRetainedBytes := totalRetainedBytes-oldBytes+entryBytes }

def storeNotesEntry : DhtStore :=
  let hasComment := tags.any fun t => t.named tagDescription && match t.value with
    | .string text => !text.isEmpty
    | _ => false
  let hasRating := tags.any fun t => t.named tagFilerating && match t.value with
    | .uint8 rating => 0 < rating
    | _ => false
  if !hasComment && !hasRating then s
  else
    let notesTotal := (s.notesEntries.values.map List.length).sum
    let notesBytesAll := (s.notesEntries.values.map retainedBytes).sum
    let bucket := shelf s.notesEntries target
    let kept := unexpired now bucket
    let removed := bucket.length-kept.length
    let prunedBytes := retainedBytes bucket-retainedBytes kept
    let totalCount := s.totalCount-removed
    let totalRetainedBytes := s.totalRetainedBytes-prunedBytes
    let pruned := { s with notesEntries := prunedTable s.notesEntries target now, totalCount, totalRetainedBytes }
    let bare := { pruned with notesEntries := dropBare pruned.notesEntries target }
    let existing := kept.find? fun e => e.id = senderId
    let oldBytes := existing.elim 0 StoredEntry.retainedBytes
    if existing.isNone && (maxTotalEntries ≤ totalCount || maxNotesTotalEntries ≤ notesTotal-removed ||
        maxNotesPerFile ≤ kept.length) then bare
    else
      match normalizeAndSizeTags tags with
      | none => bare
      | some (tags,entryBytes) =>
        if maxRetainedBytesPerKey < retainedBytes kept-oldBytes+entryBytes ||
            maxNotesRetainedBytes < notesBytesAll-prunedBytes-oldBytes+entryBytes ||
            maxTotalRetainedBytes < totalRetainedBytes-oldBytes+entryBytes then bare
        else
          let stored : StoredEntry := ⟨senderId,tags,now,notesTtlSecs,senderId,none,entryBytes⟩
          { pruned with
            notesEntries := pruned.notesEntries.insert target (settle kept existing stored)
            totalCount := if existing.isNone then totalCount+1 else totalCount
            totalRetainedBytes := totalRetainedBytes-oldBytes+entryBytes }

/-- The buckets without their expired records, and none left empty. -/
def cleared : Table KadId (List StoredEntry) :=
  t.retain fun bucket => if unexpired now bucket = [] then none else some (unexpired now bucket)

def tally (target : KadId) (usage : Table PublisherKey PublisherUsage) (e : StoredEntry) : Table PublisherKey PublisherUsage :=
  let record := (usage.lookup e.budgetKey).getD {}
  usage.insert e.budgetKey
    { entries := record.entries+1, bytes := record.bytes+e.retainedBytes, targets := record.targets.bump target }

def rebuilt : Table PublisherKey PublisherUsage :=
  t.bindings.foldl (fun usage binding => binding.2.foldl (tally binding.1) usage) ∅

def cleanupExpired (order : Iteration) (s : DhtStore) : DhtStore :=
  let keywordEntries := cleared now s.keywordEntries
  let sourceEntries := cleared now s.sourceEntries
  let notesEntries := cleared now s.notesEntries
  let buckets := keywordEntries.values++sourceEntries.values++notesEntries.values
  let usage := rebuilt keywordEntries
  { keywordEntries, sourceEntries, notesEntries
    totalCount := (buckets.map List.length).sum
    totalRetainedBytes := (buckets.map retainedBytes).sum
    charges := { usage, heaviest := heaviestOf order usage } }

end DhtStore
end Ember.Kad
