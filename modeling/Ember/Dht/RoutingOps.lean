import Ember.Dht.Routing

/-! What the routing table does beside taking contacts: liveness, removal, promotion, the staleness
and policy sweeps and the re-admission under tighter quotas. A call that reads the clock is given
its reading. -/
namespace Ember.Dht
attribute [local instance] nodeId_lawful
namespace RoutingTable
variable (target : NetworkScale) (now : Int) (acc : RoutingTable × Nat) (t : RoutingTable) (i : Fin idBits) (nodeId : EmberNodeId)
  (addr : IpAddr × Nat)

def loadTurn (acc : RoutingTable × List EmberNodeId) (timed : Int × EmberContact) : RoutingTable × List EmberNodeId :=
  let (t,result) := addContact timed.1 acc.1 timed.2
  (t,if result = .added then acc.2++[timed.2.nodeId] else acc.2)

def loadContacts (contacts : List (Int × EmberContact)) : RoutingTable × List EmberNodeId :=
  contacts.foldl loadTurn (t,[])

/-- The cached entry to promote: the newest proven one the policy and the caps admit, else the
newest lead. -/
def bestPromotableCached (exclude : Option EmberNodeId) (scale : NetworkScale) : Option EmberContact :=
  let eligible := fun c : EmberContact =>
    some c.nodeId ≠ exclude && ((t.buckets i).find c.nodeId).isNone && t.admitsAddr c.addr && !t.overQuota i scale c
  let newest := (t.buckets i).replacementCache.reverse
  (newest.find? fun c => eligible c && c.isVerified).or (newest.find? eligible)

def promote (contact : EmberContact) : RoutingTable :=
  (t.editBucket i fun b => { b with replacementCache := eraseLast b.replacementCache contact }).seat i contact

def promoteLoop (i : Fin idBits) (scale : NetworkScale) : Nat → RoutingTable → RoutingTable × Nat
  | 0,t => (t,0)
  | turns+1,t =>
    if (t.buckets i).isFull then (t,0) else
      match t.bestPromotableCached i none scale with
      | some contact =>
        let (t,promoted) := promoteLoop i scale turns (t.promote i contact)
        (t,promoted+1)
      | none => (t,0)

def promoteBucket : RoutingTable × Nat :=
  if (t.buckets i).replacementCache = [] then (t,0) else
    let (t,promoted) := promoteLoop i t.admissionScale kBucketSize t
    (if 0 < promoted then t.editBucket i fun b => { b with lastActivity := now } else t,promoted)

def promoteTurn : RoutingTable × Nat :=
  let (t,promoted) := promoteBucket now acc.1 i
  (t,acc.2+promoted)

def promoteCachedContacts : RoutingTable × Nat :=
  (List.finRange idBits).foldl (promoteTurn now) (t,0)

def evictAndReplace (deadId : EmberNodeId) : RoutingTable × Bool :=
  match bucketIndex t.localId deadId with
  | none => (t,false)
  | some i =>
    match (t.buckets i).find deadId with
    | none => (t,false)
    | some removed =>
      let t := t.vacate i removed
      match t.bestPromotableCached i (some deadId) t.admissionScale with
      | some replacement => ((t.promote i replacement).editBucket i fun b => { b with lastActivity := now },true)
      | none => (t,false)

def removeContact : RoutingTable × Bool :=
  match bucketIndex t.localId nodeId with
  | none => (t,false)
  | some i =>
    match (t.buckets i).find nodeId with
    | none => (t,false)
    | some removed => (t.vacate i removed,true)

def removeTurn (id : EmberNodeId) : RoutingTable × Nat :=
  let (t,removed) := acc.1.removeContact id
  (t,if removed then acc.2+1 else acc.2)

def removeContacts (ids : List EmberNodeId) : RoutingTable × Nat := ids.foldl removeTurn (t,0)

/-- Only the entry that answered is refreshed: same address, same session key. -/
def markAlive (noisePub : BitVec 256) : RoutingTable :=
  match bucketIndex t.localId nodeId with
  | none => t
  | some i =>
    match ((t.buckets i).find nodeId).filter fun held => held.addr = addr && held.noisePub = noisePub with
    | none => t
    | some held =>
      let touched := { held with lastSeen := now, failedQueries := 0 }
      { t.editBucket i fun b => { b with contacts := b.contacts.erase held++[touched], lastActivity := now } with
        residents := t.residents.restamp held.isVerified touched.isVerified }

def markFailed : RoutingTable × Bool :=
  match bucketIndex t.localId nodeId with
  | none => (t,false)
  | some i =>
    match (t.buckets i).find nodeId with
    | none => (t,false)
    | some held =>
      let failed := { held with failedQueries := min 255 (held.failedQueries+1) }
      (t.editBucket i fun b => { b with contacts := b.contacts.replace held failed },
        maxFailedQueries ≤ failed.failedQueries)

def pullBack (now limit : Int) (c : EmberContact) : EmberContact :=
  if limit < c.lastSeen then { c with lastSeen := now } else c

def clampFutureTimestamps : RoutingTable × Nat :=
  let limit := clampI64 (now+clockStepSlackSecs)
  ({ t with
      buckets := fun i =>
        { contacts := (t.buckets i).contacts.map (pullBack now limit)
          replacementCache := (t.buckets i).replacementCache.map (pullBack now limit)
          lastActivity := if limit < (t.buckets i).lastActivity then now else (t.buckets i).lastActivity }
      residents := t.allContacts.foldl (fun index c =>
        if limit < c.lastSeen then index.restamp c.isVerified (0 < now) else index) t.residents },
    (List.finRange idBits).countP (fun i => limit < (t.buckets i).lastActivity)+
      (gather fun i => (t.buckets i).contacts++(t.buckets i).replacementCache).countP fun c => limit < c.lastSeen)

def sweepCaches (keep : Fin idBits → EmberContact → Bool) : RoutingTable :=
  { t with buckets := fun i => { t.buckets i with replacementCache := (t.buckets i).replacementCache.filter (keep i) } }

def isStale (now lastSeen maxAgeSecs : Int) : Bool := maxAgeSecs ≤ clampI64 (now-lastSeen)

def removeStale (now maxAgeSecs : Int) (inUse : Finset EmberNodeId) (t : RoutingTable) : RoutingTable × Nat :=
  let t := (t.clampFutureTimestamps now).1
  let stale := fun c : EmberContact => c.isVerified && isStale now c.lastSeen maxAgeSecs && c.nodeId ∉ inUse
  let (t,removed) := t.removeContacts ((t.allContacts.filter stale).map EmberContact.nodeId)
  (t.sweepCaches fun _ c => !stale c,removed)

def evictBlockedContacts : RoutingTable × Nat :=
  t.removeContacts ((t.allContacts.filter fun c => t.definitelyBlocked c.addr).map EmberContact.nodeId)

def evictFilteredContacts : RoutingTable × Nat :=
  let (t,removed) := t.evictBlockedContacts
  let blocked := fun i =>
    ((t.buckets i).replacementCache.filter fun c => t.definitelyBlocked c.addr).map EmberContact.nodeId
  ((t.sweepCaches fun i c => c.nodeId ∉ blocked i).promoteCachedContacts now |>.1,removed)

def setBlockPrivateIps (blockPrivate : Bool) : RoutingTable × Nat :=
  let enabling := blockPrivate && !t.blockPrivateIps
  let t := { t with blockPrivateIps := blockPrivate }
  if enabling then evictFilteredContacts now t else (t,0)

def outranks (a b : Fin idBits × EmberContact) : Bool :=
  a.2.isVerified && !b.2.isVerified ||
    a.2.isVerified == b.2.isVerified &&
      (b.2.lastSeen < a.2.lastSeen || a.2.lastSeen = b.2.lastSeen && a.2.nodeId ≤ b.2.nodeId)

def ranked : List (Fin idBits × EmberContact) :=
  (gather fun i => (t.buckets i).contacts.map fun c => (i,c)).insertionSort fun a b => outranks a b

structure Readmission where
  perBucketSubnet : Table (Fin idBits × Nat) Nat := ∅
  perSubnet : Table Nat Nat := ∅
  perIp : Table IpAddr Nat := ∅
  doomed : List (Fin idBits × EmberNodeId) := []

def Readmission.offer (r : Readmission) (entry : Fin idBits × EmberContact) : Readmission :=
  let subnet := entry.2.subnetKey
  if target.maxContactsPerSubnetPerBucket ≤ r.perBucketSubnet.count (entry.1,subnet) ||
      target.maxContactsPerSubnetGlobal ≤ r.perSubnet.count subnet ||
      target.maxContactsPerIp ≤ r.perIp.count entry.2.ip then
    { r with doomed := r.doomed++[(entry.1,entry.2.nodeId)] }
  else
    { r with
      perBucketSubnet := r.perBucketSubnet.bump (entry.1,subnet)
      perSubnet := r.perSubnet.bump subnet
      perIp := r.perIp.bump entry.2.ip }

def demote (acc : RoutingTable × List (Fin idBits × EmberNodeId))
    (entry : Fin idBits × EmberNodeId) : RoutingTable × List (Fin idBits × EmberNodeId) :=
  match (acc.1.buckets entry.1).find entry.2 with
  | none => acc
  | some contact => ((acc.1.vacate entry.1 contact).addToCache entry.1 contact target,acc.2++[entry])

def enforceScaleQuotas : RoutingTable × Nat :=
  let verified := t.verifiedLen
  let floor := NetworkScale.fromContacts (t.verifiedHeld*5/4)
  let t := if floor < t.enforcedScale then { t with enforcedScale := floor } else t
  let target := NetworkScale.fromContacts (verified*4/5)
  if target ≤ t.enforcedScale then (t,0) else
    let t := { t with enforcedScale := target }
    let doomed := (t.ranked.foldl (Readmission.offer target) {}).doomed
    let (t,moved) := doomed.foldl (demote target) (t,[])
    (t,moved.countP fun entry => ((t.buckets entry.1).findInCache entry.2).isSome)

def getContact : Option EmberContact := do
  let i ← bucketIndex t.localId nodeId
  ((t.buckets i).find nodeId).or ((t.buckets i).findInCache nodeId)

/-- The resident at an address by the index: verified first, then in table order. -/
def contactAt : Option EmberContact :=
  let entries := ((t.residents.byAddr.lookup addr).getD []).filterMap fun id => do
    let i ← bucketIndex t.localId id
    let contact ← (t.buckets i).find id
    some (toLex (!contact.isVerified,toLex (i,(t.buckets i).contacts.idxOf contact)),contact)
  (entries.argmin Prod.fst).map Prod.snd

def contactAtByScan : Option EmberContact :=
  (t.allContacts.find? fun c => c.addr = addr && c.isVerified).or (t.allContacts.find? fun c => c.addr = addr)

end RoutingTable

inductive RoutingOp where
  | addContact (now : Int) (contact : EmberContact)
  | loadContacts (contacts : List (Int × EmberContact))
  | markAlive (now : Int) (nodeId : EmberNodeId) (addr : IpAddr × Nat) (noisePub : BitVec 256)
  | markFailed (nodeId : EmberNodeId)
  | evictAndReplace (now : Int) (deadId : EmberNodeId)
  | removeContact (nodeId : EmberNodeId)
  | removeStale (now maxAgeSecs : Int) (inUse : Finset EmberNodeId)
  | clampFutureTimestamps (now : Int)
  | setBlockPrivateIps (now : Int) (blockPrivate : Bool)
  | promoteCachedContacts (now : Int)
  | enforceScaleQuotas

namespace RoutingTable

def step (t : RoutingTable) : RoutingOp → RoutingTable
  | .addContact now contact => (t.addContact now contact).1
  | .loadContacts contacts => (t.loadContacts contacts).1
  | .markAlive now nodeId addr noisePub => t.markAlive now nodeId addr noisePub
  | .markFailed nodeId => (t.markFailed nodeId).1
  | .evictAndReplace now deadId => (t.evictAndReplace now deadId).1
  | .removeContact nodeId => (t.removeContact nodeId).1
  | .removeStale now maxAgeSecs inUse => (t.removeStale now maxAgeSecs inUse).1
  | .clampFutureTimestamps now => (t.clampFutureTimestamps now).1
  | .setBlockPrivateIps now blockPrivate => (t.setBlockPrivateIps now blockPrivate).1
  | .promoteCachedContacts now => (t.promoteCachedContacts now).1
  | .enforceScaleQuotas => t.enforceScaleQuotas.1

def run (t : RoutingTable) (ops : List RoutingOp) : RoutingTable := ops.foldl step t

end RoutingTable
end Ember.Dht
