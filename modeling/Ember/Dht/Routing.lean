import Ember.Dht.Contact
import Ember.Dht.Scale
import Ember.Library.Recount

/-! The routing table: 128 buckets by the highest bit an id differs in from ours, each with a
replacement cache, and the counters and address index beside them. A position is written as the
contact found there, the first that passes the test. -/
namespace Ember.Dht

def idBits : Nat := 128
def contactTimeoutSecs : Int := 600
def maxFailedQueries : Nat := 3
def clockStepSlackSecs : Int := 60

/-- The first byte that is not zero, and its highest bit, from the low end of the id. -/
def leadingBitIndex (id : EmberNodeId) : Option (Fin idBits) :=
  (List.range 16).findSome? fun i =>
    let byte := id.toNat/256^(15-i)%256
    if byte ≠ 0 then some ⟨127-(i*8+(7-byte.log2)),by unfold idBits; omega⟩ else none

def bucketIndex (id other : EmberNodeId) : Option (Fin idBits) := leadingBitIndex (id^^^other)

structure Bucket where
  contacts : List EmberContact := []
  replacementCache : List EmberContact := []
  lastActivity : Int := 0

namespace Bucket
variable (b : Bucket) (id : EmberNodeId)

def isFull : Bool := kBucketSize ≤ b.contacts.length

def subnetCount (subnet : Nat) : Nat := b.contacts.countP fun c => c.subnetKey = subnet

def find (b : Bucket) (id : EmberNodeId) : Option EmberContact := b.contacts.find? fun c => c.nodeId = id

def findInCache : Option EmberContact :=
  b.replacementCache.find? fun c => c.nodeId = id

def leadWhere (pred : EmberContact → Bool) : Option EmberContact :=
  b.contacts.find? fun c => !c.isVerified && pred c

def dropCached : Bucket :=
  { b with replacementCache := b.replacementCache.filter fun c => c.nodeId ≠ id }

end Bucket

structure ResidentIndex where
  verified : Nat := 0
  byAddr : Table (IpAddr × Nat) (List EmberNodeId) := ∅

namespace ResidentIndex
variable (r : ResidentIndex) (contact : EmberContact)

def insert : ResidentIndex where
  verified := if contact.isVerified then r.verified+1 else r.verified
  byAddr := r.byAddr.file contact.addr contact.nodeId

def remove : ResidentIndex where
  verified := if contact.isVerified then r.verified-1 else r.verified
  byAddr := r.byAddr.unfile contact.addr contact.nodeId

def restamp (wasVerified isVerified : Bool) : ResidentIndex :=
  match wasVerified,isVerified with
  | false,true => { r with verified := r.verified+1 }
  | true,false => { r with verified := r.verified-1 }
  | _,_ => r

def readdress (nodeId : EmberNodeId) (start goal : IpAddr × Nat) : ResidentIndex :=
  if start = goal then r else { r with byAddr := (r.byAddr.unfile start nodeId).file goal nodeId }

end ResidentIndex

inductive AddResult where
  | added
  | pingOldest (addr : IpAddr × Nat) (nodeId : EmberNodeId) (noisePub : BitVec 256)
  | rejected
  deriving DecidableEq

structure AdmissionRefusals where
  ipPolicy : Nat := 0
  subnet : Nat := 0
  perIp : Nat := 0

def judgeableIp (addr : IpAddr × Nat) : Option Ipv4Addr :=
  if addr.2 = 0 then none else
    match addr.1 with
    | .v4 ip => some ip
    | .v6 _ => none

def isValidContactIp (ip : Ipv4Addr) (blockPrivate : Bool) : Bool :=
  !Ipv4Addr.isBogus ip && !(blockPrivate && Ipv4Addr.isLanOrCgnat ip)

structure RoutingTable where
  localId : EmberNodeId
  buckets : Fin idBits → Bucket
  globalSubnetCount : Table Nat Nat
  globalIpCount : Table IpAddr Nat
  blockPrivateIps : Bool
  refusals : AdmissionRefusals
  enforcedScale : NetworkScale
  residents : ResidentIndex

namespace RoutingTable
variable (t : RoutingTable) (ip : IpAddr) (subnet : Nat) (i : Fin idBits) (contact : EmberContact)

def new (localId : EmberNodeId) (blockPrivateIps : Bool) : RoutingTable where
  localId
  buckets _ := {}
  globalSubnetCount := ∅
  globalIpCount := ∅
  blockPrivateIps
  refusals := {}
  enforcedScale := .bootstrap
  residents := {}

def verifiedLen : Nat := t.residents.verified

def scale : NetworkScale := .fromContacts t.verifiedLen

def admissionScale : NetworkScale := max t.scale t.enforcedScale

/-- No range filter is ever attached to the gate, so this is all of it. -/
def admitsAddr (addr : IpAddr × Nat) : Bool :=
  match judgeableIp addr with
  | some ip => isValidContactIp ip t.blockPrivateIps
  | none => false

def definitelyBlocked (addr : IpAddr × Nat) : Bool :=
  match judgeableIp addr with
  | some ip => !isValidContactIp ip t.blockPrivateIps
  | none => true

def allContacts : List EmberContact := gather fun i => (t.buckets i).contacts

def verifiedHeld : Nat :=
  (gather fun i => (t.buckets i).contacts++(t.buckets i).replacementCache).countP EmberContact.isVerified

def editBucket (edit : Bucket → Bucket) : RoutingTable :=
  { t with buckets := Function.update t.buckets i (edit (t.buckets i)) }

def releaseSubnet : RoutingTable :=
  { t with globalSubnetCount := t.globalSubnetCount.release subnet }

def releaseIp : RoutingTable :=
  { t with globalIpCount := t.globalIpCount.release ip }

def claimSubnet : RoutingTable :=
  { t with globalSubnetCount := t.globalSubnetCount.bump subnet }

def claimIp : RoutingTable := { t with globalIpCount := t.globalIpCount.bump ip }

def vacate : RoutingTable :=
  let t := t.editBucket i fun b => { b with contacts := b.contacts.erase contact }
  let t := (t.releaseSubnet contact.subnetKey).releaseIp contact.ip
  { t with residents := t.residents.remove contact }

def seat : RoutingTable :=
  let t := t.editBucket i fun b => { b with contacts := b.contacts++[contact] }
  let t := (t.claimSubnet contact.subnetKey).claimIp contact.ip
  { t with residents := t.residents.insert contact }

def overQuota (scale : NetworkScale) (contact : EmberContact) : Bool :=
  scale.maxContactsPerSubnetPerBucket ≤ (t.buckets i).subnetCount contact.subnetKey ||
    scale.maxContactsPerSubnetGlobal ≤ t.globalSubnetCount.count contact.subnetKey ||
    scale.maxContactsPerIp ≤ t.globalIpCount.count contact.ip

def mergeCached (existing contact : EmberContact) : EmberContact :=
  if contact.lastSeen ≤ 0 then existing
  else if existing.isVerified && existing.noisePub ≠ 0 && contact.noisePub ≠ existing.noisePub then existing
  else if contact.isVerified && !existing.isVerified then contact
  else if existing.lastSeen ≤ contact.lastSeen then
    { existing with
      lastSeen := contact.lastSeen
      failedQueries := 0
      noisePub := contact.noisePub
      ed25519Pub := contact.ed25519Pub
      ip := contact.ip
      port := contact.port }
  else existing

/-- The cache with a place for a newcomer, or nothing when every entry outranks it. -/
def roomInCache (scale : NetworkScale) : Option (List EmberContact) :=
  let cache := (t.buckets i).replacementCache
  if cache.length < kBucketSize then some cache else
    match cache.find? (t.overQuota i scale) with
    | some victim =>
      if t.overQuota i scale contact && !(contact.isVerified && !victim.isVerified) then none
      else some (cache.erase victim)
    | none =>
      match cache.find? fun c => !c.isVerified with
      | some lead => some (cache.erase lead)
      | none => if !contact.isVerified || t.overQuota i scale contact then none else some cache.tail

def addToCache (scale : NetworkScale) : RoutingTable :=
  if ((t.buckets i).find contact.nodeId).isSome then t else
    match (t.buckets i).findInCache contact.nodeId with
    | some existing =>
      t.editBucket i fun b =>
        { b with replacementCache := b.replacementCache.replace existing (mergeCached existing contact) }
    | none =>
      match t.roomInCache i contact scale with
      | some cache => t.editBucket i fun b => { b with replacementCache := cache++[contact] }
      | none => t

/-- A resident is rewritten: its bucket, its quotas when it moved, and the index. -/
def revise (existing revised : EmberContact) (contacts : List EmberContact) : RoutingTable :=
  let t := t.editBucket i fun b => { b with contacts }
  let t := if revised.subnetKey ≠ existing.subnetKey then
    (t.releaseSubnet existing.subnetKey).claimSubnet revised.subnetKey else t
  let t := if revised.ip ≠ existing.ip then (t.releaseIp existing.ip).claimIp revised.ip else t
  { t with residents :=
      (t.residents.readdress existing.nodeId existing.addr revised.addr).restamp existing.isVerified revised.isVerified }

def refusesMove (scale : NetworkScale) (existing contact : EmberContact) : Bool :=
  let others := { t.buckets i with contacts := (t.buckets i).contacts.erase existing }
  contact.subnetKey ≠ existing.subnetKey &&
      (scale.maxContactsPerSubnetPerBucket ≤ others.subnetCount contact.subnetKey ||
        scale.maxContactsPerSubnetGlobal ≤ t.globalSubnetCount.count contact.subnetKey) ||
    contact.ip ≠ existing.ip && scale.maxContactsPerIp ≤ t.globalIpCount.count contact.ip

def applyResidentContact (scale : NetworkScale)
    (admitNewAddr : Bool) : RoutingTable × AddResult :=
  match (t.buckets i).find contact.nodeId with
  | none => (t,.rejected)
  | some existing =>
    -- Gossip rewrites nothing, and a verified entry keeps the session key it answered under.
    if contact.lastSeen ≤ 0 then (t,.added)
    else if existing.isVerified && existing.noisePub ≠ 0 && contact.noisePub ≠ existing.noisePub then (t,.rejected)
    else if contact.addr ≠ existing.addr && !admitNewAddr then (t,.added)
    else if contact.addr ≠ existing.addr && t.refusesMove i scale existing contact then (t,.rejected)
    else
      let revised := { contact with nodeId := existing.nodeId, failedQueries := 0 }
      let t := t.revise i existing revised ((t.buckets i).contacts.erase existing++[revised])
      (t.editBucket i fun b => { b with lastActivity := contact.lastSeen },.added)

def takeSlot (now : Int) (t : RoutingTable) (i : Fin idBits) (contact : EmberContact) : RoutingTable :=
  ((t.editBucket i fun b => b.dropCached contact.nodeId).seat i contact).editBucket i fun b =>
    { b with lastActivity := now }

def displace (now : Int) (t : RoutingTable) (i : Fin idBits) (evicted contact : EmberContact) (scale : NetworkScale) :
    RoutingTable :=
  (takeSlot now (t.vacate i evicted) i contact).addToCache i evicted scale

/-- The lead a proven newcomer the table would turn away may displace: one at its address, one in
its /24, or in a full bucket any. -/
def displaceable (scale : NetworkScale) : Option EmberContact :=
  let bucket := t.buckets i
  if contact.isVerified && (bucket.isFull || t.overQuota i scale contact) then
    let lead := ((bucket.leadWhere fun c => c.ip = contact.ip).or
      (bucket.leadWhere fun c => c.subnetKey = contact.subnetKey)).or
      (if bucket.isFull then bucket.leadWhere fun _ => true else none)
    lead.filter fun evicted =>
      (contact.ip = evicted.ip || t.globalIpCount.count contact.ip < scale.maxContactsPerIp) &&
        (evicted.subnetKey = contact.subnetKey ||
          bucket.subnetCount contact.subnetKey < scale.maxContactsPerSubnetPerBucket &&
            t.globalSubnetCount.count contact.subnetKey < scale.maxContactsPerSubnetGlobal)
  else none

def refuse (count : AdmissionRefusals → AdmissionRefusals) : RoutingTable :=
  if contact.isVerified then { t with refusals := count t.refusals } else t

def pressure (now : Int) (b : Bucket) : AddResult :=
  match b.contacts.head? with
  | some oldest =>
    if !oldest.isVerified || 0 < oldest.failedQueries || contactTimeoutSecs ≤ clampI64 (now-oldest.lastSeen) then
      .pingOldest oldest.addr oldest.nodeId oldest.noisePub
    else .rejected
  | none => .rejected

def addNewcomer (now : Int) (t : RoutingTable) (i : Fin idBits) (contact : EmberContact) (scale : NetworkScale) :
    RoutingTable × AddResult :=
  let bucket := t.buckets i
  match t.displaceable i contact scale with
  | some evicted => (displace now t i evicted contact scale,.added)
  | none =>
    if scale.maxContactsPerSubnetPerBucket ≤ bucket.subnetCount contact.subnetKey then
      ((t.refuse contact fun r => { r with subnet := r.subnet+1 }).addToCache i contact scale,.rejected)
    else if scale.maxContactsPerSubnetGlobal ≤ t.globalSubnetCount.count contact.subnetKey then
      ((t.refuse contact fun r => { r with subnet := r.subnet+1 }).addToCache i contact scale,.rejected)
    else if scale.maxContactsPerIp ≤ t.globalIpCount.count contact.ip then
      ((t.refuse contact fun r => { r with perIp := r.perIp+1 }).addToCache i contact scale,.rejected)
    else if !bucket.isFull then (takeSlot now t i contact,.added)
    else
      match if contact.isVerified then bucket.leadWhere fun _ => true else none with
      | some evicted => (displace now t i evicted contact scale,.added)
      | none => (t.addToCache i contact scale,pressure now bucket)

def addContact (now : Int) (t : RoutingTable) (contact : EmberContact) : RoutingTable × AddResult :=
  if contact.nodeId = t.localId then (t,.rejected) else
    match bucketIndex t.localId contact.nodeId with
    | none => (t,.rejected)
    | some i =>
      let scale := t.admissionScale
      match (t.buckets i).find contact.nodeId with
      | some existing =>
        t.applyResidentContact i contact scale (contact.addr = existing.addr || t.admitsAddr contact.addr)
      | none =>
        if !t.admitsAddr contact.addr then
          (t.refuse contact fun r => { r with ipPolicy := r.ipPolicy+1 },.rejected)
        else addNewcomer now t i contact scale

end RoutingTable
end Ember.Dht
