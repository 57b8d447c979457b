import Ember.Dht.RoutingOps

/-! What the routing table keeps, over the ids each bucket files and the list of all residents. A
resident that enters, leaves or is rewritten is one rule, and every call is built from those. -/
namespace Ember.Dht
open List Function

namespace NetworkScale

variable {a b : NetworkScale}

structure Stricter (a b : NetworkScale) : Prop where
  ip : b.maxContactsPerIp ≤ a.maxContactsPerIp
  subnet : b.maxContactsPerSubnetGlobal ≤ a.maxContactsPerSubnetGlobal
  bucket : b.maxContactsPerSubnetPerBucket ≤ a.maxContactsPerSubnetPerBucket

theorem stricter (order : a ≤ b) : Stricter a b := by
  cases a <;> cases b <;> first | exact absurd order (by decide) | exact ⟨by decide,by decide,by decide⟩

theorem fromContacts_mono {m n : Nat} (fewer : m ≤ n) : fromContacts m ≤ fromContacts n := by
  unfold fromContacts
  split
  · cases (if n < bootstrapContacts then bootstrap else if n < establishedContacts then small else established) <;> decide
  have more : ¬n < bootstrapContacts := by omega
  split
  · split <;> decide
  · rw [if_neg (by omega)]

end NetworkScale

/-- The ids of one bucket belong there, no id is filed twice, and neither list is over its size. -/
structure IdsFiled (localId : EmberNodeId) (i : Fin idBits) (seated cached : List EmberNodeId) : Prop where
  placed : ∀ id ∈ seated++cached, bucketIndex localId id = some i
  seats : seated.length ≤ kBucketSize
  room : cached.length ≤ kBucketSize
  distinct : (seated++cached).Nodup

namespace IdsFiled

variable {localId id : EmberNodeId} {i : Fin idBits} {seated seated' cached cached' : List EmberNodeId}

theorem perm (filed : IdsFiled localId i seated cached) (same : seated.Perm seated') : IdsFiled localId i seated' cached where
  placed id member := filed.placed id ((same.append_right cached).mem_iff.2 member)
  seats := same.length_eq ▸ filed.seats
  room := filed.room
  distinct := (same.append_right cached).nodup_iff.1 filed.distinct

theorem vacate (filed : IdsFiled localId i (id :: seated) cached) : IdsFiled localId i seated cached where
  placed other member := filed.placed other (mem_cons_of_mem _ member)
  seats := Nat.le_of_succ_le filed.seats
  room := filed.room
  distinct := (nodup_cons.1 filed.distinct).2

section
variable (filed : IdsFiled localId i seated cached)
include filed

theorem seat (placed : bucketIndex localId id = some i)
    (free : seated.length < kBucketSize) (fresh : id ∉ seated++cached) : IdsFiled localId i (id :: seated) cached where
  placed other member := by
    obtain rfl | member := mem_cons.1 member
    · exact placed
    · exact filed.placed other member
  seats := free
  room := filed.room
  distinct := nodup_cons.2 ⟨fresh,filed.distinct⟩

theorem recache (part : cached'.Subperm cached) : IdsFiled localId i seated cached' where
  placed id member := by
    refine filed.placed id (mem_append.2 ((mem_append.1 member).imp_right fun kept => ?_))
    exact part.subset kept
  seats := filed.seats
  room := part.length_le.trans filed.room
  distinct := by
    obtain ⟨kept,same,sub⟩ := (subperm_append_left seated).2 part
    exact same.nodup_iff.1 (filed.distinct.sublist sub)

theorem cache (placed : bucketIndex localId id = some i)
    (free : cached.length < kBucketSize) (fresh : id ∉ seated++cached) : IdsFiled localId i seated (cached++[id]) where
  placed other member := by
    rw [← append_assoc,mem_append,mem_singleton] at member
    obtain member | rfl := member
    · exact filed.placed other member
    · exact placed
  seats := filed.seats
  room := by
    rw [length_append]
    exact free
  distinct := by
    rw [← append_assoc]
    exact nodup_append_comm.1 (nodup_cons.2 ⟨fresh,filed.distinct⟩)

end

end IdsFiled

namespace Bucket

def Sound (localId : EmberNodeId) (i : Fin idBits) (b : Bucket) : Prop :=
  IdsFiled localId i (b.contacts.map EmberContact.nodeId) (b.replacementCache.map EmberContact.nodeId)

variable {b : Bucket} {id : EmberNodeId} {contact : EmberContact}

theorem find_some (found : b.find id = some contact) : contact ∈ b.contacts ∧ contact.nodeId = id :=
  ⟨mem_of_find?_eq_some found,by simpa using find?_some found⟩

theorem find_none (absent : b.find id = none) : id ∉ b.contacts.map EmberContact.nodeId := by
  rintro member
  obtain ⟨c,seated,rfl⟩ := mem_map.1 member
  exact absurd (find?_eq_none.1 absent c seated) (by simp)

theorem findInCache_some (found : b.findInCache id = some contact) :
    contact ∈ b.replacementCache ∧ contact.nodeId = id :=
  ⟨mem_of_find?_eq_some found,by simpa using find?_some found⟩

theorem findInCache_none (absent : b.findInCache id = none) : id ∉ b.replacementCache.map EmberContact.nodeId := by
  rintro member
  obtain ⟨c,cached,rfl⟩ := mem_map.1 member
  exact absurd (find?_eq_none.1 absent c cached) (by simp)

theorem leadWhere_some {pred : EmberContact → Bool} (found : b.leadWhere pred = some contact) :
    contact ∈ b.contacts ∧ contact.isVerified = false ∧ pred contact = true :=
  ⟨mem_of_find?_eq_some found,by simpa using find?_some found⟩

theorem subnetCount_eq {subnet : Nat} :
    b.subnetCount subnet = (b.contacts.map EmberContact.subnetKey).count subnet := (count_map ..).symm

end Bucket

def EmberContact.listing (c : EmberContact) : (IpAddr × Nat) × EmberNodeId := (c.addr,c.nodeId)

namespace RoutingTable

structure Within (scale : NetworkScale) (t : RoutingTable) : Prop where
  ip : AtMost scale.maxContactsPerIp (t.allContacts.map EmberContact.ip)
  subnet : AtMost scale.maxContactsPerSubnetGlobal (t.allContacts.map EmberContact.subnetKey)
  bucket : ∀ i, AtMost scale.maxContactsPerSubnetPerBucket ((t.buckets i).contacts.map EmberContact.subnetKey)

structure Sound (scale : NetworkScale) (t : RoutingTable) : Prop where
  bucket : ∀ i, (t.buckets i).Sound t.localId i
  subnets : Recounts t.globalSubnetCount (t.allContacts.map EmberContact.subnetKey)
  ips : Recounts t.globalIpCount (t.allContacts.map EmberContact.ip)
  verified : t.residents.verified = t.allContacts.countP EmberContact.isVerified
  addresses : Groups t.residents.byAddr (t.allContacts.map EmberContact.listing)
  within : Within scale t

variable {scale looser : NetworkScale} {t : RoutingTable} {i : Fin idBits} {contact existing revised : EmberContact}
variable {n : Nat} (t' : RoutingTable) {buckets : Fin idBits → Bucket} {b : Bucket} {localId : EmberNodeId}

theorem Within.mono (within : Within scale t) (order : looser ≤ scale) : Within looser t :=
  have limits := NetworkScale.stricter order
  { ip := within.ip.mono limits.ip
    subnet := within.subnet.mono limits.subnet
    bucket := fun i => (within.bucket i).mono limits.bucket }

theorem Sound.mono (sound : Sound scale t) (order : looser ≤ scale) : Sound looser t :=
  { sound with within := sound.within.mono order }

theorem gather_empty {α : Type} : gather (fun _ : Fin n => ([] : List α)) = [] := by
  simp [gather]

theorem new_sound {blockPrivateIps : Bool} : Sound scale (new localId blockPrivateIps) := by
  have none : (new localId blockPrivateIps).allContacts = [] := gather_empty
  refine { bucket := fun i => ⟨nofun,Nat.zero_le _,Nat.zero_le _,nodup_nil⟩
           subnets := ?_, ips := ?_, verified := ?_, addresses := ?_, within := ⟨?_,?_,?_⟩ }
  · exact none ▸ Recounts.empty
  · exact none ▸ Recounts.empty
  · rw [none]; rfl
  · exact none ▸ Groups.empty
  · rw [none]; exact fun _ => Nat.zero_le _
  · rw [none]; exact fun _ => Nat.zero_le _
  · exact fun _ _ => Nat.zero_le _

theorem allContacts_update (edited : t'.buckets = update t.buckets i b) :
    t'.allContacts = gather (update (fun j => (t.buckets j).contacts) i b.contacts) := by
  rw [allContacts,edited]
  exact congrArg gather (comp_update Bucket.contacts t.buckets i b)

theorem allContacts_same (edited : t'.buckets = update t.buckets i b)
    (same : b.contacts = (t.buckets i).contacts) : t'.allContacts = t.allContacts := by
  rw [allContacts_update t' edited,same,update_eq_self i fun j => (t.buckets j).contacts]
  rfl

theorem editBucket_at {edit : Bucket → Bucket} :
    (t.editBucket i edit).buckets i = edit (t.buckets i) := update_self ..

theorem vacate_at (t : RoutingTable) (i : Fin idBits) (contact : EmberContact) :
    (t.vacate i contact).buckets i = { t.buckets i with contacts := (t.buckets i).contacts.erase contact } :=
  update_self ..

theorem allContacts_vacate (seated : contact ∈ (t.buckets i).contacts) :
    t.allContacts.Perm (contact :: (t.vacate i contact).allContacts) := by
  rw [allContacts_update (t.vacate i contact) rfl]
  exact gather_remove (perm_cons_erase seated)

theorem allContacts_seat : (t.seat i contact).allContacts.Perm (contact :: t.allContacts) := by
  rw [allContacts_update (t.seat i contact) rfl]
  exact gather_add (perm_append_singleton ..)

theorem sound_update (sound : ∀ j, (buckets j).Sound localId j) (changed : b.Sound localId i) (j : Fin idBits) :
    (update buckets i b j).Sound localId j := by
  by_cases same : j = i
  · subst same
    rwa [update_self]
  · rw [update_of_ne same]
    exact sound j

theorem within_update (within : ∀ j, AtMost n ((buckets j).contacts.map EmberContact.subnetKey))
    (changed : AtMost n (b.contacts.map EmberContact.subnetKey)) (j : Fin idBits) :
    AtMost n ((update buckets i b j).contacts.map EmberContact.subnetKey) := by
  by_cases same : j = i
  · subst same
    rwa [update_self]
  · rw [update_of_ne same]
    exact within j

namespace Sound

section
variable (sound : Sound scale t)
include sound

theorem edit {edit : Bucket → Bucket} (same : (edit (t.buckets i)).contacts = (t.buckets i).contacts)
    (filed : (edit (t.buckets i)).Sound t.localId i) : Sound scale (t.editBucket i edit) := by
  have all : (t.editBucket i edit).allContacts = t.allContacts := allContacts_same _ rfl same
  refine { bucket := sound_update sound.bucket filed, subnets := ?_, ips := ?_, verified := ?_, addresses := ?_
           within := ⟨?_,?_,within_update sound.within.bucket ?_⟩ }
  · exact all ▸ sound.subnets
  · exact all ▸ sound.ips
  · exact all ▸ sound.verified
  · exact all ▸ sound.addresses
  · exact all ▸ sound.within.ip
  · exact all ▸ sound.within.subnet
  · exact same ▸ sound.within.bucket i

theorem activity (i : Fin idBits) (now : Int) :
    Sound scale (t.editBucket i fun b => { b with lastActivity := now }) :=
  sound.edit rfl (sound.bucket i)

theorem recache {edit : Bucket → Bucket} (same : (edit (t.buckets i)).contacts = (t.buckets i).contacts)
    (part : ((edit (t.buckets i)).replacementCache.map EmberContact.nodeId).Subperm
      ((t.buckets i).replacementCache.map EmberContact.nodeId)) : Sound scale (t.editBucket i edit) := by
  refine sound.edit same ?_
  rw [Bucket.Sound,same]
  exact (sound.bucket i).recache part

theorem vacate (seated : contact ∈ (t.buckets i).contacts) : Sound scale (t.vacate i contact) := by
  have all := allContacts_vacate seated
  have inside : (t.buckets i).contacts.Perm (contact :: (t.buckets i).contacts.erase contact) :=
    perm_cons_erase seated
  have filed : IdsFiled t.localId i (((t.buckets i).contacts.erase contact).map EmberContact.nodeId)
      ((t.buckets i).replacementCache.map EmberContact.nodeId) :=
    (IdsFiled.perm (sound.bucket i) (inside.map _)).vacate
  refine { bucket := sound_update sound.bucket filed, subnets := ?_, ips := ?_, verified := ?_, addresses := ?_
           within := ⟨?_,?_,within_update sound.within.bucket ?_⟩ }
  · exact (sound.subnets.perm (all.map _)).release
  · exact (sound.ips.perm (all.map _)).release
  · have count := sound.verified.trans (all.countP_eq _)
    rw [countP_cons] at count
    show (if contact.isVerified then t.residents.verified-1 else t.residents.verified) = _
    rw [count]
    cases contact.isVerified <;> simp
  · exact (sound.addresses.perm (all.map _)).unfile
  · exact (sound.within.ip.perm (all.map _)).tail
  · exact (sound.within.subnet.perm (all.map _)).tail
  · exact ((sound.within.bucket i).perm (inside.map _)).tail

end

end Sound

structure Room (scale : NetworkScale) (t : RoutingTable) (i : Fin idBits) (contact : EmberContact) : Prop where
  free : (t.buckets i).contacts.length < kBucketSize
  ip : (t.allContacts.map EmberContact.ip).count contact.ip < scale.maxContactsPerIp
  subnet : (t.allContacts.map EmberContact.subnetKey).count contact.subnetKey < scale.maxContactsPerSubnetGlobal
  bucket : ((t.buckets i).contacts.map EmberContact.subnetKey).count contact.subnetKey < scale.maxContactsPerSubnetPerBucket

structure Welcome (scale : NetworkScale) (t : RoutingTable) (i : Fin idBits) (contact : EmberContact) : Prop
    extends Room scale t i contact where
  placed : bucketIndex t.localId contact.nodeId = some i
  fresh : contact.nodeId ∉ (t.buckets i).contacts.map EmberContact.nodeId
  uncached : contact.nodeId ∉ (t.buckets i).replacementCache.map EmberContact.nodeId

namespace Sound
variable (index : ResidentIndex) (was is : Bool) {contacts : List EmberContact}

theorem seat (sound : Sound scale t) (welcome : Welcome scale t i contact) : Sound scale (t.seat i contact) := by
  have all : (contact :: t.allContacts).Perm (t.seat i contact).allContacts := allContacts_seat.symm
  have inside : (contact :: (t.buckets i).contacts).Perm ((t.buckets i).contacts++[contact]) :=
    (perm_append_singleton ..).symm
  have filed : IdsFiled t.localId i (((t.buckets i).contacts++[contact]).map EmberContact.nodeId)
      ((t.buckets i).replacementCache.map EmberContact.nodeId) := by
    refine (IdsFiled.seat (sound.bucket i) welcome.placed ?_ ?_).perm (inside.map _)
    · rw [length_map]
      exact welcome.free
    · rw [mem_append]
      exact fun known => known.elim welcome.fresh welcome.uncached
  refine { bucket := sound_update sound.bucket filed, subnets := ?_, ips := ?_, verified := ?_, addresses := ?_
           within := ⟨?_,?_,within_update sound.within.bucket ?_⟩ }
  · exact sound.subnets.bump.perm (all.map _)
  · exact sound.ips.bump.perm (all.map _)
  · rw [← all.countP_eq,countP_cons,← sound.verified]
    show (if contact.isVerified then t.residents.verified+1 else t.residents.verified) = _
    cases contact.isVerified <;> simp
  · exact (sound.addresses.file contact.addr contact.nodeId).perm (all.map EmberContact.listing)
  · exact (sound.within.ip.cons welcome.ip).perm (all.map _)
  · exact (sound.within.subnet.cons welcome.subnet).perm (all.map _)
  · exact ((sound.within.bucket i).cons welcome.bucket).perm (inside.map _)

theorem revise_books :
    t.revise i existing revised contacts =
      { t with
        buckets := update t.buckets i { t.buckets i with contacts }
        globalSubnetCount := if revised.subnetKey ≠ existing.subnetKey then
          (t.globalSubnetCount.release existing.subnetKey).bump revised.subnetKey else t.globalSubnetCount
        globalIpCount := if revised.ip ≠ existing.ip then
          (t.globalIpCount.release existing.ip).bump revised.ip else t.globalIpCount
        residents := (t.residents.readdress existing.nodeId existing.addr revised.addr).restamp
          existing.isVerified revised.isVerified } := by
  simp only [RoutingTable.revise]
  split_ifs <;> rfl

structure Movable (scale : NetworkScale) (t : RoutingTable) (i : Fin idBits) (existing revised : EmberContact) : Prop where
  ip : revised.ip = existing.ip ∨ (t.allContacts.map EmberContact.ip).count revised.ip < scale.maxContactsPerIp
  subnet : revised.subnetKey = existing.subnetKey ∨
    (t.allContacts.map EmberContact.subnetKey).count revised.subnetKey < scale.maxContactsPerSubnetGlobal
  bucket : revised.subnetKey = existing.subnetKey ∨
    ((t.buckets i).contacts.map EmberContact.subnetKey).count revised.subnetKey < scale.maxContactsPerSubnetPerBucket

theorem restamp_verified (others : Nat) (counted : index.verified = others+if was then 1 else 0) :
    (index.restamp was is).verified = others+if is then 1 else 0 := by
  cases was <;> cases is <;> simp_all [ResidentIndex.restamp]

theorem restamp_byAddr : (index.restamp was is).byAddr = index.byAddr := by
  cases was <;> cases is <;> rfl

theorem readdress_groups {index : ResidentIndex} {id : EmberNodeId} {start goal : IpAddr × Nat}
    {pairs : List ((IpAddr × Nat) × EmberNodeId)} (grouped : Groups index.byAddr ((start,id) :: pairs)) :
    Groups (index.readdress id start goal).byAddr ((goal,id) :: pairs) := by
  unfold ResidentIndex.readdress
  split_ifs with same
  · rwa [← same]
  · exact grouped.unfile.file goal id

theorem revise (sound : Sound scale t) (seated : existing ∈ (t.buckets i).contacts)
    (same : revised.nodeId = existing.nodeId)
    (rewritten : contacts.Perm (revised :: (t.buckets i).contacts.erase existing))
    (movable : Movable scale t i existing revised) : Sound scale (t.revise i existing revised contacts) := by
  rw [revise_books]
  have inside : (t.buckets i).contacts.Perm (existing :: (t.buckets i).contacts.erase existing) :=
    perm_cons_erase seated
  obtain ⟨others,before,after⟩ := @gather_swap _ _ (fun j => (t.buckets j).contacts) i _ _ _ _ inside rewritten
  rw [← allContacts_update (t.editBucket i fun b => { b with contacts }) rfl] at after
  have ids : ((t.buckets i).contacts.map EmberContact.nodeId).Perm (contacts.map EmberContact.nodeId) := by
    refine (inside.map _).trans ((rewritten.map _).trans ?_).symm
    rw [map_cons,same]
    rfl
  have filed : IdsFiled t.localId i (contacts.map EmberContact.nodeId)
      ((t.buckets i).replacementCache.map EmberContact.nodeId) := IdsFiled.perm (sound.bucket i) ids
  refine { bucket := sound_update sound.bucket filed, subnets := ?_, ips := ?_, verified := ?_, addresses := ?_
           within := ⟨?_,?_,within_update sound.within.bucket ?_⟩ }
  · exact (sound.subnets.perm (before.map _)).swap.perm (after.map _).symm
  · exact (sound.ips.perm (before.map _)).swap.perm (after.map _).symm
  · have counted := sound.verified.trans ((before.countP_eq _).trans (countP_cons ..))
    refine (restamp_verified _ _ _ (others.countP EmberContact.isVerified) ?_).trans ?_
    · refine Eq.trans ?_ counted
      unfold ResidentIndex.readdress
      split <;> rfl
    · exact ((after.countP_eq _).trans (countP_cons ..)).symm
  · rw [restamp_byAddr]
    have moved := @readdress_groups _ _ _ revised.addr _ (sound.addresses.perm (before.map _))
    rw [← same] at moved
    rw [← same]
    exact moved.perm (after.map EmberContact.listing).symm
  · refine ((sound.within.ip.perm (before.map _)).swap ?_).perm (after.map _).symm
    exact movable.ip.imp_right fun room => (before.map EmberContact.ip).count_eq _ ▸ room
  · refine ((sound.within.subnet.perm (before.map _)).swap ?_).perm (after.map _).symm
    exact movable.subnet.imp_right fun room => (before.map EmberContact.subnetKey).count_eq _ ▸ room
  · refine (((sound.within.bucket i).perm (inside.map _)).swap ?_).perm (rewritten.map _).symm
    exact movable.bucket.imp_right fun room => (inside.map EmberContact.subnetKey).count_eq _ ▸ room

end Sound
end RoutingTable
end Ember.Dht
