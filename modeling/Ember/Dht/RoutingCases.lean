import Ember.Dht.RoutingSound

/-! What taking a contact can do to the table, once for every branch and with its guards. -/
namespace Ember.Dht.RoutingTable
open List Option

def Pinned (existing contact : EmberContact) : Prop :=
  existing.isVerified = true ∧ existing.noisePub ≠ 0 ∧ contact.noisePub ≠ existing.noisePub

structure Newcomer (t : RoutingTable) (i : Fin idBits) (contact : EmberContact) : Prop where
  placed : bucketIndex t.localId contact.nodeId = some i
  absent : (t.buckets i).find contact.nodeId = none
  admitted : t.admitsAddr contact.addr = true

structure Displaces (t : RoutingTable) (i : Fin idBits) (contact evicted : EmberContact) : Prop where
  proven : contact.isVerified = true
  seated : evicted ∈ (t.buckets i).contacts
  lead : evicted.isVerified = false
  ip : contact.ip = evicted.ip ∨ t.globalIpCount.count contact.ip < t.admissionScale.maxContactsPerIp
  subnet : contact.subnetKey = evicted.subnetKey ∨
    (t.buckets i).subnetCount contact.subnetKey < t.admissionScale.maxContactsPerSubnetPerBucket ∧
      t.globalSubnetCount.count contact.subnetKey < t.admissionScale.maxContactsPerSubnetGlobal

/-- The bucket has a slot for the newcomer, free or taken from a lead. -/
def givesSlot (t : RoutingTable) (i : Fin idBits) (contact : EmberContact) : Bool :=
  (t.displaceable i contact t.admissionScale).isSome || !t.overQuota i t.admissionScale contact &&
    (!(t.buckets i).isFull || contact.isVerified && ((t.buckets i).leadWhere fun _ => true).isSome)

/-- A resident is rewritten first-hand, under its own key and at an address it may have. -/
structure Rewrites (t : RoutingTable) (i : Fin idBits) (contact existing : EmberContact) : Prop where
  placed : bucketIndex t.localId contact.nodeId = some i
  found : (t.buckets i).find contact.nodeId = some existing
  heard : 0 < contact.lastSeen
  unpinned : ¬Pinned existing contact
  movable : contact.addr = existing.addr ∨ t.refusesMove i t.admissionScale existing contact = false

def rewritten (contact existing : EmberContact) : EmberContact :=
  { contact with nodeId := existing.nodeId, failedQueries := 0 }

inductive Taken (now : Int) (t : RoutingTable) (contact : EmberContact) : RoutingTable → Prop where
  | outside (ours : contact.nodeId = t.localId ∨ bucketIndex t.localId contact.nodeId = none) : Taken now t contact t
  | kept (i : Fin idBits) (existing : EmberContact) (placed : bucketIndex t.localId contact.nodeId = some i)
      (found : (t.buckets i).find contact.nodeId = some existing) : Taken now t contact t
  | updated (i : Fin idBits) (existing : EmberContact) (rewrites : Rewrites t i contact existing) :
      Taken now t contact ((t.revise i existing (rewritten contact existing)
        ((t.buckets i).contacts.erase existing++[rewritten contact existing])).editBucket i fun b =>
          { b with lastActivity := contact.lastSeen })
  | barred (i : Fin idBits) (count : AdmissionRefusals → AdmissionRefusals)
      (placed : bucketIndex t.localId contact.nodeId = some i) (absent : (t.buckets i).find contact.nodeId = none)
      (blocked : t.admitsAddr contact.addr = false) : Taken now t contact (t.refuse contact count)
  | seated (i : Fin idBits) (newcomer : Newcomer t i contact) (free : (t.buckets i).isFull = false)
      (under : t.overQuota i t.admissionScale contact = false) : Taken now t contact (takeSlot now t i contact)
  | displaced (i : Fin idBits) (evicted : EmberContact) (newcomer : Newcomer t i contact)
      (displaces : Displaces t i contact evicted) (given : t.givesSlot i contact = true) :
      Taken now t contact (displace now t i evicted contact t.admissionScale)
  | parked (i : Fin idBits) (count : AdmissionRefusals → AdmissionRefusals) (newcomer : Newcomer t i contact)
      (refused : (t.buckets i).isFull = true ∨ t.overQuota i t.admissionScale contact = true) :
      Taken now t contact ((t.refuse contact count).addToCache i contact t.admissionScale)

variable {now : Int} {t : RoutingTable} {i : Fin idBits} {contact existing evicted : EmberContact}

theorem refuse_id : t.refuse contact id = t := by
  simp [refuse]

theorem displaceable_some (found : t.displaceable i contact t.admissionScale = some evicted) :
    Displaces t i contact evicted := by
  simp only [displaceable] at found
  split at found
  case isFalse => cases found
  case isTrue wanted =>
    simp only [filter_eq_some_iff,Bool.and_eq_true,Bool.or_eq_true,decide_eq_true_eq] at found
    obtain ⟨chosen,ip,subnet⟩ := found
    obtain ⟨pred,lead⟩ : ∃ pred, (t.buckets i).leadWhere pred = some evicted := by
      rw [or_eq_some_iff,or_eq_some_iff] at chosen
      obtain (lead | ⟨-,lead⟩) | ⟨-,lead⟩ := chosen
      · exact ⟨_,lead⟩
      · exact ⟨_,lead⟩
      · split at lead
        · exact ⟨_,lead⟩
        · cases lead
    obtain ⟨seated,unproven,-⟩ := Bucket.leadWhere_some lead
    simp only [Bool.and_eq_true] at wanted
    exact ⟨wanted.1,seated,unproven,ip,subnet.imp_left Eq.symm⟩

theorem applyResidentContact_taken (placed : bucketIndex t.localId contact.nodeId = some i)
    (found : (t.buckets i).find contact.nodeId = some existing) {admitNewAddr : Bool} :
    Taken now t contact (t.applyResidentContact i contact t.admissionScale admitNewAddr).1 := by
  simp only [applyResidentContact,found]
  split_ifs with gossip pinned barred refused
  · exact .kept i existing placed found
  · exact .kept i existing placed found
  · exact .kept i existing placed found
  · exact .kept i existing placed found
  · refine .updated i existing ⟨placed,found,Int.not_le.1 gossip,?_,?_⟩
    · rintro ⟨verified,keyed,other⟩
      rw [verified,Bool.and_eq_true] at pinned
      exact pinned ⟨decide_eq_true keyed,decide_eq_true other⟩
    by_cases same : contact.addr = existing.addr
    · exact .inl same
    · exact .inr (by simpa [same] using refused)

theorem addNewcomer_taken (newcomer : Newcomer t i contact) :
    Taken now t contact (addNewcomer now t i contact t.admissionScale).1 := by
  simp only [addNewcomer]
  split
  case h_1 evicted found => exact .displaced i evicted newcomer (displaceable_some found) (by simp [givesSlot,found])
  case h_2 =>
    have beyond crowded count :
        Taken now t contact ((t.refuse contact count).addToCache i contact t.admissionScale) :=
      .parked i count newcomer (.inr crowded)
    have full (full : (t.buckets i).isFull = true) : Taken now t contact (t.addToCache i contact t.admissionScale) := by
      have parked : Taken now t contact ((t.refuse contact id).addToCache i contact t.admissionScale) :=
        .parked i id newcomer (.inl full)
      rwa [refuse_id] at parked
    split_ifs with bucket subnet ip free proven
    · exact beyond (by simp [overQuota,bucket]) _
    · exact beyond (by simp [overQuota,subnet]) _
    · exact beyond (by simp [overQuota,ip]) _
    · exact .seated i newcomer (by simpa using free) (by simp [overQuota,bucket,subnet,ip])
    · split
      case h_1 evicted found =>
        obtain ⟨seated,lead,-⟩ := Bucket.leadWhere_some found
        exact .displaced i evicted newcomer
          ⟨proven,seated,lead,.inr (Nat.not_le.1 ip),.inr ⟨Nat.not_le.1 bucket,Nat.not_le.1 subnet⟩⟩
          (by simp [givesSlot,overQuota,bucket,subnet,ip,proven,found])
      case h_2 => exact full (by simpa using free)
    · exact full (by simpa using free)

theorem addContact_taken (now : Int) (t : RoutingTable) (contact : EmberContact) :
    Taken now t contact (t.addContact now contact).1 := by
  simp only [addContact]
  split
  case isTrue ours => exact .outside (.inl ours)
  case isFalse =>
    split
    case h_1 nowhere => exact .outside (.inr nowhere)
    case h_2 i placed =>
      split
      case h_1 existing found => exact applyResidentContact_taken placed found
      case h_2 absent =>
        split
        case isTrue blocked =>
          exact .barred i (fun r => { r with ipPolicy := r.ipPolicy+1 }) placed absent (by simpa using blocked)
        case isFalse admitted => exact addNewcomer_taken ⟨placed,absent,by simpa using admitted⟩

inductive Cached (t : RoutingTable) (i : Fin idBits) (contact : EmberContact) : RoutingTable → Prop where
  | same : Cached t i contact t
  | merged (existing : EmberContact) (absent : (t.buckets i).find contact.nodeId = none)
      (found : (t.buckets i).findInCache contact.nodeId = some existing) :
      Cached t i contact (t.editBucket i fun b =>
        { b with replacementCache := b.replacementCache.replace existing (mergeCached existing contact) })
  | added (cache : List EmberContact) (absent : (t.buckets i).find contact.nodeId = none)
      (uncached : (t.buckets i).findInCache contact.nodeId = none)
      (part : cache.Sublist (t.buckets i).replacementCache)
      (room : (t.buckets i).replacementCache.length ≤ kBucketSize → cache.length < kBucketSize) :
      Cached t i contact (t.editBucket i fun b => { b with replacementCache := cache++[contact] })

theorem roomInCache_some {tier : NetworkScale} {cache : List EmberContact}
    (made : t.roomInCache i contact tier = some cache) : cache.Sublist (t.buckets i).replacementCache ∧
      ((t.buckets i).replacementCache.length ≤ kBucketSize → cache.length < kBucketSize) := by
  have erased {victim : EmberContact} (member : victim ∈ (t.buckets i).replacementCache)
      (equal : (t.buckets i).replacementCache.erase victim = cache) :
      cache.Sublist (t.buckets i).replacementCache ∧
        ((t.buckets i).replacementCache.length ≤ kBucketSize → cache.length < kBucketSize) := by
    subst equal
    refine ⟨erase_sublist,fun bounded => ?_⟩
    have some := length_pos_of_mem member
    rw [length_erase_of_mem member]
    omega
  simp only [roomInCache] at made
  split at made
  case isTrue free =>
    cases some.inj made
    exact ⟨.refl _,fun _ => free⟩
  case isFalse full =>
    split at made
    case h_1 victim found =>
      split at made
      · cases made
      · exact erased (mem_of_find?_eq_some found) (some.inj made)
    case h_2 =>
      split at made
      case h_1 lead found => exact erased (mem_of_find?_eq_some found) (some.inj made)
      case h_2 =>
        split at made
        · cases made
        cases some.inj made
        refine ⟨tail_sublist _,fun bounded => ?_⟩
        have size : kBucketSize = 20 := rfl
        rw [length_tail]
        omega

theorem addToCache_cached (t : RoutingTable) (i : Fin idBits) (contact : EmberContact) (tier : NetworkScale) :
    Cached t i contact (t.addToCache i contact tier) := by
  unfold addToCache
  split
  case isTrue => exact .same
  case isFalse resident =>
    have absent : (t.buckets i).find contact.nodeId = none := by simpa using resident
    split
    case h_1 existing found => exact .merged existing absent found
    case h_2 uncached =>
      split
      case h_1 cache made =>
        obtain ⟨part,room⟩ := roomInCache_some made
        exact .added cache absent uncached part room
      case h_2 => exact .same

theorem mergeCached_cases (existing contact : EmberContact) : mergeCached existing contact = existing ∨
      ¬Pinned existing contact ∧ 0 < contact.lastSeen ∧ (mergeCached existing contact).noisePub = contact.noisePub ∧
        (mergeCached existing contact).lastSeen = contact.lastSeen ∧
        ((mergeCached existing contact).nodeId = contact.nodeId ∨ (mergeCached existing contact).nodeId = existing.nodeId) := by
  unfold mergeCached
  split_ifs with gossip pinned first newer
  · exact .inl rfl
  · exact .inl rfl
  all_goals
    have unpinned : ¬Pinned existing contact := by
      rintro ⟨verified,keyed,other⟩
      rw [verified,Bool.and_eq_true] at pinned
      exact pinned ⟨decide_eq_true keyed,decide_eq_true other⟩
  · exact .inr ⟨unpinned,Int.not_le.1 gossip,rfl,rfl,.inl rfl⟩
  · exact .inr ⟨unpinned,Int.not_le.1 gossip,rfl,rfl,.inr rfl⟩
  · exact .inl rfl

theorem mergeCached_nodeId (same : existing.nodeId = contact.nodeId) :
    (mergeCached existing contact).nodeId = contact.nodeId := by
  obtain unchanged | ⟨-,-,-,-,id⟩ := mergeCached_cases existing contact
  · rw [unchanged,same]
  · exact id.elim (fun new => new) fun old => old.trans same

end Ember.Dht.RoutingTable
