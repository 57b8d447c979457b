import Ember.Dht.RoutingInvariant

/-! Re-admission under tighter quotas. The pass keeps the residents its counters let through and
demotes the rest, so the buckets are within the tier it tightened to. -/
namespace Ember.Dht.RoutingTable
open List Function

variable {scale tier target : NetworkScale} {t : RoutingTable} {i : Fin idBits}

variable (entry : Fin idBits × EmberContact) (doomed : List (Fin idBits × EmberNodeId)) {kept turned : List (Fin idBits × EmberContact)}
variable {contact : EmberContact}

def seats (t : RoutingTable) : List (Fin idBits × EmberContact) :=
  gather fun i => (t.buckets i).contacts.map fun c => (i,c)

theorem seats_snd : t.seats.map Prod.snd = t.allContacts := by
  simp [seats,allContacts,gather,map_flatMap]

theorem Sound.distinct (sound : Sound scale t) : (t.allContacts.map EmberContact.nodeId).Nodup := by
  rw [allContacts,gather,map_flatMap,nodup_flatMap]
  refine ⟨fun i _ => (nodup_append.1 (sound.bucket i).distinct).1,?_⟩
  refine (nodup_finRange idBits).imp fun {i j} apart id here there => ?_
  have first := (sound.bucket i).placed id (mem_append_left _ here)
  have second := (sound.bucket j).placed id (mem_append_left _ there)
  exact apart (Option.some.inj (first.symm.trans second))

def seatKey : Fin idBits × EmberNodeId := (entry.1,entry.2.nodeId)

theorem Sound.seats_distinct (sound : Sound scale t) : (t.seats.map seatKey).Nodup := by
  refine Nodup.of_map Prod.snd ?_
  have ids := sound.distinct
  rw [← seats_snd,map_map] at ids
  rwa [map_map]

def crowdKey : Fin idBits × Nat := (entry.1,entry.2.subnetKey)

/-- A re-admission has split its offers into those its counters count, within the tier, and those
turned away. -/
structure Ledger (target : NetworkScale) (r : Readmission) (offered kept turned : List (Fin idBits × EmberContact)) :
    Prop where
  split : offered.Perm (kept++turned)
  doomed : r.doomed = turned.map seatKey
  buckets : Recounts r.perBucketSubnet (kept.map crowdKey)
  subnets : Recounts r.perSubnet (kept.map fun entry => entry.2.subnetKey)
  ips : Recounts r.perIp (kept.map fun entry => entry.2.ip)
  inBucket : AtMost target.maxContactsPerSubnetPerBucket (kept.map crowdKey)
  inSubnet : AtMost target.maxContactsPerSubnetGlobal (kept.map fun entry => entry.2.subnetKey)
  atIp : AtMost target.maxContactsPerIp (kept.map fun entry => entry.2.ip)

theorem ledger_empty : Ledger target {} [] [] [] where
  split := .refl _
  doomed := rfl
  buckets := .empty
  subnets := .empty
  ips := .empty
  inBucket _ := Nat.zero_le _
  inSubnet _ := Nat.zero_le _
  atIp _ := Nat.zero_le _

theorem Ledger.offer {r : Readmission} {offered : List (Fin idBits × EmberContact)}
    (ledger : Ledger target r offered kept turned) {entry : Fin idBits × EmberContact} :
    ∃ kept turned, Ledger target (r.offer target entry) (offered++[entry]) kept turned := by
  have longer := Perm.append_right [entry] ledger.split
  simp only [Readmission.offer]
  split
  case isTrue =>
    refine ⟨kept,turned++[entry],{ ledger with split := ?_, doomed := ?_ }⟩
    · rwa [← append_assoc]
    · rw [ledger.doomed,map_append]
      rfl
  case isFalse under =>
    simp only [Bool.or_eq_true,decide_eq_true_eq,not_or,Nat.not_le] at under
    obtain ⟨⟨bucket,subnet⟩,ip⟩ := under
    refine ⟨entry :: kept,turned,?_⟩
    exact
      { split := longer.trans (perm_append_singleton ..)
        doomed := ledger.doomed
        buckets := ledger.buckets.bump
        subnets := ledger.subnets.bump
        ips := ledger.ips.bump
        inBucket := ledger.inBucket.cons (ledger.buckets.count ▸ bucket)
        inSubnet := ledger.inSubnet.cons (ledger.subnets.count ▸ subnet)
        atIp := ledger.atIp.cons (ledger.ips.count ▸ ip) }

theorem readmission_ledger (target : NetworkScale) (entries : List (Fin idBits × EmberContact)) :
    ∃ kept turned, Ledger target (entries.foldl (Readmission.offer target) {}) entries kept turned := by
  induction entries using List.reverseRecOn with
  | nil => exact ⟨[],[],ledger_empty⟩
  | append_singleton entries entry ih =>
    obtain ⟨kept,turned,ledger⟩ := ih
    rw [foldl_append]
    exact ledger.offer

theorem erase_eq_filter {contacts : List EmberContact}
    (distinct : (contacts.map EmberContact.nodeId).Nodup) (member : contact ∈ contacts) :
    contacts.erase contact = contacts.filter fun c => c.nodeId ≠ contact.nodeId := by
  induction contacts with
  | nil => cases member
  | cons head rest ih =>
    obtain ⟨fresh,distinct⟩ := nodup_cons.1 distinct
    by_cases same : head = contact
    · subst same
      have others : rest.filter (fun c => c.nodeId ≠ head.nodeId) = rest := by
        refine filter_eq_self.2 fun c inside => ?_
        rw [decide_eq_true_eq]
        exact fun equal => fresh (equal ▸ mem_map_of_mem inside)
      rw [erase_cons_head,filter_cons_of_neg (by simp),others]
    · have inside := (mem_cons.1 member).resolve_left fun equal => same equal.symm
      have other : head.nodeId ≠ contact.nodeId := fun equal => fresh (equal ▸ mem_map_of_mem inside)
      rw [erase_cons_tail (by simpa using same),filter_cons_of_pos (by simpa using other),ih distinct inside]

theorem addToCache_contacts {j : Fin idBits} :
    ((t.addToCache i contact tier).buckets j).contacts = (t.buckets j).contacts := by
  have edited edit (same : (edit (t.buckets i)).contacts = (t.buckets i).contacts) :
      ((t.editBucket i edit).buckets j).contacts = (t.buckets j).contacts := by
    by_cases here : j = i
    · subst here
      rw [editBucket_at,same]
    · exact congrArg Bucket.contacts (update_of_ne here ..)
  have cached := addToCache_cached t i contact tier
  generalize t.addToCache i contact tier = after at cached ⊢
  cases cached with
  | same => rfl
  | merged existing absent found => exact edited _ rfl
  | added cache absent uncached part room => exact edited _ rfl

theorem demote_contacts {acc : RoutingTable × List (Fin idBits × EmberNodeId)} (sound : Sound scale acc.1)
    (entry : Fin idBits × EmberNodeId) (j : Fin idBits) : ((demote target acc entry).1.buckets j).contacts =
      (acc.1.buckets j).contacts.filter fun c => (j,c.nodeId) ≠ entry := by
  have distinct : ((acc.1.buckets entry.1).contacts.map EmberContact.nodeId).Nodup :=
    (nodup_append.1 (sound.bucket entry.1).distinct).1
  unfold demote
  split
  case h_1 absent =>
    refine (filter_eq_self.2 fun c member => ?_).symm
    rw [decide_eq_true_eq]
    rintro rfl
    exact Bucket.find_none absent (mem_map_of_mem member)
  case h_2 contact found =>
    obtain ⟨seated,same⟩ := Bucket.find_some found
    rw [addToCache_contacts]
    by_cases here : j = entry.1
    · subst here
      rw [vacate_at,erase_eq_filter distinct seated,same]
      exact filter_congr fun c _ => by simp [Prod.ext_iff]
    rw [show ((acc.1.vacate entry.1 contact).buckets j) = acc.1.buckets j from update_of_ne here ..]
    refine (filter_eq_self.2 fun c _ => ?_).symm
    rw [decide_eq_true_eq]
    exact fun equal => here (congrArg Prod.fst equal)

theorem demote_rearranged (acc : RoutingTable × List (Fin idBits × EmberNodeId)) (entry : Fin idBits × EmberNodeId)
    (sound : Sound scale acc.1) : Rearranged scale acc.1 (demote target acc entry).1 := by
  unfold demote
  split
  case h_1 => exact .refl sound
  case h_2 contact found => exact sound.demote_rearranged (Bucket.find_some found).1

theorem demotions_contacts (acc : RoutingTable × List (Fin idBits × EmberNodeId))
    (sound : Sound scale acc.1) (j : Fin idBits) : ((doomed.foldl (demote target) acc).1.buckets j).contacts =
      (acc.1.buckets j).contacts.filter fun c => (j,c.nodeId) ∉ doomed := by
  induction doomed generalizing acc with
  | nil => simp
  | cons entry rest ih =>
    rw [foldl_cons,ih _ (demote_rearranged acc entry sound).sound,demote_contacts sound,filter_filter]
    refine filter_congr fun c _ => ?_
    simp [Bool.and_comm]

theorem demotions_seats (sound : Sound scale t) :
    (doomed.foldl (demote target) (t,[])).1.seats = t.seats.filter fun entry => seatKey entry ∉ doomed := by
  rw [seats,seats,gather,gather,filter_flatMap]
  refine flatMap_congr fun i _ => ?_
  rw [demotions_contacts doomed (t,[]) sound i,filter_map]
  rfl

theorem filter_kept (distinct : ((kept++turned).map seatKey).Nodup) :
    (kept++turned).filter (fun entry => seatKey entry ∉ turned.map seatKey) = kept := by
  have apart := (nodup_append.1 (map_append ▸ distinct)).2.2
  have stay : kept.filter (fun entry => seatKey entry ∉ turned.map seatKey) = kept := by
    refine filter_eq_self.2 fun entry member => ?_
    rw [decide_eq_true_eq]
    exact fun turnedToo => apart _ (mem_map_of_mem member) _ turnedToo rfl
  have leave : turned.filter (fun entry => seatKey entry ∉ turned.map seatKey) = [] := by
    refine filter_eq_nil_iff.2 fun entry member => ?_
    rw [decide_eq_true_eq,not_not]
    exact mem_map_of_mem member
  rw [filter_append,stay,leave,append_nil]

def overflow (target : NetworkScale) (t : RoutingTable) : List (Fin idBits × EmberNodeId) :=
  (t.ranked.foldl (Readmission.offer target) {}).doomed

theorem readmitted_within (target : NetworkScale) (sound : Sound scale t) :
    Within target ((t.overflow target).foldl (demote target) (t,[])).1 := by
  obtain ⟨kept,turned,ledger⟩ := readmission_ledger target t.ranked
  have order : t.seats.Perm (kept++turned) := (perm_insertionSort ..).symm.trans ledger.split
  have distinct : ((kept++turned).map seatKey).Nodup := (order.map seatKey).nodup_iff.1 sound.seats_distinct
  have left := @demotions_seats scale target t (t.overflow target) sound
  rw [overflow,ledger.doomed] at left ⊢
  generalize ((turned.map seatKey).foldl (demote target) (t,[])).1 = after at left ⊢
  have stay : after.seats.Perm kept := by
    rw [left,← filter_kept distinct]
    exact order.filter _
  have all : after.allContacts.Perm (kept.map Prod.snd) := seats_snd ▸ stay.map Prod.snd
  refine ⟨?_,?_,fun i => ?_⟩
  · have bound := ledger.atIp
    rw [show (fun entry => entry.2.ip) = EmberContact.ip ∘ Prod.snd from rfl,← map_map] at bound
    exact bound.perm (all.map _).symm
  · have bound := ledger.inSubnet
    rw [show (fun entry => entry.2.subnetKey) = EmberContact.subnetKey ∘ Prod.snd from rfl,
      ← map_map] at bound
    exact bound.perm (all.map _).symm
  · have shelf : ((after.buckets i).contacts.map fun c => (i,c)).Sublist after.seats :=
      sublist_flatten_of_mem (List.mem_map_of_mem (mem_finRange i))
    have bound := (ledger.inBucket.perm (stay.map crowdKey).symm).sublist (shelf.map crowdKey)
    have same : crowdKey ∘ (fun c => (i,c)) = Prod.mk i ∘ EmberContact.subnetKey := rfl
    rw [map_map,same,← map_map] at bound
    exact bound.of_map (Prod.mk_right_injective i)

def relaxedScale (t : RoutingTable) : NetworkScale := min (.fromContacts (t.verifiedHeld*5/4)) t.enforcedScale

def targetScale (t : RoutingTable) : NetworkScale := .fromContacts (t.verifiedLen*4/5)

private theorem relax_eq (t : RoutingTable) :
    (if NetworkScale.fromContacts (t.verifiedHeld*5/4) < t.enforcedScale then
      { t with enforcedScale := NetworkScale.fromContacts (t.verifiedHeld*5/4) } else t) =
      { t with enforcedScale := t.relaxedScale } := by
  split
  case isTrue lower => rw [relaxedScale,min_eq_left lower.le]
  case isFalse above => rw [relaxedScale,min_eq_right (not_lt.1 above)]

theorem enforce_relaxed (quiet : t.targetScale ≤ t.relaxedScale) :
    t.enforceScaleQuotas.1 = { t with enforcedScale := t.relaxedScale } := by
  rw [targetScale] at quiet
  simp only [enforceScaleQuotas,relax_eq]
  rw [if_pos quiet]

theorem enforce_tightened (raised : t.relaxedScale < t.targetScale) : t.enforceScaleQuotas.1 =
      ((t.overflow t.targetScale).foldl (demote t.targetScale) ({ t with enforcedScale := t.targetScale },[])).1 := by
  rw [targetScale] at raised
  simp only [enforceScaleQuotas,relax_eq]
  rw [if_neg (not_le.2 raised)]
  rfl

theorem Sound.enforce (sound : Sound scale t) (tier : NetworkScale) : Sound scale { t with enforcedScale := tier } :=
  { sound with within := { sound.within with } }

theorem relaxedScale_le (t : RoutingTable) : t.relaxedScale ≤ t.enforcedScale := min_le_right ..

theorem enforce_readmits (sound : Sound t.enforcedScale t) (raised : t.relaxedScale < t.targetScale) :
    Sound t.targetScale t.enforceScaleQuotas.1 ∧ t.enforceScaleQuotas.1.enforcedScale = t.targetScale ∧
      t.enforceScaleQuotas.1.localId = t.localId ∧ t.enforceScaleQuotas.1.heldContacts.Subperm t.heldContacts := by
  have started : Sound t.relaxedScale { t with enforcedScale := t.targetScale } :=
    (sound.mono (relaxedScale_le t)).enforce t.targetScale
  have within := readmitted_within t.targetScale started
  have moved := Rearranged.foldl (fun acc entry sound _ => @demote_rearranged _ t.targetScale acc entry sound)
    (t.overflow t.targetScale) ({ t with enforcedScale := t.targetScale },[]) started raised.le
  rw [enforce_tightened raised]
  exact ⟨{ moved.sound with within := within },moved.enforced,moved.localId,moved.held⟩

theorem enforceScaleQuotas_sound (sound : Sound t.enforcedScale t) :
    Sound t.enforceScaleQuotas.1.enforcedScale t.enforceScaleQuotas.1 := by
  rcases le_or_gt t.targetScale t.relaxedScale with quiet | raised
  · rw [enforce_relaxed quiet]
    exact (sound.mono (relaxedScale_le t)).enforce _
  obtain ⟨readmitted,tier,-⟩ := enforce_readmits sound raised
  rw [tier]
  exact readmitted

end Ember.Dht.RoutingTable
