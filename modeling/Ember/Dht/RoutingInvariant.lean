import Ember.Dht.RoutingCases

/-! The invariant along every run. A call that only rearranges keeps the invariant, the enforced
tier and every origin; those that rewrite a contact are the liveness marks, the clock correction and
the contact taken. -/
namespace Ember.Dht.RoutingTable
open List Function Option

variable {scale tier : NetworkScale} {t t' t'' : RoutingTable} {i : Fin idBits} {contact existing evicted : EmberContact}
  {now : Int} {exclude : Option EmberNodeId} {b : Bucket}

def heldContacts (t : RoutingTable) : List EmberContact :=
  gather fun i => (t.buckets i).contacts++(t.buckets i).replacementCache

theorem heldContacts_update (edited : t'.buckets = update t.buckets i b)
    (part : (b.contacts++b.replacementCache).Subperm ((t.buckets i).contacts++(t.buckets i).replacementCache)) :
    t'.heldContacts.Subperm t.heldContacts := by
  have held : t'.heldContacts = gather (update
      (fun j => (t.buckets j).contacts++(t.buckets j).replacementCache) i (b.contacts++b.replacementCache)) := by
    rw [heldContacts,edited]
    exact congrArg gather (comp_update (fun b : Bucket => b.contacts++b.replacementCache) t.buckets i b)
  rw [held]
  exact gather_subperm part

structure Rearranged (scale : NetworkScale) (t t' : RoutingTable) : Prop where
  sound : Sound scale t'
  localId : t'.localId = t.localId
  enforced : t'.enforcedScale = t.enforcedScale
  held : t'.heldContacts.Subperm t.heldContacts

namespace Rearranged

theorem refl (sound : Sound scale t) : Rearranged scale t t := ⟨sound,rfl,rfl,.refl _⟩

theorem trans (first : Rearranged scale t t') (second : Rearranged scale t' t'') : Rearranged scale t t'' where
  sound := second.sound
  localId := second.localId.trans first.localId
  enforced := second.enforced.trans first.enforced
  held := second.held.trans first.held

theorem foldl {α β : Type} {f : RoutingTable × β → α → RoutingTable × β}
    (turn : ∀ acc x, Sound scale acc.1 → scale ≤ acc.1.enforcedScale → Rearranged scale acc.1 (f acc x).1)
    (xs : List α) (acc : RoutingTable × β) (sound : Sound scale acc.1) (order : scale ≤ acc.1.enforcedScale) :
    Rearranged scale acc.1 (xs.foldl f acc).1 := by
  induction xs generalizing acc with
  | nil => exact refl sound
  | cons x rest ih =>
    have first := turn acc x sound order
    exact first.trans (ih _ first.sound (first.enforced ▸ order))

end Rearranged

theorem Sound.vacate_rearranged (sound : Sound scale t) (seated : contact ∈ (t.buckets i).contacts) :
    Rearranged scale t (t.vacate i contact) where
  sound := sound.vacate seated
  localId := rfl
  enforced := rfl
  held := heldContacts_update rfl (erase_sublist.append (.refl _)).subperm

theorem Sound.activity_rearranged (sound : Sound scale t) :
    Rearranged scale t (t.editBucket i fun b => { b with lastActivity := now }) where
  sound := sound.activity i now
  localId := rfl
  enforced := rfl
  held := heldContacts_update rfl (.refl _)

theorem Sound.sweep_rearranged (sound : Sound scale t) (keep : Fin idBits → EmberContact → Bool) :
    Rearranged scale t (t.sweepCaches keep) where
  sound := { sound with
    bucket := fun i => (sound.bucket i).recache (filter_sublist.map _).subperm
    within := { sound.within with } }
  localId := rfl
  enforced := rfl
  held := (gather_sublist fun i => (Sublist.refl (t.buckets i).contacts).append filter_sublist).subperm

theorem isFull_eq_false : b.isFull = false ↔ b.contacts.length < kBucketSize := by
  simp [Bucket.isFull]

theorem Sound.room (sound : Sound scale t) (order : scale ≤ tier) (free : (t.buckets i).isFull = false)
    (under : t.overQuota i tier contact = false) : Room scale t i contact := by
  simp only [overQuota,Bool.or_eq_false_iff,decide_eq_false_iff_not,not_le] at under
  obtain ⟨⟨bucket,subnet⟩,ip⟩ := under
  rw [Bucket.subnetCount_eq] at bucket
  rw [sound.subnets.count] at subnet
  rw [sound.ips.count] at ip
  have limits := NetworkScale.stricter order
  exact ⟨isFull_eq_false.1 free,ip.trans_le limits.ip,subnet.trans_le limits.subnet,bucket.trans_le limits.bucket⟩

theorem bestPromotableCached_some (chosen : t.bestPromotableCached i exclude tier = some contact) :
    contact ∈ (t.buckets i).replacementCache ∧ some contact.nodeId ≠ exclude ∧
      (t.buckets i).find contact.nodeId = none ∧ t.overQuota i tier contact = false := by
  simp only [bestPromotableCached,or_eq_some_iff] at chosen
  obtain found | ⟨-,found⟩ := chosen
  all_goals
    have member := mem_reverse.1 (mem_of_find?_eq_some found)
    have passes := find?_some found
    simp only [Bool.and_eq_true,decide_eq_true_eq,isNone_iff_eq_none,Bool.not_eq_true'] at passes
  · exact ⟨member,passes.1.1.1.1,passes.1.1.1.2,passes.1.2⟩
  · exact ⟨member,passes.1.1.1,passes.1.1.2,passes.2⟩

theorem Sound.promote_rearranged (sound : Sound scale t) (order : scale ≤ tier)
    (free : (t.buckets i).isFull = false) (chosen : t.bestPromotableCached i exclude tier = some contact) :
    Rearranged scale t (t.promote i contact) := by
  obtain ⟨cached,-,absent,under⟩ := bestPromotableCached_some chosen
  have split : (t.buckets i).replacementCache.Perm (contact :: eraseLast (t.buckets i).replacementCache contact) :=
    eraseLast_perm cached
  have distinct : ((t.buckets i).replacementCache.map EmberContact.nodeId).Nodup :=
    (nodup_append.1 (sound.bucket i).distinct).2.1
  have placed : bucketIndex t.localId contact.nodeId = some i :=
    (sound.bucket i).placed _ (mem_append_right _ (mem_map_of_mem cached))
  let freed := t.editBucket i fun b => { b with replacementCache := eraseLast b.replacementCache contact }
  have at_i : freed.buckets i = { t.buckets i with replacementCache := eraseLast (t.buckets i).replacementCache contact } :=
    editBucket_at ..
  have thinned : Sound scale freed :=
    sound.recache rfl ((sublist_cons_self ..).subperm.trans (split.symm.map EmberContact.nodeId).subperm)
  have room : Room scale freed i contact := by
    refine thinned.room order ?_ ?_
    · rw [at_i]
      exact free
    · rw [overQuota,at_i]
      exact under
  have welcome : Welcome scale freed i contact := by
    refine { room with placed := placed, fresh := ?_, uncached := ?_ }
    · rw [at_i]
      exact Bucket.find_none absent
    · rw [at_i]
      exact (nodup_cons.1 (((split.map _).nodup_iff).1 distinct)).1
  refine ⟨thinned.seat welcome,rfl,rfl,?_⟩
  refine heldContacts_update (show _ = update t.buckets i
    { t.buckets i with
      contacts := (t.buckets i).contacts++[contact]
      replacementCache := eraseLast (t.buckets i).replacementCache contact } from ?_) ?_
  · show update freed.buckets i { freed.buckets i with contacts := (freed.buckets i).contacts++[contact] } = _
    rw [at_i]
    exact update_idem ..
  · rw [append_assoc]
    exact (split.symm.append_left _).subperm

theorem promoteLoop_rearranged (i : Fin idBits) (order : scale ≤ tier) (turns : Nat) (t : RoutingTable)
    (sound : Sound scale t) : Rearranged scale t (promoteLoop i tier turns t).1 := by
  induction turns generalizing t with
  | zero => exact .refl sound
  | succ turns ih =>
    unfold promoteLoop
    split
    case isTrue => exact .refl sound
    case isFalse free =>
      split
      case h_1 contact chosen =>
        have first := sound.promote_rearranged order (Bool.eq_false_iff.2 free) chosen
        exact first.trans (ih _ first.sound)
      case h_2 => exact .refl sound

theorem le_admissionScale (order : scale ≤ t.enforcedScale) : scale ≤ t.admissionScale :=
  order.trans (le_max_right ..)

theorem removeContact_rearranged {nodeId : EmberNodeId} (sound : Sound scale t) :
    Rearranged scale t (t.removeContact nodeId).1 := by
  unfold removeContact
  split
  case h_1 => exact .refl sound
  case h_2 i _ =>
    split
    case h_1 => exact .refl sound
    case h_2 removed found => exact sound.vacate_rearranged (Bucket.find_some found).1

section
variable (now : Int) (sound : Sound scale t) (order : scale ≤ t.enforcedScale)
include sound order

theorem promoteBucket_rearranged : Rearranged scale t (promoteBucket now t i).1 := by
  unfold promoteBucket
  split
  case isTrue => exact .refl sound
  case isFalse =>
    have filled := promoteLoop_rearranged i (le_admissionScale order) kBucketSize t sound
    dsimp only
    split
    · exact filled.trans filled.sound.activity_rearranged
    · exact filled

theorem promoteCachedContacts_rearranged : Rearranged scale t (t.promoteCachedContacts now).1 := by
  have turn acc i sound
      order : Rearranged scale acc.1 (promoteTurn now acc i).1 :=
    promoteBucket_rearranged now sound order
  exact Rearranged.foldl turn _ (t,0) sound order

theorem removeContacts_rearranged (ids : List EmberNodeId) : Rearranged scale t (t.removeContacts ids).1 := by
  have turn acc id sound
      (_ : scale ≤ acc.1.enforcedScale) : Rearranged scale acc.1 (removeTurn acc id).1 :=
    removeContact_rearranged sound
  exact Rearranged.foldl turn ids (t,0) sound order

theorem evictAndReplace_rearranged {deadId : EmberNodeId} : Rearranged scale t (t.evictAndReplace now deadId).1 := by
  unfold evictAndReplace
  split
  case h_1 => exact .refl sound
  case h_2 i _ =>
    split
    case h_1 => exact .refl sound
    case h_2 removed found =>
      have seated := (Bucket.find_some found).1
      have gone := sound.vacate_rearranged seated
      dsimp only
      split
      case h_1 replacement chosen =>
        have free : ((t.vacate i removed).buckets i).isFull = false := by
          have room := (sound.bucket i).seats
          have some := length_pos_of_mem seated
          rw [length_map] at room
          rw [isFull_eq_false,vacate_at,length_erase_of_mem seated]
          omega
        have promoted := gone.sound.promote_rearranged (le_admissionScale (gone.enforced ▸ order)) free chosen
        exact gone.trans (promoted.trans promoted.sound.activity_rearranged)
      case h_2 => exact gone

theorem evictFilteredContacts_rearranged : Rearranged scale t (t.evictFilteredContacts now).1 := by
  have gone : Rearranged scale t t.evictBlockedContacts.1 := removeContacts_rearranged sound order _
  have swept := gone.trans (gone.sound.sweep_rearranged fun i c => decide (c.nodeId ∉
    ((t.evictBlockedContacts.1.buckets i).replacementCache.filter fun c =>
      t.evictBlockedContacts.1.definitelyBlocked c.addr).map EmberContact.nodeId))
  unfold evictFilteredContacts
  dsimp only
  exact swept.trans (promoteCachedContacts_rearranged now swept.sound (swept.enforced ▸ order))

theorem setBlockPrivateIps_rearranged {block : Bool} : Rearranged scale t (t.setBlockPrivateIps now block).1 := by
  unfold setBlockPrivateIps
  have set : Rearranged scale t { t with blockPrivateIps := block } :=
    ⟨{ sound with within := { sound.within with } },rfl,rfl,.refl _⟩
  dsimp only
  split
  · exact set.trans (evictFilteredContacts_rearranged now set.sound order)
  · exact set

end

theorem Cached.frame (cached : Cached t i contact t') : t'.localId = t.localId ∧ t'.enforcedScale = t.enforcedScale := by
  cases cached <;> exact ⟨rfl,rfl⟩

theorem Cached.sound (cached : Cached t i contact t') (sound : Sound scale t)
    (placed : bucketIndex t.localId contact.nodeId = some i) : Sound scale t' := by
  cases cached with
  | same => exact sound
  | merged existing absent found =>
    obtain ⟨member,same⟩ := Bucket.findInCache_some found
    refine sound.recache rfl ?_
    rw [map_replace ((mergeCached_nodeId same).trans same.symm)]
  | added cache absent uncached part room =>
    refine sound.edit rfl ?_
    have filed := sound.bucket i
    have thinned := IdsFiled.recache filed (part.map EmberContact.nodeId).subperm
    have free : (cache.map EmberContact.nodeId).length < kBucketSize := by
      rw [length_map]
      exact room (by simpa using filed.room)
    have fresh : contact.nodeId ∉ (t.buckets i).contacts.map EmberContact.nodeId++cache.map EmberContact.nodeId := by
      rw [mem_append]
      rintro (seated | kept)
      · exact Bucket.find_none absent seated
      · exact Bucket.findInCache_none uncached ((part.map _).subset kept)
    show IdsFiled t.localId i _ ((cache++[contact]).map EmberContact.nodeId)
    rw [map_append]
    exact thinned.cache placed free fresh

theorem Sound.demote_rearranged (sound : Sound scale t) (seated : contact ∈ (t.buckets i).contacts) :
    Rearranged scale t ((t.vacate i contact).addToCache i contact tier) := by
  have gone := sound.vacate_rearranged seated
  have cached := addToCache_cached (t.vacate i contact) i contact tier
  generalize (t.vacate i contact).addToCache i contact tier = after at cached ⊢
  have placed : bucketIndex t.localId contact.nodeId = some i :=
    (sound.bucket i).placed _ (mem_append_left _ (mem_map_of_mem seated))
  refine ⟨cached.sound gone.sound placed,cached.frame.1,cached.frame.2,?_⟩
  cases cached with
  | same => exact gone.held
  | merged existing absent found =>
    -- A resident has no cached copy to merge with.
    obtain ⟨member,same⟩ := Bucket.findInCache_some found
    rw [vacate_at] at member
    have apart := (nodup_append.1 (sound.bucket i).distinct).2.2
    exact absurd same.symm (apart _ (mem_map_of_mem seated) _ (mem_map_of_mem member))
  | added cache absent uncached part room =>
    rw [vacate_at] at part
    refine heldContacts_update (show _ = update t.buckets i
      { t.buckets i with
        contacts := (t.buckets i).contacts.erase contact
        replacementCache := cache++[contact] } from ?_) ?_
    · show update (t.vacate i contact).buckets i _ = _
      rw [vacate_at]
      exact update_idem ..
    have order : ((t.buckets i).contacts.erase contact++(cache++[contact])).Perm ((t.buckets i).contacts++cache) := by
      refine ((perm_append_singleton ..).append_left _).trans (perm_middle.trans ?_)
      exact (perm_cons_erase seated).symm.append_right cache
    exact order.subperm.trans ((Sublist.refl _).append part).subperm

end Ember.Dht.RoutingTable
