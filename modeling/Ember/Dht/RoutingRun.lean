import Ember.Dht.RoutingQuota

/-! The invariant over whole runs: taking a contact, the liveness marks and the clock correction
keep it, so every table reached has it. -/
namespace Ember.Dht.RoutingTable
open List Function

variable {scale tier : NetworkScale} {t t' : RoutingTable} {i : Fin idBits} {contact existing evicted : EmberContact}
  {now : Int} {contacts : List EmberContact} {nodeId : EmberNodeId} {held : EmberContact}

theorem Sound.takeSlot (sound : Sound scale t) (placed : bucketIndex t.localId contact.nodeId = some i)
    (absent : (t.buckets i).find contact.nodeId = none) (room : Room scale t i contact) :
    Sound scale (takeSlot now t i contact) := by
  let dropped := t.editBucket i fun b => b.dropCached contact.nodeId
  have at_i : dropped.buckets i = (t.buckets i).dropCached contact.nodeId := editBucket_at ..
  have all : dropped.allContacts = t.allContacts := allContacts_same _ rfl rfl
  have thinned : Sound scale dropped := sound.recache rfl (filter_sublist.map _).subperm
  have welcome : Welcome scale dropped i contact := by
    refine ⟨⟨?_,?_,?_,?_⟩,placed,?_,?_⟩
    · rw [at_i]
      exact room.free
    · rw [all]
      exact room.ip
    · rw [all]
      exact room.subnet
    · rw [at_i]
      exact room.bucket
    · rw [at_i]
      exact Bucket.find_none absent
    · rw [at_i]
      rintro member
      obtain ⟨c,kept,same⟩ := mem_map.1 member
      simpa [same] using (mem_filter.1 kept).2
  exact (thinned.seat welcome).activity i now

theorem Displaces.room (displaces : Displaces t i contact evicted) (sound : Sound scale t)
    (order : scale ≤ t.admissionScale) : Room scale (t.vacate i evicted) i contact := by
  have all := allContacts_vacate displaces.seated
  have inside : (t.buckets i).contacts.Perm (evicted :: (t.buckets i).contacts.erase evicted) :=
    perm_cons_erase displaces.seated
  have limits := NetworkScale.stricter order
  have seats := (sound.bucket i).seats
  rw [length_map,inside.length_eq] at seats
  refine ⟨?_,?_,?_,?_⟩
  · rw [vacate_at]
    exact seats
  · refine (sound.within.ip.perm (all.map _)).freed (displaces.ip.imp_right fun cap => ?_)
    rw [sound.ips.count,(all.map EmberContact.ip).count_eq] at cap
    exact cap.trans_le limits.ip
  · refine (sound.within.subnet.perm (all.map _)).freed (displaces.subnet.imp_right fun cap => ?_)
    have cap := cap.2
    rw [sound.subnets.count,(all.map EmberContact.subnetKey).count_eq] at cap
    exact cap.trans_le limits.subnet
  · rw [vacate_at]
    refine ((sound.within.bucket i).perm (inside.map _)).freed (displaces.subnet.imp_right fun cap => ?_)
    have cap := cap.1
    rw [Bucket.subnetCount_eq,(inside.map EmberContact.subnetKey).count_eq] at cap
    exact cap.trans_le limits.bucket

theorem Rewrites.resident (rewrites : Rewrites t i contact existing) :
    existing ∈ (t.buckets i).contacts ∧ existing.nodeId = contact.nodeId := Bucket.find_some rewrites.found

theorem Rewrites.allowed (rewrites : Rewrites t i contact existing) (sound : Sound scale t)
    (order : scale ≤ t.admissionScale) : Sound.Movable scale t i existing (rewritten contact existing) := by
  have inside : (t.buckets i).contacts.Perm (existing :: (t.buckets i).contacts.erase existing) :=
    perm_cons_erase rewrites.resident.1
  have limits := NetworkScale.stricter order
  obtain same | free := rewrites.movable
  · have ip : contact.ip = existing.ip := congrArg Prod.fst same
    have subnet : contact.subnetKey = existing.subnetKey := by
      unfold EmberContact.subnetKey
      rw [ip]
    exact ⟨.inl ip,.inl subnet,.inl subnet⟩
  simp only [refusesMove,Bool.or_eq_false_iff,Bool.and_eq_false_iff,decide_eq_false_iff_not,
    Decidable.not_not,Nat.not_le] at free
  obtain ⟨subnet,ip⟩ := free
  refine ⟨ip.imp_right fun cap => ?_,subnet.imp_right fun cap => ?_,?_⟩
  · rw [sound.ips.count] at cap
    exact cap.trans_le limits.ip
  · have cap := cap.2
    rw [sound.subnets.count] at cap
    exact cap.trans_le limits.subnet
  · by_cases same : contact.subnetKey = existing.subnetKey
    · exact .inl same
    right
    have cap := (subnet.resolve_left same).1
    rw [Bucket.subnetCount_eq] at cap
    show List.count contact.subnetKey _ < _
    rw [(inside.map EmberContact.subnetKey).count_eq,map_cons,count_cons_of_ne (Ne.symm same)]
    exact cap.trans_le limits.bucket

theorem refuse_sound {count : AdmissionRefusals → AdmissionRefusals} (sound : Sound scale t) :
    Sound scale (t.refuse contact count) := by
  unfold refuse
  split
  · exact { sound with within := { sound.within with } }
  · exact sound

theorem refuse_frame (t : RoutingTable) (contact : EmberContact) (count : AdmissionRefusals → AdmissionRefusals) :
    (t.refuse contact count).localId = t.localId ∧ (t.refuse contact count).enforcedScale = t.enforcedScale ∧
      (t.refuse contact count).buckets = t.buckets := by
  unfold refuse
  split <;> exact ⟨rfl,rfl,rfl⟩

/-- What every call keeps: the structure under the tier it enforces, and our id. -/
def Intact (t : RoutingTable) : Prop := Sound t.enforcedScale t

theorem Taken.sound (taken : Taken now t contact t') (intact : Intact t) :
    Sound t.enforcedScale t' ∧ t'.localId = t.localId ∧ t'.enforcedScale = t.enforcedScale := by
  have order : t.enforcedScale ≤ t.admissionScale := le_admissionScale le_rfl
  cases taken with
  | outside => exact ⟨intact,rfl,rfl⟩
  | kept => exact ⟨intact,rfl,rfl⟩
  | updated i existing rewrites =>
    obtain ⟨seated,same⟩ := rewrites.resident
    have revised : Sound t.enforcedScale (t.revise i existing (rewritten contact existing)
        ((t.buckets i).contacts.erase existing++[rewritten contact existing])) :=
      Sound.revise intact seated rfl (perm_append_singleton ..) (rewrites.allowed intact order)
    refine ⟨revised.activity i _,?_,?_⟩ <;> rw [Sound.revise_books] <;> rfl
  | barred i count =>
    obtain ⟨localId,enforced,-⟩ := refuse_frame t contact count
    exact ⟨refuse_sound intact,localId,enforced⟩
  | seated i newcomer free under =>
    exact ⟨Sound.takeSlot intact newcomer.placed newcomer.absent (Sound.room intact order free under),rfl,rfl⟩
  | displaced i evicted newcomer displaces =>
    have gone := Sound.vacate intact displaces.seated
    have absent : ((t.vacate i evicted).buckets i).find contact.nodeId = none := by
      rw [vacate_at]
      refine find?_eq_none.2 fun c member => ?_
      exact find?_eq_none.1 newcomer.absent c (mem_of_mem_erase member)
    have taken : Sound t.enforcedScale (RoutingTable.takeSlot now (t.vacate i evicted) i contact) :=
      gone.takeSlot newcomer.placed absent (displaces.room intact order)
    have placed : bucketIndex t.localId evicted.nodeId = some i :=
      (intact.bucket i).placed _ (mem_append_left _ (mem_map_of_mem displaces.seated))
    have cached := addToCache_cached (RoutingTable.takeSlot now (t.vacate i evicted) i contact) i evicted t.admissionScale
    exact ⟨cached.sound taken placed,cached.frame.1,cached.frame.2⟩
  | parked i count newcomer refused =>
    obtain ⟨localId,enforced,-⟩ := refuse_frame t contact count
    have cached := addToCache_cached (t.refuse contact count) i contact t.admissionScale
    refine ⟨cached.sound (refuse_sound intact) (localId ▸ newcomer.placed),?_,?_⟩
    · exact cached.frame.1.trans localId
    · exact cached.frame.2.trans enforced

theorem addContact_intact (now : Int) (contact : EmberContact) (intact : Intact t) :
    Intact (t.addContact now contact).1 ∧ (t.addContact now contact).1.localId = t.localId := by
  obtain ⟨sound,localId,enforced⟩ := (addContact_taken now t contact).sound intact
  exact ⟨by rwa [Intact,enforced],localId⟩

theorem loadContacts_intact {contacts : List (Int × EmberContact)} (intact : Intact t) :
    Intact (t.loadContacts contacts).1 ∧ (t.loadContacts contacts).1.localId = t.localId := by
  refine List.foldlRecOn contacts loadTurn (motive := fun acc : RoutingTable × List EmberNodeId =>
    Intact acc.1 ∧ acc.1.localId = t.localId) ⟨intact,rfl⟩ ?_
  rintro acc ⟨intact,localId⟩ timed -
  obtain ⟨kept,same⟩ := addContact_intact timed.1 timed.2 intact
  exact ⟨kept,same.trans localId⟩

theorem restamp_self {index : ResidentIndex} {verified : Bool} : index.restamp verified verified = index := by
  cases verified <;> rfl

theorem revise_stay {touched : EmberContact} (same : touched.addr = held.addr) :
    t.revise i held touched contacts =
      { t.editBucket i fun b => { b with contacts } with
        residents := t.residents.restamp held.isVerified touched.isVerified } := by
  have ip : touched.ip = held.ip := congrArg Prod.fst same
  have subnet : touched.subnetKey = held.subnetKey := by
    unfold EmberContact.subnetKey
    rw [ip]
  rw [Sound.revise_books,if_neg (not_not.2 subnet),if_neg (not_not.2 ip),ResidentIndex.readdress,if_pos same.symm]
  rfl

theorem Sound.touch (sound : Sound scale t) (touched : EmberContact)
    (seated : held ∈ (t.buckets i).contacts) (id : touched.nodeId = held.nodeId) (addr : touched.addr = held.addr)
    (rewritten : contacts.Perm (touched :: (t.buckets i).contacts.erase held)) :
    Sound scale { t.editBucket i fun b => { b with contacts } with
      residents := t.residents.restamp held.isVerified touched.isVerified } := by
  have ip : touched.ip = held.ip := congrArg Prod.fst addr
  have subnet : touched.subnetKey = held.subnetKey := by
    unfold EmberContact.subnetKey
    rw [ip]
  have revised := sound.revise seated id rewritten ⟨.inl ip,.inl subnet,.inl subnet⟩
  rwa [revise_stay addr] at revised

theorem markAlive_intact {addr : IpAddr × Nat} {noisePub : BitVec 256}
    (intact : Intact t) : Intact (t.markAlive now nodeId addr noisePub) ∧
      (t.markAlive now nodeId addr noisePub).localId = t.localId := by
  unfold markAlive
  split
  case h_1 => exact ⟨intact,rfl⟩
  case h_2 i _ =>
    split
    case h_1 => exact ⟨intact,rfl⟩
    case h_2 held answered =>
      have seated := (Bucket.find_some (Option.filter_eq_some_iff.1 answered).1).1
      have touched := Sound.touch intact { held with lastSeen := now, failedQueries := 0 } seated rfl rfl
        (perm_append_singleton ..)
      have stamped := touched.activity i now
      refine ⟨?_,rfl⟩
      simp only [editBucket,update_self,update_idem] at stamped
      exact stamped

theorem markFailed_intact (intact : Intact t) :
    Intact (t.markFailed nodeId).1 ∧ (t.markFailed nodeId).1.localId = t.localId := by
  unfold markFailed
  split
  case h_1 => exact ⟨intact,rfl⟩
  case h_2 i _ =>
    split
    case h_1 => exact ⟨intact,rfl⟩
    case h_2 held found =>
      have seated := (Bucket.find_some found).1
      have touched := Sound.touch intact { held with failedQueries := min 255 (held.failedQueries+1) } seated
        rfl rfl (replace_perm _ seated)
      refine ⟨?_,rfl⟩
      rw [show EmberContact.isVerified { held with failedQueries := min 255 (held.failedQueries+1) } = held.isVerified from rfl,
        restamp_self] at touched
      exact touched

theorem pullBack_fields (now limit : Int) (c : EmberContact) :
    (pullBack now limit c).nodeId = c.nodeId ∧ (pullBack now limit c).ip = c.ip ∧ (pullBack now limit c).port = c.port ∧
      (pullBack now limit c).noisePub = c.noisePub := by
  unfold pullBack
  split <;> exact ⟨rfl,rfl,rfl,rfl⟩

theorem map_pullBack {α : Type} (f : EmberContact → α) (now limit : Int) (contacts : List EmberContact)
    (same : ∀ c, f (pullBack now limit c) = f c) : (contacts.map (pullBack now limit)).map f = contacts.map f := by
  rw [map_map]
  exact map_congr_left fun c _ => same c

theorem restamps (now limit : Int) (contacts : List EmberContact) (index : ResidentIndex) (others : Nat)
    (counted : index.verified = others+contacts.countP EmberContact.isVerified) :
    let after := contacts.foldl (fun index c =>
      if limit < c.lastSeen then index.restamp c.isVerified (0 < now) else index) index
    after.verified = others+(contacts.map (pullBack now limit)).countP EmberContact.isVerified ∧
      after.byAddr = index.byAddr := by
  induction contacts generalizing index others with
  | nil => exact ⟨counted,rfl⟩
  | cons c rest ih =>
    rw [countP_cons,← Nat.add_assoc] at counted
    have first : (if limit < c.lastSeen then index.restamp c.isVerified (0 < now) else index).verified =
          others+rest.countP EmberContact.isVerified+(if (pullBack now limit c).isVerified then 1 else 0) ∧
        (if limit < c.lastSeen then index.restamp c.isVerified (0 < now) else index).byAddr = index.byAddr := by
      unfold pullBack
      split
      · exact ⟨Sound.restamp_verified index _ _ _ counted,Sound.restamp_byAddr ..⟩
      · exact ⟨counted,rfl⟩
    obtain ⟨verified,byAddr⟩ := ih _ (others+if (pullBack now limit c).isVerified then 1 else 0)
      (by rw [first.1,Nat.add_right_comm])
    refine ⟨?_,byAddr.trans first.2⟩
    rw [foldl_cons,map_cons,countP_cons]
    omega

theorem Sound.clamp (sound : Sound scale t) (now : Int) : Sound scale (t.clampFutureTimestamps now).1 := by
  let limit := clampI64 (now+clockStepSlackSecs)
  have fields := pullBack_fields now limit
  have ids c : (pullBack now limit c).nodeId = c.nodeId := (fields c).1
  have ip c : (pullBack now limit c).ip = c.ip := (fields c).2.1
  have subnet c : (pullBack now limit c).subnetKey = c.subnetKey := by
    unfold EmberContact.subnetKey
    rw [ip c]
  have listing c : (pullBack now limit c).listing = c.listing := by
    simp only [EmberContact.listing,EmberContact.addr,(fields c).1,(fields c).2.1,(fields c).2.2.1]
  have all : (t.clampFutureTimestamps now).1.allContacts = t.allContacts.map (pullBack now limit) := by
    simp only [allContacts,gather,map_flatMap]
    rfl
  have stamps := restamps now limit t.allContacts t.residents 0 (by rw [Nat.zero_add]; exact sound.verified)
  rw [Nat.zero_add] at stamps
  refine { bucket := fun i => ?_, subnets := ?_, ips := ?_, verified := ?_, addresses := ?_
           within := ⟨?_,?_,fun i => ?_⟩ }
  · show IdsFiled t.localId i (((t.buckets i).contacts.map (pullBack now limit)).map EmberContact.nodeId)
      (((t.buckets i).replacementCache.map (pullBack now limit)).map EmberContact.nodeId)
    rw [map_pullBack _ _ _ _ ids,map_pullBack _ _ _ _ ids]
    exact sound.bucket i
  · rw [all,map_pullBack _ _ _ _ subnet]
    exact sound.subnets
  · rw [all,map_pullBack _ _ _ _ ip]
    exact sound.ips
  · rw [all]
    exact stamps.1
  · rw [all,map_pullBack _ _ _ _ listing]
    exact stamps.2 ▸ sound.addresses
  · rw [all,map_pullBack _ _ _ _ ip]
    exact sound.within.ip
  · rw [all,map_pullBack _ _ _ _ subnet]
    exact sound.within.subnet
  · show AtMost _ (((t.buckets i).contacts.map (pullBack now limit)).map EmberContact.subnetKey)
    rw [map_pullBack _ _ _ _ subnet]
    exact sound.within.bucket i

theorem removeStale_rearranged {maxAgeSecs : Int} {inUse : Finset EmberNodeId} (sound : Sound scale t)
    (order : scale ≤ t.enforcedScale) :
    Rearranged scale (t.clampFutureTimestamps now).1 (t.removeStale now maxAgeSecs inUse).1 := by
  have gone := removeContacts_rearranged (sound.clamp now) order (((t.clampFutureTimestamps now).1.allContacts.filter
    fun c => c.isVerified && isStale now c.lastSeen maxAgeSecs && c.nodeId ∉ inUse).map EmberContact.nodeId)
  exact gone.trans (gone.sound.sweep_rearranged _)

theorem Rearranged.intact (moved : Rearranged t.enforcedScale t t') : Intact t' ∧ t'.localId = t.localId :=
  ⟨by rw [Intact,moved.enforced]; exact moved.sound,moved.localId⟩

theorem enforceScaleQuotas_localId (intact : Intact t) : t.enforceScaleQuotas.1.localId = t.localId := by
  rcases le_or_gt t.targetScale t.relaxedScale with quiet | raised
  · rw [enforce_relaxed quiet]
  · exact (enforce_readmits intact raised).2.2.1

theorem enforce_held (intact : Intact t) : t.enforceScaleQuotas.1.heldContacts.Subperm t.heldContacts := by
  rcases le_or_gt t.targetScale t.relaxedScale with quiet | raised
  · rw [enforce_relaxed quiet]
    exact .refl _
  · exact (enforce_readmits intact raised).2.2.2

theorem step_intact (op : RoutingOp) (intact : Intact t) : Intact (t.step op) ∧ (t.step op).localId = t.localId := by
  cases op with
  | addContact now contact => exact addContact_intact now contact intact
  | loadContacts contacts => exact loadContacts_intact intact
  | markAlive now nodeId addr noisePub => exact markAlive_intact intact
  | markFailed nodeId => exact markFailed_intact intact
  | evictAndReplace now deadId => exact (evictAndReplace_rearranged now intact le_rfl).intact
  | removeContact nodeId => exact (removeContact_rearranged intact).intact
  | removeStale now maxAgeSecs inUse =>
    have swept : Rearranged (t.clampFutureTimestamps now).1.enforcedScale (t.clampFutureTimestamps now).1
      (t.removeStale now maxAgeSecs inUse).1 := removeStale_rearranged intact le_rfl
    exact swept.intact
  | clampFutureTimestamps now => exact ⟨Sound.clamp intact now,rfl⟩
  | setBlockPrivateIps now blockPrivate => exact (setBlockPrivateIps_rearranged now intact le_rfl).intact
  | promoteCachedContacts now =>
    dsimp only [step]
    exact (promoteCachedContacts_rearranged now intact le_rfl).intact
  | enforceScaleQuotas => exact ⟨enforceScaleQuotas_sound intact,enforceScaleQuotas_localId intact⟩

theorem run_intact {ops : List RoutingOp} (intact : Intact t) : Intact (t.run ops) ∧ (t.run ops).localId = t.localId := by
  induction ops generalizing t with
  | nil => exact ⟨intact,rfl⟩
  | cons op rest ih =>
    obtain ⟨kept,same⟩ := step_intact op intact
    obtain ⟨final,localId⟩ := ih kept
    exact ⟨final,localId.trans same⟩

theorem reached_intact (localId : EmberNodeId) (blockPrivateIps : Bool) (ops : List RoutingOp) :
    Intact ((new localId blockPrivateIps).run ops) := (run_intact new_sound).1

end Ember.Dht.RoutingTable
