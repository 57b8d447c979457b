import Ember.Dht.RoutingRun

/-! What a held entry keeps. A resident and a cached entry that answered us keep their session key and
are not rewritten by gossip, but for one open door: a contact that takes a slot past its own cached
copy. -/
namespace Ember.Dht.RoutingTable
open List Option Function

variable {scale tier : NetworkScale} {t t' : RoutingTable} {i : Fin idBits} {id : EmberNodeId}
  {contact existing evicted d : EmberContact} {now : Int} {key : BitVec 256}

theorem mem_heldContacts : d ∈ t.heldContacts ↔
    ∃ i, d ∈ (t.buckets i).contacts ∨ d ∈ (t.buckets i).replacementCache := by
  simp [heldContacts,mem_gather]

theorem held_of_edit {edit : Bucket → Bucket} (held : d ∈ (t.editBucket i edit).heldContacts) :
    d ∈ t.heldContacts ∨ d ∈ (edit (t.buckets i)).contacts ∨ d ∈ (edit (t.buckets i)).replacementCache := by
  obtain ⟨j,inside⟩ := mem_heldContacts.1 held
  by_cases here : j = i
  · subst here
    rw [editBucket_at] at inside
    exact .inr inside
  · rw [show (t.editBucket i edit).buckets j = t.buckets j from update_of_ne here ..] at inside
    exact .inl (mem_heldContacts.2 ⟨j,inside⟩)

theorem held_of_vacate (held : d ∈ (t.vacate i contact).heldContacts) : d ∈ t.heldContacts := by
  have edited : d ∈ (t.editBucket i fun b => { b with contacts := b.contacts.erase contact }).heldContacts := held
  obtain old | seated | cached := held_of_edit edited
  · exact old
  · exact mem_heldContacts.2 ⟨i,.inl (mem_of_mem_erase seated)⟩
  · exact mem_heldContacts.2 ⟨i,.inr cached⟩

theorem held_of_seat (held : d ∈ (t.seat i contact).heldContacts) : d ∈ t.heldContacts ∨ d = contact := by
  have edited : d ∈ (t.editBucket i fun b => { b with contacts := b.contacts++[contact] }).heldContacts := held
  obtain old | seated | cached := held_of_edit edited
  · exact .inl old
  · obtain seated | new := mem_append.1 seated
    · exact .inl (mem_heldContacts.2 ⟨i,.inl seated⟩)
    · exact .inr (mem_singleton.1 new)
  · exact .inl (mem_heldContacts.2 ⟨i,.inr cached⟩)

theorem held_of_activity (held : d ∈ (t.editBucket i fun b => { b with lastActivity := now }).heldContacts) :
    d ∈ t.heldContacts := by
  obtain old | inside := held_of_edit held
  · exact old
  · exact mem_heldContacts.2 ⟨i,inside⟩

theorem held_of_takeSlot (held : d ∈ (takeSlot now t i contact).heldContacts) : d ∈ t.heldContacts ∨ d = contact := by
  obtain kept | new := held_of_seat (held_of_activity held)
  · obtain old | seated | cached := held_of_edit kept
    · exact .inl old
    · exact .inl (mem_heldContacts.2 ⟨i,.inl seated⟩)
    · exact .inl (mem_heldContacts.2 ⟨i,.inr (mem_of_mem_filter cached)⟩)
  · exact .inr new

theorem Cached.held (cached : Cached t i contact t') (held : d ∈ t'.heldContacts) : d ∈ t.heldContacts ∨
      (∃ existing ∈ (t.buckets i).replacementCache, existing.nodeId = contact.nodeId ∧ d = mergeCached existing contact) ∨
      d = contact ∧ (t.buckets i).find contact.nodeId = none ∧ (t.buckets i).findInCache contact.nodeId = none := by
  cases cached with
  | same => exact .inl held
  | merged existing absent found =>
    obtain ⟨member,same⟩ := Bucket.findInCache_some found
    obtain old | seated | cached := held_of_edit held
    · exact .inl old
    · exact .inl (mem_heldContacts.2 ⟨i,.inl seated⟩)
    · obtain new | old := mem_cons.1 ((replace_perm _ member).mem_iff.1 cached)
      · exact .inr (.inl ⟨existing,member,same,new⟩)
      · exact .inl (mem_heldContacts.2 ⟨i,.inr (mem_of_mem_erase old)⟩)
  | added cache absent uncached part room =>
    obtain old | seated | cached := held_of_edit held
    · exact .inl old
    · exact .inl (mem_heldContacts.2 ⟨i,.inl seated⟩)
    · obtain kept | new := mem_append.1 cached
      · exact .inl (mem_heldContacts.2 ⟨i,.inr (part.subset kept)⟩)
      · exact .inr (.inr ⟨mem_singleton.1 new,absent,uncached⟩)

theorem held_of_revise {contacts : List EmberContact} {revised : EmberContact}
    (held : d ∈ (t.revise i existing revised contacts).heldContacts) : d ∈ t.heldContacts ∨ d ∈ contacts := by
  rw [Sound.revise_books] at held
  have edited : d ∈ (t.editBucket i fun b => { b with contacts }).heldContacts := held
  obtain old | seated | cached := held_of_edit edited
  · exact .inl old
  · exact .inr seated
  · exact .inl (mem_heldContacts.2 ⟨i,.inr cached⟩)

def KeyedTo (id : EmberNodeId) (key : BitVec 256) (t : RoutingTable) : Prop :=
  ∀ c ∈ t.heldContacts, c.nodeId = id → c.isVerified = true ∧ c.noisePub = key

theorem KeyedTo.rearranged (keyed : KeyedTo id key t) (moved : Rearranged scale t t') : KeyedTo id key t' :=
  fun c held same => keyed c (moved.held.subset held) same

abbrev Holds (t : RoutingTable) (id : EmberNodeId) : Prop := (t.getContact id).isSome = true

/-- The contact has no entry in its bucket, may come in, and the bucket has a slot for it. -/
def SlipsIn (t : RoutingTable) (contact : EmberContact) : Prop := ∃ i, Newcomer t i contact ∧ t.givesSlot i contact = true

theorem takeSlot_seats : ((takeSlot now t i contact).buckets i).contacts = (t.buckets i).contacts++[contact] := by
  rw [takeSlot,editBucket_at]
  rw [show (seat (t.editBucket i fun b => b.dropCached contact.nodeId) i contact).buckets i = _ from update_self ..,
    editBucket_at]
  rfl

/-- What keeps a pinned id its key: a contact that slips in past its cached copy carries the key first-hand. -/
def CarriesKey (id : EmberNodeId) (key : BitVec 256) (t : RoutingTable) (contact : EmberContact) : Prop :=
  contact.nodeId = id → SlipsIn t contact → contact.isVerified = true ∧ contact.noisePub = key

def LoadRespects (id : EmberNodeId) (key : BitVec 256) : RoutingTable → List (Int × EmberContact) → Prop
  | _,[] => True
  | t,timed :: rest => Holds t id ∧ CarriesKey id key t timed.2 ∧ LoadRespects id key (t.addContact timed.1 timed.2).1 rest

/-- So does a clock that has started where it stamps contacts. A load is the calls it makes. -/
def Respects (id : EmberNodeId) (key : BitVec 256) (t : RoutingTable) : RoutingOp → Prop
  | .addContact _ contact => CarriesKey id key t contact
  | .loadContacts contacts => LoadRespects id key t contacts
  | .markAlive now _ _ _ => 0 < now
  | .removeStale now _ _ => 0 < now
  | .clampFutureTimestamps now => 0 < now
  | _ => True

section
variable (verified : existing.isVerified = true) (same : existing.noisePub = key) (keyed : key ≠ 0)
include verified same keyed

theorem unpinned_key (unpinned : ¬Pinned existing contact) : contact.noisePub = key := by
  by_contra other
  exact unpinned ⟨verified,same ▸ keyed,same ▸ other⟩

theorem mergeCached_keyed :
    (mergeCached existing contact).isVerified = true ∧ (mergeCached existing contact).noisePub = key := by
  obtain unchanged | ⟨unpinned,heard,noise,seen,-⟩ := mergeCached_cases existing contact
  · rw [unchanged]
    exact ⟨verified,same⟩
  · exact ⟨decide_eq_true (seen ▸ heard),noise.trans (unpinned_key verified same keyed unpinned)⟩

end

theorem Holds.found (holds : Holds t id) (placed : bucketIndex t.localId id = some i) :
    (t.buckets i).find id ≠ none ∨ (t.buckets i).findInCache id ≠ none := by
  by_contra neither
  obtain ⟨absent,uncached⟩ := not_or.1 neither
  rw [Holds,getContact,placed,bind_eq_bind,bind_some,not_not.1 absent,not_not.1 uncached] at holds
  cases holds

section
variable (keyed : KeyedTo id key t) {nodeId : EmberNodeId}
include keyed

theorem KeyedTo.taken (nonzero : key ≠ 0) (holds : Holds t id)
    (respects : CarriesKey id key t contact) : KeyedTo id key (t.addContact now contact).1 := by
  intro d held same
  have old before := keyed d before same
  have taken := addContact_taken now t contact
  generalize (t.addContact now contact).1 = t' at taken held
  cases taken with
  | outside => exact old held
  | kept => exact old held
  | updated i existing rewrites =>
    obtain ⟨seated,equal⟩ := rewrites.resident
    obtain before | inside := held_of_revise (held_of_activity held)
    · exact old before
    obtain stayed | new := mem_append.1 inside
    · exact old (mem_heldContacts.2 ⟨i,.inl (mem_of_mem_erase stayed)⟩)
    cases mem_singleton.1 new
    obtain ⟨verified,noise⟩ := keyed existing (mem_heldContacts.2 ⟨i,.inl seated⟩) same
    exact ⟨decide_eq_true rewrites.heard,unpinned_key verified noise nonzero rewrites.unpinned⟩
  | barred i count =>
    rw [heldContacts,(refuse_frame t contact count).2.2] at held
    exact old held
  | seated i newcomer free under =>
    obtain before | rfl := held_of_takeSlot held
    · exact old before
    exact respects same ⟨i,newcomer,by simp [givesSlot,free,under]⟩
  | displaced i evicted newcomer displaces given =>
    have cached := addToCache_cached (takeSlot now (t.vacate i evicted) i contact) i evicted t.admissionScale
    have lead : evicted.nodeId ≠ id := fun equal => by
      have verified := (keyed evicted (mem_heldContacts.2 ⟨i,.inl displaces.seated⟩) equal).1
      rw [displaces.lead] at verified
      cases verified
    obtain kept | ⟨existing,member,equal,rfl⟩ | ⟨rfl,-⟩ := cached.held held
    · obtain before | rfl := held_of_takeSlot kept
      · exact old (held_of_vacate before)
      exact respects same ⟨i,newcomer,given⟩
    · exact absurd ((mergeCached_nodeId equal).symm.trans same) lead
    · exact absurd same lead
  | parked i count newcomer refused =>
    obtain ⟨-,-,buckets⟩ := refuse_frame t contact count
    have cached := addToCache_cached (t.refuse contact count) i contact t.admissionScale
    obtain kept | ⟨existing,member,equal,rfl⟩ | ⟨rfl,absent,uncached⟩ := cached.held held
    · rw [heldContacts,buckets] at kept
      exact old kept
    · rw [buckets] at member
      rw [mergeCached_nodeId equal] at same
      obtain ⟨verified,noise⟩ := keyed existing (mem_heldContacts.2 ⟨i,.inr member⟩) (equal.trans same)
      exact mergeCached_keyed verified noise nonzero
    · -- The id is held, so its bucket knows it.
      rw [buckets] at absent uncached
      subst same
      exact absurd (holds.found newcomer.placed) (not_or.2 ⟨not_not.2 absent,not_not.2 uncached⟩)

theorem KeyedTo.load (nonzero : key ≠ 0) {contacts : List (Int × EmberContact)} (respects : LoadRespects id key t contacts)
    (ids : List EmberNodeId) : KeyedTo id key (contacts.foldl loadTurn (t,ids)).1 := by
  induction contacts generalizing t ids with
  | nil => exact keyed
  | cons timed rest ih =>
    obtain ⟨holds,carries,later⟩ := respects
    exact ih (keyed.taken nonzero holds carries) later _

theorem KeyedTo.markAlive {addr : IpAddr × Nat}
    {noisePub : BitVec 256} (started : 0 < now) : KeyedTo id key (t.markAlive now nodeId addr noisePub) := by
  unfold RoutingTable.markAlive
  split
  case h_1 => exact keyed
  case h_2 i _ =>
    split
    case h_1 => exact keyed
    case h_2 held answered =>
      have seated := (Bucket.find_some (filter_eq_some_iff.1 answered).1).1
      intro d inside same
      have edited : d ∈ (t.editBucket i fun b =>
        { b with
          contacts := b.contacts.erase held++[{ held with lastSeen := now, failedQueries := 0 }]
          lastActivity := now }).heldContacts := inside
      obtain old | stayed | cached := held_of_edit edited
      · exact keyed d old same
      · obtain stayed | new := mem_append.1 stayed
        · exact keyed d (mem_heldContacts.2 ⟨i,.inl (mem_of_mem_erase stayed)⟩) same
        · cases mem_singleton.1 new
          exact ⟨decide_eq_true started,(keyed held (mem_heldContacts.2 ⟨i,.inl seated⟩) same).2⟩
      · exact keyed d (mem_heldContacts.2 ⟨i,.inr cached⟩) same

theorem KeyedTo.markFailed : KeyedTo id key (t.markFailed nodeId).1 := by
  unfold RoutingTable.markFailed
  split
  case h_1 => exact keyed
  case h_2 i _ =>
    split
    case h_1 => exact keyed
    case h_2 held found =>
      have seated := (Bucket.find_some found).1
      intro d inside same
      dsimp only at inside
      obtain old | stayed | cached := held_of_edit inside
      · exact keyed d old same
      · obtain new | stayed := mem_cons.1 ((replace_perm _ seated).mem_iff.1 stayed)
        · cases new
          exact keyed held (mem_heldContacts.2 ⟨i,.inl seated⟩) same
        · exact keyed d (mem_heldContacts.2 ⟨i,.inl (mem_of_mem_erase stayed)⟩) same
      · exact keyed d (mem_heldContacts.2 ⟨i,.inr cached⟩) same

theorem KeyedTo.clamp (started : 0 < now) : KeyedTo id key (t.clampFutureTimestamps now).1 := by
  intro d inside same
  obtain ⟨c,held,rfl⟩ : ∃ c ∈ t.heldContacts, pullBack now (clampI64 (now+clockStepSlackSecs)) c = d := by
    obtain ⟨i,here⟩ := mem_heldContacts.1 inside
    obtain seated | cached := here
    · obtain ⟨c,member,equal⟩ := List.mem_map.1 seated
      exact ⟨c,mem_heldContacts.2 ⟨i,.inl member⟩,equal⟩
    · obtain ⟨c,member,equal⟩ := List.mem_map.1 cached
      exact ⟨c,mem_heldContacts.2 ⟨i,.inr member⟩,equal⟩
  obtain ⟨ids,-,-,noise⟩ := pullBack_fields now (clampI64 (now+clockStepSlackSecs)) c
  obtain ⟨verified,equal⟩ := keyed c held (ids.symm.trans same)
  refine ⟨?_,noise.trans equal⟩
  unfold pullBack
  split
  · exact decide_eq_true started
  · exact verified

theorem KeyedTo.step (nonzero : key ≠ 0) (intact : Intact t) (holds : Holds t id)
    {op : RoutingOp} (respects : Respects id key t op) : KeyedTo id key (t.step op) := by
  cases op with
  | addContact now contact => exact keyed.taken nonzero holds respects
  | loadContacts contacts => exact keyed.load nonzero respects []
  | markAlive now nodeId addr noisePub => exact keyed.markAlive respects
  | markFailed nodeId => exact keyed.markFailed
  | evictAndReplace now deadId => exact keyed.rearranged (evictAndReplace_rearranged now intact le_rfl)
  | removeContact nodeId => exact keyed.rearranged (removeContact_rearranged intact)
  | removeStale now maxAgeSecs inUse =>
    exact (keyed.clamp respects).rearranged (removeStale_rearranged intact le_rfl)
  | clampFutureTimestamps now => exact keyed.clamp respects
  | setBlockPrivateIps now blockPrivate => exact keyed.rearranged (setBlockPrivateIps_rearranged now intact le_rfl)
  | promoteCachedContacts now =>
    exact keyed.rearranged (promoteCachedContacts_rearranged now intact le_rfl)
  | enforceScaleQuotas => exact fun c held same => keyed c ((enforce_held intact).subset held) same

end

def Undisturbed (id : EmberNodeId) (key : BitVec 256) : RoutingTable → List RoutingOp → Prop
  | _,[] => True
  | t,op :: rest => Holds t id ∧ Respects id key t op ∧ Undisturbed id key (t.step op) rest

theorem KeyedTo.run (nonzero : key ≠ 0) {ops : List RoutingOp} (keyed : KeyedTo id key t) (intact : Intact t)
    (undisturbed : Undisturbed id key t ops) : KeyedTo id key (t.run ops) := by
  induction ops generalizing t with
  | nil => exact keyed
  | cons op rest ih =>
    obtain ⟨holds,respects,later⟩ := undisturbed
    exact ih (keyed.step nonzero intact holds respects) (step_intact op intact).1 later

theorem getContact_held (found : t.getContact id = some contact) : contact ∈ t.heldContacts ∧ contact.nodeId = id := by
  simp only [getContact,bind_eq_bind,bind_eq_some_iff,or_eq_some_iff] at found
  obtain ⟨i,-,seated | ⟨-,cached⟩⟩ := found
  · obtain ⟨member,same⟩ := Bucket.find_some seated
    exact ⟨mem_heldContacts.2 ⟨i,.inl member⟩,same⟩
  · obtain ⟨member,same⟩ := Bucket.findInCache_some cached
    exact ⟨mem_heldContacts.2 ⟨i,.inr member⟩,same⟩

theorem Sound.held_once (sound : Sound scale t) {c : EmberContact} (held : c ∈ t.heldContacts) (other : d ∈ t.heldContacts)
    (same : c.nodeId = d.nodeId) : c = d := by
  obtain ⟨i,here⟩ := mem_heldContacts.1 held
  obtain ⟨j,there⟩ := mem_heldContacts.1 other
  have here := mem_append.2 here
  have there := mem_append.2 there
  have place {i : Fin idBits} {c : EmberContact} (inside : c ∈ (t.buckets i).contacts++(t.buckets i).replacementCache) :
      bucketIndex t.localId c.nodeId = some i := by
    refine (sound.bucket i).placed _ ?_
    rw [← map_append]
    exact List.mem_map_of_mem inside
  cases some.inj ((place here).symm.trans (same ▸ place there))
  have distinct := (sound.bucket i).distinct
  rw [← map_append] at distinct
  exact inj_on_of_nodup_map distinct here there same

theorem Sound.getContact_eq (sound : Sound scale t) (held : contact ∈ t.heldContacts) :
    t.getContact contact.nodeId = some contact := by
  obtain ⟨i,here⟩ := mem_heldContacts.1 held
  have placed : bucketIndex t.localId contact.nodeId = some i := by
    refine (sound.bucket i).placed _ ?_
    rw [← map_append]
    exact List.mem_map_of_mem (mem_append.2 here)
  have known : Holds t contact.nodeId := by
    rw [Holds,getContact,placed,bind_eq_bind,bind_some,isSome_or]
    obtain seated | cached := here
    · exact Bool.or_eq_true_iff.2 (.inl (find?_isSome.2 ⟨contact,seated,by simp⟩))
    · exact Bool.or_eq_true_iff.2 (.inr (find?_isSome.2 ⟨contact,cached,by simp⟩))
  obtain ⟨found,equal⟩ := isSome_iff_exists.1 known
  obtain ⟨held',same⟩ := getContact_held equal
  rw [equal,sound.held_once held' held same]

/-- While an id that answered under a key stays held, and only first-hand calls under that key seat
it past its cached copy, the table holds it under that key alone. -/
theorem key_stays (localId : EmberNodeId) (blockPrivateIps : Bool) (ops later : List RoutingOp) (entry : EmberContact)
    (found : ((new localId blockPrivateIps).run ops).getContact id = some entry) (verified : entry.isVerified = true)
    (nonzero : entry.noisePub ≠ 0)
    (undisturbed : Undisturbed id entry.noisePub ((new localId blockPrivateIps).run ops) later) :
    ∀ c ∈ (((new localId blockPrivateIps).run ops).run later).heldContacts, c.nodeId = id →
      c.isVerified = true ∧ c.noisePub = entry.noisePub := by
  have intact := reached_intact localId blockPrivateIps ops
  obtain ⟨held,same⟩ := getContact_held found
  have keyed : KeyedTo id entry.noisePub ((new localId blockPrivateIps).run ops) := by
    intro c inside equal
    rw [Sound.held_once intact inside held (equal.trans same.symm)]
    exact ⟨verified,rfl⟩
  exact KeyedTo.run nonzero keyed intact undisturbed

def blockPeer (j : Nat) : EmberContact where
  nodeId := BitVec.ofNat 128 (128+j)
  ip := .v4 (BitVec.ofNat 32 (0x08080801+j))
  port := 4672
  lastSeen := 1
  noisePub := 7

/-- Five peers fill their block's share of a bucket, a sixth waits, and the first leaves. -/
def slotOpened : List RoutingOp := (List.range 6).map (fun j => .addContact 1 (blockPeer j))++[.removeContact 128]

def impostor : EmberContact := { blockPeer 5 with noisePub := 13, lastSeen := 9 }

/-- The sixth peer takes the slot itself, from a saved list, before another session tries its id. -/
theorem key_stays_for_reloaded :
    let later := [.loadContacts [(9,{ blockPeer 5 with lastSeen := 9 })],.addContact 9 impostor]
    (((new 0 true).run slotOpened).run later).getContact 133 = some { blockPeer 5 with lastSeen := 9 } ∧
      ∀ c ∈ (((new 0 true).run slotOpened).run later).heldContacts, c.nodeId = 133 → c.isVerified = true ∧ c.noisePub = 7 := by
  have found : ((new 0 true).run slotOpened).getContact 133 = some (blockPeer 5) := by decide +kernel
  have holds : Holds ((new 0 true).run slotOpened) 133 := by decide +kernel
  refine ⟨by decide +kernel,key_stays 0 true slotOpened _ (blockPeer 5) found (by decide) (by decide)
    ⟨holds,⟨holds,fun _ _ => ⟨by decide,rfl⟩,trivial⟩,by decide +kernel,?_,trivial⟩⟩
  rintro - ⟨i,newcomer,-⟩
  generalize after : ((new 0 true).run slotOpened).step (.loadContacts [(9,{ blockPeer 5 with lastSeen := 9 })]) = t at newcomer
  have bucket : bucketIndex t.localId impostor.nodeId = some ⟨7,by decide⟩ := by
    rw [← after]
    decide +kernel
  have resident : ((t.buckets ⟨7,by decide⟩).find impostor.nodeId).isSome = true := by
    rw [← after]
    decide +kernel
  cases some.inj (bucket.symm.trans newcomer.placed)
  rw [newcomer.absent] at resident
  cases resident

/-- The slot the first peer left lets another session take over the cached id. -/
theorem key_replaced :
    let t := (new 0 true).run slotOpened
    t.getContact (blockPeer 5).nodeId = some (blockPeer 5) ∧
      (t.step (.addContact 9 impostor)).getContact (blockPeer 5).nodeId = some impostor ∧
      (blockPeer 5).isVerified = true ∧ (blockPeer 5).noisePub ≠ 0 ∧ impostor.noisePub ≠ (blockPeer 5).noisePub := by
  decide +kernel

def walksIn (t : RoutingTable) (contact : EmberContact) : Bool :=
  match bucketIndex t.localId contact.nodeId with
  | some i =>
    ((t.buckets i).find contact.nodeId).isNone && t.admitsAddr contact.addr && !(t.buckets i).isFull &&
      !t.overQuota i t.admissionScale contact
  | none => false

/-- The held entry of an id is verified and the observation it was before. -/
def StillObserved (t : RoutingTable) (entry : EmberContact) : Prop :=
  ∃ after, t.getContact entry.nodeId = some after ∧ after.isVerified = true ∧ after.addr = entry.addr ∧
    after.noisePub = entry.noisePub ∧ after.ed25519Pub = entry.ed25519Pub ∧ after.lastSeen = entry.lastSeen

theorem bucketIndex_self : bucketIndex id id = none := by
  rw [bucketIndex,BitVec.xor_self]
  decide

theorem walksIn_iff (placed : bucketIndex t.localId contact.nodeId = some i) :
    t.walksIn contact = true ↔ Newcomer t i contact ∧ (t.buckets i).isFull = false ∧
      t.overQuota i t.admissionScale contact = false := by
  simp only [walksIn,placed,Bool.and_eq_true,isNone_iff_eq_none,Bool.not_eq_true']
  constructor
  · rintro ⟨⟨⟨absent,admitted⟩,free⟩,under⟩
    exact ⟨⟨placed,absent,admitted⟩,free,under⟩
  · rintro ⟨newcomer,free,under⟩
    exact ⟨⟨⟨newcomer.absent,newcomer.admitted⟩,free⟩,under⟩

theorem StillObserved.same {entry : EmberContact} (found : t.getContact entry.nodeId = some entry)
    (verified : entry.isVerified = true) (localId : t'.localId = t.localId) (buckets : t'.buckets = t.buckets) :
    StillObserved t' entry := by
  refine ⟨entry,?_,verified,rfl,rfl,rfl,rfl⟩
  rw [getContact,localId,buckets]
  exact found

theorem addToCache_gossip (gossip : contact.lastSeen ≤ 0) (absent : (t.buckets i).find contact.nodeId = none)
    (cached : (t.buckets i).findInCache contact.nodeId = some existing) :
    (t.addToCache i contact tier).buckets = t.buckets := by
  have merged : mergeCached existing contact = existing := by rw [mergeCached,if_pos gossip]
  rw [addToCache,absent,cached]
  simp only [merged,replace_self]
  exact update_eq_self ..

/-- Gossip about an id that answered us leaves the observation exactly when the id is not waiting for a
slot the gossip can take. -/
theorem gossip_keeps_iff (localId : EmberNodeId) (blockPrivateIps : Bool) (ops : List RoutingOp) (now : Int)
    (contact entry : EmberContact)
    (found : ((new localId blockPrivateIps).run ops).getContact entry.nodeId = some entry)
    (verified : entry.isVerified = true) (same : contact.nodeId = entry.nodeId) (gossip : contact.lastSeen ≤ 0) :
    StillObserved (((new localId blockPrivateIps).run ops).addContact now contact).1 entry ↔
      ((new localId blockPrivateIps).run ops).walksIn contact = false := by
  have intact := reached_intact localId blockPrivateIps ops
  generalize (new localId blockPrivateIps).run ops = t at found intact ⊢
  have unproven : contact.isVerified = false := decide_eq_false (Int.not_lt.2 gossip)
  have taken := addContact_taken now t contact
  have after := (taken.sound intact).1
  generalize (t.addContact now contact).1 = t' at taken after ⊢
  have keeps buckets here : StillObserved t' entry :=
    .same found verified here buckets
  have out {i : Fin idBits} (placed : bucketIndex t.localId contact.nodeId = some i)
      (blocked : ¬(Newcomer t i contact ∧ (t.buckets i).isFull = false ∧ t.overQuota i t.admissionScale contact = false)) :
      t.walksIn contact = false := by
    rw [← Bool.not_eq_true,walksIn_iff placed]
    exact blocked
  cases taken with
  | outside ours =>
    have nowhere : bucketIndex t.localId contact.nodeId = none := ours.elim (fun us => us ▸ bucketIndex_self) id
    exact iff_of_true (keeps rfl rfl) (by rw [walksIn,nowhere])
  | kept i existing placed seated =>
    refine iff_of_true (keeps rfl rfl) (out placed fun walks => ?_)
    cases seated.symm.trans walks.1.absent
  | updated i existing rewrites => exact absurd gossip (Int.not_le.2 rewrites.heard)
  | barred i count placed absent blocked =>
    refine iff_of_true (keeps (refuse_frame t contact count).2.2 (refuse_frame t contact count).1) (out placed fun walks => ?_)
    cases blocked.symm.trans walks.1.admitted
  | seated i newcomer free under =>
    refine iff_of_false ?_ ?_
    · rintro ⟨held,now_held,proven,-⟩
      have seated : contact ∈ (takeSlot now t i contact).heldContacts :=
        mem_heldContacts.2 ⟨i,.inl (by rw [takeSlot_seats]; simp)⟩
      rw [← same,Sound.getContact_eq after seated] at now_held
      cases now_held
      rw [unproven] at proven
      cases proven
    · rw [Bool.not_eq_false,walksIn_iff newcomer.placed]
      exact ⟨newcomer,free,under⟩
  | displaced i evicted newcomer displaces =>
    cases unproven.symm.trans displaces.proven
  | parked i count newcomer refused =>
    obtain ⟨here,-,buckets⟩ := refuse_frame t contact count
    have cached : (t.buckets i).findInCache contact.nodeId = some entry := by
      rw [← same] at found
      rwa [getContact,newcomer.placed,bind_eq_bind,bind_some,newcomer.absent] at found
    have frame := (addToCache_cached (t.refuse contact count) i contact t.admissionScale).frame.1.trans here
    refine iff_of_true (keeps ?_ frame) (out newcomer.placed fun walks => ?_)
    · rw [addToCache_gossip gossip (buckets ▸ newcomer.absent) (buckets ▸ cached),buckets]
    obtain full | beyond := refused
    · cases full.symm.trans walks.2.1
    · cases beyond.symm.trans walks.2.2

theorem gossip_keeps_iff_resident :
    StillObserved (((new 0 true).run slotOpened).addContact 9 { blockPeer 1 with lastSeen := 0, noisePub := 13 }).1 (blockPeer 1) ↔
      ((new 0 true).run slotOpened).walksIn { blockPeer 1 with lastSeen := 0, noisePub := 13 } = false :=
  gossip_keeps_iff 0 true slotOpened 9 { blockPeer 1 with lastSeen := 0, noisePub := 13 } (blockPeer 1) (by decide +kernel)
    (by decide) rfl (by decide)

def rumour : EmberContact := { blockPeer 5 with ip := .v4 0x09090909#32, lastSeen := 0, noisePub := 13 }

/-- The slot the first peer left lets gossip replace what the cached peer had told us. -/
theorem observation_lost :
    let t := (new 0 true).run slotOpened
    t.getContact (blockPeer 5).nodeId = some (blockPeer 5) ∧ (blockPeer 5).isVerified = true ∧
      rumour.nodeId = (blockPeer 5).nodeId ∧ rumour.lastSeen ≤ 0 ∧
      (t.addContact 9 rumour).1.getContact (blockPeer 5).nodeId = some rumour ∧ rumour.isVerified = false := by
  decide +kernel

end Ember.Dht.RoutingTable
