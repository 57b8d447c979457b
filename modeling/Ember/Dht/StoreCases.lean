import Ember.Dht.StoreEviction

/-! What one `store_record` call can do: a body refused, a key no room is made for, or a record
placed in one of the ways `Placed` lists. -/
namespace Ember.Dht
open Bytes Table List Option

/-- Within its life at this reading, and not dated past the skew allowed. -/
@[mk_iff]
structure Admissible (m : Moment) (data : Bytes) (createdAt : Int) : Prop where
  notAhead : createdAt ≤ m.unix+skewToleranceSecs (recordTtl data)
  alive : m.unix-createdAt < recordTtl data

/-- A body of a size that packs and parses, signed for this key, author and time. -/
@[mk_iff]
structure Filed (key : Key) (publisherKey : PublisherKey) (createdAt : Int) (data : Bytes) : Prop where
  identity : signedIdentityFromRecordData data = some (key,publisherKey,createdAt)
  least : minStoreRecordBytes ≤ data.length
  most : data.length ≤ maxStoreRecordBytes

instance (m : Moment) (data : Bytes) (createdAt : Int) : Decidable (Admissible m data createdAt) :=
  decidable_of_iff _ (admissible_iff m data createdAt).symm

instance (key : Key) (p : PublisherKey) (createdAt : Int) (data : Bytes) : Decidable (Filed key p createdAt data) :=
  decidable_of_iff _ (filed_iff key p createdAt data).symm

theorem recordTtl_pos (data : Bytes) : 2700 ≤ recordTtl data ∧ recordTtl data ≤ 2592000 := by
  unfold recordTtl channelTtl
  simp only [sourceRecordTtl,channelPresenceDepartedTtl,channelPresenceTtl,channelIndexTtl,
    channelHandoffTtl,channelGovernanceTtl,keywordRecordTtl,feedListingTtl]
  split_ifs <;> omega

namespace DhtStore

theorem admitCreatedAt_memo (s : DhtStore) (createdAt ttl now : Int) : Memo s (s.admitCreatedAt createdAt ttl now).1 ∧
      (s.admitCreatedAt createdAt ttl now).1.evictions = s.evictions := by
  unfold admitCreatedAt
  split
  · exact ⟨rfl,rfl⟩
  · dsimp only
    split <;> exact ⟨rfl,rfl⟩

theorem admitCreatedAt_iff (m : Moment) (s : DhtStore) (data : Bytes) (createdAt : Int)
    (range : -2^63 ≤ createdAt ∧ createdAt < 2^63) :
    (s.admitCreatedAt createdAt (recordTtl data) m.unix).2 = true ↔ Admissible m data createdAt := by
  have ttl := recordTtl_pos data
  obtain ⟨low,high⟩ := range
  have age : recordTtl data ≤ max (clampI64 (m.unix-createdAt)) 0 ↔ recordTtl data ≤ m.unix-createdAt := by
    unfold clampI64
    omega
  unfold admitCreatedAt
  split
  · rename_i ahead
    exact ⟨fun absurd => by simp at absurd,fun fresh => absurd fresh.notAhead (not_le.2 ahead)⟩
  rename_i near
  dsimp only
  split
  · rename_i old
    exact ⟨fun absurd => by simp at absurd,fun fresh => absurd fresh.alive (not_lt.2 (age.1 old))⟩
  · rename_i young
    exact ⟨fun _ => ⟨not_lt.1 near,not_le.1 (fun old => young (age.2 old))⟩,fun _ => rfl⟩

theorem signedIdentity_range {data : Bytes} {key : Key} {p : PublisherKey} {createdAt : Int}
    (identity : signedIdentityFromRecordData data = some (key,p,createdAt)) : -2^63 ≤ createdAt ∧ createdAt < 2^63 := by
  unfold signedIdentityFromRecordData at identity
  split at identity
  · cases identity
  split at identity
  · cases identity
  simp only [some.injEq,Prod.mk.injEq] at identity
  rw [← identity.2.2]
  exact i64_bounds _

section Body
variable (env : Env) (m : Moment) (s : DhtStore) (key : Key) (data : Bytes) (signature : Signature)
  (signatureChecked : Bool)

theorem checkBody_memo : Memo s (s.checkBody env m key data signature signatureChecked).1 ∧
    (s.checkBody env m key data signature signatureChecked).1.evictions = s.evictions := by
  unfold checkBody
  split
  · exact ⟨rfl,rfl⟩
  split
  · exact ⟨rfl,rfl⟩
  split
  · exact ⟨rfl,rfl⟩
  rename_i p createdAt identity
  have admitted := admitCreatedAt_memo s createdAt (recordTtl data) m.unix
  split
  · exact ⟨rfl,rfl⟩
  dsimp only
  split
  · exact admitted
  split
  · exact admitted
  · exact admitted

theorem checkBody_iff (p : PublisherKey) (createdAt : Int) :
    (s.checkBody env m key data signature signatureChecked).2 = some (p,createdAt) ↔
      Filed key p createdAt data ∧ Admissible m data createdAt ∧
        (signatureChecked || verifyRecordSignature env data signature p) := by
  constructor
  · intro accepted
    unfold checkBody at accepted
    split at accepted
    · cases accepted
    rename_i fits
    split at accepted
    · cases accepted
    rename_i enough
    split at accepted
    · cases accepted
    rename_i signedKey _ _ identity
    split at accepted
    · cases accepted
    rename_i keyed
    dsimp only at accepted
    split at accepted
    · cases accepted
    rename_i admitted
    split at accepted
    · cases accepted
    cases accepted
    obtain rfl := not_not.1 keyed
    have range := signedIdentity_range identity
    exact ⟨⟨identity,not_lt.1 enough,not_lt.1 fits⟩,(admitCreatedAt_iff m s data createdAt range).1 (by simpa using admitted),
      by cases signatureChecked <;> simp_all⟩
  · rintro ⟨⟨identity,least,most⟩,fresh,signed⟩
    have range := signedIdentity_range identity
    have admitted := (admitCreatedAt_iff m s data createdAt range).2 fresh
    rw [checkBody,if_neg (not_lt.2 most),if_neg (not_lt.2 least)]
    cases signatureChecked <;> simp_all

end Body
structure Room (m : Moment) (s : DhtStore) (key : Key) (t : DhtStore) (ok : Bool) : Prop where
  evicted : Evicted (Lapsed m) s t
  refused : ok = false → t.evictions = s.evictions
  old : key ∈ s.entries → ok = true ∧ Memo s t ∧ t.evictions = s.evictions
  room : ok = true → key ∉ s.entries → s.keyCount ≤ s.keyBudget → t.keyCount < s.keyBudget
  free : s.keyCount < s.keyBudget → ok = true
variable (m : Moment) (s : DhtStore) (key : Key) (record : DhtRecord)

theorem admitKey_room (p : PublisherKey) : Room m s key (s.admitKey m key p).1 (s.admitKey m key p).2 := by
  unfold admitKey
  split
  · rename_i member
    exact ⟨⟨.refl,.inl ⟨rfl,.refl⟩,id⟩,by simp,fun _ => ⟨rfl,rfl,rfl⟩,fun _ absent => absurd member absent,
      fun _ => rfl⟩
  rename_i absent
  obtain ⟨evicted,refused,fewer⟩ := makeRoomForKey_evicted m s key p
  have spare : s.keyCount < s.keyBudget → (s.makeRoomForKey m key p).2 = true := by
    intro free
    rw [makeRoomForKey,if_pos free]
  dsimp only
  generalize s.makeRoomForKey m key p = room at evicted refused fewer spare
  have logged : ∀ t, Memo room.1 t → t.evictions = room.1.evictions → Evicted (Lapsed m) s t := by
    intro t same unlogged
    refine ⟨evicted.sheds.memo same,?_,fun filled => (evicted.filled filled).memo same⟩
    rw [unlogged]
    exact evicted.logged.imp (fun quiet => ⟨quiet.1,quiet.2.memo same⟩) id
  split
  · rename_i denied
    exact ⟨logged _ rfl rfl,fun _ => refused (by simpa using denied),fun member => absurd member absent,by simp,
      fun free => by simp [spare free] at denied⟩
  rename_i made
  exact ⟨logged _ rfl rfl,by simp,fun member => absurd member absent,
    fun _ _ within => fewer (by simpa using made) within,fun _ => rfl⟩

theorem Room.of_memo {m : Moment} {s c t : DhtStore} {key : Key} {ok : Bool} (same : Memo s c)
    (unlogged : c.evictions = s.evictions) (room : Room m c key t ok) : Room m s key t ok := by
  have first : ∀ may, Sheds may s c := fun may => Sheds.refl.memo same
  have budget : c.keyBudget = s.keyBudget := congrArg Settings.keyBudget same.settings
  have count : c.keyCount = s.keyCount := by rw [keyCount,same.entries,keyCount]
  refine ⟨⟨(first _).trans room.evicted.sheds,?_,fun filled => room.evicted.filled (filled.memo same)⟩,
    fun no => (room.refused no).trans unlogged,?_,?_,fun free => room.free (by omega)⟩
  · rw [← unlogged]
    exact room.evicted.logged.imp (fun quiet => ⟨quiet.1,(first _).trans quiet.2⟩) id
  · intro member
    obtain ⟨accepted,kept,quiet⟩ := room.old (same.entries ▸ member)
    exact ⟨accepted,Eq.trans kept same,quiet.trans unlogged⟩
  · intro accepted absent within
    rw [← budget]
    exact room.room accepted (same.entries ▸ absent) (by omega)

structure Resident (s : DhtStore) (key : Key) (record : DhtRecord) (before : List DhtRecord)
    (resident : DhtRecord) (after : List DhtRecord) : Prop where
  records : s.records key = before++resident :: after
  slot : resident.slot = record.slot

def stamp (m : Moment) (record : DhtRecord) : DhtRecord :=
  { record with lastRepublished := m.instant, republishDue := false }

def Capped (scale : NetworkScale) (record : DhtRecord) (live : List DhtRecord) : Prop :=
  ((sourceIpClass record).any (sourceIpFull scale · live)) = true ∨
    publisherCap record.data ≤ live.countP (·.publisherKey == record.publisherKey)

instance (scale : NetworkScale) (record : DhtRecord) (live : List DhtRecord) : Decidable (Capped scale record live) :=
  inferInstanceAs (Decidable (_ ∨ _))

inductive Placed (m : Moment) (s : DhtStore) (key : Key) (record : DhtRecord) : DhtStore → Bool → Prop where
  | older {before after : List DhtRecord} {resident : DhtRecord} :
      Resident s key record before resident after →
      residentGivesWay resident record.data record.createdAt record.signature = false →
      Placed m s key record (s.reject .timestamp) false
  | stamped {before after : List DhtRecord} {resident : DhtRecord} :
      Resident s key record before resident after →
      residentGivesWay resident record.data record.createdAt record.signature = true →
      emberDigestFromRecordData resident.data ≠ 0 → emberDigestFromRecordData record.data = 0 →
      Placed m s key record (s.setEntries (s.entries.insert key (before++stamp m resident :: after))) true
  | addressMoved {before after : List DhtRecord} {resident : DhtRecord} :
      Resident s key record before resident after →
      residentGivesWay resident record.data record.createdAt record.signature = true →
      ((sourceIpClass record).any fun ipClass => sourceIpClass resident != some ipClass &&
        sourceIpFull s.scale ipClass ((before++after).filter (DhtRecord.liveAt m.unix))) = true →
      Placed m s key record (s.reject .sourceIpCap) false
  | replaced {before after : List DhtRecord} {resident : DhtRecord} :
      Resident s key record before resident after →
      residentGivesWay resident record.data record.createdAt record.signature = true →
      Placed m s key record
        ((s.substitute key record resident (before++record :: after)).enforceByteBudget m key) true
  | capped (why : Rejection) : (∀ r ∈ s.records key, r.slot ≠ record.slot) →
      (s.records key).filter (DhtRecord.liveAt m.unix) ≠ [] →
      Capped s.scale record ((s.records key).filter (DhtRecord.liveAt m.unix)) →
      Placed m s key record ((s.reclaim m key (s.records key)).reject why) false
  | full {live : List DhtRecord} {cleared : DhtStore × List DhtRecord} :
      (∀ r ∈ s.records key, r.slot ≠ record.slot) →
      live = (s.records key).filter (DhtRecord.liveAt m.unix) →
      cleared = (s.reclaim m key (s.records key)).dropStalest key record live →
      maxRecordsPerKey ≤ cleared.2.length → Placed m s key record (cleared.1.reject .perKeyCap) false
  | pushed {live : List DhtRecord} {cleared : DhtStore × List DhtRecord} :
      (∀ r ∈ s.records key, r.slot ≠ record.slot) →
      live = (s.records key).filter (DhtRecord.liveAt m.unix) →
      cleared = (s.reclaim m key (s.records key)).dropStalest key record live →
      live.countP (·.publisherKey == record.publisherKey) < publisherCap record.data →
      cleared.2.length < maxRecordsPerKey →
      Placed m s key record ((cleared.1.push key cleared.2 record
        (live.countP (·.publisherKey == record.publisherKey) == 0)).enforceByteBudget m key) true

theorem sameSlot_iff {record resident : DhtRecord} : sameSlot record resident = true ↔ resident.slot = record.slot := by
  simp [sameSlot,DhtRecord.slot]

private theorem replaceResident_placed (before : List DhtRecord) (resident : DhtRecord) (after : List DhtRecord)
    (here : Resident s key record before resident after) :
    Placed m s key record (s.replaceResident m key record before resident after).1
      (s.replaceResident m key record before resident after).2 := by
  unfold replaceResident
  split
  · rename_i stays
    exact .older here (by simpa using stays)
  rename_i yields
  have gives : residentGivesWay resident record.data record.createdAt record.signature = true := by
    simpa using yields
  split
  · rename_i richer
    exact .stamped here gives richer.1 richer.2.1
  split
  · rename_i full
    exact .addressMoved here gives full
  · exact .replaced here gives

private theorem insertRecord_placed (fresh : ∀ r ∈ s.records key, r.slot ≠ record.slot) :
    Placed m s key record (s.insertRecord m key record (s.records key)).1
      (s.insertRecord m key record (s.records key)).2 := by
  have scaleCap : ∀ (scale : NetworkScale) ipClass, 0 < sourceIpCap scale ipClass := by
    intro scale ipClass
    unfold sourceIpCap NetworkScale.maxSourcesPerIp relayedSourcesPerIpFactor
    cases scale <;> split <;> simp
  unfold insertRecord
  dsimp only
  split
  · rename_i full
    refine .capped _ fresh ?_ (.inl full)
    intro none
    cases known : sourceIpClass record with
    | none => simp [known] at full
    | some ipClass =>
      have positive := scaleCap (s.reclaim m key (s.records key)).scale ipClass
      simp [known,none,sourceIpFull] at full
      omega
  split
  · rename_i full
    refine .capped _ fresh ?_ (.inr full)
    intro none
    rw [none] at full
    have positive : 0 < publisherCap record.data := by
      unfold publisherCap
      split <;> decide
    simp at full
    omega
  rename_i mine
  split
  · rename_i full
    exact .full fresh rfl rfl full
  · rename_i room
    exact .pushed fresh rfl rfl (not_le.1 mine) (not_le.1 room)

theorem placeRecord_placed : Placed m s key record (s.placeRecord m key record).1 (s.placeRecord m key record).2 := by
  unfold placeRecord
  dsimp only
  have whole := takeWhile_append_dropWhile (p := fun r => !sameSlot record r) (l := s.records key)
  split
  · rename_i resident after split
    have found := head_dropWhile_not (fun r => !sameSlot record r) (l := s.records key) (by simp [split])
    have slot : resident.slot = record.slot := by
      simp only [split,Bool.not_eq_false'] at found
      exact sameSlot_iff.1 found
    exact replaceResident_placed m s key record _ resident after ⟨split ▸ whole.symm,slot⟩
  · rename_i none
    refine insertRecord_placed m s key record ?_
    intro r member same
    have kept := dropWhile_eq_nil_iff.1 none r member
    rw [sameSlot_iff.2 same] at kept
    cases kept

theorem storeRecord_cases (env : Env) (m : Moment) (s : DhtStore) (key : Key) (data : Bytes)
    (signature : Signature) (ip : Option Ipv4Addr) (checked : Bool) (r : DhtStore × Bool)
    (result : r = s.storeRecord env m key data signature ip checked) :
    (r.2 = false ∧ Memo s r.1 ∧ r.1.evictions = s.evictions ∧
      ∀ p createdAt, Filed key p createdAt data → Admissible m data createdAt →
        (checked || verifyRecordSignature env data signature p) → s.headRefused key data p = true) ∨
      ∃ p createdAt t ok, Filed key p createdAt data ∧ Admissible m data createdAt ∧
        (checked || verifyRecordSignature env data signature p) ∧ s.headRefused key data p = false ∧
        Room m s key t ok ∧ (ok = false ∧ r = (t,false) ∨ ok = true ∧
          Placed m t key (newRecord m data signature p createdAt ip) r.1 r.2) := by
  subst result
  obtain ⟨same,unlogged⟩ := checkBody_memo env m s key data signature checked
  have accepted := checkBody_iff env m s key data signature checked
  unfold storeRecord
  cases body : s.checkBody env m key data signature checked with
  | mk c found =>
    rw [body] at same unlogged accepted
    cases found with
    | none =>
      refine .inl ⟨rfl,same,unlogged,fun p createdAt filed fresh signed => ?_⟩
      cases (accepted p createdAt).2 ⟨filed,fresh,signed⟩
    | some identity =>
      obtain ⟨p,createdAt⟩ := identity
      obtain ⟨filed,fresh,signed⟩ := (accepted p createdAt).1 rfl
      have head : c.headRefused key data p = s.headRefused key data p :=
        same.field (fun store => store.headRefused key data p) (fun _ => rfl)
      dsimp only
      split
      · rename_i denied
        refine .inl ⟨rfl,same,unlogged,fun author signedAt filed' _ _ => ?_⟩
        have named := filed.identity.symm.trans filed'.identity
        rw [some.injEq,Prod.mk.injEq,Prod.mk.injEq] at named
        rw [← named.2.1,← head,denied]
      rename_i allowed
      have room := (admitKey_room m c key p).of_memo same unlogged
      generalize c.admitKey m key p = admitted at room
      refine .inr ⟨p,createdAt,admitted.1,admitted.2,filed,fresh,signed,head ▸ (by simpa using allowed),room,?_⟩
      cases ok : admitted.2 with
      | false => exact .inl ⟨rfl,by simp⟩
      | true => exact .inr ⟨rfl,placeRecord_placed m admitted.1 key _⟩

end DhtStore
end Ember.Dht
