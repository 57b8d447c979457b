import Ember.Dht.StoreInvariant

/-! The records under one key. `Shelving` is what placing a record does to its own key's list; the
per-key caps and the deduplication on (publisher, file hash) follow. -/
namespace Ember.Dht
open Bytes Table List Option Prod

inductive Cleared (record : DhtRecord) (live : List DhtRecord) : List DhtRecord → Prop where
  | kept : Cleared record live live
  | dropped (stalest : DhtRecord) : stalest ∈ live → isFeedListing stalest.data →
      stalest.expiresAtUnix < record.expiresAtUnix → maxRecordsPerKey ≤ live.length →
      Cleared record live (live.erase stalest)

inductive Shelving (m : Moment) (record : DhtRecord) : List DhtRecord → List DhtRecord → Bool → Prop where
  | older (before after : List DhtRecord) (resident : DhtRecord) : resident.slot = record.slot →
      residentGivesWay resident record.data record.createdAt record.signature = false →
      Shelving m record (before++resident :: after) (before++resident :: after) false
  | addressMoved (before after : List DhtRecord) (resident : DhtRecord) : resident.slot = record.slot →
      (sourceIpClass record).isSome →
      Shelving m record (before++resident :: after) (before++resident :: after) false
  | stamped (before after : List DhtRecord) (resident : DhtRecord) : resident.slot = record.slot →
      residentGivesWay resident record.data record.createdAt record.signature = true →
      emberDigestFromRecordData resident.data ≠ 0 → emberDigestFromRecordData record.data = 0 →
      Shelving m record (before++resident :: after) (before++DhtStore.stamp m resident :: after) true
  | replaced (before after : List DhtRecord) (resident : DhtRecord) : resident.slot = record.slot →
      residentGivesWay resident record.data record.createdAt record.signature = true →
      Shelving m record (before++resident :: after) (before++record :: after) true
  | capped (records : List DhtRecord) : (∀ r ∈ records, r.slot ≠ record.slot) →
      records.filter (DhtRecord.liveAt m.unix) ≠ [] →
      Shelving m record records (records.filter (DhtRecord.liveAt m.unix)) false
  | full (records left : List DhtRecord) : (∀ r ∈ records, r.slot ≠ record.slot) →
      Cleared record (records.filter (DhtRecord.liveAt m.unix)) left → maxRecordsPerKey ≤ left.length →
      Shelving m record records left false
  | pushed (records left : List DhtRecord) : (∀ r ∈ records, r.slot ≠ record.slot) →
      Cleared record (records.filter (DhtRecord.liveAt m.unix)) left → left.length < maxRecordsPerKey →
      (records.filter (DhtRecord.liveAt m.unix)).countP (·.publisherKey == record.publisherKey) <
        publisherCap record.data →
      Shelving m record records (left++[record]) true

variable {record : DhtRecord}

theorem Cleared.sublist {live left : List DhtRecord} (cleared : Cleared record live left) : left.Sublist live := by
  cases cleared with
  | kept => exact .refl _
  | dropped stalest => exact erase_sublist

theorem Shelving.mem {m : Moment} {l l' : List DhtRecord} {ok : Bool}
    (shelving : Shelving m record l l' ok) (r : DhtRecord) (member : r ∈ l') :
    r = record ∨ ∃ old ∈ l, old.bare = r.bare := by
  have kept : ∀ {l : List DhtRecord}, r ∈ l → r = record ∨ ∃ old ∈ l, old.bare = r.bare :=
    fun inside => .inr ⟨r,inside,rfl⟩
  cases shelving with
  | older | addressMoved => exact kept member
  | stamped before after resident =>
    exact .inr ((SameBodies.replace before after resident (DhtStore.stamp m resident) rfl).mem r member)
  | replaced before after resident =>
    rcases mem_append.1 member with early | late
    · exact kept (mem_append_left _ early)
    rcases mem_cons.1 late with same | later
    · exact .inl same
    · exact kept (mem_append_right _ (mem_cons_of_mem _ later))
  | capped => exact kept (mem_filter.1 member).1
  | full _ _ _ cleared => exact kept (filter_sublist.subset (cleared.sublist.subset member))
  | pushed _ left _ cleared =>
    rcases mem_append.1 member with old | new
    · exact kept (filter_sublist.subset (cleared.sublist.subset old))
    · exact .inl (mem_singleton.1 new)

namespace DhtStore
variable (m : Moment) (s : DhtStore) (key : Key) (records : List DhtRecord) (record : DhtRecord) (live : List DhtRecord)
variable {l : List DhtRecord}

theorem records_insert {k : Key} : (s.setEntries (s.entries.insert k l)).records k = l := by simp [records]

theorem records_insert_ne {k k' : Key} (other : k' ≠ k) :
    (s.setEntries (s.entries.insert k l)).records k' = s.records k' := by
  simp [records,held_insert_ne _ _ _ other]

def ThinsElsewhere (key : Key) (s t : DhtStore) : Prop :=
  ∀ k ≠ key, (t.records k).Sublist (s.records k)

theorem stalestListing_mem (stalest : DhtRecord)
    (found : stalestListing record live = some stalest) : stalest ∈ live ∧ isFeedListing stalest.data ∧
      stalest.expiresAtUnix < record.expiresAtUnix ∧ maxRecordsPerKey ≤ live.length := by
  unfold stalestListing at found
  split at found
  · rename_i full
    simp only [Bool.and_eq_true,decide_eq_true_eq] at full
    have member := mem_filter.1 (argmin_mem found)
    simp only [Bool.and_eq_true,decide_eq_true_eq] at member
    exact ⟨member.1,member.2.1,member.2.2,full.1⟩
  · cases found

theorem dropStalest_cleared (here : s.records key = live) : Cleared record live (s.dropStalest key record live).2 ∧
      (s.dropStalest key record live).1.records key = (s.dropStalest key record live).2 ∧
      ∀ k ≠ key, (s.dropStalest key record live).1.records k = s.records k := by
  unfold dropStalest
  split
  · exact ⟨.kept,here,fun _ _ => rfl⟩
  rename_i stalest found
  obtain ⟨member,listing,staler,full⟩ := stalestListing_mem record live stalest found
  refine ⟨.dropped stalest member listing staler full,?_,fun k other => ?_⟩
  · exact records_insert s
  · exact records_insert_ne s other

theorem dropStalest_lookup (key k : Key) (record : DhtRecord) (live : List DhtRecord)
    (other : k ≠ key) : (s.dropStalest key record live).1.entries.lookup k = s.entries.lookup k := by
  unfold dropStalest
  split
  · rfl
  · exact AList.lookup_insert_ne other

theorem dropStalest_full {p : DhtRecord → Bool} (living : live = records.filter p) (size : records.length ≤ maxRecordsPerKey)
    (full : maxRecordsPerKey ≤ (s.dropStalest key record live).2.length) : s.dropStalest key record live = (s,live) := by
  unfold dropStalest at full ⊢
  split
  · rfl
  rename_i stalest found
  obtain ⟨member,_,_,_⟩ := stalestListing_mem record live stalest found
  have shorter := length_erase_of_mem member
  have positive := length_pos_of_mem member
  have short : live.length ≤ records.length := living ▸ length_filter_le ..
  simp only [found] at full
  omega

theorem reclaim_records : (s.reclaim m key records).records key = records.filter (DhtRecord.liveAt m.unix) ∧
      ∀ k ≠ key, (s.reclaim m key records).records k = s.records k :=
  ⟨records_insert s,fun _ other => records_insert_ne s other⟩

@[simp] theorem logEviction_settings {eviction : Eviction} : (s.logEviction eviction).settings = s.settings := rfl

@[simp] theorem reject_settings {why : Rejection} : (s.reject why).settings = s.settings := rfl

@[simp] theorem reclaim_settings : (s.reclaim m key records).settings = s.settings := by
  simp [reclaim]

@[simp] theorem dropStalest_settings : (s.dropStalest key record live).1.settings = s.settings := by
  unfold dropStalest
  split
  · rfl
  · dsimp only
    simp

@[simp] theorem push_settings {first : Bool} : (s.push key records record first).settings = s.settings := rfl

@[simp] theorem substitute_settings {record resident : DhtRecord}
    {records : List DhtRecord} : (s.substitute key record resident records).settings = s.settings := by
  simp [settings,substitute]

section
variable {m : Moment} {s t : DhtStore} {key : Key} {record : DhtRecord} {ok : Bool} (placed : Placed m s key record t ok)
include placed

theorem Placed.settings : t.settings = s.settings := by
  cases placed with
  | older | addressMoved | stamped => rfl
  | replaced =>
    simp [(enforceByteBudget_budgeted m _ key).sheds.settings]
  | capped => simp
  | full _ _ clearing => simp [clearing]
  | pushed _ _ clearing =>
    rw [(enforceByteBudget_budgeted m _ key).sheds.settings,push_settings,clearing,dropStalest_settings,
      reclaim_settings]

theorem Placed.shelving : Shelving m record (s.records key) (t.records key) ok ∧ ThinsElsewhere key s t := by
  cases placed with
  | @older before after resident here stays =>
    refine ⟨?_,fun k _ => .refl _⟩
    have shelved := Shelving.older (m := m) before after resident here.slot stays
    rwa [← here.records] at shelved
  | @addressMoved before after resident here _ moved =>
    refine ⟨?_,fun k _ => .refl _⟩
    have known : (sourceIpClass record).isSome := by
      obtain ⟨ipClass,found,_⟩ := (any_eq_true _ _).1 moved
      exact isSome_of_eq_some found
    have shelved := Shelving.addressMoved (m := m) before after resident here.slot known
    rwa [← here.records] at shelved
  | stamped here gives rich bare =>
    refine ⟨?_,fun k other => by rw [records_insert_ne s other]⟩
    rw [records_insert,here.records]
    exact .stamped _ _ _ here.slot gives rich bare
  | @replaced before after resident here gives =>
    obtain ⟨sheds,_,_,_⟩ := enforceByteBudget_budgeted m
      (s.substitute key record resident (before++record :: after)) key
    have kept := sheds.spares (fun _ absurd => absurd rfl)
    refine ⟨?_,fun k other => ?_⟩
    · rw [kept,here.records]
      have written : (s.substitute key record resident (before++record :: after)).records key =
          before++record :: after := held_insert ..
      rw [written]
      exact .replaced _ _ _ here.slot gives
    have same : (s.substitute key record resident (before++record :: after)).records k = s.records k :=
      held_insert_ne _ _ _ other
    exact same ▸ sheds.sublist k
  | capped why fresh alive =>
    obtain ⟨here,elsewhere⟩ := reclaim_records m s key (s.records key)
    refine ⟨?_,fun k other => ?_⟩
    · have kept : ((s.reclaim m key (s.records key)).reject why).records key =
          (s.records key).filter (DhtRecord.liveAt m.unix) := here
      rw [kept]
      exact .capped _ fresh alive
    · have kept : ((s.reclaim m key (s.records key)).reject why).records k = s.records k := elsewhere k other
      rw [kept]
  | @full live cleared fresh living clearing full =>
    obtain ⟨here,elsewhere⟩ := reclaim_records m s key (s.records key)
    obtain ⟨clears,left,others⟩ := dropStalest_cleared (s.reclaim m key (s.records key)) key record live
      (living ▸ here)
    rw [← clearing] at clears left others
    refine ⟨?_,fun k other => ?_⟩
    · have kept : (cleared.1.reject .perKeyCap).records key = cleared.2 := left
      rw [kept]
      exact .full _ _ fresh (living ▸ clears) full
    · have kept : (cleared.1.reject .perKeyCap).records k = s.records k := (others k other).trans (elsewhere k other)
      rw [kept]
  | @pushed live cleared fresh living clearing mine room =>
    obtain ⟨here,elsewhere⟩ := reclaim_records m s key (s.records key)
    obtain ⟨clears,_,others⟩ := dropStalest_cleared (s.reclaim m key (s.records key)) key record live
      (living ▸ here)
    rw [← clearing] at clears others
    generalize (live.countP (·.publisherKey == record.publisherKey) == 0) = first
    obtain ⟨sheds,_,_,_⟩ := enforceByteBudget_budgeted m (cleared.1.push key cleared.2 record first) key
    have kept := sheds.spares (fun _ absurd => absurd rfl)
    refine ⟨?_,fun k other => ?_⟩
    · have written : (cleared.1.push key cleared.2 record first).records key = cleared.2++[record] := held_insert ..
      rw [kept,written]
      exact .pushed _ _ fresh (living ▸ clears) room (living ▸ mine)
    have same : (cleared.1.push key cleared.2 record first).records k = s.records k := by
      rw [← elsewhere k other,← others k other]
      exact held_insert_ne _ _ _ other
    exact same ▸ sheds.sublist k

end

end DhtStore

structure Shelf (key : Key) (records : List DhtRecord) : Prop where
  size : records.length ≤ maxRecordsPerKey
  slots : (records.map DhtRecord.slot).Nodup
  share : ∀ p, records.countP (·.publisherKey == p) ≤ maxRecordsPerPublisherPerKey
  filed : ∀ r ∈ records, Filed key r.publisherKey r.createdAt r.data

namespace Shelf
variable {key : Key} {records left : List DhtRecord} {record : DhtRecord}

theorem nil (key : Key) : Shelf key [] := ⟨by simp,by simp,by simp,by simp⟩

theorem sublist (shelf : Shelf key records) (thinner : left.Sublist records) : Shelf key left :=
  ⟨thinner.length_le.trans shelf.size,shelf.slots.sublist (thinner.map _),
    fun p => thinner.countP_le.trans (shelf.share p),fun r member => shelf.filed r (thinner.subset member)⟩

theorem sameBodies (shelf : Shelf key records) (same : SameBodies records left) : Shelf key left := by
  have slots := same.map DhtRecord.slot (fun _ => rfl)
  have owners := same.map DhtRecord.publisherKey (fun _ => rfl)
  have contents := same.map (fun r => (r.publisherKey,r.createdAt,r.data)) (fun _ => rfl)
  have length : left.length = records.length := by simpa using congrArg List.length slots
  refine ⟨length ▸ shelf.size,slots ▸ shelf.slots,fun p => ?_,fun r member => ?_⟩
  · have counted : ∀ l : List DhtRecord, l.countP (·.publisherKey == p) =
        (l.map DhtRecord.publisherKey).countP (· == p) := fun l => by simp [Function.comp_def]
    rw [counted,owners,← counted]
    exact shelf.share p
  have inside := mem_map_of_mem (f := fun r => (r.publisherKey,r.createdAt,r.data)) member
  rw [contents] at inside
  obtain ⟨old,oldMember,equal⟩ := mem_map.1 inside
  simp only [mk.injEq] at equal
  rw [← equal.1,← equal.2.1,← equal.2.2]
  exact shelf.filed old oldMember

theorem swap {before after : List DhtRecord} {resident : DhtRecord}
    (shelf : Shelf key (before++resident :: after)) (slot : resident.slot = record.slot)
    (filed : Filed key record.publisherKey record.createdAt record.data) : Shelf key (before++record :: after) := by
  have owner : resident.publisherKey = record.publisherKey := congrArg fst slot
  refine ⟨by simpa using shelf.size,by simpa [slot] using shelf.slots,fun p => ?_,fun r member => ?_⟩
  · simpa [countP_cons,owner] using shelf.share p
  rcases mem_append.1 member with early | late
  · exact shelf.filed r (mem_append_left _ early)
  rcases mem_cons.1 late with rfl | later
  · exact filed
  · exact shelf.filed r (mem_append_right _ (mem_cons_of_mem _ later))

theorem push (shelf : Shelf key left) (room : left.length < maxRecordsPerKey) (fresh : ∀ r ∈ left, r.slot ≠ record.slot)
    (share : left.countP (·.publisherKey == record.publisherKey) < maxRecordsPerPublisherPerKey)
    (filed : Filed key record.publisherKey record.createdAt record.data) : Shelf key (left++[record]) := by
  refine ⟨by simp; omega,?_,fun p => ?_,fun r member => ?_⟩
  · rw [map_append,nodup_append]
    refine ⟨shelf.slots,nodup_singleton _,?_⟩
    intro slot old slot' new
    obtain ⟨r,member,rfl⟩ := mem_map.1 old
    rw [mem_singleton.1 new]
    exact fresh r member
  · rw [countP_append,countP_singleton]
    have bound := shelf.share p
    split
    · rename_i mine
      rw [beq_iff_eq] at mine
      subst mine
      exact share
    · exact bound
  · rcases mem_append.1 member with old | new
    · exact shelf.filed r old
    · rw [mem_singleton.1 new]
      exact filed

theorem shelving {m : Moment} {ok : Bool} (shelf : Shelf key records)
    (filed : Filed key record.publisherKey record.createdAt record.data)
    (placed : Shelving m record records left ok) : Shelf key left := by
  cases placed with
  | older | addressMoved => exact shelf
  | stamped before after resident => exact shelf.sameBodies (SameBodies.replace before after resident _ rfl)
  | replaced before after resident slot => exact shelf.swap slot filed
  | capped => exact shelf.sublist filter_sublist
  | full _ _ fresh cleared => exact shelf.sublist (cleared.sublist.trans filter_sublist)
  | pushed _ left fresh cleared room mine =>
    have thinner := cleared.sublist.trans filter_sublist
    refine (shelf.sublist thinner).push room (fun r member => fresh r (thinner.subset member)) ?_ filed
    have allowance : publisherCap record.data ≤ maxRecordsPerPublisherPerKey := by
      unfold publisherCap
      split <;> decide
    have fewer := cleared.sublist.countP_le (p := (·.publisherKey == record.publisherKey))
    omega

end Shelf

namespace DhtStore

def Shelved (s : DhtStore) : Prop := ∀ k, Shelf k (s.records k)

variable {t s : DhtStore}

theorem Shelved.sheds {may : Key → DhtRecord → Prop} (shelved : Shelved s) (sheds : Sheds may s t) : Shelved t :=
  fun k => (shelved k).sublist (sheds.sublist k)

theorem Shelved.placed {m : Moment} {key : Key} {ok : Bool}
    (shelved : Shelved s) (filed : Filed key record.publisherKey record.createdAt record.data)
    (placed : Placed m s key record t ok) : Shelved t := by
  obtain ⟨shelving,elsewhere⟩ := placed.shelving
  intro k
  by_cases here : k = key
  · subst here
    exact (shelved k).shelving filed shelving
  · exact (shelved k).sublist (elsewhere k here)

theorem everyRecord_invariant {env : Env} {Q : Key → DhtRecord → Prop} (blind : ∀ k r, Q k r.bare ↔ Q k r)
    (new : ∀ m key data signature p createdAt ip, Filed key p createdAt data → Admissible m data createdAt →
      Q key (newRecord m data signature p createdAt ip)) :
    Invariant env (fun _ => True) (fun s => ∀ k, ∀ r ∈ s.records k, Q k r) where
  memo s t same every := fun k => same.records k ▸ every k
  store m s key data signature ip checked every := by
    rcases storeRecord_cases env m s key data signature ip checked _ rfl with
      ⟨_,same,_⟩ | ⟨p,createdAt,t,ok,filed,fresh,_,_,room,outcome⟩
    · exact fun k => same.records k ▸ every k
    have roomy : ∀ k, ∀ r ∈ t.records k, Q k r := fun k r member =>
      every k r ((room.evicted.sheds.sublist k).subset member)
    rcases outcome with ⟨_,refused⟩ | ⟨_,placed⟩
    · rw [refused]
      exact roomy
    obtain ⟨shelving,elsewhere⟩ := placed.shelving
    intro k r member
    by_cases here : k = key
    · subst here
      rcases shelving.mem r member with rfl | ⟨old,inside,same⟩
      · exact new m k data signature p createdAt ip filed fresh
      · exact (blind k r).1 (same ▸ (blind k old).2 (roomy k old inside))
    · exact roomy k r ((elsewhere k here).subset member)
  sweep m s keep every := fun k r member => every k r (mem_filter.1 (sweep_records m s keep k ▸ member)).1
  restamps s t restamps every := by
    intro k r member
    obtain ⟨old,inside,same⟩ := (restamps.sameBodies k).mem r member
    exact (blind k r).1 (same ▸ (blind k old).2 (every k old inside))
  localId _ _ every := every
  localKey _ _ _ every := every
  shares s filtered every := by
    unfold setResponsibilityFiltered
    split_ifs <;> exact every
  scale _ _ every := every

theorem shelved_invariant (env : Env) : Invariant env (fun _ => True) Shelved where
  memo s t same shelved := fun k => same.records k ▸ shelved k
  store m s key data signature ip checked shelved := by
    rcases storeRecord_cases env m s key data signature ip checked _ rfl with
      ⟨_,same,_⟩ | ⟨p,createdAt,t,ok,filed,_,_,_,room,outcome⟩
    · exact fun k => same.records k ▸ shelved k
    have roomy := shelved.sheds room.evicted.sheds
    rcases outcome with ⟨_,refused⟩ | ⟨_,placed⟩
    · rw [refused]
      exact roomy
    · exact roomy.placed filed placed
  sweep m s keep shelved := fun k => sweep_records m s keep k ▸ (shelved k).sublist filter_sublist
  restamps s t restamps shelved := fun k => (shelved k).sameBodies (restamps.sameBodies k)
  localId _ _ shelved := shelved
  localKey _ _ _ shelved := shelved
  shares s filtered shelved := by
    unfold setResponsibilityFiltered
    split_ifs <;> exact shelved
  scale _ _ shelved := shelved

end DhtStore
end Ember.Dht
