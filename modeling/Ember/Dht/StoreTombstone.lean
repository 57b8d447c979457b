import Ember.Dht.StoreQuiet

/-! Departure tombstones. While a live copy dated before the tombstone could be admitted, something
dated no earlier holds its slot unlapsed; from then on the copy is too old. The record in the slot
may change, so the invariant names only its dates. -/
namespace Ember.Dht
open Bytes Table List

def isLivePresence (data : Bytes) : Bool := isPresence data && !departedFlag data

/-- A record that keeps live copies dated before `signedAt` out of the slot until they lapse. -/
structure Bars (signedAt : Int) (slot : PublisherKey × FileHash) (r : DhtRecord) : Prop where
  slot : r.slot = slot
  date : signedAt ≤ r.createdAt
  lasts : signedAt+channelPresenceTtl-1 ≤ r.expiresAtUnix
  plain : isFeedHead r.data = false ∧ isFeedListing r.data = false

structure Guarded (signedAt : Int) (slot : PublisherKey × FileHash) (now : Int) (l : List DhtRecord) : Prop where
  clean : ∀ r ∈ l, r.slot = slot → isLivePresence r.data → signedAt ≤ r.createdAt
  barred : signedAt+channelPresenceTtl-1 ≤ now ∨ ∃ r ∈ l, Bars signedAt slot r

section Guarded
variable {signedAt now : Int} {slot : PublisherKey × FileHash} {l l' : List DhtRecord} {m : Moment}
variable (guarded : Guarded signedAt slot now l)
include guarded

theorem Guarded.later {later : Int} (passed : now ≤ later) : Guarded signedAt slot later l :=
  ⟨guarded.clean,guarded.barred.imp_left (fun beyond => beyond.trans passed)⟩

theorem Guarded.thinned (passed : now ≤ m.unix) (thinned : Thinned m l l') : Guarded signedAt slot m.unix l' := by
  refine ⟨fun r member => guarded.clean r (thinned.sublist.subset member),?_⟩
  rcases guarded.barred with beyond | ⟨r,member,bars⟩
  · exact .inl (beyond.trans passed)
  by_cases beyond : signedAt+channelPresenceTtl-1 ≤ m.unix
  · exact .inl beyond
  · exact .inr ⟨r,thinned.mem member (lt_of_lt_of_le (not_le.1 beyond) bars.lasts),bars⟩

theorem Guarded.sameBodies (same : SameBodies l l') : Guarded signedAt slot now l' := by
  have clean : ∀ r : DhtRecord, (r.bare.slot = slot → isLivePresence r.bare.data → signedAt ≤ r.bare.createdAt) ↔
      (r.slot = slot → isLivePresence r.data → signedAt ≤ r.createdAt) := fun r => Iff.rfl
  have bars : ∀ r : DhtRecord, Bars signedAt slot r.bare ↔ Bars signedAt slot r := fun r =>
    ⟨fun b => { b with },fun b => { b with }⟩
  refine ⟨fun r member => ?_,guarded.barred.imp_right ?_⟩
  · obtain ⟨old,inside,equal⟩ := same.mem r member
    exact (clean r).1 (equal ▸ (clean old).2 (guarded.clean old inside))
  rintro ⟨old,inside,barring⟩
  obtain ⟨r,member,equal⟩ := SameBodies.mem same.symm old inside
  exact ⟨r,member,(bars r).1 (equal ▸ (bars old).2 barring)⟩

end Guarded
variable (signedAt : Int) (m : Moment) (data : Bytes) (signature : Signature) (p : PublisherKey) (createdAt : Int) (ip : Option Ipv4Addr)

theorem feedHeadSequenceOf_of_not_head (plain : isFeedHead data = false) : feedHeadSequenceOf data = none := by
  unfold feedHeadSequenceOf
  have other : isType data recordTypeFeed = false := plain
  simp [other]

theorem isType_of_presence (presence : isPresence data = true) (other : UInt8)
    (differs : recordTypeChannel ≠ other) : isType data other = false := by
  unfold isPresence channelKindFromData at presence
  split at presence
  · rename_i channel
    unfold isType at channel ⊢
    rw [beq_iff_eq.1 channel]
    simpa using differs
  · cases presence

theorem residentGivesWay_date {resident : DhtRecord} {data : Bytes} {createdAt : Int} {signature : Signature}
    (plain : feedHeadSequenceOf resident.data = none ∨ feedHeadSequenceOf data = none)
    (gives : residentGivesWay resident data createdAt signature = true) : resident.createdAt ≤ createdAt := by
  unfold residentGivesWay at gives
  by_contra late
  have earlier := not_le.1 late
  rcases plain with none | none
  · simp [none,earlier,not_lt.2 earlier.le] at gives
  · cases held : feedHeadSequenceOf resident.data <;> simp [none,earlier,not_lt.2 earlier.le] at gives

theorem recordTtl_presence (presence : isPresence data = true) : recordTtl data = channelPresenceTtl := by
  have source := isType_of_presence data presence recordTypeSource (by decide)
  have kind : channelKindFromData data = some channelKindPresence := beq_iff_eq.1 presence
  have channel : isType data recordTypeChannel = true := by
    by_contra other
    simp [channelKindFromData,other] at kind
  unfold recordTtl channelTtl
  rw [source,channel,kind]
  simp [channelPresenceDepartedTtl]

theorem recordTtl_other (other : isPresence data = false) : sourceRecordTtl ≤ recordTtl data := by
  have kind : channelKindFromData data ≠ some channelKindPresence := by
    unfold isPresence at other
    simpa using other
  unfold recordTtl channelTtl
  simp only [sourceRecordTtl,channelIndexTtl,channelHandoffTtl,channelGovernanceTtl,keywordRecordTtl,feedListingTtl]
  split_ifs <;> omega

/-- What may be stored into a slot without opening it: no feed body, and a live presence dated past
the departure only once the clock is there. -/
def Timely (key : Key) (slot : PublisherKey × FileHash) (m : Moment) (data : Bytes) : Prop :=
  ∀ p createdAt, signedIdentityFromRecordData data = some (key,p,createdAt) →
    (p,fileHashFromRecordData data) = slot → isFeedHead data = false ∧ isFeedListing data = false ∧
      (isLivePresence data → signedAt ≤ createdAt → signedAt ≤ m.unix)

theorem newRecord_expires (fresh : Admissible m data createdAt) :
    (newRecord m data signature p createdAt ip).expiresAtUnix =
      (if isPresenceDeparture data then createdAt else min createdAt m.unix)+recordTtl data := by
  have clock := m.range
  have ttl := recordTtl_pos data
  have ahead := fresh.notAhead
  have alive := fresh.alive
  have skew : skewToleranceSecs (recordTtl data) ≤ 3600 := by
    unfold skewToleranceSecs clockSkewToleranceSecs
    omega
  unfold newRecord
  dsimp only
  rw [clampI64_of_bounds] <;> split <;> omega

private theorem newRecord_bars (fresh : Admissible m data createdAt)
    (plain : isFeedHead data = false ∧ isFeedListing data = false)
    (timely : isLivePresence data → signedAt ≤ createdAt → signedAt ≤ m.unix) (date : signedAt ≤ createdAt) :
    Bars signedAt (p,fileHashFromRecordData data) (newRecord m data signature p createdAt ip) := by
  refine ⟨rfl,date,?_,plain⟩
  rw [newRecord_expires m data signature p createdAt ip fresh]
  cases presence : isPresence data with
  | true =>
    rw [recordTtl_presence data presence]
    cases gone : departedFlag data with
    | true =>
      simp only [isPresenceDeparture,presence,gone,Bool.and_self,if_true]
      omega
    | false =>
      have reached := timely (by simp [isLivePresence,presence,gone]) date
      omega
  | false =>
    have ttl := recordTtl_other data presence
    have ahead := fresh.notAhead
    have skew : skewToleranceSecs (recordTtl data) ≤ 3600 := by
      unfold skewToleranceSecs clockSkewToleranceSecs
      omega
    unfold sourceRecordTtl at ttl
    unfold channelPresenceTtl
    omega

section Shelving
variable {signedAt now : Int} {key : Key} {slot : PublisherKey × FileHash} {l l' : List DhtRecord} {m : Moment}
  {data : Bytes} {signature : Signature} {p : PublisherKey} {createdAt : Int} {ip : Option Ipv4Addr} {record : DhtRecord}

private theorem date_of_over (beyond : signedAt+channelPresenceTtl-1 ≤ m.unix) (fresh : Admissible m data createdAt)
    (presence : isLivePresence data) : signedAt ≤ createdAt := by
  have alive := fresh.alive
  rw [recordTtl_presence data (Bool.and_eq_true_iff.1 presence).1] at alive
  omega

private theorem Guarded.holder (guarded : Guarded signedAt slot now l) (passed : now ≤ m.unix)
    (open' : m.unix < signedAt+channelPresenceTtl-1) : ∃ r ∈ l, Bars signedAt slot r ∧ m.unix < r.expiresAtUnix := by
  rcases guarded.barred with beyond | ⟨r,member,bars⟩
  · omega
  · exact ⟨r,member,bars,lt_of_lt_of_le open' bars.lasts⟩

private theorem guarded_swap {before after : List DhtRecord} {resident : DhtRecord}
    (guarded : Guarded signedAt slot now (before++resident :: after)) (passed : now ≤ m.unix)
    (clean : record.slot = slot → isLivePresence record.data → signedAt ≤ record.createdAt)
    (bars : m.unix < signedAt+channelPresenceTtl-1 → Bars signedAt slot resident → Bars signedAt slot record) :
    Guarded signedAt slot m.unix (before++record :: after) := by
  refine ⟨fun r member => ?_,?_⟩
  · rcases mem_append.1 member with early | late
    · exact guarded.clean r (mem_append_left _ early)
    rcases mem_cons.1 late with rfl | later
    · exact clean
    · exact guarded.clean r (mem_append_right _ (mem_cons_of_mem _ later))
  by_cases beyond : signedAt+channelPresenceTtl-1 ≤ m.unix
  · exact .inl beyond
  obtain ⟨holder,member,barring,_⟩ := guarded.holder passed (not_le.1 beyond)
  right
  by_cases here : holder = resident
  · exact ⟨record,by simp,bars (not_le.1 beyond) (here ▸ barring)⟩
  refine ⟨holder,?_,barring⟩
  rcases mem_append.1 member with early | late
  · exact mem_append_left _ early
  · exact mem_append_right _ (mem_cons_of_mem _ ((mem_cons.1 late).resolve_left here))

private theorem Cleared.thinned {left : List DhtRecord} (guarded : Guarded signedAt slot now l) (passed : now ≤ m.unix)
    (cleared : Cleared record (l.filter (DhtRecord.liveAt m.unix)) left) : Guarded signedAt slot m.unix left := by
  have filtered := guarded.thinned passed Thinned.filter
  cases cleared with
  | kept => exact filtered
  | dropped stalest _ listing =>
    refine ⟨fun r member => filtered.clean r (mem_of_mem_erase member),filtered.barred.imp_right ?_⟩
    rintro ⟨r,member,bars⟩
    have other : r ≠ stalest := by
      rintro rfl
      rw [bars.plain.2] at listing
      cases listing
    exact ⟨r,(mem_erase_of_ne other).2 member,bars⟩

theorem Guarded.shelving {ok : Bool} (guarded : Guarded signedAt slot now l) (passed : now ≤ m.unix)
    (distinct : (l.map DhtRecord.slot).Nodup)
    (identity : signedIdentityFromRecordData data = some (key,p,createdAt)) (fresh : Admissible m data createdAt)
    (timely : Timely signedAt key slot m data)
    (shelving : Shelving m (newRecord m data signature p createdAt ip) l l' ok) : Guarded signedAt slot m.unix l' := by
  cases shelving with
  | older | addressMoved => exact guarded.later passed
  | stamped before after resident =>
    exact (guarded.later passed).sameBodies (SameBodies.replace before after resident _ rfl)
  | replaced before after resident same gives =>
    have dated : Bars signedAt slot resident → signedAt ≤ createdAt := fun bars =>
      bars.date.trans (residentGivesWay_date
        (.inl (feedHeadSequenceOf_of_not_head _ bars.plain.1)) gives)
    refine guarded_swap guarded passed (fun mine presence => ?_) (fun _ bars => ?_)
    · by_cases beyond : signedAt+channelPresenceTtl-1 ≤ m.unix
      · exact date_of_over beyond fresh presence
      obtain ⟨holder,member,bars,_⟩ := guarded.holder passed (not_le.1 beyond)
      have here : holder = resident :=
        inj_on_of_nodup_map distinct member (by simp) (bars.slot.trans (same.trans mine).symm)
      exact dated (here ▸ bars)
    · have mine : (p,fileHashFromRecordData data) = slot := same.symm.trans bars.slot
      obtain ⟨head,listing,reached⟩ := timely p createdAt identity mine
      exact mine ▸ newRecord_bars signedAt m data signature p createdAt ip fresh ⟨head,listing⟩ reached (dated bars)
  | capped => exact guarded.thinned passed Thinned.filter
  | full _ _ _ cleared => exact Cleared.thinned guarded passed cleared
  | pushed _ left unheld cleared =>
    have cleaned := Cleared.thinned guarded passed cleared
    refine ⟨fun r member => ?_,cleaned.barred.imp_right ?_⟩
    · rcases mem_append.1 member with old | new
      · exact cleaned.clean r old
      intro mine presence
      rw [mem_singleton.1 new] at mine presence ⊢
      by_cases beyond : signedAt+channelPresenceTtl-1 ≤ m.unix
      · exact date_of_over beyond fresh presence
      · obtain ⟨holder,inside,bars,_⟩ := guarded.holder passed (not_le.1 beyond)
        exact absurd (bars.slot.trans mine.symm) (unheld holder inside)
    · rintro ⟨r,member,bars⟩
      exact ⟨r,mem_append_left _ member,bars⟩

end Shelving

def StoreOp.readings {env : Env} : StoreOp env → List Int
  | storeAttributed m .. => [m.unix]
  | restoreVerified clock records => (List.range records.records.length).map fun i => (clock i).unix
  | expire m => [m.unix]
  | takeRepublishBatch m _ => [m.unix]
  | createdAtAdmissible m .. => [m.unix]
  | _ => []

/-- An operation that drops no publisher's files and stores nothing untimely into the slot. -/
def StoreOp.Keeps {env : Env} (signedAt : Int) (key : Key) (slot : PublisherKey × FileHash) : StoreOp env → Prop
  | storeAttributed m _ data .. => Timely signedAt key slot m data
  | restoreVerified clock records => ∀ i record, records.records[i]? = some record →
      Timely signedAt key slot (clock i) record.data
  | dropPublisherFiles .. => False
  | _ => True

namespace DhtStore
variable {env : Env} {signedAt : Int} {key : Key} {slot : PublisherKey × FileHash} {s : DhtStore} {now : Int}

private theorem guarded_store (m : Moment) (k : Key) (data : Bytes) (signature : Signature) (ip : Option Ipv4Addr)
    (checked : Bool) (shelved : Shelved s) (guarded : Guarded signedAt slot now (s.records key))
    (passed : now ≤ m.unix) (timely : Timely signedAt key slot m data)
    (unforced : Unforced (s.storeRecord env m k data signature ip checked).1) :
    Guarded signedAt slot m.unix ((s.storeRecord env m k data signature ip checked).1.records key) := by
  rcases (storeRecord_quiet env m s k data signature ip checked unforced).outcome with
    ⟨_,thinned⟩ | ⟨p,createdAt,filed,fresh,_,shelving,elsewhere⟩
  · exact guarded.thinned passed (thinned key)
  by_cases here : key = k
  · subst here
    exact guarded.shelving passed (shelved key).slots filed.identity fresh timely shelving
  · exact guarded.thinned passed (elsewhere key here)

private theorem guarded_restoreAll (records : List PersistedRecord) (clock : Nat → Moment) (shelved : Shelved s)
    (guarded : Guarded signedAt slot now (s.records key)) (passed : ∀ i < records.length, now ≤ (clock i).unix)
    (forward : ((List.range records.length).map fun i => (clock i).unix).Pairwise (· ≤ ·))
    (timely : ∀ i record, records[i]? = some record → Timely signedAt key slot (clock i) record.data)
    (unforced : Unforced (s.restoreAll env records clock).1) :
    ∃ later, (later = now ∨ ∃ i < records.length, later = (clock i).unix) ∧
      Guarded signedAt slot later ((s.restoreAll env records clock).1.records key) := by
  induction records generalizing clock s now with
  | nil => exact ⟨now,.inl rfl,guarded⟩
  | cons record rest ih =>
    have middle : Unforced (s.restoreRecord env (clock 0) record).1 :=
      unforced.of_suffix (restoreAll_suffix env rest ..)
    have stepped : Shelved (s.restoreRecord env (clock 0) record).1 ∧ Guarded signedAt slot (clock 0).unix
        ((s.restoreRecord env (clock 0) record).1.records key) := by
      have reached := passed 0 (by simp)
      rcases restoreRecord_cases env (clock 0) s record with
        ⟨same,_⟩ | ⟨aged,k,p,createdAt,same,unlogged,identity,result⟩
      · refine ⟨(shelved_invariant env).memo s _ same shelved,?_⟩
        rw [same.records]
        exact guarded.later reached
      rw [result] at middle ⊢
      have before := (shelved_invariant env).memo s aged same shelved
      refine ⟨(shelved_invariant env).store _ _ _ _ _ _ _ before,?_⟩
      exact guarded_store (clock 0) k record.data record.signature none true before (same.records key ▸ guarded)
        reached (timely 0 record rfl) middle
    rw [length_cons,range_succ_eq_map,map_cons,map_map,pairwise_cons] at forward
    obtain ⟨later,which,kept⟩ := ih (fun i => clock (i+1)) stepped.1 stepped.2
      (fun i bound => forward.1 _ (mem_map_of_mem (mem_range.2 bound)))
      forward.2 (fun i record' found => timely (i+1) record' (by simpa using found)) unforced
    refine ⟨later,.inr ?_,kept⟩
    rcases which with rfl | ⟨i,bound,rfl⟩
    · exact ⟨0,by simp,rfl⟩
    · exact ⟨i+1,by simpa using bound,rfl⟩

private theorem guarded_apply (op : StoreOp env) (shelved : Shelved s)
    (guarded : Guarded signedAt slot now (s.records key)) (passed : ∀ r ∈ op.readings, now ≤ r)
    (forward : op.readings.Pairwise (· ≤ ·)) (keeps : op.Keeps signedAt key slot) (unforced : Unforced (op.apply s)) :
    ∃ later, (later = now ∨ later ∈ op.readings) ∧ Guarded signedAt slot later ((op.apply s).records key) := by
  cases op with
  | storeAttributed m k data signature ip =>
    have stored := guarded_store m k data signature ip false shelved guarded (passed m.unix (by simp [StoreOp.readings]))
      keeps unforced
    exact ⟨m.unix,.inr (by simp [StoreOp.readings]),stored⟩
  | restoreVerified clock records =>
    obtain ⟨later,which,kept⟩ := guarded_restoreAll records.records clock shelved guarded
      (fun i bound => passed _ (mem_map_of_mem (mem_range.2 bound))) forward keeps unforced
    refine ⟨later,which.imp_right ?_,kept⟩
    rintro ⟨i,bound,rfl⟩
    exact mem_map_of_mem (mem_range.2 bound)
  | expire m =>
    refine ⟨m.unix,.inr (by simp [StoreOp.readings]),?_⟩
    have swept := sweep_records m s (DhtRecord.liveAt m.unix) key
    have thinned := guarded.thinned (passed m.unix (by simp [StoreOp.readings])) Thinned.filter
    rwa [← swept] at thinned
  | dropPublisherFiles => exact keeps.elim
  | setLocalId | setLocalPublisherKey | setScale => exact ⟨now,.inl rfl,guarded⟩
  | setResponsibilityFiltered filtered =>
    refine ⟨now,.inl rfl,?_⟩
    unfold StoreOp.apply setResponsibilityFiltered
    dsimp only
    split_ifs <;> exact guarded
  | takeRepublishBatch m request =>
    exact ⟨now,.inl rfl,guarded.sameBodies ((takeRepublishBatch_restamps m s request).sameBodies key)⟩
  | markRepublishDue k signature =>
    exact ⟨now,.inl rfl,guarded.sameBodies ((markRepublishDue_restamps s k).sameBodies key)⟩
  | createdAtAdmissible m data createdAt =>
    refine ⟨now,.inl rfl,?_⟩
    have same := (admitCreatedAt_memo s createdAt (recordTtl data) m.unix).1.records key
    exact (congrArg (Guarded signedAt slot now) same).mpr guarded

private theorem guarded_run (ops : List (StoreOp env)) (shelved : Shelved s)
    (guarded : Guarded signedAt slot now (s.records key)) (passed : ∀ r ∈ ops.flatMap StoreOp.readings, now ≤ r)
    (forward : (ops.flatMap StoreOp.readings).Pairwise (· ≤ ·)) (keeps : ∀ op ∈ ops, op.Keeps signedAt key slot)
    (unforced : Unforced (s.run ops)) : ∃ later, Guarded signedAt slot later ((s.run ops).records key) := by
  induction ops generalizing s now with
  | nil => exact ⟨now,guarded⟩
  | cons op rest ih =>
    rw [flatMap_cons,pairwise_append] at forward
    obtain ⟨later,which,kept⟩ := guarded_apply op shelved guarded
      (fun r member => passed r (by simp [member])) forward.1 (keeps op mem_cons_self)
      (unforced.of_suffix (run_suffix rest _))
    refine ih ((shelved_invariant env).apply (fun _ _ => trivial) shelved) kept ?_ forward.2.1
      (fun op' member => keeps op' (mem_cons_of_mem _ member)) unforced
    intro r member
    rcases which with rfl | inside
    · exact passed r (by rw [flatMap_cons]; exact mem_append_right _ member)
    · exact forward.2.2 later inside r member

theorem departure_expires_invariant : Invariant env (fun _ => True) (fun s => ∀ k, ∀ r ∈ s.records k,
    isPresenceDeparture r.data → r.expiresAtUnix = r.createdAt+channelPresenceTtl) := by
  refine everyRecord_invariant (fun _ _ => Iff.rfl) ?_
  intro m key data signature p createdAt ip _ fresh departure
  have departs : isPresenceDeparture data = true := departure
  have presence : isPresence data = true := (Bool.and_eq_true_iff.1 departs).1
  rw [newRecord_expires m data signature p createdAt ip fresh,if_pos departs,recordTtl_presence data presence]
  rfl

theorem departure_not_undone (env : Env) (ops later : List (StoreOp env)) (key : Key) (p : PublisherKey)
    (f : FileHash) (signedAt : Int) (departed : ∃ r ∈ (new.run ops).records key, r.publisherKey = p ∧ r.fileHash = f ∧
      isPresenceDeparture r.data ∧ r.createdAt = signedAt) (forward : (later.flatMap StoreOp.readings).Pairwise (· ≤ ·))
    (unforced : Unforced (new.run (ops++later))) (keeps : ∀ op ∈ later, op.Keeps signedAt key (p,f)) :
    ∀ r, (r ∈ (new.run (ops++later)).records key ∨ ∃ m, r ∈ (new.run (ops++later)).liveRecords m key) →
      r.publisherKey = p → r.fileHash = f → isPresence r.data → departedFlag r.data = false →
        signedAt ≤ r.createdAt := by
  have shelved := (shelved_invariant env).run ops (fun _ _ => trivial) new (fun k => Shelf.nil k)
  have lasting := departure_expires_invariant.run ops (fun _ _ => trivial) new (by simp [new,records,held])
  obtain ⟨tombstone,member,owner,file,departure,dated⟩ := departed
  have slot : tombstone.slot = (p,f) := Prod.ext owner file
  have presence : isPresence tombstone.data = true ∧ departedFlag tombstone.data = true :=
    Bool.and_eq_true_iff.1 departure
  have plain : isFeedHead tombstone.data = false ∧ isFeedListing tombstone.data = false :=
    ⟨isType_of_presence _ presence.1 _ (by decide),isType_of_presence _ presence.1 _ (by decide)⟩
  have bars : Bars signedAt (p,f) tombstone := by
    refine ⟨slot,dated.ge,?_,plain⟩
    rw [lasting key tombstone member departure]
    omega
  have guarded : ∀ now, Guarded signedAt (p,f) now ((new.run ops).records key) := by
    intro now
    refine ⟨fun r inside mine live => ?_,.inr ⟨tombstone,member,bars⟩⟩
    have same : r = tombstone := inj_on_of_nodup_map (shelved key).slots inside member (mine.trans slot.symm)
    rw [same] at live
    simp [isLivePresence,presence.2] at live
  obtain ⟨now,passed⟩ : ∃ now, ∀ r ∈ later.flatMap StoreOp.readings, now ≤ r := by
    generalize later.flatMap StoreOp.readings = readings at forward
    cases readings with
    | nil => exact ⟨0,by simp⟩
    | cons first rest =>
      refine ⟨first,fun r inside => ?_⟩
      rcases mem_cons.1 inside with rfl | later
      · exact Int.le_refl _
      · exact (pairwise_cons.1 forward).1 r later
  have split : new.run (ops++later) = (new.run ops).run later := foldl_append
  rw [split] at unforced ⊢
  obtain ⟨final,kept⟩ := guarded_run later shelved (guarded now) passed forward keeps unforced
  intro r served mine same live here
  have inside : r ∈ ((new.run ops).run later).records key := by
    rcases served with held | ⟨m,served⟩
    · exact held
    · exact (mem_filter.1 served).1
  exact kept.clean r inside (Prod.ext mine same) (by simp [isLivePresence,live,here])

def presenceOp (unix : Int) (range : -8334601228800 ≤ unix ∧ unix ≤ 8210266876799) (flags : Nat) (signedAt : Int) :
    StoreOp .trusting :=
  .storeAttributed (Moment.reading unix range) 5 (buildData recordTypeChannel 5 9 0 (2+256*flags) 7 signedAt [] []) 0
    none

theorem departure_not_undone_replay : let s := new.run ([presenceOp 1000000 (by decide) 2 1000000]++
      [presenceOp 1000100 (by decide) 0 999000,.expire (Moment.reading 1003000 (by decide))])
    Unforced s ∧ ∀ r, (r ∈ s.records 5 ∨ ∃ m, r ∈ s.liveRecords m 5) →
      r.publisherKey = 7 → r.fileHash = 9 → isPresence r.data → departedFlag r.data = false → 1000000 ≤ r.createdAt := by
  have unforced : Unforced (new.run ([presenceOp 1000000 (by decide) 2 1000000]++
      [presenceOp 1000100 (by decide) 0 999000,.expire (Moment.reading 1003000 (by decide))])) := by
    unfold Unforced
    decide +kernel
  refine ⟨unforced,departure_not_undone .trusting _ _ 5 7 9 1000000 (by decide +kernel) (by decide) unforced ?_⟩
  intro op member
  rcases mem_pair.1 member with rfl | rfl
  · intro p createdAt identity _
    have signed : signedIdentityFromRecordData (buildData recordTypeChannel 5 9 0 (2+256*0) 7 999000 [] []) =
        some (5,7,999000) := by decide +kernel
    rw [signed,Option.some.injEq,Prod.mk.injEq,Prod.mk.injEq] at identity
    refine ⟨by decide +kernel,by decide +kernel,fun _ late => ?_⟩
    omega
  · trivial

def headOp (sequence : Nat) (signedAt : Int) : StoreOp .trusting :=
  .storeAttributed (Moment.reading 1000000 range_million) 5 (buildData recordTypeFeed 5 9 0 0 7 signedAt []
    ([0,9,0,2]++ofNatLittleEndian 8 sequence)) 0 none

/-- A departure dated `signedAt` is held after `ops`, and after `later` an older live presence, with
nothing given up and the clock never set back. -/
def Undone (signedAt : Int) (ops later : List (StoreOp .trusting)) : Prop :=
  (∃ r ∈ (new.run ops).records 5, r.publisherKey = 7 ∧ r.fileHash = 9 ∧ isPresenceDeparture r.data ∧
    r.createdAt = signedAt) ∧
  ((ops++later).flatMap StoreOp.readings).Pairwise (· ≤ ·) ∧
  (new.run (ops++later)).evictions = [] ∧
  ∃ r ∈ (new.run (ops++later)).records 5, r.publisherKey = 7 ∧ r.fileHash = 9 ∧ isPresence r.data ∧
    departedFlag r.data = false ∧ r.createdAt < signedAt

/-- A live copy dated past the departure, stored while the clock is behind both, lapses before the
departure would have; and feed heads in the slot give way by sequence, whatever their dates. -/
theorem departure_undone :
    Undone 1001349 [presenceOp 1000000 (by decide) 2 1001349] [presenceOp 1000000 (by decide) 0 1001350,
      .expire (Moment.reading 1002700 (by decide)),presenceOp 1002700 (by decide) 0 1001000] ∧
    Undone 999000 [presenceOp 1000000 (by decide) 2 999000] [headOp 1 999500,headOp 2 998000,
      presenceOp 1000000 (by decide) 0 998500] := by
  unfold Undone
  decide +kernel

end DhtStore
end Ember.Dht
