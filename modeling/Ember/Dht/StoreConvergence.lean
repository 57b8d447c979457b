import Ember.Library.Register
import Ember.Dht.StoreTombstone

/-! Storers of one record agree. On bodies of one type, with no digest to lose, `resident_gives_way`
makes a slot a register that keeps the highest offer, so storers offered the same records in any
order hold the same one. -/
namespace Ember.Dht
open Bytes Table Register List Option

abbrev Signed := Bytes × Signature

def DhtRecord.signed (record : DhtRecord) : Signed := (record.data,record.signature)

def dated (data : Bytes) : Int := (signedIdentityFromRecordData data).elim 0 (·.2.2)

/-- The feed sequence, 0 for no head, then the date, then the signature. -/
def precedence (body : Signed) : ℕ ×ₗ ℤ ×ₗ ℕ :=
  toLex ((feedHeadSequenceOf body.1).getD 0,toLex (dated body.1,body.2.toNat))

private theorem later_iff (a b : Int) (x y : Signature) :
    (if a < b then true else if b < a then false else decide (x ≤ y)) = true ↔ a < b ∨ a = b ∧ x ≤ y := by
  split_ifs with earlier later
  · exact ⟨fun _ => .inl earlier,fun _ => rfl⟩
  · exact ⟨fun absurd => (by cases absurd),fun before => by omega⟩
  · have same : a = b := by omega
    simp [same]

theorem residentGivesWay_iff {resident : DhtRecord} {data : Bytes} {signature : Signature}
    (held : resident.createdAt = dated resident.data)
    (alike : (feedHeadSequenceOf resident.data).isSome = (feedHeadSequenceOf data).isSome) :
    residentGivesWay resident data (dated data) signature = true ↔
      precedence resident.signed ≤ precedence (data,signature) := by
  have byDate := later_iff (dated resident.data) (dated data) resident.signature signature
  unfold precedence
  rw [Prod.Lex.toLex_le_toLex,Prod.Lex.toLex_le_toLex,← BitVec.le_def,DhtRecord.signed]
  unfold residentGivesWay
  rw [held]
  cases mine : feedHeadSequenceOf resident.data with
  | none =>
    have none : feedHeadSequenceOf data = none := by simpa [mine] using alike.symm
    rw [none]
    simpa using byDate
  | some sequence =>
    have head : (feedHeadSequenceOf data).isSome = true := by rw [← alike,mine,isSome_some]
    obtain ⟨incoming,other⟩ := isSome_iff_exists.1 head
    rw [other]
    simp only [getD_some]
    by_cases same : sequence = incoming
    · rw [if_pos same,byDate]
      simp [same]
    · simp [same]

def DhtStore.holder (store : DhtStore) (key : Key) (slot : PublisherKey × FileHash) : Option Signed :=
  ((store.records key).find? (·.slot == slot)).map DhtRecord.signed

structure Offer where
  m : Moment
  data : Bytes
  signature : Signature
  ip : Option Ipv4Addr

namespace Offer

def signed (offer : Offer) : Signed := (offer.data,offer.signature)

def record (offer : Offer) (p : PublisherKey) : DhtRecord :=
  newRecord offer.m offer.data offer.signature p (dated offer.data) offer.ip

def store (env : Env) (key : Key) (s : DhtStore) (offer : Offer) : DhtStore × Bool :=
  s.storeAttributed env offer.m key offer.data offer.signature offer.ip

/-- A well signed body of one type for one slot, without a digest, offered within its life. -/
@[mk_iff]
structure Admissible (env : Env) (kind : UInt8) (key : Key) (slot : PublisherKey × FileHash) (offer : Offer) :
    Prop where
  filed : Filed key slot.1 (dated offer.data) offer.data
  file : fileHashFromRecordData offer.data = slot.2
  digest : emberDigestFromRecordData offer.data = 0
  type : isType offer.data kind
  signed : verifyRecordSignature env offer.data offer.signature slot.1
  fresh : Dht.Admissible offer.m offer.data (dated offer.data)

/-- No cap stands in the way: not the feed heads of its publisher, the keys of the store, or the
records its address, its publisher or anyone has under the key. -/
@[mk_iff]
structure Uncapped (key : Key) (slot : PublisherKey × FileHash) (s : DhtStore) (offer : Offer) : Prop where
  heads : s.headRefused key offer.data slot.1 = false
  keys : key ∈ s.entries ∨ s.keyCount < s.keyBudget
  address : ∀ r ∈ s.records key, r.slot = slot →
    ((sourceIpClass (offer.record slot.1)).any fun ipClass => sourceIpClass r != some ipClass &&
      sourceIpFull s.scale ipClass (((s.records key).erase r).filter (DhtRecord.liveAt offer.m.unix))) = false
  room : (∀ r ∈ s.records key, r.slot ≠ slot) →
    ¬ DhtStore.Capped s.scale (offer.record slot.1) (s.liveRecords offer.m key) ∧
      (s.liveRecords offer.m key).length < maxRecordsPerKey

instance (env : Env) (kind : UInt8) (key : Key) (slot : PublisherKey × FileHash) (offer : Offer) :
    Decidable (offer.Admissible env kind key slot) :=
  decidable_of_iff _ (admissible_iff env kind key slot offer).symm

instance (key : Key) (slot : PublisherKey × FileHash) (s : DhtStore) (offer : Offer) :
    Decidable (offer.Uncapped key slot s) :=
  decidable_of_iff _ (uncapped_iff key slot s offer).symm

end Offer

namespace DhtStore

def offered (env : Env) (key : Key) (s : DhtStore) (offers : List Offer) : DhtStore :=
  offers.foldl (fun s offer => (offer.store env key s).1) s

def Uncapped (env : Env) (key : Key) (slot : PublisherKey × FileHash) : DhtStore → List Offer → Prop
  | _, [] => True
  | s, offer :: rest => offer.Uncapped key slot s ∧ Uncapped env key slot (offer.store env key s).1 rest

instance decidableUncapped (env : Env) (key : Key) (slot : PublisherKey × FileHash) :
    (s : DhtStore) → (offers : List Offer) → Decidable (Uncapped env key slot s offers)
  | _, [] => isTrue trivial
  | s, offer :: rest =>
    have := decidableUncapped env key slot (offer.store env key s).1 rest
    inferInstanceAs (Decidable (offer.Uncapped key slot s ∧ Uncapped env key slot (offer.store env key s).1 rest))

section Holder
variable {s t : DhtStore} {m : Moment} {key : Key} {slot : PublisherKey × FileHash} {record r : DhtRecord} {ok : Bool}

theorem holder_of_records (before after : List DhtRecord) (distinct : ((s.records key).map DhtRecord.slot).Nodup)
    (written : s.records key = before++r :: after) (mine : r.slot = slot) : s.holder key slot = some r.signed := by
  have early : ∀ b ∈ before, ¬ (b.slot == slot) = true := by
    intro b member same
    rw [written,map_append,nodup_append] at distinct
    exact distinct.2.2 _ (mem_map_of_mem member) _ mem_cons_self ((beq_iff_eq.1 same).trans mine.symm)
  rw [holder,written,find?_append,find?_eq_none.2 early,find?_cons_of_pos (by simp [mine])]
  rfl

theorem holder_of_free (free : ∀ r ∈ s.records key, r.slot ≠ slot) : s.holder key slot = none := by
  rw [holder,find?_eq_none.2 (by simpa using free),map_none]

private theorem dropStalest_of_short (s : DhtStore) (key : Key) (record : DhtRecord) (live : List DhtRecord)
    (short : live.length < maxRecordsPerKey) : s.dropStalest key record live = (s,live) := by
  have none : stalestListing record live = none := by simp [stalestListing,not_le.2 short]
  rw [dropStalest,none]

theorem Placed.settles (placed : Placed m s key record t ok) (before : Shelved s) (after : Shelved t)
    (own : record.createdAt = dated record.data)
    (digest : ∀ r ∈ s.records key, r.slot = record.slot → emberDigestFromRecordData r.data = 0)
    (alike : ∀ r ∈ s.records key, r.slot = record.slot →
      (feedHeadSequenceOf r.data).isSome = (feedHeadSequenceOf record.data).isSome)
    (address : ∀ r ∈ s.records key, r.slot = record.slot →
      ((sourceIpClass record).any fun ipClass => sourceIpClass r != some ipClass &&
        sourceIpFull s.scale ipClass (((s.records key).erase r).filter (DhtRecord.liveAt m.unix))) = false)
    (room : (∀ r ∈ s.records key, r.slot ≠ record.slot) → ¬ Capped s.scale record (s.liveRecords m key) ∧
      (s.liveRecords m key).length < maxRecordsPerKey) :
    t.holder key record.slot = settle precedence (s.holder key record.slot) record.signed ∧
      (ok = true ↔ ∀ body, s.holder key record.slot = some body → precedence body ≤ precedence record.signed) := by
  have ranked : ∀ {early late : List DhtRecord} {resident : DhtRecord}, Resident s key record early resident late →
      s.holder key record.slot = some resident.signed ∧
        (residentGivesWay resident record.data record.createdAt record.signature = true ↔
          precedence resident.signed ≤ precedence record.signed) := by
    intro early late resident here
    have inside : resident ∈ s.records key := by simp [here.records]
    refine ⟨holder_of_records early late (before key).slots here.records here.slot,?_⟩
    rw [own]
    refine residentGivesWay_iff ?_ (alike resident inside here.slot)
    rw [dated,((before key).filed resident inside).identity,elim_some]
  cases placed with
  | @older _ _ resident here stays =>
    obtain ⟨held,order⟩ := ranked here
    have below : ¬ precedence resident.signed ≤ precedence record.signed := fun above => by
      simp [order.2 above] at stays
    refine ⟨?_,by simp [held,below]⟩
    rw [held,settle_some,if_neg below]
    exact held
  | @stamped _ _ resident here _ rich =>
    exact absurd (digest resident (by simp [here.records]) here.slot) rich
  | @addressMoved early late resident here _ moved =>
    have inside : resident ∈ s.records key := by simp [here.records]
    have absent : resident ∉ early := by
      intro member
      have distinct := (before key).slots
      rw [here.records,map_append,nodup_append] at distinct
      exact distinct.2.2 _ (mem_map_of_mem member) _ mem_cons_self rfl
    have others : (s.records key).erase resident = early++late := by
      rw [here.records,erase_append_right _ absent,erase_cons_head]
    have free := address resident inside here.slot
    rw [others,moved] at free
    cases free
  | @replaced early late resident here gives =>
    obtain ⟨held,order⟩ := ranked here
    have above := order.1 gives
    have sheds := (enforceByteBudget_budgeted m (s.substitute key record resident (early++record :: late)) key).sheds
    have written := (sheds.spares (fun _ absurd => absurd rfl)).trans (held_insert ..)
    refine ⟨?_,by simp [held,above]⟩
    rw [held,settle_some,if_pos above]
    exact holder_of_records early late (after key).slots written rfl
  | capped why fresh _ capped => exact absurd capped (room fresh).1
  | full fresh living clearing full =>
    rw [clearing,dropStalest_of_short _ _ _ _ (living ▸ (room fresh).2)] at full
    exact absurd full (not_le.2 (living ▸ (room fresh).2))
  | @pushed live cleared fresh living clearing =>
    have sheds := (enforceByteBudget_budgeted m (cleared.1.push key cleared.2 record
      (live.countP (·.publisherKey == record.publisherKey) == 0)) key).sheds
    have written := (sheds.spares (fun _ absurd => absurd rfl)).trans (held_insert ..)
    rw [holder_of_free fresh]
    exact ⟨holder_of_records cleared.2 [] (after key).slots written rfl,by simp⟩

end Holder

section Offers
variable {env : Env} {kind : UInt8} {key : Key} {slot : PublisherKey × FileHash} {s : DhtStore} {offer : Offer}

theorem store_shelved (shelved : Shelved s) : Shelved (offer.store env key s).1 :=
  (shelved_invariant env).store offer.m s key offer.data offer.signature offer.ip false shelved

theorem store_settles (shelved : Shelved s) (admissible : offer.Admissible env kind key slot)
    (uncapped : offer.Uncapped key slot s)
    (peers : ∀ body, s.holder key slot = some body → emberDigestFromRecordData body.1 = 0 ∧
      (feedHeadSequenceOf body.1).isSome = (feedHeadSequenceOf offer.data).isSome) :
    (offer.store env key s).1.holder key slot = settle precedence (s.holder key slot) offer.signed ∧
      ((offer.store env key s).2 = true ↔
        ∀ body, s.holder key slot = some body → precedence body ≤ precedence offer.signed) := by
  have after : Shelved (offer.store env key s).1 := store_shelved shelved
  have mine : (offer.record slot.1).slot = slot := Prod.ext rfl admissible.file
  rcases storeRecord_cases env offer.m s key offer.data offer.signature offer.ip false _ rfl with
    ⟨_,_,_,refused⟩ | ⟨p,createdAt,u,ok,filed,_,_,_,room,outcome⟩
  · have denied := refused slot.1 _ admissible.filed admissible.fresh (by simpa using admissible.signed)
    rw [uncapped.heads] at denied
    cases denied
  have accepted : ok = true := uncapped.keys.elim (fun member => (room.old member).1) room.free
  have here : u.records key = s.records key := by
    by_cases bound : key ∈ s.entries
    · exact (room.old bound).2.1.records key
    have gone : s.records key = [] := by simp [records,held,AList.lookup_eq_none.2 bound]
    have thinner := room.evicted.sheds.sublist key
    rw [gone] at thinner ⊢
    exact sublist_nil.1 thinner
  have scale : u.scale = s.scale := congrArg Settings.scale room.evicted.sheds.settings
  have named := filed.identity.symm.trans admissible.filed.identity
  rw [some.injEq,Prod.mk.injEq,Prod.mk.injEq] at named
  rcases outcome with ⟨denied,_⟩ | ⟨_,placed⟩
  · rw [accepted] at denied
    cases denied
  rw [named.2.1,named.2.2] at placed
  have held : u.holder key slot = s.holder key slot := by rw [holder,here,holder]
  have living : u.liveRecords offer.m key = s.liveRecords offer.m key := by rw [liveRecords,here,liveRecords]
  have peer : ∀ r ∈ u.records key, r.slot = (offer.record slot.1).slot → s.holder key slot = some r.signed := by
    intro r member same
    obtain ⟨early,late,written⟩ := append_of_mem (here ▸ member)
    exact holder_of_records early late (shelved key).slots written (same.trans mine)
  have settled := placed.settles (shelved.sheds room.evicted.sheds) after rfl
    (fun r member same => (peers _ (peer r member same)).1) (fun r member same => (peers _ (peer r member same)).2)
    (by
      intro r member same
      rw [here,scale]
      exact uncapped.address r (here ▸ member) (same.trans mine))
    (by
      intro free
      rw [living,scale]
      exact uncapped.room fun r member same => free r (here.symm ▸ member) (same.trans mine.symm))
  rw [show (newRecord offer.m offer.data offer.signature slot.1 (dated offer.data) offer.ip).slot = slot from mine,
    held] at settled
  exact settled

theorem offered_settles (offers : List Offer) (head : Bool) (shelved : Shelved s)
    (admissible : ∀ o ∈ offers, o.Admissible env kind key slot)
    (alike : ∀ o ∈ offers, (feedHeadSequenceOf o.data).isSome = head) (uncapped : Uncapped env key slot s offers)
    (peers : ∀ body, s.holder key slot = some body → emberDigestFromRecordData body.1 = 0 ∧
      (feedHeadSequenceOf body.1).isSome = head) : (s.offered env key offers).holder key slot =
        (offers.map Offer.signed).foldl (settle precedence) (s.holder key slot) ∧
      ∀ early o late, offers = early++o :: late → ((o.store env key (s.offered env key early)).2 = true ↔
          ∀ body, (s.offered env key early).holder key slot = some body → precedence body ≤ precedence o.signed) := by
  induction offers generalizing s with
  | nil => exact ⟨rfl,by simp⟩
  | cons first rest ih =>
    have own := admissible first mem_cons_self
    have ofKind := alike first mem_cons_self
    obtain ⟨settled,taken⟩ := store_settles shelved own uncapped.1 (fun body held => ofKind ▸ peers body held)
    have peers' : ∀ body, (first.store env key s).1.holder key slot = some body →
        emberDigestFromRecordData body.1 = 0 ∧ (feedHeadSequenceOf body.1).isSome = head := by
      intro body held
      obtain ⟨best,kept,origin,_⟩ := settle_spec precedence (s.holder key slot) first.signed
      rw [settled,kept,some.injEq] at held
      subst held
      rcases origin with rfl | before
      · exact ⟨own.digest,ofKind⟩
      · exact peers best before
    obtain ⟨final,returns⟩ := ih (store_shelved shelved) (fun o member => admissible o (mem_cons_of_mem _ member))
      (fun o member => alike o (mem_cons_of_mem _ member)) uncapped.2 peers'
    refine ⟨?_,?_⟩
    · rw [map_cons,foldl_cons,← settled]
      exact final
    intro early o late split
    cases early with
    | nil =>
      obtain ⟨rfl,_⟩ := List.cons.inj split
      exact taken
    | cons e early =>
      obtain ⟨rfl,rest⟩ := List.cons.inj split
      exact returns early o late rest

theorem storers_converge (env : Env) (ops ops' : List (StoreOp env)) (kind : UInt8) (key : Key)
    (slot : PublisherKey × FileHash) (first second : List Offer) (free : ∀ r ∈ (new.run ops).records key, r.slot ≠ slot)
    (free' : ∀ r ∈ (new.run ops').records key, r.slot ≠ slot)
    (admissible : ∀ o ∈ first++second, o.Admissible env kind key slot) (ranked : kind = recordTypeChannel ∨
      kind = recordTypeFeed ∧ ∀ o ∈ first++second, (feedHeadSequenceOf o.data).isSome)
    (same : ∀ body, body ∈ first.map Offer.signed ↔ body ∈ second.map Offer.signed)
    (binding : ∀ a ∈ first, ∀ b ∈ first, a.signature = b.signature → a.data = b.data)
    (uncapped : (new.run ops).Uncapped env key slot first) (uncapped' : (new.run ops').Uncapped env key slot second) :
    ((new.run ops).offered env key first).holder key slot = ((new.run ops').offered env key second).holder key slot ∧
      (∀ o ∈ first, ∃ best ∈ first, ((new.run ops).offered env key first).holder key slot = some best.signed ∧
        precedence o.signed ≤ precedence best.signed) ∧ (∀ early o late, first = early++o :: late →
        ((o.store env key ((new.run ops).offered env key early)).2 = true ↔
          ∀ body, ((new.run ops).offered env key early).holder key slot = some body →
            precedence body ≤ precedence o.signed)) ∧ ∀ early o late, second = early++o :: late →
        ((o.store env key ((new.run ops').offered env key early)).2 = true ↔
          ∀ body, ((new.run ops').offered env key early).holder key slot = some body →
            precedence body ≤ precedence o.signed) := by
  have alike : ∃ head : Bool, ∀ o ∈ first++second, (feedHeadSequenceOf o.data).isSome = head := by
    rcases ranked with rfl | ⟨_,heads⟩
    · refine ⟨false,fun o member => ?_⟩
      have other : isType o.data recordTypeFeed = false := by
        have typed := (admissible o member).type
        simp only [isType,beq_iff_eq] at typed
        rw [isType,typed]
        decide
      rw [feedHeadSequenceOf,other]
      rfl
    · exact ⟨true,heads⟩
  obtain ⟨head,alike⟩ := alike
  have shelved : ∀ ops : List (StoreOp env), Shelved (new.run ops) := fun ops =>
    (shelved_invariant env).run ops (fun _ _ => trivial) new (fun k => Shelf.nil k)
  have none := holder_of_free free
  have none' := holder_of_free free'
  obtain ⟨settled,returns⟩ := offered_settles first head (shelved ops)
    (fun o member => admissible o (mem_append_left _ member))
    (fun o member => alike o (mem_append_left _ member)) uncapped (by simp [none])
  obtain ⟨settled',returns'⟩ := offered_settles second head (shelved ops')
    (fun o member => admissible o (mem_append_right _ member))
    (fun o member => alike o (mem_append_right _ member)) uncapped' (by simp [none'])
  rw [none] at settled
  rw [none'] at settled'
  have distinct : ∀ a ∈ first.map Offer.signed, ∀ b ∈ first.map Offer.signed, precedence a = precedence b → a = b := by
    intro a member b member' equal
    obtain ⟨o,inside,rfl⟩ := mem_map.1 member
    obtain ⟨o',inside',rfl⟩ := mem_map.1 member'
    have signatures : o.signature = o'.signature := by
      have dates := congrArg (fun rank => (ofLex (ofLex rank).2).2) equal
      exact BitVec.eq_of_toNat_eq dates
    exact Prod.ext (binding o inside o' inside' signatures) signatures
  refine ⟨?_,?_,returns,returns'⟩
  · rw [settled,settled']
    exact foldl_settle_congr precedence same distinct
  intro o member
  have inside : o.signed ∈ first.map Offer.signed := mem_map_of_mem member
  obtain ⟨best,kept⟩ := foldl_settle_isSome precedence _ _ inside
  obtain ⟨found,highest,_⟩ := foldl_settle_spec precedence _ _ best kept
  obtain ⟨winner,among,rfl⟩ := mem_map.1 (found.resolve_right (by simp))
  exact ⟨winner,among,settled.trans kept,highest _ inside⟩

end Offers

/-- A feed head of one slot; one without a trailer has no sequence to read. -/
def headOffer (sequence : Option Nat) (signedAt : Int) (signature : Signature) : Offer where
  m := Moment.reading 1000000 range_million
  data := buildData recordTypeFeed 5 9 0 0 7 signedAt [] (sequence.elim [] fun n => [0,9,0,2]++ofNatLittleEndian 8 n)
  signature := signature
  ip := none

theorem storers_converge_heads :
    (new.offered .trusting 5 [headOffer (some 5) 999000 1,headOffer (some 3) 999900 2]).holder 5 (7,9) =
      (new.offered .trusting 5 [headOffer (some 3) 999900 2,headOffer (some 5) 999000 1]).holder 5 (7,9) :=
  (storers_converge .trusting [] [] recordTypeFeed 5 (7,9) [headOffer (some 5) 999000 1,headOffer (some 3) 999900 2]
    [headOffer (some 3) 999900 2,headOffer (some 5) 999000 1] (by decide +kernel) (by decide +kernel)
    (by decide +kernel) (.inr ⟨rfl,by decide +kernel⟩) (fun _ => by simp [or_comm])
    (by decide +kernel) (by decide +kernel) (by decide +kernel)).1

/-- A body of a head's type whose sequence cannot be read is ranked by date against heads ranked by
sequence against each other, and the three go round in a circle. -/
theorem storers_diverge : (∀ o ∈ [headOffer (some 5) 999000 1,headOffer none 999500 2,headOffer (some 3) 999900 3],
      o.Admissible .trusting recordTypeFeed 5 (7,9)) ∧
    new.Uncapped .trusting 5 (7,9) [headOffer (some 5) 999000 1,headOffer none 999500 2,headOffer (some 3) 999900 3] ∧
    new.Uncapped .trusting 5 (7,9) [headOffer (some 3) 999900 3,headOffer none 999500 2,headOffer (some 5) 999000 1] ∧
    (new.offered .trusting 5
        [headOffer (some 5) 999000 1,headOffer none 999500 2,headOffer (some 3) 999900 3]).holder 5 (7,9) ≠
      (new.offered .trusting 5
        [headOffer (some 3) 999900 3,headOffer none 999500 2,headOffer (some 5) 999000 1]).holder 5 (7,9) := by
  decide +kernel

end DhtStore
end Ember.Dht
