import Ember.Dht.RoutingRun

/-! The indexes against the table: the bucket of an id is the highest bit it differs in from ours,
and the address index answers what a scan would. -/
namespace Ember.Dht
open List Option Prod

theorem log2_of_div {n m : Nat} (some : n/2^m ≠ 0) : n.log2 = m+(n/2^m).log2 := by
  have positive : n ≠ 0 := fun zero => some (by simp [zero])
  obtain ⟨low,high⟩ := (Nat.log2_eq_iff some).1 rfl
  rw [Nat.log2_eq_iff positive]
  constructor
  · rw [Nat.pow_add,Nat.mul_comm]
    exact (Nat.le_div_iff_mul_le (Nat.two_pow_pos m)).1 low
  · rw [Nat.add_assoc,Nat.pow_add,Nat.mul_comm]
    exact (Nat.div_lt_iff_lt_mul (Nat.two_pow_pos m)).1 high

theorem small_of_zero_bytes (n i : Nat) (fits : n < 256^16) (inside : i ≤ 16)
    (zeros : ∀ j < i, n/256^(15-j)%256 = 0) : n < 256^(16-i) := by
  induction i with
  | zero => exact fits
  | succ i ih =>
    have before := ih (by omega) fun j less => zeros j (by omega)
    have size : 256^(16-i) = 256*256^(15-i) := by
      rw [← Nat.pow_succ']
      congr 1
      omega
    have byte : n/256^(15-i) < 256 := by
      rw [Nat.div_lt_iff_lt_mul (Nat.pow_pos (by omega)),← size]
      exact before
    have zero := zeros i (by omega)
    rw [Nat.mod_eq_of_lt byte,Nat.div_eq_zero_iff] at zero
    rw [show 16-(i+1) = 15-i by omega]
    exact zero.resolve_left (Nat.pow_pos (by omega)).ne'

theorem leadingBitIndex_log2 {id : EmberNodeId} {k : Fin idBits} (found : leadingBitIndex id = some k) :
    id.toNat ≠ 0 ∧ id.toNat.log2 = k := by
  obtain ⟨front,i,back,split,hit,zeros⟩ := findSome?_eq_some_iff.1 found
  have position : front = List.range i ∧ i < 16 := by
    have length := congrArg List.length split
    simp only [length_range,length_append,length_cons] at length
    have at_i : (List.range 16)[front.length]? = some i := by rw [split]; simp
    rw [getElem?_range (by omega)] at at_i
    have same := some.inj at_i
    refine ⟨?_,by omega⟩
    have taken := congrArg (List.take front.length) split
    rw [take_left,take_range] at taken
    rw [← taken]
    congr 1
    omega
  obtain ⟨rfl,inside⟩ := position
  have small := small_of_zero_bytes id.toNat i (by have := id.isLt; norm_num at this ⊢; exact this) (by omega) fun j less => by
    have none := zeros j (mem_range.2 less)
    dsimp only at none
    split at none
    case isTrue => cases none
    case isFalse zero => exact not_not.1 zero
  have byte : id.toNat/256^(15-i) < 256 := by
    rw [Nat.div_lt_iff_lt_mul (Nat.pow_pos (by omega)),← Nat.pow_succ']
    rwa [show (15-i).succ = 16-i by omega]
  dsimp only at hit
  split at hit
  case isFalse => cases hit
  case isTrue some =>
    have index : 127-(i*8+(7-(id.toNat/256^(15-i)%256).log2)) = k := congrArg Fin.val (Option.some.inj hit)
    have power : 256^(15-i) = 2^(8*(15-i)) := by rw [Nat.pow_mul]
    rw [Nat.mod_eq_of_lt byte] at some index
    rw [power] at some byte index
    have bits : (id.toNat/2^(8*(15-i))).log2 < 8 := (Nat.log2_lt some).2 byte
    refine ⟨fun zero => some (by simp [zero]),?_⟩
    rw [log2_of_div some]
    omega

def PartAt (a b : EmberNodeId) (i : Nat) : Prop := (a^^^b).getLsbD i = true ∧ ∀ j, i < j → (a^^^b).getLsbD j = false

theorem bucketIndex_partAt {a b : EmberNodeId} {i : Fin idBits} (found : bucketIndex a b = some i) : PartAt a b i := by
  obtain ⟨some,bit⟩ := leadingBitIndex_log2 found
  constructor
  · rw [← bit]
    exact Nat.testBit_log2 some
  intro j above
  apply Nat.testBit_lt_two_pow
  calc (a^^^b).toNat < 2^((a^^^b).toNat.log2+1) := Nat.lt_log2_self
    _ ≤ 2^j := Nat.pow_le_pow_right (by omega) (by omega)

namespace RoutingTable

variable {scale : NetworkScale} {t : RoutingTable} {i : Fin idBits} {contact : EmberContact} {addr : IpAddr × Nat}

def seatOf (t : RoutingTable) (contact : EmberContact) : Fin idBits ×ₗ Nat :=
  let i := (bucketIndex t.localId contact.nodeId).getD ⟨0,by decide⟩
  toLex (i,(t.buckets i).contacts.idxOf contact)

section
variable (sound : Sound scale t)
include sound

theorem Sound.placed (seated : contact ∈ (t.buckets i).contacts) : bucketIndex t.localId contact.nodeId = some i :=
  (sound.bucket i).placed _ (mem_append_left _ (List.mem_map_of_mem seated))

theorem Sound.seatOf_eq (seated : contact ∈ (t.buckets i).contacts) :
    t.seatOf contact = toLex (i,(t.buckets i).contacts.idxOf contact) := by
  rw [seatOf,sound.placed seated]
  rfl

theorem Sound.nodup : (t.buckets i).contacts.Nodup :=
  Nodup.of_map _ (nodup_append.1 (sound.bucket i).distinct).1

theorem Sound.find_seated (seated : contact ∈ (t.buckets i).contacts) :
    (t.buckets i).find contact.nodeId = some contact := by
  cases found : (t.buckets i).find contact.nodeId with
  | none => exact absurd (List.mem_map_of_mem seated) (Bucket.find_none found)
  | some other =>
    obtain ⟨inside,same⟩ := Bucket.find_some found
    have distinct := (nodup_append.1 (sound.bucket i).distinct).1
    rw [inj_on_of_nodup_map distinct inside seated same]

theorem Sound.seats_sorted : t.allContacts.Pairwise fun c d => t.seatOf c < t.seatOf d := by
  rw [allContacts,gather,pairwise_flatMap]
  refine ⟨fun i _ => ?_,pairwise_lt_finRange idBits |>.imp fun {i j} before c here d there => ?_⟩
  · refine pairwise_iff_getElem.2 fun m n inside inside' less => ?_
    rw [sound.seatOf_eq (getElem_mem inside),sound.seatOf_eq (getElem_mem inside'),
      sound.nodup.idxOf_getElem,sound.nodup.idxOf_getElem,Prod.Lex.toLex_lt_toLex]
    exact .inr ⟨rfl,less⟩
  · rw [sound.seatOf_eq here,sound.seatOf_eq there,Prod.Lex.toLex_lt_toLex]
    exact .inl before

theorem Sound.find_first {p : EmberContact → Bool} {c d : EmberContact}
    (found : t.allContacts.find? p = some c) (member : d ∈ t.allContacts) (passes : p d = true) :
    t.seatOf c ≤ t.seatOf d := by
  obtain ⟨-,front,back,split,rejected⟩ := find?_eq_some_iff_append.1 found
  have sorted := sound.seats_sorted
  rw [split] at member sorted
  obtain early | late := mem_append.1 member
  · exact absurd passes (by simpa using rejected d early)
  obtain rfl | later := mem_cons.1 late
  · exact le_rfl
  · exact ((pairwise_cons.1 (pairwise_append.1 sorted).2.1).1 d later).le

end

theorem mem_allContacts : contact ∈ t.allContacts ↔ ∃ i, contact ∈ (t.buckets i).contacts := mem_gather

def entriesAt (t : RoutingTable) (addr : IpAddr × Nat) : List ((Bool ×ₗ (Fin idBits ×ₗ Nat)) × EmberContact) :=
  ((t.residents.byAddr.lookup addr).getD []).filterMap fun id => do
    let i ← bucketIndex t.localId id
    let contact ← (t.buckets i).find id
    some (toLex (!contact.isVerified,toLex (i,(t.buckets i).contacts.idxOf contact)),contact)

section
variable (sound : Sound scale t)
include sound

theorem Sound.listed (id : EmberNodeId) :
    id ∈ (t.residents.byAddr.lookup addr).getD [] ↔ ∃ c ∈ t.allContacts, c.addr = addr ∧ c.nodeId = id := by
  rw [(sound.addresses addr).1.mem_iff]
  simp [under,EmberContact.listing]

theorem Sound.mem_entriesAt {rank : Bool ×ₗ (Fin idBits ×ₗ Nat)} : (rank,contact) ∈ t.entriesAt addr ↔
      contact ∈ t.allContacts ∧ contact.addr = addr ∧ rank = toLex (!contact.isVerified,t.seatOf contact) := by
  simp only [entriesAt,mem_filterMap]
  constructor
  · rintro ⟨id,listed,read⟩
    simp only [bind_eq_bind,bind_eq_some_iff] at read
    obtain ⟨i,placed,c,found,rfl,rfl⟩ := read
    obtain ⟨d,member,at_addr,rfl⟩ := (sound.listed id).1 listed
    obtain ⟨j,there⟩ := mem_allContacts.1 member
    cases some.inj (placed.symm.trans (sound.placed there))
    cases some.inj (found.symm.trans (sound.find_seated there))
    exact ⟨member,at_addr,by rw [sound.seatOf_eq there]⟩
  · rintro ⟨member,at_addr,rfl⟩
    obtain ⟨i,seated⟩ := mem_allContacts.1 member
    refine ⟨contact.nodeId,(sound.listed _).2 ⟨contact,member,at_addr,rfl⟩,?_⟩
    simp [sound.placed seated,sound.find_seated seated,sound.seatOf_eq seated]

theorem Sound.seatOf_injective {c d : EmberContact} (member : c ∈ t.allContacts)
    (same : t.seatOf c = t.seatOf d) : c = d := by
  obtain ⟨i,here⟩ := mem_allContacts.1 member
  rw [sound.seatOf_eq here] at same
  obtain ⟨rfl,place⟩ := Prod.mk.inj (toLex.injective same)
  exact (idxOf_inj here).1 place

theorem Sound.scan_least (found : t.contactAtByScan addr = some contact) :
    contact ∈ t.allContacts ∧ contact.addr = addr ∧ ∀ d ∈ t.allContacts, d.addr = addr →
      toLex (!contact.isVerified,t.seatOf contact) ≤ toLex (!d.isVerified,t.seatOf d) := by
  obtain proven | ⟨none,first⟩ := or_eq_some_iff.1 found
  · have passes := find?_some proven
    simp only [Bool.and_eq_true,decide_eq_true_eq] at passes
    refine ⟨mem_of_find?_eq_some proven,passes.1,fun d member at_addr => ?_⟩
    rw [Prod.Lex.toLex_le_toLex,passes.2]
    cases verified : d.isVerified with
    | false => exact .inl Bool.false_lt_true
    | true => exact .inr ⟨rfl,sound.find_first proven member (by simp [at_addr,verified])⟩
  · have passes := find?_some first
    simp only [decide_eq_true_eq] at passes
    have unproven d (member : d ∈ t.allContacts) (at_addr : d.addr = addr) : d.isVerified = false := by
      simpa [at_addr] using find?_eq_none.1 none d member
    have member := mem_of_find?_eq_some first
    refine ⟨member,passes,fun d other at_addr => ?_⟩
    rw [Prod.Lex.toLex_le_toLex,unproven contact member passes,unproven d other at_addr]
    exact .inr ⟨rfl,sound.find_first first other (by simp [at_addr])⟩

theorem Sound.contactAt_eq_scan (addr : IpAddr × Nat) : t.contactAt addr = t.contactAtByScan addr := by
  show ((t.entriesAt addr).argmin fst).map snd = _
  cases least : (t.entriesAt addr).argmin fst with
  | none =>
    have nobody : t.entriesAt addr = [] := argmin_eq_none.1 least
    cases found : t.contactAtByScan addr with
    | none => rfl
    | some c =>
      obtain ⟨member,at_addr,-⟩ := sound.scan_least found
      have listed := sound.mem_entriesAt.2 ⟨member,at_addr,rfl⟩
      rw [nobody] at listed
      cases listed
  | some entry =>
    obtain ⟨rank,m⟩ := entry
    obtain ⟨member,at_addr,rfl⟩ := sound.mem_entriesAt.1 (argmin_mem least)
    cases found : t.contactAtByScan addr with
    | none =>
      have nobody := (or_eq_none_iff.1 found).2
      exact absurd at_addr (by simpa using find?_eq_none.1 nobody m member)
    | some c =>
      obtain ⟨member',at_addr',lowest⟩ := sound.scan_least found
      have below := le_of_mem_argmin (sound.mem_entriesAt.2 ⟨member',at_addr',rfl⟩) least
      have same := le_antisymm below (lowest m member at_addr)
      have seat := (Prod.mk.inj (toLex.injective same)).2
      simp [sound.seatOf_injective member seat]

end

structure Consistent (t : RoutingTable) : Prop where
  placed : ∀ i, ∀ c ∈ (t.buckets i).contacts++(t.buckets i).replacementCache, PartAt t.localId c.nodeId i
  seats : ∀ i, (t.buckets i).contacts.length ≤ kBucketSize
  caches : ∀ i, (t.buckets i).replacementCache.length ≤ kBucketSize
  distinct : ∀ i, (((t.buckets i).contacts++(t.buckets i).replacementCache).map EmberContact.nodeId).Nodup
  subnetCount : ∀ subnet, t.globalSubnetCount.lookup subnet =
    let recount := t.allContacts.countP fun c => c.subnetKey = subnet
    if recount = 0 then none else some recount
  ipCount : ∀ ip, t.globalIpCount.lookup ip =
    let recount := t.allContacts.countP fun c => c.ip = ip
    if recount = 0 then none else some recount
  verified : t.residents.verified = t.allContacts.countP EmberContact.isVerified
  byAddr : ∀ addr, t.residents.byAddr.lookup addr ≠ some [] ∧
    ((t.residents.byAddr.lookup addr).getD []).Perm
      ((t.allContacts.filter fun c => c.addr = addr).map EmberContact.nodeId)
  contactAt : ∀ addr, t.contactAt addr = t.contactAtByScan addr

theorem Sound.consistent (sound : Sound scale t) : Consistent t where
  placed i c member := by
    refine bucketIndex_partAt ((sound.bucket i).placed _ ?_)
    rw [← map_append]
    exact List.mem_map_of_mem member
  seats i := by simpa using (sound.bucket i).seats
  caches i := by simpa using (sound.bucket i).room
  distinct i := by
    rw [map_append]
    exact (sound.bucket i).distinct
  subnetCount subnet := by
    rw [sound.subnets subnet,count_map]
  ipCount ip := by
    rw [sound.ips ip,count_map]
  verified := sound.verified
  byAddr addr := by
    obtain ⟨listed,some⟩ := sound.addresses addr
    refine ⟨some,?_⟩
    rwa [under,List.filter_map,List.map_map] at listed
  contactAt := sound.contactAt_eq_scan

/-- Whatever arrives and whatever the clock reads, every table reached agrees with its indexes. -/
theorem run_consistent (localId : EmberNodeId) (blockPrivateIps : Bool) (ops : List RoutingOp) :
    ((new localId blockPrivateIps).run ops).localId = localId ∧ Consistent ((new localId blockPrivateIps).run ops) :=
  ⟨(run_intact new_sound).2,Sound.consistent (reached_intact localId blockPrivateIps ops)⟩

end RoutingTable
end Ember.Dht
