import Ember.Kad.IpFilter
import Ember.Library.Ranges

/-! The rows of a filter as ranges, and the set of addresses it blocks after any calls. -/
namespace Ember.Kad
open Ember.Dht Ember.Ranges

def toRange (r : IpRange) : Range := (r.start.toNat,r.stop.toNat+1)

def spans (rows : List IpRange) : List Range := rows.map toRange

def between (start stop : Ipv4Addr) : Set Ipv4Addr := { ip | start ≤ ip ∧ ip ≤ stop }

def addresses (rows : List IpRange) : Set Ipv4Addr := { ip | ∃ r ∈ rows, ip ∈ between r.start r.stop }

structure InOrder (rows : List IpRange) : Prop where
  proper : ∀ r ∈ rows, r.start ≤ r.stop
  sorted : rows.Pairwise fun r s => r.start ≤ s.start
  disjoint : rows.Pairwise fun r s => r.stop < s.start

section Rows
variable {rows others : List IpRange} {r : IpRange} {ip start stop : Ipv4Addr} {x : Ipv4Addr}

theorem covers_spans : Covers (spans rows) ip.toNat ↔ ip ∈ addresses rows := by
  simp only [Covers,spans,List.mem_map]
  constructor
  · rintro ⟨_,⟨r,member,rfl⟩,low,high⟩
    exact ⟨r,member,low,Nat.lt_succ_iff.1 high⟩
  · rintro ⟨r,member,low,high⟩
    exact ⟨_,⟨r,member,rfl⟩,low,Nat.lt_succ_iff.2 high⟩

theorem inOrder_of_apart (apart : Apart (spans rows)) : InOrder rows := by
  have proper : ∀ r ∈ rows, r.start ≤ r.stop := by
    intro r member
    have filled := apart.nonempty _ (List.mem_map_of_mem member)
    exact BitVec.le_def.2 (Nat.lt_succ_iff.1 filled)
  have spaced := List.pairwise_map.1 apart.spaced
  refine ⟨proper,spaced.imp_of_mem ?_,spaced.imp ?_⟩
  · intro r s first _ gap
    have filled := BitVec.le_def.1 (proper r first)
    simp only [toRange] at gap
    rw [BitVec.le_def]
    omega
  intro r s gap
  simp only [toRange] at gap
  rw [BitVec.lt_def]
  omega

theorem toNat_succ (room : x.toNat < 2^32-1) : (x+1).toNat = x.toNat+1 := by
  rw [BitVec.toNat_add,show (1 : BitVec 32).toNat = 1 from rfl]
  omega

theorem toNat_pred (positive : 0 < x.toNat) : (x-1).toNat+1 = x.toNat := by
  rw [BitVec.toNat_sub,show (1 : BitVec 32).toNat = 1 from rfl]
  omega

theorem saturatingSucc_le : start ≤ saturatingSucc stop ↔ start.toNat ≤ stop.toNat+1 := by
  unfold saturatingSucc
  split
  · rw [BitVec.le_def]
    omega
  · rw [BitVec.le_def,toNat_succ (by omega)]

theorem toRange_widen (last range : IpRange) :
    toRange (widen last range) = ((toRange last).1,max (toRange last).2 (toRange range).2) := by
  unfold toRange widen
  split
  next longer =>
    rw [BitVec.lt_def] at longer
    rw [max_eq_right (by omega)]
  next shorter =>
  rw [BitVec.lt_def] at shorter
  rw [max_eq_left (by omega)]

theorem spans_mergeFrom (last : IpRange) (rows : List IpRange) :
    spans (mergeFrom last rows) = fuse (toRange last) (spans rows) := by
  induction rows generalizing last with
  | nil => rfl
  | cons range rest ih =>
    have touching : range.start ≤ saturatingSucc last.stop ↔ (toRange range).1 ≤ (toRange last).2 := saturatingSucc_le
    change spans (if _ then _ else _) = if _ then _ else _
    by_cases joined : range.start ≤ saturatingSucc last.stop
    · rw [if_pos joined,if_pos (touching.1 joined),ih,toRange_widen]
      rfl
    · rw [if_neg joined,if_neg fun near => joined (touching.2 near)]
      exact congrArg (toRange last :: ·) (ih range)

theorem spans_sortByStart : spans (sortByStart rows) = byStart (spans rows) := by
  apply List.map_insertionSort
  intro a _ b _
  exact BitVec.le_def

theorem spans_mergeOverlapping : spans (mergeOverlapping (sortByStart rows)) = merge (spans rows) := by
  unfold merge
  rw [← spans_sortByStart]
  cases sortByStart rows with
  | nil => rfl
  | cons first rest => exact spans_mergeFrom first rest

theorem spans_outside : spans (IpFilter.outside start stop r) = leftover start.toNat (stop.toNat+1) (toRange r) := by
  have before : r.start < start ↔ (toRange r).1 < start.toNat := Iff.rfl
  have clear : (r.stop < start ∨ stop < r.start) ↔ (toRange r).2 ≤ start.toNat ∨ stop.toNat+1 ≤ (toRange r).1 := Iff.rfl
  have reaches : stop < r.stop ↔ stop.toNat+1 < (toRange r).2 := by
    rw [BitVec.lt_def,toRange]
    omega
  unfold IpFilter.outside leftover
  by_cases missed : r.stop < start ∨ stop < r.start
  · rw [if_pos missed,if_pos (clear.1 missed)]
    rfl
  rw [if_neg missed,if_neg fun far => missed (clear.2 far),spans,List.map_append]
  congr 1
  · by_cases early : r.start < start
    · rw [if_pos early,if_pos (before.1 early)]
      have positive : 0 < start.toNat := Nat.zero_lt_of_lt early
      rw [List.map_singleton,toRange,toNat_pred positive]
      rfl
    · rw [if_neg early,if_neg fun far => early (before.2 far)]
      rfl
  · by_cases past : stop < r.stop
    · rw [if_pos past,if_pos (reaches.1 past)]
      have room : stop.toNat < 2^32-1 := by
        rw [BitVec.lt_def] at past
        omega
      rw [List.map_singleton,toRange,toNat_succ room]
      rfl
    · rw [if_neg past,if_neg fun far => past (reaches.2 far)]
      rfl

theorem spans_cut :
    spans (rows.flatMap (IpFilter.outside start stop)) = cut start.toNat (stop.toNat+1) (spans rows) := by
  unfold spans cut
  rw [List.map_flatMap,List.flatMap_map]
  apply List.flatMap_congr
  intro r _
  exact spans_outside

theorem InOrder.eq_of_shared {s : IpRange} (ordered : InOrder rows) (member : r ∈ rows) (member' : s ∈ rows)
    (inside : ip ∈ between r.start r.stop) (inside' : ip ∈ between s.start s.stop) : r = s := by
  by_contra distinct
  have symmetric : Std.Symm fun r s : IpRange => r.stop < s.start ∨ s.stop < r.start := ⟨fun _ _ => Or.symm⟩
  have apart := (ordered.disjoint.imp Or.inl).forall (R := fun r s => r.stop < s.start ∨ s.stop < r.start) member member' distinct
  simp only [between,Set.mem_ofPred_eq,BitVec.le_def,BitVec.lt_def] at inside inside' apart
  omega

theorem addresses_filter (ordered : InOrder rows) {p : IpRange → Bool} :
    addresses (rows.filter (!p ·)) = addresses rows \ addresses (rows.filter p) := by
  ext ip
  simp only [addresses,List.mem_filter,Bool.not_eq_true']
  constructor
  · rintro ⟨r,⟨member,kept⟩,inside⟩
    refine ⟨⟨r,member,inside⟩,?_⟩
    rintro ⟨s,⟨member',dropped⟩,inside'⟩
    obtain rfl := ordered.eq_of_shared member member' inside inside'
    rw [kept] at dropped
    cases dropped
  · rintro ⟨⟨r,member,inside⟩,missed⟩
    refine ⟨r,⟨member,?_⟩,inside⟩
    apply Bool.eq_false_iff.2
    intro dropped
    exact missed ⟨r,⟨member,dropped⟩,inside⟩

theorem compareRange_gt : compareRange ip start stop = .gt ↔ ip.toNat < start.toNat := by
  unfold compareRange
  rw [← BitVec.lt_def]
  grind

theorem compareRange_lt : compareRange ip start stop = .lt ↔ start.toNat ≤ ip.toNat ∧ stop.toNat < ip.toNat := by
  unfold compareRange
  rw [← BitVec.lt_def,← Nat.not_lt,← BitVec.lt_def]
  grind

theorem compareRange_eq : compareRange ip start stop = .eq ↔ ip ∈ between start stop := by
  simp only [between,compareRange,BitVec.lt_def,BitVec.le_def]
  grind

theorem isSome_search {ρ : Type} {first last : ρ → Ipv4Addr} {list : List ρ}
    (proper : ∀ r ∈ list, first r ≤ last r) (disjoint : list.Pairwise fun r s => last r < first s) :
    (binarySearchBy (fun r => compareRange ip (first r) (last r)) list).isSome ↔ ∃ r ∈ list, ip ∈ between (first r) (last r) := by
  rw [isSome_binarySearchBy]
  · simp [compareRange_eq]
  apply disjoint.imp_of_mem
  intro r s member member' gap
  have filled := BitVec.le_def.1 (proper r member)
  rw [BitVec.lt_def] at gap
  simp only [ne_eq,compareRange_gt,compareRange_lt]
  omega

end Rows

/-- Filters calls can leave, with the addresses blocked and not given back. -/
inductive Built : IpFilter → Set Ipv4Addr → Prop
  | new (enabled blockPrivate : Bool) : Built (.new enabled blockPrivate) ∅
  | commitRanges {f S} (rows : List IpRange) : (∀ r ∈ rows, r.start ≤ r.stop) → Built f S →
      Built (f.commitRanges rows).1 (addresses rows)
  | replacePermitRanges {f S} (permits : List IpRange) : Built f S → Built (f.replacePermitRanges permits) S
  | addRange {f S} (start stop : Ipv4Addr) (description : String) : Built f S →
      Built (f.addRange start stop description).1 (S ∪ between start stop)
  | mergeRangesFrom {f S g T} : Built f S → Built g T → Built (f.mergeRangesFrom g) (S ∪ T)
  | removeRange {f S} (startIp endIp : String) : Built f S →
      Built (f.removeRange startIp endIp).1 (S \ addresses (f.blockedRanges.filter fun r =>
        parseIpv4 startIp = some r.start ∧ parseIpv4 endIp = some r.stop))
  | removeRangesWithin {f S} (start stop : Ipv4Addr) : Built f S →
      Built (f.removeRangesWithin start stop).1 (S \ between start stop)
  | setEnabled {f S} (enabled : Bool) : Built f S → Built (f.setEnabled enabled) S
  | setBlockPrivate {f S} (blockPrivate : Bool) : Built f S → Built (f.setBlockPrivate blockPrivate) S
  | markRangesReady {f S} : Built f S → Built f.markRangesReady S
  | markRangesNotReady {f S} : Built f S → Built f.markRangesNotReady S
  | isBlocked {f S} (ip : Ipv4Addr) : Built f S → Built (f.isBlocked ip).1 S
  | isBlockedReadonlyForKad {f S} (ip : Ipv4Addr) : Built f S → Built (f.isBlockedReadonlyForKad ip).1 S

/-- The rows of a filter, apart from each other, hold the addresses of `S`. -/
structure Blocks (rows : List IpRange) (S : Set Ipv4Addr) : Prop where
  apart : Apart (spans rows)
  held : addresses rows = S

namespace Blocks
variable {rows others : List IpRange} {S T : Set Ipv4Addr}

theorem respanned (blocks : Blocks rows S) (same : spans others = spans rows) : Blocks others S := by
  refine ⟨same ▸ blocks.apart,?_⟩
  rw [← blocks.held]
  ext ip
  rw [← covers_spans,← covers_spans,same]

theorem merged (proper : ∀ r ∈ rows, r.start ≤ r.stop) : Blocks (mergeOverlapping (sortByStart rows)) (addresses rows) := by
  have nonempty : ∀ r ∈ spans rows, r.1 < r.2 := by
    intro _ member
    obtain ⟨r,inside,rfl⟩ := List.mem_map.1 member
    exact Nat.lt_succ_iff.2 (BitVec.le_def.1 (proper r inside))
  constructor
  · rw [spans_mergeOverlapping]
    exact apart_merge nonempty
  · ext ip
    rw [← covers_spans,spans_mergeOverlapping,covers_merge,covers_spans]

theorem union (blocks : Blocks rows S) (proper : ∀ r ∈ others, r.start ≤ r.stop) (new : addresses others = T) :
    Blocks (mergeOverlapping (sortByStart (rows++others))) (S ∪ T) := by
  have whole : ∀ r ∈ rows++others, r.start ≤ r.stop := by
    intro r member
    rcases List.mem_append.1 member with old | added
    · exact (inOrder_of_apart blocks.apart).proper r old
    · exact proper r added
  have both : addresses (rows++others) = S ∪ T := by
    rw [← blocks.held,← new]
    ext ip
    simp [addresses,or_and_right,exists_or]
  exact both ▸ merged whole

theorem within (blocks : Blocks rows S) {start stop : Ipv4Addr} (proper : start ≤ stop) :
    Blocks (rows.flatMap (IpFilter.outside start stop)) (S \ between start stop) := by
  constructor
  · rw [spans_cut]
    exact blocks.apart.cut (Nat.lt_succ_iff.2 (BitVec.le_def.1 proper))
  rw [← blocks.held]
  ext ip
  rw [← covers_spans,spans_cut,covers_cut,covers_spans]
  apply and_congr_right
  intro _
  simp only [between,Set.mem_ofPred_eq,BitVec.le_def]
  omega

theorem filter (blocks : Blocks rows S) {p : IpRange → Bool} :
    Blocks (rows.filter (!p ·)) (S \ addresses (rows.filter p)) := by
  constructor
  · have fewer : (spans (rows.filter (!p ·))).Sublist (spans rows) := List.filter_sublist.map _
    exact ⟨fun r member => blocks.apart.nonempty r (fewer.subset member),blocks.apart.spaced.sublist fewer⟩
  · rw [addresses_filter (inOrder_of_apart blocks.apart),blocks.held]

end Blocks

section Calls
variable {f g : IpFilter} {S T : Set Ipv4Addr}

theorem between_empty {start stop : Ipv4Addr} (reversed : stop < start) : between start stop = ∅ := by
  ext ip
  simp only [between,Set.mem_ofPred_eq,BitVec.le_def,BitVec.lt_def,Set.mem_empty_iff_false,iff_false] at *
  omega

namespace Blocks

section
variable (blocks : Blocks f.blockedRanges S) {ip start stop : Ipv4Addr}
include blocks

theorem addRange {description : String} :
    Blocks (f.addRange start stop description).1.blockedRanges (S ∪ between start stop) := by
  unfold IpFilter.addRange
  split
  next reversed =>
    rw [between_empty reversed,Set.union_empty]
    exact blocks
  next proper =>
  apply blocks.union _ (by ext; simp [addresses])
  intro r member
  obtain rfl := List.mem_singleton.1 member
  exact BitVec.not_lt.1 proper

theorem mergeRangesFrom (blocks' : Blocks g.blockedRanges T) : Blocks (f.mergeRangesFrom g).blockedRanges (S ∪ T) := by
  unfold IpFilter.mergeRangesFrom
  split
  next empty =>
    have nothing : T = ∅ := by
      rw [← blocks'.held,List.isEmpty_iff.1 empty]
      simp [addresses]
    rw [nothing,Set.union_empty]
    exact blocks
  next => exact blocks.union (inOrder_of_apart blocks'.apart).proper blocks'.held

theorem removeRange {startIp endIp : String} :
    Blocks (f.removeRange startIp endIp).1.blockedRanges (S \ addresses (f.blockedRanges.filter fun r =>
      parseIpv4 startIp = some r.start ∧ parseIpv4 endIp = some r.stop)) := by
  unfold IpFilter.removeRange
  cases first : parseIpv4 startIp with
  | none => simpa [addresses] using blocks
  | some s =>
    cases last : parseIpv4 endIp with
    | none => simpa [addresses] using blocks
    | some e =>
      have kept : (fun r : IpRange => decide (r.start ≠ s ∨ r.stop ≠ e)) =
          fun r => !decide (some s = some r.start ∧ some e = some r.stop) := by
        funext r
        grind
      dsimp only
      rw [kept]
      exact blocks.filter

theorem removeRangesWithin : Blocks (f.removeRangesWithin start stop).1.blockedRanges (S \ between start stop) := by
  unfold IpFilter.removeRangesWithin
  split
  next reversed =>
    rw [between_empty reversed,Set.sdiff_empty]
    exact blocks
  next proper => exact blocks.within (BitVec.not_lt.1 proper)

theorem checkRanges : Blocks (f.checkRanges ip).1.blockedRanges S := by
  unfold IpFilter.checkRanges
  split
  next idx _ =>
    apply blocks.respanned
    apply List.ext_getElem?
    intro i
    change ((f.blockedRanges.modify idx _).map toRange)[i]? = (f.blockedRanges.map toRange)[i]?
    rw [List.getElem?_map,List.getElem?_map,List.getElem?_modify]
    cases f.blockedRanges[i]? with
    | none => rfl
    | some r => split <;> rfl
  next => exact blocks

theorem isBlocked : Blocks (f.isBlocked ip).1.blockedRanges S := by
  unfold IpFilter.isBlocked
  split_ifs
  · exact blocks
  · exact blocks
  · exact blocks
  · exact blocks.checkRanges
  · exact blocks

theorem isBlockedReadonlyForKad : Blocks (f.isBlockedReadonlyForKad ip).1.blockedRanges S := by
  unfold IpFilter.isBlockedReadonlyForKad
  split_ifs
  · exact blocks
  · exact blocks
  · exact blocks
  · exact blocks.checkRanges
  · exact blocks

end

end Blocks

theorem Built.blocks (built : Built f S) : Blocks f.blockedRanges S := by
  induction built with
  | new => exact ⟨Apart.nil,by simp [addresses,IpFilter.new]⟩
  | commitRanges _ proper _ _ => exact (Blocks.merged proper).respanned (List.map_map.trans rfl)
  | replacePermitRanges _ _ ih => exact ih
  | addRange start stop description _ ih => exact ih.addRange
  | mergeRangesFrom _ _ ih ih' => exact ih.mergeRangesFrom ih'
  | removeRange startIp endIp _ ih => exact ih.removeRange
  | removeRangesWithin start stop _ ih => exact ih.removeRangesWithin
  | setEnabled _ _ ih => exact ih
  | setBlockPrivate _ _ ih => exact ih
  | markRangesReady _ ih => exact ih
  | markRangesNotReady _ ih => exact ih
  | isBlocked ip _ ih => exact ih.isBlocked
  | isBlockedReadonlyForKad ip _ ih => exact ih.isBlockedReadonlyForKad

theorem checkRanges_iff (blocks : Blocks f.blockedRanges S) (ip : Ipv4Addr) : (f.checkRanges ip).2 = true ↔ ip ∈ S := by
  have ordered := inOrder_of_apart blocks.apart
  rw [← blocks.held]
  refine Iff.trans ?_ (isSome_search ordered.proper ordered.disjoint)
  unfold IpFilter.checkRanges
  split <;> simp_all

theorem snapshot_checkRanges_iff (blocks : Blocks f.blockedRanges S) (ip : Ipv4Addr) :
    (f.createSharedSnapshot.checkRanges ip).2 = true ↔ ip ∈ S := by
  have ordered := inOrder_of_apart blocks.apart
  have searched : (binarySearchBy (fun r => compareRange ip r.1 r.2) f.createSharedSnapshot.ranges).isSome ↔
      ip ∈ S := by
    rw [isSome_search]
    · simp [IpFilter.createSharedSnapshot,← blocks.held,addresses]
    · simpa [IpFilter.createSharedSnapshot] using ordered.proper
    · exact List.pairwise_map.2 ordered.disjoint
  unfold IpFilterSnapshot.checkRanges
  split <;> simp_all

/-- Whatever calls built a filter, its rows are in order and every check answers for the set they blocked. -/
theorem blocked_iff_replayed (built : Built f S) : InOrder f.blockedRanges ∧
    ∀ ip : Ipv4Addr, ip.isBogus = false → (f.blockPrivate && ip.isLanOrCgnat) = false →
      f.enabled = true → f.rangesReady = true → ((f.isBlocked ip).2 = true ↔ ip ∈ S) ∧
      ((f.isBlockedReadonly ip).2 = true ↔ ip ∈ S) ∧ ((f.isBlockedReadonlyForKad ip).2 = true ↔ ip ∈ S) ∧
      ((f.createSharedSnapshot.isBlocked ip).2 = true ↔ ip ∈ S) ∧
      ((f.createSharedSnapshot.isBlockedForKad ip).2 = true ↔ ip ∈ S) := by
  have blocks := built.blocks
  refine ⟨inOrder_of_apart blocks.apart,?_⟩
  intro ip routable shared enabled ready
  have searched := checkRanges_iff blocks ip
  have shown := snapshot_checkRanges_iff blocks ip
  have direct : f.isBlocked ip = f.checkRanges ip := by simp [IpFilter.isBlocked,routable,shared,enabled,ready]
  have kad : f.isBlockedReadonlyForKad ip = f.checkRanges ip := by
    simp [IpFilter.isBlockedReadonlyForKad,routable,shared,enabled,ready]
  have hidden : (f.createSharedSnapshot.blockPrivate && ip.isLanOrCgnat) = false := shared
  have enabled' : f.createSharedSnapshot.enabled = true := enabled
  have ready' : f.createSharedSnapshot.rangesReady = true := ready
  have upload : f.createSharedSnapshot.isBlocked ip = f.createSharedSnapshot.checkRanges ip := by
    simp [IpFilterSnapshot.isBlocked,routable,hidden,enabled',ready']
  have task : f.createSharedSnapshot.isBlockedForKad ip = f.createSharedSnapshot.checkRanges ip := by
    simp [IpFilterSnapshot.isBlockedForKad,routable,hidden,enabled',ready']
  rw [IpFilter.isBlockedReadonly,direct,kad,upload,task]
  exact ⟨searched,searched,searched,shown,shown⟩

end Calls

def trimmed : IpFilter :=
  let loaded := ((IpFilter.new true false).commitRanges
    [{ start := 0xC6000000, stop := 0xC6000001, description := "late" },
      { start := 0x08080000, stop := 0x080800FF, description := "early" }]).1
  ((loaded.removeRangesWithin 0x08080010 0x08080020).1.removeRange "198.0.0.0" "198.0.0.1").1

theorem blocked_iff_replayed_trimmed : ∃ S, Built trimmed S ∧ InOrder trimmed.blockedRanges ∧
    ((trimmed.isBlocked 0x08080005).2 = true ↔ 0x08080005 ∈ S) := by
  have built : Built trimmed _ := .removeRange _ _ (.removeRangesWithin _ _ (.commitRanges _ (by decide) (.new ..)))
  have settled := blocked_iff_replayed built
  exact ⟨_,built,settled.1,(settled.2 0x08080005 (by decide) (by decide) (by decide) (by decide)).1⟩

example : trimmed.blockedRanges.map (fun r => (r.start,r.stop)) = [(0x08080000,0x0808000F),(0x08080021,0x080800FF)] := by
  decide +kernel

end Ember.Kad
