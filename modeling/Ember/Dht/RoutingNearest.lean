import Ember.Dht.Routing
import Ember.Dht.Search
import Ember.Library.Selection

/-! The k-set the routing table answers with: its nearest contacts, only a share of them from one block or address while
others can take the place. -/
namespace Ember.Dht
open List Option Table Prod

def kSetMaxPerSubnet : Nat := 3
def kSetMaxPerIp : Nat := 2

/-- A distance, the position of the scan it was met at, and what was met. -/
abbrev Entry (τ : Type) := BitVec 128 × Nat × τ

abbrev Scan := List (Entry EmberContact)

def entryKey {τ : Type} (e : Entry τ) : Nat ×ₗ Nat := toLex (e.1.toNat,e.2.1)

section Pick
variable (count : Nat) (pool : Scan)

structure Pick where
  perSubnet : Table Nat Nat := ∅
  perIp : Table IpAddr Nat := ∅
  taken : Scan := []
  passed : Scan := []

def Pick.offer (p : Pick) (entry : Entry EmberContact) : Pick :=
  let contact := entry.2.2
  if p.taken.length = count then p
  else if p.perSubnet.count contact.subnetKey < kSetMaxPerSubnet && p.perIp.count contact.ip < kSetMaxPerIp then
    { p with
      perSubnet := p.perSubnet.bump contact.subnetKey
      perIp := p.perIp.bump contact.ip
      taken := p.taken++[entry] }
  else { p with passed := p.passed++[entry] }

def pickDiverse : Pick := pool.foldl (Pick.offer count) {}

variable {τ : Type} (sel : Selection (@entryKey τ)) (entries : List (Entry τ))

def keepNearest : List (Entry τ) :=
  if count = 0 then []
  else sortByKey entryKey (if count < entries.length then (sel.select count entries).take count else entries)

end Pick

section Diverse
variable (sel : Selection (@entryKey EmberContact)) (entries : Scan) (count : Nat)

def keepNearestDiverse : Scan :=
  if count = 0 || entries.length ≤ count then keepNearest count sel entries
  else
    let front := min (count*4) entries.length
    let selected := sel.select front entries
    let sorted := sortByKey entryKey (selected.take front)
    let near := pickDiverse count sorted
    let pick := if near.taken.length < count && front < entries.length then
      pickDiverse count (sortByKey entryKey (sorted++selected.drop front)) else near
    sortByKey entryKey (pick.taken++pick.passed.take (count-pick.taken.length))

def withinShares (taken : Scan) (e : Entry EmberContact) : Bool :=
  taken.length < count && taken.countP (·.2.2.subnetKey = e.2.2.subnetKey) < kSetMaxPerSubnet &&
    taken.countP (·.2.2.ip = e.2.2.ip) < kSetMaxPerIp

def greedy (ranked : Scan) : Scan × Scan :=
  ranked.foldl (fun acc e => if withinShares count acc.1 e then (acc.1++[e],acc.2) else (acc.1,acc.2++[e])) ([],[])

def filled (ranked : Scan) : Scan :=
  (greedy count ranked).1++(greedy count ranked).2.take (count-(greedy count ranked).1.length)

/-- The whole list nearest first, and what is short filled from those passed over. -/
def diverse : Scan := sortByKey entryKey (filled count (sortByKey entryKey entries))

end Diverse

namespace RoutingTable
variable (t : RoutingTable) (sel : Selection (@entryKey EmberContact)) (target : EmberNodeId) (count k : Nat)

def eligible : Scan :=
  (t.allContacts.filter fun c => t.verifiedLen = 0 || c.isVerified).zipIdx.map fun (c,i) => (target^^^c.nodeId,i,c)

def findClosest : List EmberContact := (keepNearestDiverse sel (t.eligible target) count).map (·.2.2)

def kthClosestDistance : Option EmberNodeId :=
  if k = 0 then none
  else if (t.eligible target).length < k then none
  else (keepNearestDiverse sel (t.eligible target) k).getLast?.map (·.1)

end RoutingTable

section Greedy
variable {count : Nat} {xs : Scan} {e : Entry EmberContact}

theorem greedy_concat : greedy count (xs++[e]) = if withinShares count (greedy count xs).1 e then
    ((greedy count xs).1++[e],(greedy count xs).2) else ((greedy count xs).1,(greedy count xs).2++[e]) := by
  rw [greedy,foldl_append]
  rfl

theorem greedy_perm (count : Nat) (xs : Scan) : ((greedy count xs).1++(greedy count xs).2).Perm xs := by
  induction xs using List.reverseRecOn with
  | nil => exact .nil
  | append_singleton xs e ih =>
    rw [greedy_concat]
    split
    · refine Perm.trans ?_ (ih.append_right [e])
      rw [append_assoc,append_assoc]
      exact perm_append_comm.append_left _
    · rw [← append_assoc]
      exact ih.append_right [e]

theorem greedy_length_le (count : Nat) (xs : Scan) : (greedy count xs).1.length ≤ count := by
  induction xs using List.reverseRecOn with
  | nil => exact Nat.zero_le _
  | append_singleton xs e ih =>
    rw [greedy_concat]
    split
    next fits =>
      simp only [withinShares,Bool.and_eq_true,decide_eq_true_eq] at fits
      rw [length_append]
      exact fits.1.1
    next => exact ih

theorem greedy_full (ys : Scan) (full : (greedy count xs).1.length = count) : (greedy count (xs++ys)).1 = (greedy count xs).1 := by
  induction ys using List.reverseRecOn with
  | nil => simp
  | append_singleton ys e ih =>
    rw [← append_assoc,greedy_concat,if_neg]
    · exact ih
    · simp [withinShares,ih,full]

structure Pick.Greedy (count : Nat) (xs : Scan) (p : Pick) : Prop where
  taken : p.taken = (greedy count xs).1
  passed : p.taken.length < count → p.passed = (greedy count xs).2
  subnets : ∀ subnet, p.perSubnet.count subnet = p.taken.countP (·.2.2.subnetKey = subnet)
  ips : ∀ ip, p.perIp.count ip = p.taken.countP (·.2.2.ip = ip)

theorem Pick.Greedy.offer {p : Pick} (walked : p.Greedy count xs) : (p.offer count e).Greedy count (xs++[e]) := by
  unfold Pick.offer
  dsimp only
  split
  next full =>
    refine { walked with taken := ?_, passed := fun short => absurd full short.ne }
    exact walked.taken.trans (greedy_full [e] (walked.taken ▸ full)).symm
  next short =>
  have less : p.taken.length < count := lt_of_le_of_ne (walked.taken ▸ greedy_length_le count xs) short
  have shares : withinShares count (greedy count xs).1 e = (p.perSubnet.count e.2.2.subnetKey < kSetMaxPerSubnet &&
      p.perIp.count e.2.2.ip < kSetMaxPerIp) := by
    simp [withinShares,walked.subnets,walked.ips,← walked.taken,less]
  have turn : greedy count (xs++[e]) = _ := greedy_concat
  rw [shares] at turn
  split
  next fits =>
    rw [if_pos fits] at turn
    constructor
    · rw [turn,walked.taken]
    · exact fun _ => (walked.passed less).trans (congrArg snd turn).symm
    · intro subnet
      simp [count_bump,walked.subnets,eq_comm]
    · intro ip
      simp [count_bump,walked.ips,eq_comm]
  next held =>
    rw [if_neg held] at turn
    refine { walked with taken := ?_, passed := fun _ => ?_ }
    · rw [turn,walked.taken]
    · rw [turn,walked.passed less]

theorem pickDiverse_greedy : (pickDiverse count xs).Greedy count xs := by
  induction xs using List.reverseRecOn with
  | nil => exact ⟨rfl,fun _ => rfl,fun _ => rfl,fun _ => rfl⟩
  | append_singleton xs e ih =>
    rw [pickDiverse,foldl_append]
    exact ih.offer

theorem Pick.Greedy.filled {p : Pick} (walked : p.Greedy count xs) :
    p.taken++p.passed.take (count-p.taken.length) = filled count xs := by
  have le := walked.taken ▸ greedy_length_le count xs
  rw [Dht.filled,← walked.taken]
  obtain less | full := lt_or_eq_of_le le
  · rw [walked.passed less]
  · simp [full]

theorem filled_front {n : Nat} (full : (greedy count (xs.take n)).1.length = count) : filled count (xs.take n) = filled count xs := by
  have same := greedy_full (xs.drop n) full
  rw [take_append_drop] at same
  rw [filled,filled,same,full,Nat.sub_self,take_zero,take_zero]

theorem filled_whole (short : xs.length ≤ count) : (filled count xs).Perm xs := by
  have sizes := (greedy_perm count xs).length_eq
  rw [length_append] at sizes
  rw [filled,take_of_length_le (by omega)]
  exact greedy_perm count xs

theorem filled_subperm : (filled count xs).Subperm xs :=
  ((take_sublist ..).append_left _).subperm.trans (greedy_perm count xs).subperm

theorem length_filled : (filled count xs).length = min count xs.length := by
  have sizes := (greedy_perm count xs).length_eq
  have le := greedy_length_le count xs
  rw [length_append] at sizes
  rw [filled,length_append,length_take]
  omega

end Greedy

section Nearest
variable {sel : Selection (@entryKey EmberContact)} {entries : Scan} {count : Nat} {e : Entry EmberContact}

theorem length_diverse : (diverse entries count).length = min count entries.length := by
  rw [diverse,sortByKey,length_insertionSort,length_filled,sortByKey,length_insertionSort]

theorem diverse_zero : diverse entries 0 = [] := length_eq_zero_iff.1 (length_diverse.trans (Nat.zero_min _))

theorem keepNearestDiverse_eq (distinct : (entries.map entryKey).Nodup) : keepNearestDiverse sel entries count = diverse entries count := by
  unfold keepNearestDiverse
  split
  next few =>
    rw [Bool.or_eq_true,decide_eq_true_eq,decide_eq_true_eq] at few
    unfold keepNearest
    split
    next none =>
      subst none
      exact diverse_zero.symm
    next some =>
    have short := few.resolve_left some
    rw [if_neg (Nat.not_lt.2 short)]
    have sorted := perm_insertionSort (fun a b => entryKey a ≤ entryKey b) entries
    exact insertionSort_congr distinct ((filled_whole (sorted.length_eq.trans_le short)).trans sorted).symm
  next many =>
    have parts := sel.partitioned (min (count*4) entries.length) entries
    generalize min (count*4) entries.length = front at parts ⊢
    have near : sortByKey entryKey ((sel.select front entries).take front) = (sortByKey entryKey entries).take front :=
      parts.sort_front distinct
    have whole : sortByKey entryKey (sortByKey entryKey ((sel.select front entries).take front)++(sel.select front entries).drop front) =
        sortByKey entryKey entries := by
      refine (insertionSort_congr distinct ?_).symm
      refine (parts.perm.symm.trans (.of_eq (take_append_drop front _).symm)).trans ?_
      exact (perm_insertionSort ..).symm.append_right _
    dsimp only
    rw [whole,near]
    congr 1
    split
    next => exact pickDiverse_greedy.filled
    next enough =>
    rw [pickDiverse_greedy.filled]
    rw [Bool.and_eq_true,decide_eq_true_eq,decide_eq_true_eq,not_and_or,Nat.not_lt,Nat.not_lt] at enough
    obtain full | all := enough
    · rw [pickDiverse_greedy.taken] at full
      exact filled_front (Nat.le_antisymm (greedy_length_le ..) full)
    · rw [take_of_length_le (l := sortByKey entryKey entries) ((length_insertionSort ..).trans_le all)]

end Nearest

namespace RoutingTable
variable {t : RoutingTable} {target : EmberNodeId} {e : Entry EmberContact}

theorem eligible_distinct : ((t.eligible target).map entryKey).Nodup := by
  have positions : (((t.eligible target).map entryKey).map fun key => (ofLex key).2).Nodup := by
    simpa [eligible,entryKey,Function.comp_def] using nodup_zipIdx_map_snd _
  exact positions.of_map

end RoutingTable

theorem nearest_diverse_agrees (sel : Selection (@entryKey EmberContact)) :
    (∀ (entries : Scan) (count : Nat), (entries.map entryKey).Nodup →
      keepNearestDiverse sel entries count = diverse entries count ∧
        (keepNearestDiverse sel entries count).length = min count entries.length) ∧
    ∀ (t : RoutingTable) (target : EmberNodeId) (k : Nat), k ≤ (t.eligible target).length →
      t.kthClosestDistance sel target k = (t.findClosest sel target k).getLast?.map (target^^^·.nodeId) := by
  constructor
  · intro entries count distinct
    exact ⟨keepNearestDiverse_eq distinct,keepNearestDiverse_eq distinct ▸ length_diverse⟩
  intro t target k enough
  rw [RoutingTable.kthClosestDistance,RoutingTable.findClosest,keepNearestDiverse_eq RoutingTable.eligible_distinct,if_neg (Nat.not_lt.2 enough)]
  split
  next none =>
    rw [none,diverse_zero]
    rfl
  next some =>
  rw [getLast?_map]
  cases last : (diverse (t.eligible target) k).getLast? with
  | none => rfl
  | some e =>
    have kept := (mem_insertionSort _).1 (filled_subperm.subset ((mem_insertionSort _).1 (mem_of_getLast? last)))
    obtain ⟨_,_,rfl⟩ := mem_map.1 kept
    rfl

theorem nearest_diverse_agrees_crowded :
    let contact (id : EmberNodeId) (ip : Ipv4Addr) : EmberContact := { nodeId := id, ip := .v4 ip, port := 1 }
    let entries : Scan := [(1,0,contact 1 7),(2,1,contact 2 7),(3,2,contact 3 7),(4,3,contact 4 7),(5,4,contact 5 0x01000000)]
    let sel := Selection.bySort entryKey
    let t : RoutingTable := { RoutingTable.new 0 false with
      buckets := fun i => if i.val = 2 then { contacts := entries.map fun e => e.2.2 } else {} }
    (keepNearestDiverse sel entries 3 = diverse entries 3 ∧ (keepNearestDiverse sel entries 3).map fst = [1,2,5]) ∧
      t.kthClosestDistance sel 0 3 = (t.findClosest sel 0 3).getLast?.map (fun c => 0^^^c.nodeId) ∧
        t.kthClosestDistance sel 0 3 = some (5 : EmberNodeId) := by
  refine ⟨⟨((nearest_diverse_agrees _).1 _ _ ?_).1,?_⟩,(nearest_diverse_agrees _).2 _ _ _ ?_,?_⟩ <;> decide +kernel

end Ember.Dht
