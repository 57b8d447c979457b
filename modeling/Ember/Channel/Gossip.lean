import Ember.Library.Bisect
import Ember.Library.Ring

/-! The gossip links of a room. Each member picks its neighbours from the roster alone: those beside it in id order, one of
every scale of XOR distance, then the closest. -/
namespace Ember.Channel
open List

abbrev Pubkey := BitVec 256
abbrev ChannelId := BitVec 128

def ringNeighborsEachWay : Nat := 2

def xorBucket (distance : ChannelId) : Nat := ((List.range 128).find? distance.getMsbD).getD 128

abbrev RingOrder (a b : ChannelId × Pubkey) : Prop := toLex (a.1.toNat,a.2.toNat) ≤ toLex (b.1.toNat,b.2.toNat)

/-- Pushes what is not there yet while there are fewer than `k`, as a loop that stops at `k` does. -/
def pushUpTo (k : Nat) (out more : List Pubkey) : List Pubkey :=
  more.foldl (fun out pk => if out.length < k ∧ pk ∉ out then out++[pk] else out) out

/-- The first entry of each bucket, in a list sorted by bucket. -/
def firstPerBucket : Option Nat → List (Nat × ChannelId × Pubkey) → List Pubkey
  | _, [] => []
  | last, (bucket,_,pk) :: rest =>
    if last = some bucket then firstPerBucket last rest else pk :: firstPerBucket (some bucket) rest

section Links
variable (channelIdFromPubkey : Pubkey → ChannelId) (selfPub : Pubkey) (members : List Pubkey) (k : Nat)

def xorClosestNeighbors : List Pubkey :=
  let ranked := (members.filter (· ≠ selfPub)).map fun pk => (pk,channelIdFromPubkey selfPub^^^channelIdFromPubkey pk)
  ((ranked.insertionSort fun a b => a.2.toNat ≤ b.2.toNat).take k).map Prod.fst

def ring : List (ChannelId × Pubkey) :=
  let ids := (members.filter (· ≠ selfPub)).map fun pk => (channelIdFromPubkey pk,pk)
  (ids.insertionSort RingOrder).destutter (· ≠ ·)

/-- The places of the ring that get a slot, our own id sitting at `pos`. -/
def ringPlaces (n pos : Nat) : List Nat :=
  (List.range ringNeighborsEachWay).flatMap fun step => [(pos+step)%n,(pos+n-1-step%n)%n]

def ringNeighbors (ring : List (ChannelId × Pubkey)) : List Pubkey :=
  let pos := partitionPoint (fun e => e.1 < channelIdFromPubkey selfPub) ring
  pushUpTo k [] ((ringPlaces ring.length pos).filterMap fun index => ring[index]?.map Prod.snd)

def gossipNeighbors : List Pubkey :=
  if k = 0 then []
  else
    let selfId := channelIdFromPubkey selfPub
    let ring := ring channelIdFromPubkey selfPub members
    if ring.length = 0 then []
    else
      let out := ringNeighbors channelIdFromPubkey selfPub k ring
      let spread := (ring.map fun e => (xorBucket (selfId^^^e.1),selfId^^^e.1,e.2)).insertionSort fun a b =>
        toLex (a.1,toLex (a.2.1.toNat,a.2.2.toNat)) ≤ toLex (b.1,toLex (b.2.1.toNat,b.2.2.toNat))
      let out := pushUpTo k out (firstPerBucket none spread)
      pushUpTo k out (xorClosestNeighbors channelIdFromPubkey selfPub members k)

def idOrder : List Pubkey :=
  members.insertionSort fun a b => (channelIdFromPubkey a).toNat ≤ (channelIdFromPubkey b).toNat

/-- One of the nearest few members behind or before another in id order, round the ends. -/
def RingLinked (a b : Pubkey) : Prop :=
  ∃ row, Ring.Around (idOrder channelIdFromPubkey members) a row ∧ Ring.AtEnd ringNeighborsEachWay row b

end Links

/-- What a list has become by pushing some of `more` onto it, each once and only while there are fewer than `k`. -/
structure Grown (k : Nat) (out more grown : List Pubkey) : Prop where
  nodup : grown.Nodup
  keeps : out ⊆ grown
  origin : ∀ pk ∈ grown, pk ∈ out ∨ pk ∈ more
  few : grown.length ≤ k
  full : grown.length = k ∨ more ⊆ grown

section Pushes
variable {k : Nat} {out more grown : List Pubkey} {pk : Pubkey}

theorem Grown.skip (rest : Grown k out more grown) (held : grown.length = k ∨ pk ∈ out) : Grown k out (pk :: more) grown := by
  refine ⟨rest.nodup,rest.keeps,fun x member => (rest.origin x member).imp id (mem_cons_of_mem _),rest.few,?_⟩
  rcases held with full | held
  · exact .inl full
  · exact rest.full.imp id fun all => cons_subset.2 ⟨rest.keeps held,all⟩

theorem Grown.push (rest : Grown k (out++[pk]) more grown) : Grown k out (pk :: more) grown := by
  obtain ⟨kept,new⟩ := append_subset.1 rest.keeps
  refine ⟨rest.nodup,kept,fun x member => ?_,rest.few,rest.full.imp id fun all => cons_subset.2 ⟨new mem_cons_self,all⟩⟩
  have source := rest.origin x member
  rw [mem_append,mem_singleton,or_assoc] at source
  exact source.imp id mem_cons.2

theorem pushUpTo_grown (nodup : out.Nodup) (few : out.length ≤ k) : Grown k out more (pushUpTo k out more) := by
  induction more generalizing out with
  | nil => exact ⟨nodup,List.Subset.refl _,fun _ => .inl,few,.inr (nil_subset _)⟩
  | cons pk more ih =>
    rw [pushUpTo,foldl_cons]
    split
    next fits =>
      have pushed := nodup.append (nodup_singleton _) (disjoint_singleton.2 fits.2)
      exact (ih pushed (by rw [length_append]; exact fits.1)).push
    next kept =>
    have rest := ih nodup few
    refine rest.skip (or_iff_not_imp_right.2 fun fresh => Nat.le_antisymm rest.few ?_)
    have full : k ≤ out.length := Nat.not_lt.1 fun room => kept ⟨room,fresh⟩
    exact full.trans (Nodup.subperm nodup rest.keeps).length_le

theorem firstPerBucket_sublist {bucket : Option Nat} {entries : List (Nat × ChannelId × Pubkey)} :
    (firstPerBucket bucket entries).Sublist (entries.map fun e => e.2.2) := by
  fun_induction firstPerBucket bucket entries with
  | case1 => exact .slnil
  | case2 bucket _ pk rest ih => exact ih.cons _
  | case3 last bucket _ pk rest _ ih => exact ih.cons_cons _

end Pushes

theorem place_of_atEnd {row : List Pubkey} {b : Pubkey} {reach : Nat} (ends : Ring.AtEnd reach row b) :
    ∃ step < reach, row[step%row.length]? = some b ∨ row[row.length-1-step%row.length]? = some b := by
  rcases ends with ahead | behind
  · obtain ⟨j,few,is⟩ := mem_take_iff_getElem.1 ahead
    refine ⟨j,few.trans_le (Nat.min_le_left ..),.inl ?_⟩
    rw [Nat.mod_eq_of_lt (few.trans_le (Nat.min_le_right ..)),getElem?_eq_getElem (by omega),is]
  obtain ⟨j,few,is⟩ := mem_take_iff_getElem.1 behind
  rw [length_reverse] at few
  rw [getElem_reverse] at is
  refine ⟨j,few.trans_le (Nat.min_le_left ..),.inr ?_⟩
  rw [Nat.mod_eq_of_lt (few.trans_le (Nat.min_le_right ..)),getElem?_eq_getElem (by omega),is]

section Roster
variable {id : Pubkey → ChannelId} {roster : List Pubkey} {a : Pubkey} {k : Nat}

theorem idOrder_perm : (idOrder id roster).Perm roster := perm_insertionSort ..

theorem idOrder_strict (distinct : roster.Nodup) (named : Set.InjOn id {pk | pk ∈ roster}) :
    (idOrder id roster).Pairwise fun a b => (id a).toNat < (id b).toNat := by
  have sorted : (idOrder id roster).Pairwise fun a b => (id a).toNat ≤ (id b).toNat := pairwise_insertionSort ..
  apply (sorted.and (idOrder_perm.nodup_iff.2 distinct)).imp_of_mem
  rintro a b here there ⟨order,apart⟩
  refine lt_of_le_of_ne order fun same => apart (named ?_ ?_ (BitVec.eq_of_toNat_eq same))
  · exact idOrder_perm.mem_iff.1 here
  · exact idOrder_perm.mem_iff.1 there

variable (distinct : roster.Nodup) {first last : List Pubkey} (split : idOrder id roster = first++a :: last)
include distinct split

theorem others_perm : (roster.filter (· ≠ a)).Perm (first++last) := by
  have same : (first++a :: last).Perm roster := split ▸ idOrder_perm
  have apart := (nodup_middle.1 (same.nodup_iff.2 distinct)).notMem
  refine (same.symm.filter _).trans (Perm.of_eq ?_)
  rw [filter_append,filter_cons_of_neg (by simp),← filter_append,filter_eq_self]
  intro x member
  exact decide_eq_true fun same => apart (same ▸ member)

theorem closest_eq : ∃ others : List Pubkey, others.Perm (first++last) ∧ xorClosestNeighbors id a roster k = others.take k := by
  refine ⟨_,?_,map_take⟩
  refine ((perm_insertionSort ..).map _).trans ?_
  rw [map_map]
  exact (Perm.of_eq (map_id _)).trans (others_perm distinct split)

variable (named : Set.InjOn id {pk | pk ∈ roster})
include named

theorem ring_eq : ring id a roster = (first++last).map fun pk => (id pk,pk) := by
  have strict := idOrder_strict distinct named
  rw [split] at strict
  have less := strict.sublist ((sublist_cons_self a last).append_left first)
  have ordered : ((first++last).map fun pk => (id pk,pk)).Pairwise RingOrder :=
    pairwise_map.2 (less.imp fun less => (Prod.Lex.toLex_lt_toLex.2 (.inl less)).le)
  have sorted : ((roster.filter (· ≠ a)).map fun pk => (id pk,pk)).insertionSort RingOrder = (first++last).map fun pk => (id pk,pk) := by
    refine Perm.eq_of_pairwise (fun x y _ _ le ge => ?_) (pairwise_insertionSort ..) ordered
      ((perm_insertionSort ..).trans ((others_perm distinct split).map _))
    have same := Prod.mk.inj (toLex.injective (le_antisymm le ge))
    exact Prod.ext (BitVec.eq_of_toNat_eq same.1) (BitVec.eq_of_toNat_eq same.2)
  unfold ring
  dsimp only
  rw [sorted,destutter_of_isChain]
  refine (pairwise_map.2 (less.imp fun less same => ?_)).isChain
  rw [(Prod.mk.inj same).1] at less
  exact lt_irrefl _ less

theorem pos_eq : partitionPoint (fun e => e.1 < id a) (ring id a roster) = first.length := by
  have strict := idOrder_strict distinct named
  rw [split,pairwise_append,pairwise_cons] at strict
  obtain ⟨-,⟨behind,-⟩,before⟩ := strict
  rw [ring_eq distinct split named,map_append]
  apply partitionPoint_eq
  intro i
  rw [Option.any_eq_true]
  constructor
  · rintro ⟨e,found,less⟩
    by_contra late
    rw [getElem?_append_right (by simpa using late)] at found
    obtain ⟨pk,member,rfl⟩ := mem_map.1 (mem_of_getElem? found)
    exact lt_asymm (behind pk member) (of_decide_eq_true less)
  intro early
  refine ⟨(id first[i],first[i]),?_,decide_eq_true (before _ (getElem_mem early) a mem_cons_self)⟩
  rw [getElem?_append_left (by simpa using early),getElem?_map,getElem?_eq_getElem early]
  rfl

theorem mem_picked {b : Pubkey} (some : 0 < (last++first).length) :
    b ∈ ((ringPlaces (ring id a roster).length (partitionPoint (fun e => e.1 < id a) (ring id a roster))).filterMap fun index =>
      (ring id a roster)[index]?.map Prod.snd) ↔ ∃ step < ringNeighborsEachWay,
        (last++first)[step%(last++first).length]? = .some b ∨ (last++first)[(last++first).length-1-step%(last++first).length]? = .some b := by
  have place {i index : Nat} (inside : i < (last++first).length) (is : index = i+first.length) :
      ((ring id a roster)[index%(last++first).length]?).map Prod.snd = (last++first)[i]? := by
    rw [← rotate_append_length_eq first last,getElem?_rotate (by simpa [Nat.add_comm] using inside),
      ring_eq distinct split named,getElem?_map,Option.map_map,is,length_rotate]
    exact Option.map_id'
  have length : (ring id a roster).length = (last++first).length := by
    rw [ring_eq distinct split named,length_map,length_append,length_append,Nat.add_comm]
  have ahead step := place (Nat.mod_lt step some) rfl
  have behind step := @place ((last++first).length-1-step%(last++first).length)
    (first.length+(last++first).length-1-step%(last++first).length) (by omega) (by have := Nat.mod_lt step some; omega)
  simp only [Nat.add_comm _ first.length,Nat.add_mod_mod] at ahead
  simp only [mem_filterMap,ringPlaces,mem_flatMap,mem_range,mem_cons,not_mem_nil,or_false,
    pos_eq distinct split named,length]
  constructor
  · rintro ⟨index,⟨step,near,rfl | rfl⟩,found⟩
    · exact ⟨step,near,.inl (ahead step ▸ found)⟩
    · exact ⟨step,near,.inr (behind step ▸ found)⟩
  rintro ⟨step,near,found | found⟩
  · exact ⟨_,⟨step,near,.inl rfl⟩,(ahead step).trans found⟩
  · exact ⟨_,⟨step,near,.inr rfl⟩,(behind step).trans found⟩

end Roster

section Mesh
variable {id : Pubkey → ChannelId} {roster : List Pubkey} {a : Pubkey} {k : Nat} (distinct : roster.Nodup)
  (named : Set.InjOn id {pk | pk ∈ roster}) (many : 2 ≤ roster.length) (room : 2*ringNeighborsEachWay ≤ k)
include distinct named many room

theorem gossipNeighbors_spec (member : a ∈ roster) :
    let out := gossipNeighbors id a roster k
    ∃ row, Ring.Around (idOrder id roster) a row ∧ out.Nodup ∧ out ⊆ row ∧ out.length = min k (roster.length-1) ∧
      ∀ b, Ring.AtEnd ringNeighborsEachWay row b → b ∈ out := by
  obtain ⟨first,last,split⟩ := append_of_mem (idOrder_perm.mem_iff.2 member)
  have length : (ring id a roster).length = (first++last).length := by simp [ring_eq distinct split named]
  have others := congrArg List.length split
  rw [idOrder_perm.length_eq,length_append,length_cons,← Nat.add_assoc,← length_append] at others
  have picks := fun b => @mem_picked id roster a distinct first last split named b (by rw [length_append] at others ⊢; omega)
  obtain ⟨near,same,closest⟩ := @closest_eq id roster a k distinct first last split
  refine ⟨last++first,Ring.around_split split,?_⟩
  unfold gossipNeighbors
  rw [if_neg (by have : 2*ringNeighborsEachWay = 4 := rfl; omega)]
  dsimp only
  rw [if_neg (by omega),closest]
  have one : Grown k [] _ (ringNeighbors id a k (ring id a roster)) := pushUpTo_grown nodup_nil (Nat.zero_le _)
  generalize picked_ : List.filterMap _ _ = picked at picks one
  generalize spread : firstPerBucket none _ = scales
  have two := @pushUpTo_grown k _ scales one.nodup one.few
  have three := @pushUpTo_grown k _ (near.take k) two.nodup two.few
  generalize ringNeighbors id a k (ring id a roster) = out at one two three
  generalize pushUpTo k out scales = out' at two three
  generalize pushUpTo k out' (near.take k) = out'' at three
  have held : picked ⊆ out := by
    rcases one.full with full | held
    · have short : picked.length ≤ k := picked_ ▸ (length_filterMap_le ..).trans room
      have most := Nodup.subperm one.nodup fun pk member => (one.origin pk member).resolve_left not_mem_nil
      exact (most.perm_of_length_le (full ▸ short)).symm.subset
    · exact held
  have inside : out'' ⊆ first++last := by
    intro pk member
    rcases three.origin pk member with second | close
    · rcases two.origin pk second with first | scale
      · obtain ⟨step,_,ahead | behind⟩ := (picks pk).1 ((one.origin pk first).resolve_left not_mem_nil)
        · exact perm_append_comm.subset (mem_of_getElem? ahead)
        · exact perm_append_comm.subset (mem_of_getElem? behind)
      obtain ⟨e,sorted,rfl⟩ := mem_map.1 ((firstPerBucket_sublist ..).subset (spread ▸ scale))
      obtain ⟨e,among,rfl⟩ := mem_map.1 ((mem_insertionSort _).1 sorted)
      rw [ring_eq distinct split named] at among
      obtain ⟨pk,other,rfl⟩ := mem_map.1 among
      exact other
    · exact same.subset (mem_of_mem_take close)
  refine ⟨three.nodup,fun pk member => perm_append_comm.subset (inside member),?_,
    fun b at_end => three.keeps (two.keeps (held ((picks b).2 (place_of_atEnd at_end))))⟩
  rw [others,Nat.add_sub_cancel]
  refine Nat.le_antisymm (Nat.le_min.2 ⟨three.few,(Nodup.subperm three.nodup inside).length_le⟩) ?_
  rcases three.full with full | all
  · exact full ▸ Nat.min_le_left ..
  rw [← same.length_eq,← length_take]
  have nodup : near.Nodup := (same.trans (others_perm distinct split).symm).nodup_iff.2 (distinct.filter _)
  exact (Nodup.subperm (nodup.sublist (take_sublist ..)) all).length_le

/-- A room of distinct ids hangs together: every member has as many neighbours as it may, other members and none twice,
those beside it in id order among them; standing beside is mutual, and along such links a line one member says reaches
every other. -/
theorem mesh_connected :
    (∀ a ∈ roster, let out := gossipNeighbors id a roster k
      a ∉ out ∧ out.Nodup ∧ out.length = min k (roster.length-1) ∧ out ⊆ roster ∧ ∀ b, RingLinked id roster a b → b ∈ out) ∧
    (∀ a ∈ roster, ∀ b ∈ roster, RingLinked id roster a b ↔ RingLinked id roster b a) ∧
    ∀ a ∈ roster, ∀ b ∈ roster, Relation.ReflTransGen (fun x y => y ∈ gossipNeighbors id x roster k) a b := by
  have nodup : (idOrder id roster).Nodup := idOrder_perm.nodup_iff.2 distinct
  have onRing pk : pk ∈ idOrder id roster ↔ pk ∈ roster := idOrder_perm.mem_iff
  have spec {a : Pubkey} (member : a ∈ roster) := gossipNeighbors_spec distinct named many room member
  have linked {a b : Pubkey} (member : a ∈ roster) (link : RingLinked id roster a b) : b ∈ gossipNeighbors id a roster k := by
    obtain ⟨row,around,_,_,_,ends⟩ := spec member
    obtain ⟨row',around',at_end⟩ := link
    exact ends b (around.unique nodup around' ▸ at_end)
  have turned {a b : Pubkey} (here : a ∈ roster) (there : b ∈ roster) (link : RingLinked id roster a b) : RingLinked id roster b a := by
    obtain ⟨row,around,ends⟩ := link
    obtain ⟨row',around',_⟩ := spec there
    rcases around.mem.1 ((onRing b).2 there) with rfl | other
    · exact ⟨row,around,ends⟩
    · exact ⟨row',around',(Ring.atEnd_symm nodup around around' other).1 ends⟩
  refine ⟨fun a member => ?_,fun a here b there => ⟨turned here there,turned there here⟩,fun a here b there => ?_⟩
  · obtain ⟨row,around,once,inside,count,_⟩ := spec member
    have apart := (nodup_cons.1 (around.nodup_iff.1 nodup)).1
    exact ⟨fun own => apart (inside own),once,count,fun b other => (onRing b).1 (around.mem.2 (.inr (inside other))),
      fun b => linked member⟩
  · refine Ring.reaches_all (fun x y row around => ?_) ((onRing a).2 here) ((onRing b).2 there)
    exact linked ((onRing x).1 (around.mem.2 (.inl rfl))) ⟨_,around,.inl mem_cons_self⟩

end Mesh

def seven : List Pubkey := [5,3,9,1,12,7,14]
def lowHalf (pk : Pubkey) : ChannelId := pk.setWidth 128

theorem mesh_connected_seven : (gossipNeighbors lowHalf 5 seven 4).length = 4 ∧ 14 ∉ gossipNeighbors lowHalf 5 seven 4 ∧
      Relation.ReflTransGen (fun x y => y ∈ gossipNeighbors lowHalf x seven 4) 5 14 := by
  have apart : (seven.map lowHalf).Nodup := by decide +kernel
  have named : Set.InjOn lowHalf {pk | pk ∈ seven} := fun a here b there => inj_on_of_nodup_map apart here there
  obtain ⟨_,_,reach⟩ := @mesh_connected lowHalf seven 4 (by decide +kernel) named (by decide +kernel) (by decide +kernel)
  exact ⟨by decide +kernel,by decide +kernel,reach 5 (by decide +kernel) 14 (by decide +kernel)⟩

end Ember.Channel
