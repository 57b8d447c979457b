import Ember.Kad.EvictionCost

/-! An index filled to its byte cap by small records. A publish that asks for more than eight of them sheds
eight and is refused. -/
namespace Ember.Kad.DhtStore
open Item Multiset AList
variable {s : DhtStore} {p : Packet} {entry : PublishEntry} {gone : Multiset Item} {b : Batch}

def Newcomer (p : Packet) (m : Multiset Item) : Prop := ∀ x ∈ m, x.1 ≠ p.target ∧ x.2.budgetKey ≠ p.budgetKey

theorem shelf_newcomer (newcomer : Newcomer p s.keywords) : shelf s.keywordEntries p.target = [] := by
  rw [List.eq_nil_iff_forall_not_mem]
  exact fun e member => (newcomer (p.target,e) (mem_stock.2 member)).1 rfl

theorem opened_newcomer (sound : s.Sound) (newcomer : Newcomer p s.keywords) :
    (s.opened p).store.keywords = s.keywords ∧ (s.opened p).store.totalCount = s.totalCount ∧
    (s.opened p).store.totalRetainedBytes = s.totalRetainedBytes ∧ (s.opened p).senderEntryCount = 0 := by
  have bare := shelf_newcomer newcomer
  have shed := shed_pruneKeywords sound.kept p.now p.target
  rw [bare] at shed
  have same : (s.opened p).store.keywords = s.keywords := by rw [shed.keywords]; exact (add_zero _).symm
  refine ⟨same,shed.count,shed.bytes,?_⟩
  change ((s.opened p).store.senderEntries p).length = 0
  rw [length_senderEntries,same]
  exact held_eq_zero _ _ fun x member own => (newcomer x member).1 own.1

theorem replaced_newcomer (newcomer : Newcomer p s.keywords) (id : KadId) : s.replaced p id = none := by
  rw [replaced,List.find?_eq_none]
  exact fun e member => absurd rfl (newcomer (p.target,e) (mem_stock.2 member)).1

theorem allowed_newcomer (sound : b.Sound p) (newcomer : Newcomer p b.store.keywords) (count : b.senderEntryCount = 0)
    (small : sizeOfTags entry.tags ≤ maxRetainedBytesPerEntry) : b.overAllowance p entry.id (sizeOfTags entry.tags) = false := by
  have key : ∀ w, held (Under p.target) w b.store.keywords = 0 := fun w => held_eq_zero _ _ fun x member => (newcomer x member).1
  have sender : ∀ w, held (From (p.target,p.senderId)) w b.store.keywords = 0 := fun w =>
    held_eq_zero _ _ fun x member own => (newcomer x member).1 own.1
  have publisher : ∀ w, held (ChargedTo p.budgetKey) w b.store.keywords = 0 := fun w => held_eq_zero _ _ fun x member => (newcomer x member).2
  have bucket := key one
  have bytes := key size
  rw [DhtStore.keywords,← length_shelf] at bucket
  rw [DhtStore.keywords,← bytes_shelf] at bytes
  simp only [Batch.overAllowance,replaced_newcomer newcomer,usage_entries sound.kept,usage_bytes sound.kept,bucket,bytes_senderEntries,
    sender,publisher,count]
  unfold maxRetainedBytesPerEntry at small
  simp [maxKeywordEntriesPerSender,maxEntriesPerKey,maxKeywordEntriesPerPublisher,maxRetainedBytesPerKey,
    maxRetainedBytesPerPublisherPerKey,maxKeywordBytesPerPublisher]
  omega

theorem offer_allowed (content : keywordEntryHasMinContent entry.tags = true)
    (sized : normalizeAndSizeTags entry.tags = some (entry.tags,sizeOfTags entry.tags))
    (allowed : b.overAllowance p entry.id (sizeOfTags entry.tags) = false) :
    b.offer p entry = (b.makeRoom p entry.id (sizeOfTags entry.tags)).enter p (p.stored entry) :=
  ((Batch.offer_cases p b entry).resolve_left fun refused => refused.1 ⟨content,by rw [sized]; rfl,allowed⟩).2

def inOrder : Iteration := ⟨keys,keys,fun _ => .refl _,fun _ => .refl _⟩

def peer (i : Nat) : Packet := ⟨0,fun _ => inOrder,.ofNat 128 i,.ofNat 128 i,some (.ofNat 32 i)⟩

@[irreducible] def smallTags : List KadTag := [⟨.id tagFilename,.string (List.replicate 3896 97)⟩,⟨.id tagFilesize,.uint32 1⟩]

def Storable (tags : List KadTag) (size : Nat) : Prop :=
  keywordEntryHasMinContent tags = true ∧ normalizeAndSizeTags tags = some (tags,sizeOfTags tags) ∧ sizeOfTags tags = size

theorem storable_small : Storable smallTags 4096 := by unfold Storable; decide +kernel
def Flooded (n : Nat) (s : DhtStore) : Prop :=
  s.totalCount = n ∧ s.totalRetainedBytes = 4096*n ∧ s.keywords.card = n ∧
    ∀ x ∈ s.keywords, ∃ i < n, x = item (peer i) ⟨.ofNat 128 i,smallTags⟩

theorem Flooded.newcomer {n i : Nat} (flooded : Flooded n s) (fresh : n ≤ i) (bound : i < 2^32) : Newcomer (peer i) s.keywords := by
  intro x member
  obtain ⟨j,below,rfl⟩ := flooded.2.2.2 x member
  have other : ∀ w ≥ 32, BitVec.ofNat w j ≠ BitVec.ofNat w i := by
    intro w wide same
    have large : (2:Nat)^32 ≤ 2^w := Nat.pow_le_pow_right (by decide) wide
    have equal := congrArg BitVec.toNat same
    rw [BitVec.toNat_ofNat,BitVec.toNat_ofNat,Nat.mod_eq_of_lt (by omega),Nat.mod_eq_of_lt (by omega)] at equal
    omega
  refine ⟨other 128 (by decide),fun same => other 32 le_rfl ?_⟩
  exact PublisherKey.ip.inj same

section Full
variable {weight : Nat} (flooded : Flooded 16384 s) (storable : Storable entry.tags weight) {gone : Multiset Item}
include flooded

theorem Flooded.weight_gone (part : gone ≤ s.keywords) : weightOf gone = 4096*gone.card := by
  have each : ∀ n ∈ gone.map size, n = 4096 := by
    intro n member
    obtain ⟨x,inside,rfl⟩ := mem_map.1 member
    obtain ⟨i,-,rfl⟩ := flooded.2.2.2 x (mem_of_le part inside)
    exact storable_small.2.2
  rw [weightOf,eq_replicate.2 ⟨card_map size gone,each⟩,sum_replicate]
  exact Nat.mul_comm ..

include storable

/-- Into the full index nothing goes without evictions: the pass frees the bytes asked for, or spends all eight. -/
theorem Flooded.makeRoom (sound : s.Sound) :
    let b := s.opened (peer 20000)
    ∃ (mid : Batch) (gone : Multiset Item), b.offer (peer 20000) entry = mid.enter (peer 20000) ((peer 20000).stored entry) ∧
      b.overAllowance (peer 20000) entry.id weight = false ∧ mid.Sound (peer 20000) ∧ b.store.keywords = s.keywords ∧
      s.keywords = mid.store.keywords+gone ∧ mid.store.totalRetainedBytes = 4096*16384-4096*gone.card ∧
      (weight ≤ 4096*gone.card ∧ gone.card ≤ 8 ∨ gone.card = 8) := by
  obtain ⟨content,sized,rfl⟩ := storable
  have newcomer := flooded.newcomer (by decide : 16384 ≤ 20000) (by decide)
  obtain ⟨same,count,total,none⟩ := opened_newcomer sound newcomer
  have newcomer' : Newcomer (peer 20000) (s.opened (peer 20000)).store.keywords := same.symm ▸ newcomer
  have allowed := allowed_newcomer (sound.opened (peer 20000)) newcomer' none (normalizeAndSizeTags_some sized).2.2
  have positive := sizeOfTags_pos entry.tags
  have old : (s.opened (peer 20000)).oldBytes (peer 20000) entry.id = 0 := by
    rw [Batch.oldBytes,replaced_newcomer newcomer']
    rfl
  have needs : (s.opened (peer 20000)).needsRoom (peer 20000) entry.id (sizeOfTags entry.tags) = true := by
    have beyond : maxTotalRetainedBytes < 4096*16384+sizeOfTags entry.tags := by rw [maxTotalRetainedBytes]; omega
    simp only [Batch.needsRoom,old,total,flooded.2.1,decide_eq_true beyond,Bool.true_or,Bool.and_self]
  obtain ⟨gone,evicted,after,spent,-,made⟩ := (sound.opened (peer 20000)).makeRoom entry.id (sizeOfTags entry.tags)
  have split := evicted.keywords
  rw [same] at split
  have part : gone ≤ s.keywords := split ▸ Multiset.le_add_left ..
  have weigh := flooded.weight_gone part
  have eight : (s.opened (peer 20000)).evictionBudget = 8 := rfl
  refine ⟨_,gone,offer_allowed content sized allowed,allowed,after,same,split,?_,?_⟩
  · rw [evicted.bytes,total,flooded.2.1,weigh]
  have stopped := made needs
  obtain enough | spentAll | nothing := stopped
  · omega
  · omega
  · have all := flooded.2.2.1
    rw [split,nothing,zero_add] at all
    omega

omit storable

theorem Flooded.lost {mid : Multiset Item} (sound : s.Sound) (split : s.keywords = mid+gone) (x : Item) (went : x ∈ gone) :
    x.2.isExpired (peer 20000).now = false ∧ x.2.budgetKey ≠ (peer 20000).budgetKey ∧ ∀ y ∈ mid, y.slot ≠ x.slot := by
  have member : x ∈ s.keywords := split ▸ mem_add.2 (.inr went)
  have other := flooded.newcomer (by decide : 16384 ≤ 20000) (by decide) x member
  obtain ⟨i,-,rfl⟩ := flooded.2.2.2 x member
  exact ⟨rfl,other.2,fun y => Batch.slot_of_gone (split ▸ sound.kept.keywordLimits.distinct) went⟩

end Full

end Ember.Kad.DhtStore
