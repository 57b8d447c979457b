import Ember.Kad.Eviction

/-! Admission of a keyword record: what its publisher's allowance leaves room for, before and after an
eviction, and what an offered entry does to the books. -/
namespace Ember.Kad
open Item Option Multiset

def vacated (x : Item) (m : Multiset Item) : Multiset Item := m.filter fun y => ¬InSlot x.slot y

/-- A record can join without breaking a limit of its bucket, sender or publisher. -/
structure Room (x : Item) (m : Multiset Item) : Prop where
  perKey : held (Under x.1) one m < maxEntriesPerKey
  bytesPerKey : held (Under x.1) size m+size x ≤ maxRetainedBytesPerKey
  perSender : held (From (x.1,x.2.sourceId)) one m < maxKeywordEntriesPerSender
  bytesPerSender : held (From (x.1,x.2.sourceId)) size m+size x ≤ maxRetainedBytesPerPublisherPerKey
  perPublisher : held (ChargedTo x.2.budgetKey) one m < maxKeywordEntriesPerPublisher
  bytesPerPublisher : held (ChargedTo x.2.budgetKey) size m+size x ≤ maxKeywordBytesPerPublisher

section Vacancy
variable {x old : Item} {m m' : Multiset Item}

theorem Room.mono (room : Room x m) (part : m' ≤ m) : Room x m' where
  perKey := (held_mono _ _ part).trans_lt room.perKey
  bytesPerKey := (Nat.add_le_add_right (held_mono _ _ part) _).trans room.bytesPerKey
  perSender := (held_mono _ _ part).trans_lt room.perSender
  bytesPerSender := (Nat.add_le_add_right (held_mono _ _ part) _).trans room.bytesPerSender
  perPublisher := (held_mono _ _ part).trans_lt room.perPublisher
  bytesPerPublisher := (Nat.add_le_add_right (held_mono _ _ part) _).trans room.bytesPerPublisher

theorem vacated_mono (part : m' ≤ m) : vacated x m' ≤ vacated x m := filter_le_filter _ part

theorem vacated_of_free (free : ∀ y ∈ m, ¬InSlot x.slot y) : vacated x m = m := filter_eq_self.2 free

theorem eq_cons_vacated (distinct : Limited InSlot one 1 m) (member : old ∈ m) (same : InSlot x.slot old) :
    m = old ::ₘ vacated x m := by
  obtain ⟨rest,rfl⟩ := exists_cons_of_mem member
  have most := distinct x.slot
  rw [held_cons,if_pos same] at most
  have free : ∀ y ∈ rest, ¬InSlot x.slot y := by
    intro y inside taken
    have more : one y ≤ held (InSlot x.slot) one rest := held_pos _ _ inside taken
    simp only [one] at most more
    omega
  have dropped : vacated x (old ::ₘ rest) = vacated x rest := filter_cons_of_neg rest (not_not.2 same)
  rw [dropped,vacated_of_free free]

theorem KeywordLimits.cons (limits : KeywordLimits m) (free : held (InSlot x.slot) one m = 0) (room : Room x m) : KeywordLimits (x ::ₘ m) where
  distinct := limits.distinct.cons (by
    rintro ⟨target,id,sender⟩ ⟨rfl,rfl,rfl⟩
    rw [show held (InSlot (x.1,x.2.id,x.2.sourceId)) one m = 0 from free]
    rfl)
  perKey := limits.perKey.cons (by rintro target rfl; exact room.perKey)
  bytesPerKey := limits.bytesPerKey.cons (by rintro target rfl; exact room.bytesPerKey)
  perSender := limits.perSender.cons (by rintro ⟨target,sender⟩ ⟨rfl,rfl⟩; exact room.perSender)
  bytesPerSender := limits.bytesPerSender.cons (by rintro ⟨target,sender⟩ ⟨rfl,rfl⟩; exact room.bytesPerSender)
  perPublisher := limits.perPublisher.cons (by rintro publisher rfl; exact room.perPublisher)
  bytesPerPublisher := limits.bytesPerPublisher.cons (by rintro publisher rfl; exact room.bytesPerPublisher)

end Vacancy

variable {t : Table KadId (List StoredEntry)} {target : KadId}

theorem length_shelf : (shelf t target).length = held (Under target) one (stock t) := by
  have bucket := count_shelf t target fun _ => True
  simp only [and_true,decide_true,List.filter_true] at bucket
  exact bucket.symm

theorem bytes_shelf : retainedBytes (shelf t target) = held (Under target) size (stock t) := by
  have bucket := held_shelf t target (fun _ => True) size
  simp only [and_true,decide_true,List.filter_true] at bucket
  exact bucket.symm

namespace DhtStore
variable {s : DhtStore} {p : Packet} {id : KadId} {old : StoredEntry} {entry : PublishEntry} {publisher : PublisherKey}

theorem length_senderEntries : (s.senderEntries p).length = held (From (p.target,p.senderId)) one s.keywords :=
  (count_shelf s.keywordEntries p.target fun e => e.sourceId = p.senderId).symm

theorem bytes_senderEntries : retainedBytes (s.senderEntries p) = held (From (p.target,p.senderId)) size s.keywords :=
  (held_shelf s.keywordEntries p.target (fun e => e.sourceId = p.senderId) size).symm

theorem usage_entries (kept : s.Kept) :
    (s.charges.usage.lookup publisher).elim 0 PublisherUsage.entries = held (ChargedTo publisher) one s.keywords := by
  have account := (kept.charges.account publisher).entries
  rw [show held (ChargedTo publisher) one s.keywords = (chargedTo publisher s.keywords).card from held_one ..,← account]
  cases s.charges.usage.lookup publisher with
  | none => rfl
  | some u => rfl

theorem usage_bytes (kept : s.Kept) :
    (s.charges.usage.lookup publisher).elim 0 PublisherUsage.bytes = held (ChargedTo publisher) size s.keywords := by
  have account := (kept.charges.account publisher).bytes
  rw [show held (ChargedTo publisher) size s.keywords = weightOf (chargedTo publisher s.keywords) from rfl,← account]
  cases s.charges.usage.lookup publisher with
  | none => rfl
  | some u => rfl

def item (p : Packet) (entry : PublishEntry) : Item := (p.target,p.stored entry)

theorem replaced_some (kept : s.Kept) (found : s.replaced p entry.id = some old) :
    s.keywords = (p.target,old) ::ₘ vacated (item p entry) s.keywords ∧ old.id = entry.id ∧ old.sourceId = p.senderId := by
  have inside := List.mem_of_find?_eq_some found
  have same := List.find?_some found
  simp only [Bool.and_eq_true,decide_eq_true_eq] at same
  exact ⟨eq_cons_vacated kept.keywordLimits.distinct (mem_stock.2 inside) ⟨rfl,same⟩,same⟩

theorem replaced_none (found : s.replaced p entry.id = none) : vacated (item p entry) s.keywords = s.keywords := by
  refine vacated_of_free ?_
  rintro ⟨target,e⟩ member ⟨rfl,same⟩
  rw [replaced,List.find?_eq_none] at found
  have absent := found e (mem_stock.1 member)
  simp only [Bool.and_eq_true,decide_eq_true_eq] at absent
  exact absent same

end DhtStore

namespace Batch
open DhtStore
variable {p : Packet} {b b' : Batch} {entry : PublishEntry} {s : DhtStore}

/-- Between two entries of a packet the books are right, and only its target's bucket may be empty. -/
structure Sound (p : Packet) (b : Batch) : Prop where
  kept : b.store.Kept
  counted : (b.store.senderEntries p).length ≤ b.senderEntryCount
  bare : ∀ k, b.store.keywordEntries.lookup k = some [] → k = p.target
  sources : Stocked b.store.sourceEntries
  notes : Stocked b.store.notesEntries

theorem Sound.room (sound : b.Sound p) (fits : b.overAllowance p entry.id (sizeOfTags entry.tags) = false) :
    Room (item p entry) (vacated (item p entry) b.store.keywords) := by
  have limits := sound.kept.keywordLimits
  have counted := sound.counted
  rw [length_senderEntries] at counted
  simp only [overAllowance,usage_entries sound.kept,usage_bytes sound.kept,length_shelf,bytes_shelf,bytes_senderEntries,
    Bool.or_eq_false_iff] at fits
  obtain ⟨⟨⟨⟨slots,entries⟩,keyBytes⟩,senderBytes⟩,publisherBytes⟩ := fits
  cases found : b.store.replaced p entry.id with
  | none =>
    rw [replaced_none found]
    simp only [found,isNone_none,Bool.true_and,Bool.or_eq_false_iff,Bool.true_or,
      decide_eq_false_iff_not,Nat.not_le,Nat.not_lt] at slots entries keyBytes senderBytes publisherBytes
    exact ⟨slots.2,keyBytes,counted.trans_lt slots.1,senderBytes,entries,publisherBytes⟩
  | some old =>
    obtain ⟨whole,id,sender⟩ := replaced_some sound.kept found
    simp only [found,elim_some,any_some,isNone_some,Bool.false_or,Bool.and_eq_false_iff,Bool.not_eq_eq_eq_not,
      Bool.not_false,decide_eq_true_eq,decide_eq_false_iff_not,Nat.not_le,Nat.not_lt] at entries keyBytes senderBytes publisherBytes
    have split : ∀ (q : Item → Prop) [DecidablePred q] w, held q w b.store.keywords =
        held q w (vacated (item p entry) b.store.keywords)+if q (p.target,old) then w (p.target,old) else 0 := fun q _ w =>
      (congrArg (held q w) whole).trans (held_cons ..)
    have under : Under p.target (p.target,old) := rfl
    have own : From (p.target,p.senderId) (p.target,old) := ⟨rfl,sender⟩
    have charged : ChargedTo p.budgetKey (p.target,old) ↔ old.budgetKey = p.budgetKey := Iff.rfl
    have perKey := limits.perKey p.target
    have perSender := limits.perSender (p.target,p.senderId)
    have perPublisher := limits.perPublisher p.budgetKey
    rw [split,if_pos under] at perKey
    rw [split,if_pos own] at perSender
    rw [split] at perPublisher entries publisherBytes
    rw [show stock b.store.keywordEntries = b.store.keywords from rfl,split,if_pos under] at keyBytes
    rw [split,if_pos own] at senderBytes
    simp only [charged,size] at perKey perSender perPublisher entries publisherBytes keyBytes senderBytes
    refine ⟨perKey,?_,perSender,?_,?_,?_⟩
    · rwa [Nat.add_sub_cancel] at keyBytes
    · rwa [Nat.add_sub_cancel] at senderBytes
    · -- an entry that stays on its budget key gives its own place back
      by_cases same : old.budgetKey = p.budgetKey
      · rwa [if_pos same] at perPublisher
      · have more := entries.resolve_left same
        rwa [if_neg same] at more
    · rwa [Nat.add_sub_cancel] at publisherBytes

theorem bare_insert (bare : ∀ k, t.lookup k = some [] → k = target)
    (items : List StoredEntry) (k : KadId) (empty : (t.insert target items).lookup k = some []) : k = target := by
  by_contra other
  rw [AList.lookup_insert_ne other] at empty
  exact other (bare k empty)

/-- What the pass an entry sets off takes. -/
def shed (p : Packet) (id : KadId) (entryBytes : Nat) (b : Batch) : Multiset Item :=
  if b.needsRoom p id entryBytes then b.store.victims p.order (entryBytes-b.oldBytes p id) b.evictionBudget 0 else 0

theorem Sound.makeRoom (sound : b.Sound p) (id : KadId) (entryBytes : Nat) :
    ∃ gone, Evicted b.store gone (b.makeRoom p id entryBytes).store ∧ (b.makeRoom p id entryBytes).Sound p ∧
      gone.card+(b.makeRoom p id entryBytes).evictionBudget = b.evictionBudget ∧
      gone = b.shed p id entryBytes ∧
      (b.needsRoom p id entryBytes = true → entryBytes-b.oldBytes p id ≤ weightOf gone ∨
        (b.makeRoom p id entryBytes).evictionBudget = 0 ∨ (b.makeRoom p id entryBytes).store.keywords = 0) := by
  unfold Batch.makeRoom shed
  by_cases needs : b.needsRoom p id entryBytes = true
  · obtain ⟨gone,s',left,pass,evicted,spent,same,stopped⟩ :=
      evictKeywordBytes_evicted p.order (entryBytes-b.oldBytes p id) b.evictionBudget 0 sound.kept
    rw [Nat.zero_add] at pass stopped
    simp only [needs,if_true,pass]
    refine ⟨gone,evicted,⟨evicted.kept sound.kept,?_,fun k empty => sound.bare k (evicted.bare k empty),
      evicted.sources ▸ sound.sources,evicted.notes ▸ sound.notes⟩,spent,same,fun _ => stopped⟩
    split
    · exact Nat.le_refl _
    have fewer := held_mono (From (p.target,p.senderId)) one evicted.part
    rw [← length_senderEntries,← length_senderEntries] at fewer
    exact fewer.trans sound.counted
  · rw [if_neg needs,if_neg needs]
    exact ⟨0,.none sound.kept,sound,Nat.zero_add _,rfl,fun absurd => (needs absurd).elim⟩

def Fits (p : Packet) (stored : StoredEntry) (s : DhtStore) : Prop :=
  (∀ old, s.replaced p stored.id = some old → s.totalRetainedBytes-old.retainedBytes+stored.retainedBytes ≤ maxTotalRetainedBytes) ∧
    (s.replaced p stored.id = none → s.totalCount < maxTotalEntries ∧ s.totalRetainedBytes+stored.retainedBytes ≤ maxTotalRetainedBytes)

structure Stored (p : Packet) (entry : PublishEntry) (s s' : DhtStore) : Prop where
  keywords : ∃ ttlSecs, s'.keywords = (p.target,{ p.stored entry with ttlSecs }) ::ₘ vacated (item p entry) s.keywords
  sources : s'.sourceEntries = s.sourceEntries
  notes : s'.notesEntries = s.notesEntries

theorem limits_stored (kept : s.Kept) (room : Room (item p entry) (vacated (item p entry) s.keywords)) (ttlSecs : Int) :
    KeywordLimits ((p.target,{ p.stored entry with ttlSecs }) ::ₘ vacated (item p entry) s.keywords) := by
  refine (kept.keywordLimits.mono (Multiset.filter_le ..)).cons
    (held_eq_zero _ _ fun y member => (mem_filter.1 member).2) ?_
  exact { room with }

theorem weight_item (ttlSecs : Int) : size (p.target,{ p.stored entry with ttlSecs }) = (p.stored entry).retainedBytes := rfl

section Placement
variable {s : DhtStore} {old : StoredEntry}

theorem refresh_keywords (kept : s.Kept) (found : s.replaced p entry.id = some old) (ttlSecs : Int) :
    (refresh p old { p.stored entry with ttlSecs } s).keywords =
      (p.target,{ p.stored entry with ttlSecs }) ::ₘ vacated (item p entry) s.keywords := by
  have inside := List.mem_of_find?_eq_some found
  obtain ⟨others,before,after⟩ := stock_swapped (List.perm_cons_erase inside) (replace_perm { p.stored entry with ttlSecs } inside)
  have same := before.symm.trans (replaced_some kept found).1
  rw [cons_inj_right] at same
  rw [← same]
  exact after

theorem kept_refresh (kept : s.Kept) (found : s.replaced p entry.id = some old)
    (room : Room (item p entry) (vacated (item p entry) s.keywords))
    (fits : s.totalRetainedBytes-old.retainedBytes+(p.stored entry).retainedBytes ≤ maxTotalRetainedBytes) {ttlSecs : Int} :
    (refresh p old { p.stored entry with ttlSecs } s).Kept := by
  have after := refresh_keywords kept found ttlSecs
  have whole := (replaced_some kept found).1
  have card := congrArg Multiset.card whole
  have weight := congrArg weightOf whole
  rw [card_cons] at card
  rw [weightOf_cons] at weight
  have count := kept.count
  have bytes := kept.bytes
  refine ⟨?_,?_,?_,?_,kept.sourceLimits,kept.notesLimits,kept.totalCount,fits⟩
  · rw [after,card_cons,← card]
    exact count
  · rw [after,weightOf_cons,weight_item]
    simp only [size] at weight
    simp only [refresh]
    change _ = _+weightOf s.sources+weightOf s.notes
    omega
  · rw [after]
    have charges := kept.charges
    rw [whole] at charges
    by_cases same : old.budgetKey = p.budgetKey
    · simp only [refresh,if_pos same]
      exact @Charges.Of.swap _ (p.target,{ p.stored entry with ttlSecs }) _ _ charges rfl same.symm
    · simp only [refresh,if_neg same]
      exact charges.remove.add (p.target,{ p.stored entry with ttlSecs })
  · rw [after]
    exact limits_stored kept room ttlSecs

theorem append_keywords (found : s.replaced p entry.id = none) :
    (append p (p.stored entry) s).keywords = item p entry ::ₘ vacated (item p entry) s.keywords := by
  rw [replaced_none found]
  exact stock_added (List.perm_append_singleton ..)

theorem kept_append (kept : s.Kept) (found : s.replaced p entry.id = none)
    (room : Room (item p entry) (vacated (item p entry) s.keywords)) (slot : s.totalCount < maxTotalEntries)
    (fits : s.totalRetainedBytes+(p.stored entry).retainedBytes ≤ maxTotalRetainedBytes) : (append p (p.stored entry) s).Kept := by
  have after := append_keywords found
  have limits := limits_stored kept room keywordTtlSecs
  rw [replaced_none found] at limits
  rw [replaced_none found] at after
  have count := kept.count
  have bytes := kept.bytes
  refine ⟨?_,?_,?_,after ▸ limits,kept.sourceLimits,kept.notesLimits,slot,fits⟩
  · rw [after,card_cons]
    change s.totalCount+1 = _+s.sources.card+s.notes.card
    omega
  · rw [after,weightOf_cons]
    change s.totalRetainedBytes+size (item p entry) = _+weightOf s.sources+weightOf s.notes
    omega
  · rw [after]
    exact kept.charges.add (item p entry)

theorem touch_keywords (p : Packet) (s : DhtStore) : (touch p s).keywords = s.keywords := add_right_cancel (stock_insert ..)

end Placement

theorem counted_stored {s' : DhtStore} (stored : Stored p entry s s') :
    (s'.senderEntries p).length = held (From (p.target,p.senderId)) one (vacated (item p entry) s.keywords)+1 := by
  obtain ⟨ttlSecs,keywords⟩ := stored.keywords
  rw [length_senderEntries,keywords,held_cons]
  exact congrArg _ (if_pos ⟨rfl,rfl⟩)

theorem Sound.enter (sound : b.Sound p) (room : Room (item p entry) (vacated (item p entry) b.store.keywords)) :
    (b.enter p (p.stored entry)).Sound p ∧ (b.enter p (p.stored entry)).evictionBudget = b.evictionBudget ∧
      (Fits p (p.stored entry) b.store ∧ Stored p entry b.store (b.enter p (p.stored entry)).store ∨
        ¬Fits p (p.stored entry) b.store ∧ (b.enter p (p.stored entry)).store = touch p b.store) := by
  have kept := sound.kept
  have counted := sound.counted
  have untouched : ({ b with store := touch p b.store } : Batch).Sound p := by
    refine ⟨kept.reshelved (touch_keywords p b.store),?_,bare_insert sound.bare _,sound.sources,sound.notes⟩
    rw [length_senderEntries,touch_keywords,← length_senderEntries]
    exact counted
  unfold Batch.enter
  cases found : b.store.replaced p (p.stored entry).id with
  | some old =>
    by_cases beyond : maxTotalRetainedBytes < b.store.totalRetainedBytes-old.retainedBytes+(p.stored entry).retainedBytes
    · simp only [beyond,if_true]
      refine ⟨untouched,trivial,.inr ⟨fun fits => ?_,trivial⟩⟩
      exact absurd (fits.1 old found) (Nat.not_le.2 beyond)
    simp only [beyond,if_false]
    have under := Nat.not_lt.1 beyond
    have stored : Stored p entry b.store (refresh p old { p.stored entry with ttlSecs := old.ttlSecs } b.store) :=
      ⟨⟨old.ttlSecs,refresh_keywords kept found old.ttlSecs⟩,rfl,rfl⟩
    refine ⟨⟨kept_refresh kept found room under,?_,bare_insert sound.bare _,sound.sources,sound.notes⟩,trivial,.inl ⟨⟨?_,?_⟩,stored⟩⟩
    · obtain ⟨whole,_,sender⟩ := replaced_some kept found
      have before := (congrArg (held (From (p.target,p.senderId)) one) whole).trans (held_cons ..)
      rw [if_pos (⟨rfl,sender⟩),← length_senderEntries] at before
      rw [counted_stored stored]
      exact before ▸ counted
    · intro old' found'
      rw [found,Option.some.injEq] at found'
      exact found' ▸ under
    · intro none
      rw [found] at none
      cases none
  | none =>
    by_cases beyond : maxTotalEntries ≤ b.store.totalCount ∨ maxTotalRetainedBytes < b.store.totalRetainedBytes+(p.stored entry).retainedBytes
    · simp only [Bool.or_eq_true,decide_eq_true_eq,beyond,if_true]
      refine ⟨untouched,trivial,.inr ⟨fun fits => ?_,trivial⟩⟩
      obtain ⟨slot,bytes⟩ := fits.2 found
      omega
    simp only [Bool.or_eq_true,decide_eq_true_eq,beyond,if_false]
    rw [not_or,Nat.not_le,Nat.not_lt] at beyond
    have stored : Stored p entry b.store (append p (p.stored entry) b.store) := ⟨⟨keywordTtlSecs,append_keywords found⟩,rfl,rfl⟩
    refine ⟨⟨kept_append kept found room beyond.1 beyond.2,?_,bare_insert sound.bare _,sound.sources,sound.notes⟩,trivial,
      .inl ⟨⟨?_,fun _ => beyond⟩,stored⟩⟩
    · rw [counted_stored stored,replaced_none found,← length_senderEntries]
      exact Nat.add_le_add_right counted 1
    intro old found'
    rw [found] at found'
    cases found'

inductive Outcome (p : Packet) (entry : PublishEntry) (b b' : Batch) : Prop where
  | refused (same : b' = b)
  | dropped (gone : Multiset Item) (mid : DhtStore) (evicted : Evicted b.store gone mid)
      (spent : gone.card+b'.evictionBudget = b.evictionBudget) (store : b'.store = touch p mid)
  | stored (gone : Multiset Item) (mid : DhtStore) (evicted : Evicted b.store gone mid)
      (spent : gone.card+b'.evictionBudget = b.evictionBudget) (stored : Stored p entry mid b'.store)

theorem Sound.offer (sound : b.Sound p) (entry : PublishEntry) : (b.offer p entry).Sound p ∧ Outcome p entry b (b.offer p entry) := by
  unfold Batch.offer
  split
  · exact ⟨sound,.refused rfl⟩
  split
  · exact ⟨sound,.refused rfl⟩
  next tags entryBytes sized =>
  obtain ⟨rfl,rfl,-⟩ := normalizeAndSizeTags_some sized
  split
  · exact ⟨sound,.refused rfl⟩
  next fits =>
  have room := sound.room (Bool.eq_false_of_not_eq_true fits)
  obtain ⟨gone,evicted,sound',spent,-,-⟩ := sound.makeRoom entry.id (sizeOfTags entry.tags)
  obtain ⟨final,left,outcome⟩ := sound'.enter (room.mono (vacated_mono evicted.part))
  refine ⟨final,?_⟩
  rw [← left] at spent
  obtain ⟨_,stored⟩ | ⟨_,touched⟩ := outcome
  · exact .stored gone _ evicted spent stored
  · exact .dropped gone _ evicted spent touched

theorem Sound.offers (sound : b.Sound p) (entries : List PublishEntry) : (entries.foldl (Batch.offer p) b).Sound p := by
  induction entries generalizing b with
  | nil => exact sound
  | cons entry rest ih => exact ih (sound.offer entry).1

end Batch
end Ember.Kad
