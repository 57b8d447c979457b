import Ember.Kad.Admission

/-! Source and notes records: a bucket loses what has expired and takes one record, over the one of the
same name or beside the others, if the caps of bucket, share and index allow it. -/
namespace Ember.Kad.DhtStore
open Item List Option AList Multiset

variable (target : KadId) (existing : Option StoredEntry)

def front (target : KadId) (existing : Option StoredEntry) : Multiset Item := existing.elim 0 fun old => {(target,old)}

theorem weightOf_front : weightOf (front target existing) = existing.elim 0 StoredEntry.retainedBytes := by
  cases existing with
  | none => rfl
  | some old => simp [front,weightOf,size]

theorem card_front : (front target existing).card = if existing.isNone then 0 else 1 := by
  cases existing with
  | none => rfl
  | some old => rfl

section Buckets
variable (t : Table KadId (List StoredEntry)) (target : KadId) (now : Int)

theorem count_all : (t.values.map List.length).sum = (stock t).card := by
  simpa using (sum_stock (fun _ => 1) t).symm

theorem bytes_all : (t.values.map retainedBytes).sum = weightOf (stock t) := (sum_stock StoredEntry.retainedBytes t).symm

theorem stock_pruned : ∃ gone : Multiset Item, stock t = stock (prunedTable t target now)+gone ∧
    gone.card = (shelf t target).length-(unexpired now (shelf t target)).length ∧
    weightOf gone = retainedBytes (shelf t target)-retainedBytes (unexpired now (shelf t target)) := by
  have split := unexpired_split now (shelf t target)
  refine ⟨_,stock_removed split,?_,?_⟩
  · have length := split.length_eq
    rw [length_append] at length
    rw [coe_card,length_map]
    omega
  have bytes := retainedBytes_perm split
  rw [retainedBytes_append] at bytes
  rw [weightOf_shelf]
  omega

theorem pruned_totals {count bytes : Nat} {t' : Table KadId (List StoredEntry)} (covered : (stock t).card ≤ count ∧ weightOf (stock t) ≤ bytes)
    (same : stock t' = stock (prunedTable t target now)) : stock t' ≤ stock t ∧
      count-((shelf t target).length-(unexpired now (shelf t target)).length)+(stock t).card = count+(stock t').card ∧
      bytes-(retainedBytes (shelf t target)-retainedBytes (unexpired now (shelf t target)))+weightOf (stock t) = bytes+weightOf (stock t') := by
  obtain ⟨gone,split,card,weight⟩ := stock_pruned t target now
  rw [← same] at split
  have cards := congrArg Multiset.card split
  have weights := congrArg weightOf split
  rw [card_add] at cards
  rw [weightOf_add] at weights
  refine ⟨split ▸ Multiset.le_add_right ..,?_,?_⟩
  · omega
  · omega

theorem shelf_pruned : shelf (prunedTable t target now) target = unexpired now (shelf t target) := shelf_insert_self ..

theorem stock_dropBare : stock (dropBare t target) = stock t := by
  unfold dropBare
  split
  next bare => exact stock_erase_of_bare bare
  next => rfl

theorem stock_settled (q : StoredEntry → Bool) (stored : StoredEntry) :
    ∃ others, stock t = front target ((shelf t target).find? q)+others ∧
      stock (t.insert target (settle (shelf t target) ((shelf t target).find? q) stored)) = (target,stored) ::ₘ others := by
  cases found : (shelf t target).find? q with
  | none => exact ⟨stock t,(zero_add _).symm,stock_added (perm_append_singleton ..)⟩
  | some old =>
    have inside := mem_of_find?_eq_some found
    obtain ⟨others,before,after⟩ := stock_swapped (perm_cons_erase inside) (replace_perm stored inside)
    exact ⟨others,before.trans (singleton_add ..).symm,after⟩

section
variable {kept : List StoredEntry} (bucket : shelf t target = kept) (q : StoredEntry → Bool) (stored : StoredEntry)
include bucket

theorem card_settle :
    (stock (t.insert target (settle kept (kept.find? q) stored))).card+(if (kept.find? q).isNone then 0 else 1) = (stock t).card+1 := by
  subst bucket
  obtain ⟨others,before,after⟩ := stock_settled t target q stored
  rw [after,before,card_cons,card_add,card_front]
  omega

theorem weight_settle : ∃ rest, weightOf (stock t) = (kept.find? q).elim 0 StoredEntry.retainedBytes+rest ∧
      weightOf (stock (t.insert target (settle kept (kept.find? q) stored))) = stored.retainedBytes+rest := by
  subst bucket
  obtain ⟨others,before,after⟩ := stock_settled t target q stored
  refine ⟨weightOf others,?_,?_⟩
  · rw [before,weightOf_add,weightOf_front]
  · rw [after,weightOf_cons]
    rfl

end

end Buckets
section Stocked
variable {t : Table KadId (List StoredEntry)} {target : KadId}

theorem Stocked.insert {items : List StoredEntry} (stocked : Stocked t) (some : items ≠ []) : Stocked (t.insert target items) := by
  intro k
  by_cases same : k = target
  · rw [same,lookup_insert]
    exact fun bare => some (Option.some.inj bare)
  · rw [lookup_insert_ne same]
    exact stocked k

theorem stocked_dropBare (bare : ∀ k, t.lookup k = some [] → k = target) : Stocked (dropBare t target) := by
  intro k empty
  unfold dropBare at empty
  split at empty
  next =>
    by_cases same : k = target
    · rw [same,lookup_erase] at empty
      cases empty
    · rw [lookup_erase_ne same] at empty
      exact same (bare k empty)
  next some =>
    obtain rfl := bare k empty
    exact some (by rw [shelf,empty]; rfl)

theorem stocked_pruned (stocked : Stocked t) (now : Int) : Stocked (dropBare (prunedTable t target now) target) :=
  stocked_dropBare (Batch.bare_insert (fun k empty => (stocked k empty).elim) _)

theorem settle_ne_nil {kept : List StoredEntry} {q : StoredEntry → Bool} {stored : StoredEntry} : settle kept (kept.find? q) stored ≠ [] := by
  cases found : kept.find? q with
  | none => simp [settle]
  | some old =>
    have inside := mem_of_find?_eq_some found
    intro empty
    have length := (replace_perm stored inside).length_eq
    rw [show kept.replace old stored = [] from empty] at length
    cases length

theorem stocked_settled (stocked : Stocked t) (items kept : List StoredEntry) (q : StoredEntry → Bool) (stored : StoredEntry) :
    Stocked ((t.insert target items).insert target (settle kept (kept.find? q) stored)) := by
  have beyond : (t.insert target items).insert target (settle kept (kept.find? q) stored) = t.insert target (settle kept (kept.find? q) stored) :=
    insert_insert t
  rw [beyond]
  exact stocked.insert settle_ne_nil

end Stocked
section Limits
variable {t : Table KadId (List StoredEntry)} {target senderId : KadId} {stored : StoredEntry}
variable {cap : Nat} {others : Multiset Item} {existing : Option StoredEntry}

theorem held_front {c : Item → Nat} : held (Under target) c (front target existing) = existing.elim 0 fun old => c (target,old) := by
  cases existing with
  | none => rfl
  | some old => exact (held_cons (Under target) c (target,old) 0).trans ((congrArg _ (if_pos rfl)).trans (Nat.zero_add _))

section
variable (whole : stock t = front target existing+others)
include whole

private theorem limited_settled (limited : Limited Under size cap (stock t))
    (room : retainedBytes (shelf t target)-existing.elim 0 StoredEntry.retainedBytes+stored.retainedBytes ≤ cap) :
    Limited Under size cap ((target,stored) ::ₘ others) := by
  rw [bytes_shelf,whole,held_add,held_front] at room
  refine (limited.mono (whole ▸ Multiset.le_add_left ..)).cons ?_
  rintro _ rfl
  exact (Nat.add_sub_cancel_left .. ▸ room :)

private theorem slots_settled (limited : Limited Under one cap (stock t))
    (room : existing.isNone = true → (shelf t target).length < cap) : Limited Under one cap ((target,stored) ::ₘ others) := by
  have most := limited target
  rw [length_shelf] at room
  rw [whole,held_add,held_front] at most room
  refine (limited.mono (whole ▸ Multiset.le_add_left ..)).cons ?_
  rintro _ rfl
  cases existing with
  | none => exact (Nat.le_add_left ..).trans_lt (room rfl)
  | some old => exact (Nat.add_comm ..).trans_le most

private theorem weight_settled (room : weightOf (stock t)-existing.elim 0 StoredEntry.retainedBytes+stored.retainedBytes ≤ cap) :
    weightOf ((target,stored) ::ₘ others) ≤ cap := by
  rw [whole,weightOf_add,weightOf_front,Nat.add_sub_cancel_left] at room
  rw [weightOf_cons,Nat.add_comm]
  exact room

private theorem card_settled (limited : (stock t).card ≤ cap)
    (room : existing.isNone = true → (stock t).card < cap) : ((target,stored) ::ₘ others).card ≤ cap := by
  rw [whole,card_add,card_front] at limited room
  rw [card_cons]
  cases existing with
  | none =>
    have less := room rfl
    omega
  | some old =>
    simp only [isNone_some,Bool.false_eq_true,if_false] at limited
    omega

end

variable {kept : List StoredEntry} (bucket : shelf t target = kept)
include bucket

theorem notesLimits_settled (limits : NotesLimits (stock t)) {q : StoredEntry → Bool}
    (slot : (kept.find? q).isNone = true → (stock t).card < maxNotesTotalEntries ∧ kept.length < maxNotesPerFile)
    (bytes : retainedBytes kept-(kept.find? q).elim 0 StoredEntry.retainedBytes+stored.retainedBytes ≤ maxRetainedBytesPerKey)
    (share : weightOf (stock t)-(kept.find? q).elim 0 StoredEntry.retainedBytes+stored.retainedBytes ≤ maxNotesRetainedBytes) :
    NotesLimits (stock (t.insert target (settle kept (kept.find? q) stored))) := by
  subst bucket
  obtain ⟨others,before,after⟩ := stock_settled t target q stored
  rw [after]
  exact ⟨slots_settled before limits.perKey fun none => (slot none).2,limited_settled before limits.bytesPerKey bytes,
    card_settled before limits.count fun none => (slot none).1,weight_settled before share⟩

theorem sourceLimits_settled {senderIp : Dht.Ipv4Addr} (limits : SourceLimits (stock t)) (named : stored.id = senderId)
    (address : ∀ ip, servedFrom ip stored = true → ip = senderIp)
    (slot : (kept.find? fun e => e.id = senderId).isNone = true → (stock t).card < maxSourceTotalEntries ∧ kept.length < maxEntriesPerKey)
    (few : (kept.filter fun e => e.id ≠ senderId && servedFrom senderIp e).length < maxSourcesPerIp)
    (bytes : retainedBytes kept-(kept.find? fun e => e.id = senderId).elim 0 StoredEntry.retainedBytes+stored.retainedBytes ≤ maxRetainedBytesPerKey)
    (share : weightOf (stock t)-(kept.find? fun e => e.id = senderId).elim 0 StoredEntry.retainedBytes+stored.retainedBytes ≤ maxSourceRetainedBytes) :
    SourceLimits (stock (t.insert target (settle kept (kept.find? fun e => e.id = senderId) stored))) := by
  subst bucket
  obtain ⟨others,before,after⟩ := stock_settled t target (fun e => e.id = senderId) stored
  have part : others ≤ stock t := before ▸ Multiset.le_add_left ..
  have rest := limits.mono part
  -- no other record of the bucket has the sender's name
  have unnamed : ∀ y ∈ others, ¬Named (target,senderId) y := by
    rintro ⟨k,e⟩ member ⟨here,same⟩
    obtain rfl : target = k := here.symm
    cases found : (shelf t target).find? fun e => e.id = senderId with
    | none =>
      rw [find?_eq_none] at found
      exact found e (mem_stock.1 (mem_of_le part member)) (decide_eq_true same)
    | some old =>
      have most := limits.distinct (target,senderId)
      have more : 1 ≤ held (Named (target,senderId)) one others := held_pos (Named (target,senderId)) one member ⟨rfl,same⟩
      have name := List.find?_some found
      rw [decide_eq_true_eq] at name
      have own : Named (target,senderId) (target,old) := ⟨rfl,name⟩
      rw [before,found,front,elim_some,singleton_add,held_cons,if_pos own] at most
      simp only [one] at most
      omega
  have alone : held (Named (target,senderId)) one others = 0 := held_eq_zero _ _ unnamed
  have served : held (ServedAt (target,senderIp)) one others < maxSourcesPerIp := by
    have bucket := count_shelf t target fun e => (e.id ≠ senderId && servedFrom senderIp e) = true
    simp only [Bool.decide_eq_true] at bucket
    rw [← bucket] at few
    refine lt_of_le_of_lt ?_ few
    refine (held_imp _ _ fun y member here => ?_).trans (held_mono _ _ part)
    refine ⟨here.1,?_⟩
    rw [Bool.and_eq_true,decide_eq_true_eq]
    exact ⟨fun same => unnamed y member ⟨here.1,same⟩,here.2⟩
  rw [after]
  refine ⟨rest.distinct.cons ?_,slots_settled before limits.perKey fun none => (slot none).2,
    limited_settled before limits.bytesPerKey bytes,rest.perAddress.cons ?_,
    card_settled before limits.count fun none => (slot none).1,weight_settled before share⟩
  · rintro ⟨_,_⟩ ⟨rfl,rfl⟩
    rw [named,alone]
    rfl
  rintro ⟨_,ip⟩ ⟨rfl,from_⟩
  obtain rfl := address ip from_
  exact served

end Limits

structure Sound (s : DhtStore) : Prop where
  kept : s.Kept
  keywords : Stocked s.keywordEntries
  sources : Stocked s.sourceEntries
  notes : Stocked s.notesEntries

section Calls
variable {s : DhtStore} {t : Table KadId (List StoredEntry)} {count bytes : Nat}

theorem Kept.withSources (kept : s.Kept) (limits : SourceLimits (stock t)) (counted : count+s.sources.card = s.totalCount+(stock t).card)
    (weighed : bytes+weightOf s.sources = s.totalRetainedBytes+weightOf (stock t)) (few : count ≤ maxTotalEntries)
    (light : bytes ≤ maxTotalRetainedBytes) :
    ({ s with
        sourceEntries := t, totalCount := count, totalRetainedBytes := bytes } : DhtStore).Kept := by
  have before := kept.count
  have weight := kept.bytes
  refine ⟨?_,?_,kept.charges,kept.keywordLimits,limits,kept.notesLimits,few,light⟩
  · change count = s.keywords.card+(stock t).card+s.notes.card
    omega
  · change bytes = weightOf s.keywords+weightOf (stock t)+weightOf s.notes
    omega

theorem Kept.withNotes (kept : s.Kept) (limits : NotesLimits (stock t)) (counted : count+s.notes.card = s.totalCount+(stock t).card)
    (weighed : bytes+weightOf s.notes = s.totalRetainedBytes+weightOf (stock t)) (few : count ≤ maxTotalEntries)
    (light : bytes ≤ maxTotalRetainedBytes) :
    ({ s with
        notesEntries := t, totalCount := count, totalRetainedBytes := bytes } : DhtStore).Kept := by
  have before := kept.count
  have weight := kept.bytes
  refine ⟨?_,?_,kept.charges,kept.keywordLimits,kept.sourceLimits,limits,few,light⟩
  · change count = s.keywords.card+s.sources.card+(stock t).card
    omega
  · change bytes = weightOf s.keywords+weightOf s.sources+weightOf (stock t)
    omega

theorem sourceTags_address {tags : List KadTag} {senderIp : Dht.Ipv4Addr} {port : UInt16} {e : StoredEntry} {ip : Dht.Ipv4Addr}
    (made : e.tags = sourceTags tags senderIp port) (served : servedFrom ip e = true) : ip = senderIp := by
  simp only [servedFrom,made,List.any_eq_true,Bool.and_eq_true,beq_iff_eq] at served
  obtain ⟨t,member,named,value⟩ := served
  have own : t ∈ withoutTag tagSourceip tags++[⟨.id tagSourceip,.uint32 (.ofBitVec senderIp)⟩] := by
    unfold sourceTags at member
    dsimp only at member
    split at member
    · exact member
    rcases mem_append.1 member with kept | port
    · exact (List.mem_filter.1 kept).1
    · rw [List.mem_singleton.1 port] at named
      exact absurd named (show ¬(TagName.id tagSourceuport == TagName.id tagSourceip) = true by decide)
  rcases mem_append.1 own with other | made
  · have unnamed := (List.mem_filter.1 other).2
    rw [named] at unnamed
    cases unnamed
  · rw [List.mem_singleton.1 made] at value
    simpa using value.symm

variable {now : Int} {target senderId : KadId} {tags : List KadTag} {senderIp : Dht.Ipv4Addr} {senderPort : UInt16}

section Totals
variable (kept : s.Kept)
include kept

theorem Kept.covered : (s.sources.card ≤ s.totalCount ∧ weightOf s.sources ≤ s.totalRetainedBytes) ∧
    s.notes.card ≤ s.totalCount ∧ weightOf s.notes ≤ s.totalRetainedBytes := by
  have count := kept.count
  have bytes := kept.bytes
  omega

end Totals

theorem Sound.pruneSources (sound : s.Sound) (now : Int) (target : KadId)
    (same : stock t = stock (prunedTable s.sourceEntries target now)) :
    ({ s with
        sourceEntries := t
        totalCount := s.totalCount-((shelf s.sourceEntries target).length-(unexpired now (shelf s.sourceEntries target)).length)
        totalRetainedBytes := s.totalRetainedBytes-
          (retainedBytes (shelf s.sourceEntries target)-retainedBytes (unexpired now (shelf s.sourceEntries target))) } : DhtStore).Kept := by
  obtain ⟨less,fewer,lighter⟩ := pruned_totals _ target now sound.kept.covered.1 same
  refine sound.kept.withSources (sound.kept.sourceLimits.mono less) fewer lighter ?_ ?_
  · exact (Nat.sub_le ..).trans sound.kept.totalCount
  · exact (Nat.sub_le ..).trans sound.kept.totalBytes

theorem settled_totals
    (covered : (stock t).card ≤ count ∧ weightOf (stock t) ≤ bytes) (now : Int) (target : KadId) (q : StoredEntry → Bool) (stored : StoredEntry) :
    let kept := unexpired now (shelf t target)
    let settled := (prunedTable t target now).insert target (settle kept (kept.find? q) stored)
    let left := count-((shelf t target).length-kept.length)
    let light := bytes-(retainedBytes (shelf t target)-retainedBytes kept)
    (if (kept.find? q).isNone then left+1 else left)+(stock t).card = count+(stock settled).card ∧
      light-(kept.find? q).elim 0 StoredEntry.retainedBytes+stored.retainedBytes+weightOf (stock t) = bytes+weightOf (stock settled) := by
  have cards := card_settle _ _ (shelf_pruned t target now) q stored
  obtain ⟨rest,before,after⟩ := weight_settle _ _ (shelf_pruned t target now) q stored
  obtain ⟨_,fewer,lighter⟩ := pruned_totals t target now covered rfl
  refine ⟨?_,?_⟩
  · split at cards
    next none => rw [if_pos none]; omega
    next some => rw [if_neg some]; omega
  · omega

theorem Sound.storeSourceEntry (sound : s.Sound) : (s.storeSourceEntry now target senderId tags senderIp senderPort).Sound := by
  have pruned := sound.pruneSources now target rfl
  have bare := sound.pruneSources now target (stock_dropBare (prunedTable s.sourceEntries target now) target)
  have emptied := @stocked_pruned _ target sound.sources now
  have bucket := shelf_pruned s.sourceEntries target now
  obtain ⟨less,share,share'⟩ := pruned_totals s.sourceEntries target now ⟨Nat.le_refl _,Nat.le_refl _⟩ rfl
  unfold DhtStore.storeSourceEntry
  rw [count_all,bytes_all]
  split
  · exact sound
  dsimp only
  split
  · exact ⟨bare,sound.keywords,emptied,sound.notes⟩
  next slot =>
  split
  next many =>
    refine ⟨pruned,sound.keywords,sound.sources.insert fun empty => ?_,sound.notes⟩
    rw [empty] at many
    exact absurd many (show ¬maxSourcesPerIp ≤ 0 by decide)
  next few =>
  split
  · exact ⟨bare,sound.keywords,emptied,sound.notes⟩
  next made entryBytes sized =>
  split
  · exact ⟨bare,sound.keywords,emptied,sound.notes⟩
  next fits =>
  obtain ⟨rfl,rfl,-⟩ := normalizeAndSizeTags_some sized
  simp only [Bool.or_eq_true,decide_eq_true_eq,not_or,Nat.not_lt] at fits
  simp only [Bool.and_eq_true,Bool.or_eq_true,decide_eq_true_eq,not_and,not_or,Nat.not_le] at slot
  obtain ⟨count,bytes⟩ := settled_totals sound.kept.covered.1 now target (fun e => e.id = senderId)
    ⟨senderId,sourceTags tags senderIp senderPort,now,sourceTtlSecs,senderId,none,sizeOfTags (sourceTags tags senderIp senderPort)⟩
  refine ⟨sound.kept.withSources ?_ count bytes ?_ fits.2,sound.keywords,stocked_settled sound.sources _ _ _ _,sound.notes⟩
  · refine sourceLimits_settled bucket (sound.kept.sourceLimits.mono less) rfl (fun ip => sourceTags_address rfl)
      (fun none => ⟨by have := (slot none).1.2; omega,(slot none).2⟩) (Nat.not_le.1 few) fits.1.1 ?_
    · rw [← Nat.add_left_cancel ((Nat.add_comm ..).trans share')]
      exact fits.1.2
  split
  next none => exact (slot none).1.1
  next => exact (Nat.sub_le ..).trans sound.kept.totalCount

theorem Sound.pruneNotes (sound : s.Sound)
    (same : stock t = stock (prunedTable s.notesEntries target now)) :
    ({ s with
        notesEntries := t
        totalCount := s.totalCount-((shelf s.notesEntries target).length-(unexpired now (shelf s.notesEntries target)).length)
        totalRetainedBytes := s.totalRetainedBytes-
          (retainedBytes (shelf s.notesEntries target)-retainedBytes (unexpired now (shelf s.notesEntries target))) } : DhtStore).Kept := by
  obtain ⟨less,fewer,lighter⟩ := pruned_totals _ target now sound.kept.covered.2 same
  refine sound.kept.withNotes (sound.kept.notesLimits.mono less) fewer lighter ?_ ?_
  · exact (Nat.sub_le ..).trans sound.kept.totalCount
  · exact (Nat.sub_le ..).trans sound.kept.totalBytes

theorem Sound.storeNotesEntry (sound : s.Sound) : (s.storeNotesEntry now target senderId tags).Sound := by
  have bare := sound.pruneNotes (stock_dropBare (prunedTable s.notesEntries target now) target)
  have emptied := @stocked_pruned _ target sound.notes now
  have bucket := shelf_pruned s.notesEntries target now
  obtain ⟨less,share,share'⟩ := pruned_totals s.notesEntries target now ⟨Nat.le_refl _,Nat.le_refl _⟩ rfl
  unfold DhtStore.storeNotesEntry
  rw [count_all,bytes_all]
  dsimp only
  split
  · exact sound
  split
  · exact ⟨bare,sound.keywords,sound.sources,emptied⟩
  next slot =>
  split
  · exact ⟨bare,sound.keywords,sound.sources,emptied⟩
  next made entryBytes sized =>
  split
  · exact ⟨bare,sound.keywords,sound.sources,emptied⟩
  next fits =>
  obtain ⟨rfl,rfl,-⟩ := normalizeAndSizeTags_some sized
  simp only [Bool.or_eq_true,decide_eq_true_eq,not_or,Nat.not_lt] at fits
  simp only [Bool.and_eq_true,Bool.or_eq_true,decide_eq_true_eq,not_and,not_or,Nat.not_le] at slot
  obtain ⟨count,bytes⟩ := settled_totals sound.kept.covered.2 now target (fun e => e.id = senderId)
    ⟨senderId,made,now,notesTtlSecs,senderId,none,sizeOfTags made⟩
  refine ⟨sound.kept.withNotes ?_ count bytes ?_ fits.2,sound.keywords,sound.sources,stocked_settled sound.notes _ _ _ _⟩
  · refine notesLimits_settled bucket (sound.kept.notesLimits.mono less) (fun none => ⟨by have := (slot none).1.2; omega,(slot none).2⟩) fits.1.1 ?_
    · rw [← Nat.add_left_cancel ((Nat.add_comm ..).trans share')]
      exact fits.1.2
  split
  next none => exact (slot none).1.1
  next => exact (Nat.sub_le ..).trans sound.kept.totalCount

end Calls
end Ember.Kad.DhtStore
