import Ember.Kad.Shelving

/-! The index over whole runs: every call keeps the books, so every state reached has exact totals and
accounts and stays within every cap. -/
namespace Ember.Kad.DhtStore
open Item List Option Multiset Table AList

section Rebuilding
variable {m : Multiset Item} {usage : Table PublisherKey PublisherUsage}

theorem tally_of (exact : Charges.Of ⟨usage,none⟩ m)
    (target : KadId) (e : StoredEntry) : Charges.Of ⟨tally target usage e,none⟩ ((target,e) ::ₘ m) := by
  have own := (exact.account e.budgetKey).add (target,e)
  rw [← chargedTo_cons_self (target,e)] at own
  refine exact.write own ?_ (fun p other => chargedTo_cons_other other) (.inl rfl)
  rw [chargedTo_cons_self (target,e)]
  exact cons_ne_zero

theorem tallies_of (exact : Charges.Of ⟨usage,none⟩ m) (target : KadId) (bucket : List StoredEntry) :
    Charges.Of ⟨bucket.foldl (tally target) usage,none⟩ (m+↑(bucket.map (Prod.mk target))) := by
  induction bucket generalizing usage m with
  | nil => rwa [map_nil,coe_nil,add_zero]
  | cons e rest ih =>
    have step := ih (tally_of exact target e)
    rwa [cons_add,← add_cons] at step

theorem rebuilt_of (t : Table KadId (List StoredEntry)) : Charges.Of ⟨rebuilt t,none⟩ (stock t) := by
  have walked : ∀ (bindings : List (KadId × List StoredEntry)) usage m, Charges.Of ⟨usage,none⟩ m →
      Charges.Of ⟨bindings.foldl (fun usage binding => binding.2.foldl (tally binding.1) usage) usage,none⟩
        (m+(bindings.map fun binding => (↑(binding.2.map (Prod.mk binding.1)) : Multiset Item)).sum) := by
    intro bindings
    induction bindings with
    | nil => intro usage m exact; rwa [map_nil,sum_nil,add_zero]
    | cons binding rest ih =>
      intro usage m exact
      have step := ih _ _ (tallies_of exact binding.1 binding.2)
      rwa [add_assoc] at step
  have all := walked t.bindings ∅ 0 Charges.of_zero
  rw [zero_add,bindings,List.map_map] at all
  exact all

end Rebuilding
section Clearing
variable (t : Table KadId (List StoredEntry)) (now : Int)

theorem stock_cleared_le : stock (cleared now t) ≤ stock t := by
  have split := total_retain (fun bucket => if unexpired now bucket = [] then none else some (unexpired now bucket))
    (fun k items => (↑(items.map (Prod.mk k)) : Multiset Item))
    (fun k items => (↑((items.filter fun e => e.isExpired now).map (Prod.mk k)) : Multiset Item)) t ?_
  · exact Multiset.le_iff_exists_add.2 ⟨_,split.symm⟩
  intro k bucket
  have parts := coe_eq_coe.2 ((unexpired_split now bucket).map (Prod.mk k))
  rw [map_append] at parts
  rw [parts]
  split
  next bare => rw [bare]; rfl
  next => rfl

theorem stocked_cleared : Stocked (cleared now t) := by
  intro k bare
  rw [cleared,lookup_retain] at bare
  cases found : t.lookup k with
  | none => rw [found] at bare; cases bare
  | some bucket =>
    rw [found,bind_some] at bare
    split at bare
    · cases bare
    next some => exact some (Option.some.inj bare)

end Clearing
section Calls
variable {s : DhtStore}

theorem Sound.new : DhtStore.new.Sound := by
  have bare : Stocked ∅ := fun _ found => by cases found
  refine ⟨⟨rfl,rfl,Charges.of_zero,?_,?_,?_,Nat.zero_le _,Nat.zero_le _⟩,bare,bare,bare⟩
  · exact ⟨.zero,.zero,.zero,.zero,.zero,.zero,.zero⟩
  · exact ⟨.zero,.zero,.zero,.zero,Nat.zero_le _,Nat.zero_le _⟩
  · exact ⟨.zero,.zero,Nat.zero_le _,Nat.zero_le _⟩

theorem Sound.opened (sound : s.Sound) (p : Packet) : (s.opened p).Sound p where
  kept := (shed_pruneKeywords sound.kept p.now p.target).kept sound.kept
  counted := Nat.le_refl _
  bare := Batch.bare_insert (fun k bare => (sound.keywords k bare).elim) _
  sources := sound.sources
  notes := sound.notes

theorem Sound.storeKeywordEntries (sound : s.Sound) {p : Packet} {entries : List PublishEntry} :
    (s.storeKeywordEntries p entries).Sound := by
  have batch := (sound.opened p).offers entries
  exact ⟨batch.kept.reshelved (stock_dropBare ..),stocked_dropBare batch.bare,batch.sources,batch.notes⟩

theorem Sound.cleanupExpired (sound : s.Sound) {now : Int} {order : Iteration} : (s.cleanupExpired now order).Sound := by
  have keywords := stock_cleared_le s.keywordEntries now
  have sources := stock_cleared_le s.sourceEntries now
  have notes := stock_cleared_le s.notesEntries now
  have count := sound.kept.count
  have bytes := sound.kept.bytes
  have charges := rebuilt_of (cleared now s.keywordEntries)
  have cards : (s.cleanupExpired now order).totalCount = (stock (cleared now s.keywordEntries)).card+
      (stock (cleared now s.sourceEntries)).card+(stock (cleared now s.notesEntries)).card := by
    simp only [DhtStore.cleanupExpired,map_append,sum_append,count_all]
  have weights : (s.cleanupExpired now order).totalRetainedBytes = weightOf (stock (cleared now s.keywordEntries))+
      weightOf (stock (cleared now s.sourceEntries))+weightOf (stock (cleared now s.notesEntries)) := by
    simp only [DhtStore.cleanupExpired,map_append,sum_append,bytes_all]
  refine ⟨⟨cards,weights,{ charges with heaviest := fun p => heaviestOf_mem },sound.kept.keywordLimits.mono keywords,
    sound.kept.sourceLimits.mono sources,sound.kept.notesLimits.mono notes,?_,?_⟩,stocked_cleared _ _,stocked_cleared _ _,stocked_cleared _ _⟩
  · have fewer := card_le_card keywords
    have fewer' := card_le_card sources
    have fewer'' := card_le_card notes
    have most := sound.kept.totalCount
    simp only [DhtStore.keywords,DhtStore.sources,DhtStore.notes] at count
    omega
  · have lighter := weightOf_mono keywords
    have lighter' := weightOf_mono sources
    have lighter'' := weightOf_mono notes
    have most := sound.kept.totalBytes
    simp only [DhtStore.keywords,DhtStore.sources,DhtStore.notes] at bytes
    omega

end Calls

/-- A call of the index, with the clock it reads and the orders its walks take. -/
inductive Call where
  | keywords (p : Packet) (entries : List PublishEntry)
  | source (now : Int) (target senderId : KadId) (tags : List KadTag) (senderIp : Dht.Ipv4Addr) (senderPort : UInt16)
  | notes (now : Int) (target senderId : KadId) (tags : List KadTag)
  | cleanup (now : Int) (order : Iteration)
variable (calls : List Call) (s : DhtStore)

def perform : Call → DhtStore
  | .keywords p entries => s.storeKeywordEntries p entries
  | .source now target senderId tags senderIp senderPort => s.storeSourceEntry now target senderId tags senderIp senderPort
  | .notes now target senderId tags => s.storeNotesEntry now target senderId tags
  | .cleanup now order => s.cleanupExpired now order

def after : DhtStore := calls.foldl perform new

theorem Sound.perform {s : DhtStore} (sound : s.Sound) {call : Call} : (s.perform call).Sound := by
  cases call with
  | keywords p entries => exact sound.storeKeywordEntries
  | source => exact sound.storeSourceEntry
  | notes => exact sound.storeNotesEntry
  | cleanup now order => exact sound.cleanupExpired

theorem sound_after : (after calls).Sound := by
  induction calls using List.reverseRecOn with
  | nil => exact .new
  | append_singleton calls call ih =>
    rw [after,foldl_append]
    exact ih.perform

def buckets : List (List StoredEntry) := s.keywordEntries.values++s.sourceEntries.values++s.notesEntries.values

def chargedRecords (publisher : PublisherKey) : List StoredEntry :=
  s.keywordEntries.values.flatten.filter fun e => e.budgetKey = publisher

/-- Totals and accounts are recounts of the maps, and every cap holds. -/
structure Accounted (s : DhtStore) : Prop where
  count : s.totalCount = (s.buckets.map List.length).sum
  bytes : s.totalRetainedBytes = (s.buckets.map retainedBytes).sum
  stocked : [] ∉ s.buckets
  publishers : ∀ publisher, publisher ∈ s.charges.usage ↔ s.chargedRecords publisher ≠ []
  usage : ∀ publisher u, s.charges.usage.lookup publisher = some u →
    u.entries = (s.chargedRecords publisher).length ∧ u.bytes = retainedBytes (s.chargedRecords publisher)
  targets : ∀ publisher u, s.charges.usage.lookup publisher = some u → ∀ target,
    let here := ((shelf s.keywordEntries target).filter fun e => e.budgetKey = publisher).length
    u.targets.lookup target = if here = 0 then none else some here
  distinct : ∀ bucket ∈ s.keywordEntries.values, (bucket.map fun e => (e.id,e.sourceId)).Nodup
  perKey : ∀ bucket ∈ s.buckets, bucket.length ≤ maxEntriesPerKey ∧ retainedBytes bucket ≤ maxRetainedBytesPerKey
  perSender : ∀ bucket ∈ s.keywordEntries.values, ∀ sender,
    (bucket.filter fun e => e.sourceId = sender).length ≤ maxKeywordEntriesPerSender ∧
      retainedBytes (bucket.filter fun e => e.sourceId = sender) ≤ maxRetainedBytesPerPublisherPerKey
  perPublisher : ∀ publisher, (s.chargedRecords publisher).length ≤ maxKeywordEntriesPerPublisher ∧
    retainedBytes (s.chargedRecords publisher) ≤ maxKeywordBytesPerPublisher
  sourceShare : (s.sourceEntries.values.map List.length).sum ≤ maxSourceTotalEntries ∧
    (s.sourceEntries.values.map retainedBytes).sum ≤ maxSourceRetainedBytes
  notesShare : (s.notesEntries.values.map List.length).sum ≤ maxNotesTotalEntries ∧
    (s.notesEntries.values.map retainedBytes).sum ≤ maxNotesRetainedBytes
  perFile : ∀ bucket ∈ s.notesEntries.values, bucket.length ≤ maxNotesPerFile
  perAddress : ∀ bucket ∈ s.sourceEntries.values, ∀ ip, (bucket.filter (servedFrom ip)).length ≤ maxSourcesPerIp
  total : s.totalCount ≤ maxTotalEntries ∧ s.totalRetainedBytes ≤ maxTotalRetainedBytes

section Reading
variable {s : DhtStore} {t : Table KadId (List StoredEntry)}

theorem shelf_of_values {bucket : List StoredEntry} (member : bucket ∈ t.values) : ∃ target, bucket = shelf t target := by
  obtain ⟨target,found⟩ := mem_values.1 member
  exact ⟨target,by rw [shelf,found]; rfl⟩

theorem Stocked.values (stocked : Stocked t) : [] ∉ t.values := fun member => by
  obtain ⟨target,found⟩ := mem_values.1 member
  exact stocked target found

section
variable {s : DhtStore} {publisher : PublisherKey}

theorem length_chargedRecords : (s.chargedRecords publisher).length = held (ChargedTo publisher) one s.keywords :=
  (count_values (fun e : StoredEntry => e.budgetKey = publisher) s.keywordEntries).symm

theorem bytes_chargedRecords :
    retainedBytes (s.chargedRecords publisher) = held (ChargedTo publisher) size s.keywords :=
  (held_values (fun e : StoredEntry => e.budgetKey = publisher) StoredEntry.retainedBytes s.keywordEntries).symm

theorem card_chargedTo : (chargedTo publisher s.keywords).card = (s.chargedRecords publisher).length :=
  (held_one (ChargedTo publisher) s.keywords).symm.trans length_chargedRecords.symm

theorem count_targets {target : KadId} : ((chargedTo publisher s.keywords).map Prod.fst).toList.count target =
      ((shelf s.keywordEntries target).filter fun e => e.budgetKey = publisher).length := by
  rw [← count_shelf s.keywordEntries target fun e => e.budgetKey = publisher,held_one,← coe_count,coe_toList,
    Multiset.count_map,chargedTo,Multiset.filter_filter]
  refine congrArg Multiset.card (Multiset.filter_congr fun x _ => ?_)
  exact and_congr_left fun _ => eq_comm

end

theorem Sound.distinct (sound : s.Sound) {target : KadId} : ((shelf s.keywordEntries target).map fun e => (e.id,e.sourceId)).Nodup := by
  rw [List.nodup_iff_count_le_one]
  intro name
  have most := sound.kept.keywordLimits.distinct (target,name.1,name.2)
  have bucket := count_shelf s.keywordEntries target fun e => e.id = name.1 ∧ e.sourceId = name.2
  have same : (fun e : StoredEntry => (e.id,e.sourceId) == name) = fun e => decide (e.id = name.1 ∧ e.sourceId = name.2) := by
    funext e
    rw [Bool.eq_iff_iff,beq_iff_eq,decide_eq_true_eq,Prod.ext_iff]
  rw [List.count,List.countP_map,countP_eq_length_filter,Function.comp_def,same]
  exact bucket ▸ most

theorem Sound.accounted (sound : s.Sound) : s.Accounted := by
  have kept := sound.kept
  have limits := kept.keywordLimits
  have sources := kept.sourceLimits
  have notes := kept.notesLimits
  have listed : ∀ publisher, s.chargedRecords publisher ≠ [] ↔ chargedTo publisher s.keywords ≠ 0 := fun publisher => by
    rw [ne_eq,← length_eq_zero_iff,← card_chargedTo,card_eq_zero]
  have perKey : ∀ t, Limited Under one maxEntriesPerKey (stock t) → Limited Under size maxRetainedBytesPerKey (stock t) →
      ∀ bucket ∈ t.values, bucket.length ≤ maxEntriesPerKey ∧ retainedBytes bucket ≤ maxRetainedBytesPerKey := by
    intro t few light bucket member
    obtain ⟨target,rfl⟩ := shelf_of_values member
    rw [length_shelf,bytes_shelf]
    exact ⟨few target,light target⟩
  constructor
  case count => rw [kept.count,buckets]; simp only [map_append,sum_append,count_all]; rfl
  case bytes => rw [kept.bytes,buckets]; simp only [map_append,sum_append,bytes_all]; rfl
  case stocked =>
    rw [buckets,mem_append,mem_append]
    rintro ((member | member) | member)
    · exact sound.keywords.values member
    · exact sound.sources.values member
    · exact sound.notes.values member
  case publishers =>
    intro publisher
    rw [listed]
    constructor
    · intro member
      obtain ⟨u,found⟩ := isSome_iff_exists.1 (lookup_isSome.2 member)
      exact (kept.charges.accounts publisher u found).1
    intro some
    by_contra absent
    exact some (kept.charges.absent publisher (lookup_eq_none.2 absent))
  case usage =>
    intro publisher u found
    have own := (kept.charges.accounts publisher u found).2
    rw [own.entries,card_chargedTo,own.bytes,bytes_chargedRecords]
    exact ⟨rfl,rfl⟩
  case targets =>
    intro publisher u found target
    have counted := (kept.charges.accounts publisher u found).2.targets target
    rwa [count_targets] at counted
  case distinct =>
    intro bucket member
    obtain ⟨target,rfl⟩ := shelf_of_values member
    exact sound.distinct
  case perKey =>
    intro bucket member
    rw [buckets,mem_append,mem_append] at member
    obtain (member | member) | member := member
    · exact perKey _ limits.perKey limits.bytesPerKey bucket member
    · exact perKey _ sources.perKey sources.bytesPerKey bucket member
    · exact perKey _ (fun k => (notes.perKey k).trans (by decide)) notes.bytesPerKey bucket member
  case perSender =>
    intro bucket member sender
    obtain ⟨target,rfl⟩ := shelf_of_values member
    have few := limits.perSender (target,sender)
    have light := limits.bytesPerSender (target,sender)
    have bytes := held_shelf s.keywordEntries target (fun e => e.sourceId = sender) size
    exact ⟨count_shelf s.keywordEntries target (fun e => e.sourceId = sender) ▸ few,bytes.symm.trans_le light⟩
  case perPublisher =>
    intro publisher
    rw [length_chargedRecords,bytes_chargedRecords]
    exact ⟨limits.perPublisher publisher,limits.bytesPerPublisher publisher⟩
  case sourceShare => rw [count_all,bytes_all]; exact ⟨sources.count,sources.bytes⟩
  case notesShare => rw [count_all,bytes_all]; exact ⟨notes.count,notes.bytes⟩
  case perFile =>
    intro bucket member
    obtain ⟨target,rfl⟩ := shelf_of_values member
    rw [length_shelf]
    exact notes.perKey target
  case perAddress =>
    intro bucket member ip
    obtain ⟨target,rfl⟩ := shelf_of_values member
    have few := sources.perAddress (target,ip)
    have bucket := count_shelf s.sourceEntries target fun e => servedFrom ip e = true
    simp only [Bool.decide_eq_true] at bucket
    exact bucket ▸ few
  case total => exact ⟨kept.totalCount,kept.totalBytes⟩

end Reading

/-- Whatever calls an empty index has seen, its totals and accounts are exact and every cap holds. -/
theorem index_accounted (calls : List Call) : (after calls).Accounted := (sound_after calls).accounted

end Ember.Kad.DhtStore
