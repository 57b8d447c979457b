import Ember.Kad.Store

/-! What the index holds, as three multisets of records under their targets, the limits on each, and
the publishers' accounts as parts of the keyword records. -/
namespace Ember.Kad
open AList Multiset Prod

abbrev Item := KadId × StoredEntry

namespace Item

def one (_ : Item) : Nat := 1
def size (x : Item) : Nat := x.2.retainedBytes

def Under (target : KadId) (x : Item) : Prop := x.1 = target
def From (sender : KadId × KadId) (x : Item) : Prop := x.1 = sender.1 ∧ x.2.sourceId = sender.2
def ChargedTo (publisher : PublisherKey) (x : Item) : Prop := x.2.budgetKey = publisher
def InSlot (slot : KadId × KadId × KadId) (x : Item) : Prop := x.1 = slot.1 ∧ x.2.id = slot.2.1 ∧ x.2.sourceId = slot.2.2
def Named (name : KadId × KadId) (x : Item) : Prop := x.1 = name.1 ∧ x.2.id = name.2
def ServedAt (address : KadId × Dht.Ipv4Addr) (x : Item) : Prop := x.1 = address.1 ∧ DhtStore.servedFrom address.2 x.2 = true

instance (target : KadId) : DecidablePred (Under target) := fun _ => inferInstanceAs (Decidable (_ = _))
instance (sender : KadId × KadId) : DecidablePred (From sender) := fun _ => inferInstanceAs (Decidable (_ ∧ _))
instance (publisher : PublisherKey) : DecidablePred (ChargedTo publisher) := fun _ => inferInstanceAs (Decidable (_ = _))
instance (slot : KadId × KadId × KadId) : DecidablePred (InSlot slot) := fun _ => inferInstanceAs (Decidable (_ ∧ _ ∧ _))
instance (name : KadId × KadId) : DecidablePred (Named name) := fun _ => inferInstanceAs (Decidable (_ ∧ _))
instance (address : KadId × Dht.Ipv4Addr) : DecidablePred (ServedAt address) := fun _ => inferInstanceAs (Decidable (_ ∧ _))

/-- The slot of a record: at most one of a keyword bucket has an id from one sender. -/
def slot (x : Item) : KadId × KadId × KadId := (x.1,x.2.id,x.2.sourceId)

end Item
open Item

def weightOf (m : Multiset Item) : Nat := (m.map size).sum

theorem weightOf_cons (x : Item) (m : Multiset Item) : weightOf (x ::ₘ m) = size x+weightOf m := by
  simp [weightOf]

theorem weightOf_add {m m' : Multiset Item} : weightOf (m+m') = weightOf m+weightOf m' := by
  simp [weightOf]

structure KeywordLimits (m : Multiset Item) : Prop where
  distinct : Limited InSlot one 1 m
  perKey : Limited Under one maxEntriesPerKey m
  bytesPerKey : Limited Under size maxRetainedBytesPerKey m
  perSender : Limited From one maxKeywordEntriesPerSender m
  bytesPerSender : Limited From size maxRetainedBytesPerPublisherPerKey m
  perPublisher : Limited ChargedTo one maxKeywordEntriesPerPublisher m
  bytesPerPublisher : Limited ChargedTo size maxKeywordBytesPerPublisher m

structure SourceLimits (m : Multiset Item) : Prop where
  distinct : Limited Named one 1 m
  perKey : Limited Under one maxEntriesPerKey m
  bytesPerKey : Limited Under size maxRetainedBytesPerKey m
  perAddress : Limited ServedAt one maxSourcesPerIp m
  count : m.card ≤ maxSourceTotalEntries
  bytes : weightOf m ≤ maxSourceRetainedBytes

structure NotesLimits (m : Multiset Item) : Prop where
  perKey : Limited Under one maxNotesPerFile m
  bytesPerKey : Limited Under size maxRetainedBytesPerKey m
  count : m.card ≤ maxNotesTotalEntries
  bytes : weightOf m ≤ maxNotesRetainedBytes

section Limits
variable {m m' : Multiset Item}

theorem weightOf_mono (part : m ≤ m') : weightOf m ≤ weightOf m' := by
  obtain ⟨rest,rfl⟩ := Multiset.le_iff_exists_add.1 part
  rw [weightOf_add]
  exact Nat.le_add_right ..

theorem KeywordLimits.mono (limits : KeywordLimits m') (part : m ≤ m') : KeywordLimits m where
  distinct := limits.distinct.mono part
  perKey := limits.perKey.mono part
  bytesPerKey := limits.bytesPerKey.mono part
  perSender := limits.perSender.mono part
  bytesPerSender := limits.bytesPerSender.mono part
  perPublisher := limits.perPublisher.mono part
  bytesPerPublisher := limits.bytesPerPublisher.mono part

theorem SourceLimits.mono (limits : SourceLimits m') (part : m ≤ m') : SourceLimits m where
  distinct := limits.distinct.mono part
  perKey := limits.perKey.mono part
  bytesPerKey := limits.bytesPerKey.mono part
  perAddress := limits.perAddress.mono part
  count := (card_le_card part).trans limits.count
  bytes := (weightOf_mono part).trans limits.bytes

theorem NotesLimits.mono (limits : NotesLimits m') (part : m ≤ m') : NotesLimits m where
  perKey := limits.perKey.mono part
  bytesPerKey := limits.bytesPerKey.mono part
  count := (card_le_card part).trans limits.count
  bytes := (weightOf_mono part).trans limits.bytes

end Limits

structure PublisherUsage.Of (u : PublisherUsage) (mine : Multiset Item) : Prop where
  entries : u.entries = mine.card
  bytes : u.bytes = weightOf mine
  targets : Recounts u.targets (mine.map fst).toList

def chargedTo (publisher : PublisherKey) (m : Multiset Item) : Multiset Item := m.filter (ChargedTo publisher)

/-- Exactly the publishers of the records have an account, a recount of its own; the hint names one of them. -/
structure Charges.Of (c : Charges) (m : Multiset Item) : Prop where
  accounts : ∀ publisher u, c.usage.lookup publisher = some u → chargedTo publisher m ≠ 0 ∧ u.Of (chargedTo publisher m)
  absent : ∀ publisher, c.usage.lookup publisher = none → chargedTo publisher m = 0
  heaviest : ∀ publisher, c.heaviest = some publisher → publisher ∈ c.usage

section Accounts
variable {u : PublisherUsage} {mine m : Multiset Item} {x old : Item} {c : Charges} {publisher : PublisherKey}
variable {m' : Multiset Item}

theorem chargedTo_cons_self (x : Item) (m : Multiset Item) : chargedTo x.2.budgetKey (x ::ₘ m) = x ::ₘ chargedTo x.2.budgetKey m :=
  filter_cons_of_pos m rfl

theorem chargedTo_cons_other (other : publisher ≠ x.2.budgetKey) : chargedTo publisher (x ::ₘ m) = chargedTo publisher m :=
  filter_cons_of_neg m fun same : x.2.budgetKey = publisher => other same.symm

theorem PublisherUsage.of_zero : ({} : PublisherUsage).Of 0 where
  entries := rfl
  bytes := rfl
  targets := by simpa using Recounts.empty

private theorem targets_cons (x : Item) (mine : Multiset Item) :
    (x.1 :: (mine.map fst).toList).Perm ((x ::ₘ mine).map fst).toList := by
  rw [← coe_eq_coe,← cons_coe,coe_toList,coe_toList,map_cons]

theorem PublisherUsage.Of.add (exact : u.Of mine) (x : Item) :
    PublisherUsage.Of ⟨u.entries+1,u.bytes+size x,u.targets.bump x.1⟩ (x ::ₘ mine) where
  entries := by simp [exact.entries]
  bytes := by rw [weightOf_cons,← exact.bytes]; exact Nat.add_comm ..
  targets := exact.targets.bump.perm (targets_cons x mine)

theorem PublisherUsage.Of.remove (exact : u.Of (x ::ₘ mine)) :
    PublisherUsage.Of ⟨u.entries-1,u.bytes-size x,u.targets.release x.1⟩ mine where
  entries := by simp [exact.entries]
  bytes := by rw [exact.bytes,weightOf_cons,Nat.add_sub_cancel_left]
  targets := (exact.targets.perm (targets_cons x mine).symm).release

theorem PublisherUsage.Of.swap (exact : u.Of (old ::ₘ mine)) (target : x.1 = old.1) :
    PublisherUsage.Of ⟨u.entries,u.bytes-size old+size x,u.targets⟩ (x ::ₘ mine) where
  entries := by simp [exact.entries]
  bytes := by rw [exact.bytes,weightOf_cons,weightOf_cons,Nat.add_sub_cancel_left,Nat.add_comm]
  targets := by
    have front := exact.targets.perm (targets_cons old mine).symm
    rw [← target] at front
    exact front.perm (targets_cons x mine)

theorem Charges.of_zero : Charges.Of ⟨∅,none⟩ 0 where
  accounts _ _ found := by cases found
  absent _ _ := rfl
  heaviest _ hint := by cases hint

theorem Charges.Of.account (exact : c.Of m) (publisher : PublisherKey) :
    ((c.usage.lookup publisher).getD {}).Of (chargedTo publisher m) := by
  cases found : c.usage.lookup publisher with
  | some u => exact (exact.accounts publisher u found).2
  | none =>
    rw [exact.absent publisher found]
    exact PublisherUsage.of_zero

theorem Charges.Of.write {record : PublisherUsage} {heaviest : Option PublisherKey} (exact : c.Of m)
    (own : record.Of (chargedTo publisher m')) (some : chargedTo publisher m' ≠ 0)
    (others : ∀ p, p ≠ publisher → chargedTo p m' = chargedTo p m)
    (hint : heaviest = c.heaviest ∨ heaviest = .some publisher) : Charges.Of ⟨c.usage.insert publisher record,heaviest⟩ m' where
  accounts := by
    intro p u found
    by_cases same : p = publisher
    · subst same
      rw [lookup_insert,Option.some.injEq] at found
      exact found ▸ ⟨some,own⟩
    rw [lookup_insert_ne same] at found
    rw [others p same]
    exact exact.accounts p u found
  absent := by
    intro p found
    by_cases same : p = publisher
    · rw [same,lookup_insert] at found
      cases found
    rw [lookup_insert_ne same] at found
    rw [others p same]
    exact exact.absent p found
  heaviest := by
    intro p named
    rw [mem_insert]
    obtain rfl | rfl := hint
    · exact .inr (exact.heaviest p named)
    · exact .inl (Option.some.inj named).symm

theorem Charges.Of.erase (exact : c.Of m) (none : chargedTo publisher m' = 0)
    (others : ∀ p, p ≠ publisher → chargedTo p m' = chargedTo p m) :
    Charges.Of ⟨c.usage.erase publisher,if c.heaviest = some publisher then .none else c.heaviest⟩ m' where
  accounts := by
    intro p u found
    by_cases same : p = publisher
    · rw [same,lookup_erase] at found
      cases found
    rw [lookup_erase_ne same] at found
    rw [others p same]
    exact exact.accounts p u found
  absent := by
    intro p found
    by_cases same : p = publisher
    · rw [same,none]
    rw [lookup_erase_ne same] at found
    rw [others p same]
    exact exact.absent p found
  heaviest := by
    intro p named
    split at named
    · cases named
    next other => exact mem_erase.2 ⟨fun same => other (same ▸ named),exact.heaviest p named⟩

private theorem hint_either (heaviest : Option PublisherKey) (publisher : PublisherKey) (p : Prop) [Decidable p] :
    (if p then some publisher else heaviest) = heaviest ∨ (if p then some publisher else heaviest) = some publisher := by
  by_cases holds : p
  · exact .inr (if_pos holds)
  · exact .inl (if_neg holds)

theorem Charges.Of.add (exact : c.Of m) (x : Item) : (publisherUsageAdd c x.2.budgetKey x.1 1 x.2.retainedBytes 0).Of (x ::ₘ m) := by
  have own := (exact.account x.2.budgetKey).add x
  rw [← chargedTo_cons_self] at own
  refine exact.write own ?_ (fun p other => chargedTo_cons_other other) (hint_either ..)
  rw [chargedTo_cons_self]
  exact cons_ne_zero

theorem Charges.Of.swap (exact : c.Of (old ::ₘ m)) (target : x.1 = old.1) (key : x.2.budgetKey = old.2.budgetKey) :
    (publisherUsageAdd c x.2.budgetKey x.1 0 x.2.retainedBytes old.2.retainedBytes).Of (x ::ₘ m) := by
  have before := exact.account old.2.budgetKey
  rw [chargedTo_cons_self] at before
  have own := before.swap target
  have listed : x.1 ∈ ((c.usage.lookup old.2.budgetKey).getD {}).targets := by
    rw [target,before.targets.mem_iff,mem_toList,map_cons]
    exact mem_cons_self ..
  rw [← key] at own listed
  rw [← chargedTo_cons_self] at own
  have some : chargedTo x.2.budgetKey (x ::ₘ m) ≠ 0 := by
    rw [chargedTo_cons_self]
    exact cons_ne_zero
  have others : ∀ p, p ≠ x.2.budgetKey → chargedTo p (x ::ₘ m) = chargedTo p (old ::ₘ m) := fun p other => by
    rw [chargedTo_cons_other other,chargedTo_cons_other (key ▸ other)]
  rw [publisherUsageAdd,if_pos listed]
  exact exact.write own some others (hint_either ..)

theorem Charges.Of.remove (exact : c.Of (x ::ₘ m)) : (publisherUsageRemove c x.2.budgetKey x.1 x.2.retainedBytes).Of m := by
  have others : ∀ p, p ≠ x.2.budgetKey → chargedTo p m = chargedTo p (x ::ₘ m) := fun p other => (chargedTo_cons_other other).symm
  cases found : c.usage.lookup x.2.budgetKey with
  | none =>
    have held := exact.absent _ found
    rw [chargedTo_cons_self] at held
    exact absurd held cons_ne_zero
  | some u =>
    have before := (exact.accounts _ u found).2
    rw [chargedTo_cons_self] at before
    have own := before.remove
    simp only [publisherUsageRemove,found]
    split
    next drained =>
      have gone : chargedTo x.2.budgetKey m = 0 := card_eq_zero.1 (own.entries.symm.trans drained)
      exact exact.erase gone others
    next left =>
    refine exact.write own (fun gone => left ?_) others (.inl rfl)
    exact own.entries.trans (card_eq_zero.2 gone)

theorem Charges.Of.mem_targets {target : KadId} (exact : c.Of m) (found : c.usage.lookup publisher = some u) :
    target ∈ u.targets ↔ ∃ e, (target,e) ∈ m ∧ e.budgetKey = publisher := by
  rw [(exact.accounts publisher u found).2.targets.mem_iff,mem_toList,mem_map]
  constructor
  · rintro ⟨⟨_,e⟩,mine,rfl⟩
    exact ⟨e,(mem_filter.1 mine).1,(mem_filter.1 mine).2⟩
  · rintro ⟨e,member,key⟩
    exact ⟨(target,e),mem_filter.2 ⟨member,key⟩,rfl⟩

end Accounts
end Ember.Kad
