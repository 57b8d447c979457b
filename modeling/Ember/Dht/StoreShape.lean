import Ember.Dht.StoreRun

/-! What the evictors do to the map, one key or one record at a time; `Sheds may` collects such
steps with the records they may take. -/
namespace Ember.Dht
open Table List AList

section Held
variable (entries : Entries) (k : Key) (records : List DhtRecord)

@[simp] theorem held_insert : held (entries.insert k records) k = records := by simp [held]

theorem held_insert_ne {k' : Key} (other : k' ≠ k) : held (entries.insert k records) k' = held entries k' := by
  simp [held,lookup_insert_ne other]

@[simp] theorem held_erase : held (entries.erase k) k = [] := by simp [held]

theorem held_erase_ne {k' : Key} (other : k' ≠ k) : held (entries.erase k) k' = held entries k' := by
  simp [held,lookup_erase_ne other]

theorem held_of_lookup (found : entries.lookup k = some records) : held entries k = records := by
  simp [held,found]

theorem lookup_of_mem (member : k ∈ entries) : entries.lookup k = some (held entries k) := by
  obtain ⟨records,found⟩ := Option.isSome_iff_exists.1 (lookup_isSome.2 member)
  simp [held,found]

end Held

namespace PublisherIndex
variable {index : PublisherIndex} {p : PublisherKey} {bytes : Nat}

@[simp] theorem charge_localKey {first head : Bool} : (index.charge p bytes first head).localKey = index.localKey := rfl

@[simp] theorem discharge_localKey {last head : Bool} : (index.discharge p bytes last head).localKey = index.localKey := by
  unfold discharge
  split <;> rfl

@[simp] theorem dischargeAll_localKey {released : List Release} :
    (index.dischargeAll released).localKey = index.localKey := by
  unfold dischargeAll
  induction released generalizing index with
  | nil => rfl
  | cons r rest ih => simp [ih]

end PublisherIndex

namespace DhtStore

def core (store : DhtStore) : DhtStore :=
  { store with
    republishCursor := none
    rejects := {}
    furthestKeyDistance := none
    ageSaturated := false
    evictions := []
    publisherIndex := { store.publisherIndex with noCrowdingVictim := false } }

def Memo (s t : DhtStore) : Prop := t.core = s.core

structure Settings where
  localId : Option EmberNodeId
  localKey : Option PublisherKey
  byteBudget : Nat
  keyBudget : Nat
  scale : NetworkScale

def settings (store : DhtStore) : Settings :=
  ⟨store.localId,store.publisherIndex.localKey,store.byteBudget,store.keyBudget,store.scale⟩

section Memo
variable {s t : DhtStore}

theorem Memo.field {α : Type} (memo : Memo s t) (f : DhtStore → α)
    (blind : ∀ store : DhtStore, f store.core = f store) : f t = f s := by
  rw [← blind t,← blind s]
  exact congrArg f memo

theorem Memo.entries (memo : Memo s t) : t.entries = s.entries := memo.field _ (fun _ => rfl)

theorem Memo.bytes (memo : Memo s t) : t.bytes = s.bytes := memo.field _ (fun _ => rfl)

theorem Memo.settings (memo : Memo s t) : t.settings = s.settings := memo.field _ (fun _ => rfl)

theorem Memo.records (memo : Memo s t) (k : Key) : t.records k = s.records k := by
  unfold DhtStore.records
  rw [memo.entries]

end Memo
variable (s : DhtStore) {freed : Nat} {released : List Release} {entries : Entries} (k : Key) (records : List DhtRecord)
  (victim : DhtRecord)

@[simp] theorem setEntries_entries : (s.setEntries entries).entries = entries := rfl

@[simp] theorem setEntries_settings : (s.setEntries entries).settings = s.settings := rfl

@[simp] theorem release_entries : (s.release freed released).entries = s.entries := rfl

@[simp] theorem release_settings : (s.release freed released).settings = s.settings := by
  simp [settings,release]

theorem dropKey_entries : (s.dropKey k).entries = s.entries.erase k := by
  unfold dropKey
  split
  · rename_i absent
    exact AList.ext (kerase_of_notMem_keys (lookup_eq_none.1 absent)).symm
  · rfl

@[simp] theorem dropKey_evictions : (s.dropKey k).evictions = s.evictions := by
  unfold dropKey
  split <;> rfl

@[simp] theorem dropKey_settings : (s.dropKey k).settings = s.settings := by
  unfold dropKey
  split
  · rfl
  · simp

@[simp] theorem dropRecord_entries :
    (s.dropRecord k records victim).entries = s.entries.insert k (records.erase victim) := rfl

@[simp] theorem dropRecord_settings : (s.dropRecord k records victim).settings = s.settings := by
  unfold dropRecord
  simp

def Filled (s : DhtStore) : Prop := ∀ k, s.entries.lookup k ≠ some []

theorem Filled.memo {s t : DhtStore} (filled : Filled s) (same : Memo s t) : Filled t := by
  intro k
  rw [same.entries]
  exact filled k

theorem Filled.dropKey {s : DhtStore} (filled : Filled s) {k : Key} : Filled (s.dropKey k) := by
  intro k'
  rw [dropKey_entries]
  by_cases same : k' = k
  · subst same
    simp
  · rw [lookup_erase_ne same]
    exact filled k'

theorem Filled.insert {s : DhtStore} (filled : Filled s) {k : Key} {l : List DhtRecord} (occupied : l ≠ []) :
    Filled (s.setEntries (s.entries.insert k l)) := by
  intro k'
  rw [setEntries_entries]
  by_cases same : k' = k
  · subst same
    simpa using occupied
  · rw [lookup_insert_ne same]
    exact filled k'

inductive Sheds (may : Key → DhtRecord → Prop) (s : DhtStore) : DhtStore → Prop where
  | refl : Sheds may s s
  | memo {t u : DhtStore} : Sheds may s t → Memo t u → Sheds may s u
  | key {t : DhtStore} (k : Key) : Sheds may s t → (∀ r ∈ t.records k, may k r) → Sheds may s (t.dropKey k)
  | record {t : DhtStore} (k : Key) (records : List DhtRecord) (victim : DhtRecord) :
      Sheds may s t → t.entries.lookup k = some records → victim ∈ records → may k victim →
        Sheds may s (t.dropRecord k records victim)
  | empty {t : DhtStore} (k : Key) : Sheds may s t → t.entries.lookup k = some [] →
      Sheds may s (t.setEntries (t.entries.erase k))

namespace Sheds
variable {may : Key → DhtRecord → Prop} {s t u : DhtStore}

theorem trans (first : Sheds may s t) (second : Sheds may t u) : Sheds may s u := by
  induction second with
  | refl => exact first
  | memo _ same ih => exact ih.memo same
  | key k _ given ih => exact ih.key k given
  | record k records victim _ found member given ih => exact ih.record k records victim found member given
  | empty k _ found ih => exact ih.empty k found

section
variable (sheds : Sheds may s t)
include sheds

theorem mono {may' : Key → DhtRecord → Prop} (weaker : ∀ k r, may k r → may' k r) : Sheds may' s t := by
  induction sheds with
  | refl => exact refl
  | memo _ same ih => exact ih.memo same
  | key k _ given ih => exact ih.key k (fun r member => weaker k r (given r member))
  | record k records victim _ found member given ih =>
    exact ih.record k records victim found member (weaker k victim given)
  | empty k _ found ih => exact ih.empty k found

theorem settings : t.settings = s.settings := by
  induction sheds with
  | refl => rfl
  | memo _ same ih => rw [same.settings,ih]
  | key k _ _ ih => simp [ih]
  | record k records victim _ _ _ _ ih => simp [ih]
  | empty k _ _ ih => exact ih

theorem mem {k : Key} (member : k ∈ t.entries) : k ∈ s.entries := by
  induction sheds with
  | refl => exact member
  | memo _ same ih => exact ih (same.entries ▸ member)
  | key dropped _ _ ih =>
    rw [dropKey_entries] at member
    exact ih (mem_erase.1 member).2
  | record dropped records victim _ found _ _ ih =>
    rcases (mem_insert _).1 member with rfl | old
    · exact ih (lookup_isSome.1 (by simp [found]))
    · exact ih old
  | empty dropped _ _ ih => exact ih (mem_erase.1 member).2

theorem keyCount : t.keyCount ≤ s.keyCount := by
  have inside : t.entries.keys ⊆ s.entries.keys := fun k member => sheds.mem member
  have shorter := (t.entries.keys_nodup.subperm inside).length_le
  simpa [DhtStore.keyCount,AList.keys,List.keys] using shorter

theorem keeps (k : Key) (stay : DhtRecord → Bool) (safe : ∀ r, stay r → ¬ may k r) :
    (t.records k).Sublist (s.records k) ∧ (t.records k).filter stay = (s.records k).filter stay := by
  induction sheds with
  | refl => exact ⟨.refl _,rfl⟩
  | memo _ same ih => rwa [same.records]
  | @key t dropped _ given ih =>
    by_cases same : k = dropped
    · subst same
      have gone : (t.dropKey k).records k = [] := by simp [DhtStore.records,dropKey_entries]
      have none : (t.records k).filter stay = [] := by
        rw [filter_eq_nil_iff]
        intro r member kept
        exact safe r kept (given r member)
      rw [gone,← ih.2,none]
      exact ⟨nil_sublist _,rfl⟩
    · have other : (t.dropKey dropped).records k = t.records k := by
        simp [DhtStore.records,dropKey_entries,held_erase_ne _ _ same]
      rwa [other]
  | @record t dropped records victim _ found member given ih =>
    by_cases same : k = dropped
    · subst same
      have before : t.records k = records := held_of_lookup _ _ _ found
      have after : (t.dropRecord k records victim).records k = records.erase victim := by
        simp [DhtStore.records]
      rw [before] at ih
      rw [after,← ih.2,← erase_filter]
      refine ⟨erase_sublist.trans ih.1,erase_of_not_mem ?_⟩
      intro inside
      exact safe victim (mem_filter.1 inside).2 given
    · have other : (t.dropRecord dropped records victim).records k = t.records k := by
        simp [DhtStore.records,held_insert_ne _ _ _ same]
      rwa [other]
  | @empty t dropped _ found ih =>
    have other : (t.setEntries (t.entries.erase dropped)).records k = t.records k := by
      by_cases same : k = dropped
      · subst same
        simp [DhtStore.records,held_of_lookup _ _ _ found]
      · simp [DhtStore.records,held_erase_ne _ _ same]
    rwa [other]

theorem sublist (k : Key) : (t.records k).Sublist (s.records k) :=
  (sheds.keeps k (fun _ => false) (fun _ absurd => by cases absurd)).1

theorem spares {k : Key} (safe : ∀ r, ¬ may k r) : t.records k = s.records k := by
  have same := (sheds.keeps k (fun _ => true) (fun r _ => safe r)).2
  simpa using same

end

end Sheds
end DhtStore
end Ember.Dht
