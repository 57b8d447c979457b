import Ember.Dht.StoreShelf

/-! The books of the store: what each publisher holds and what it all costs. A release takes from
them what its record put there, a charge adds its record. -/
namespace Ember.Dht
open Bytes Table List Function

abbrev Books := (PublisherKey → PublisherLoad) × Nat
variable {a b : List DhtRecord} (kept : List DhtRecord) (released : Finset PublisherKey) (gone : List DhtRecord)

variable (records : List DhtRecord) (r : DhtRecord)

def loadOf (p : PublisherKey) : PublisherLoad where
  keys := (records.any (·.publisherKey == p)).toNat
  bytes := costs (records.filter (·.publisherKey == p))
  feedHeads := records.countP fun r => r.publisherKey == p && isFeedHead r.data

def booksOf : Books := (loadOf records,costs records)

def ledger (entries : Entries) : Books := total (fun _ => booksOf) entries

def Release.books (r : Release) : Books := (Pi.single r.publisher (.entry r.cost r.last r.feedHead),r.cost)

def owed (released : List Release) : Books := (released.map Release.books).sum

theorem cost_pos : 0 < r.cost := by
  unfold DhtRecord.cost recordCost dhtRecordSize
  omega

theorem booksOf_nil : booksOf [] = 0 := rfl

theorem costs_append (a b : List DhtRecord) : costs (a++b) = costs a+costs b := by simp [costs]

theorem booksOf_perm (perm : a.Perm b) : booksOf a = booksOf b := by
  have owners : ∀ p, a.any (·.publisherKey == p) = b.any (·.publisherKey == p) := fun p => perm.any_eq
  have filtered : ∀ p, costs (a.filter (·.publisherKey == p)) = costs (b.filter (·.publisherKey == p)) :=
    fun p => ((perm.filter _).map DhtRecord.cost).sum_eq
  refine Prod.ext (funext fun p => PublisherLoad.ext ?_ ?_ ?_) (perm.map DhtRecord.cost).sum_eq
  · simp [booksOf,loadOf,owners p]
  · exact filtered p
  · exact perm.countP_eq _

theorem booksOf_sameBodies (same : SameBodies a b) : booksOf b = booksOf a := by
  have cost : ∀ r : DhtRecord, r.bare.cost = r.cost := fun _ => rfl
  have owner : ∀ r : DhtRecord, r.bare.publisherKey = r.publisherKey := fun _ => rfl
  have blind : ∀ l : List DhtRecord, booksOf (l.map DhtRecord.bare) = booksOf l := by
    intro l
    refine Prod.ext (funext fun p => PublisherLoad.ext ?_ ?_ ?_) ?_
    · simp [booksOf,loadOf,comp_def,DhtRecord.bare]
    · simp only [booksOf,loadOf,costs,filter_map,map_map,comp_def,cost,owner]
    · simp [booksOf,loadOf,comp_def,DhtRecord.bare]
    · simp only [booksOf,costs,map_map,comp_def,cost]
  rw [← blind a,← blind b,same]

private theorem owed_releases_from : owed (releases kept released gone) =
      (fun p => ⟨(gone.any (·.publisherKey == p) && !kept.any (·.publisherKey == p) &&
        decide (p ∉ released)).toNat,(loadOf gone p).bytes,(loadOf gone p).feedHeads⟩,costs gone) := by
  induction gone generalizing released with
  | nil => rfl
  | cons r rest ih =>
    have split : owed (releases kept released (r :: rest)) =
        Release.books ⟨r.publisherKey,r.cost,!kept.any (·.publisherKey == r.publisherKey) &&
          decide (r.publisherKey ∉ released),isFeedHead r.data⟩ +
        owed (releases kept (if !kept.any (·.publisherKey == r.publisherKey) then
          insert r.publisherKey released else released) rest) := rfl
    rw [split,ih]
    refine Prod.ext (funext fun p => ?_) ?_
    · by_cases mine : r.publisherKey = p
      · subst mine
        refine PublisherLoad.ext ?_ ?_ ?_
        · cases present : kept.any fun x => x.publisherKey == r.publisherKey <;>
            simp [Release.books,PublisherLoad.entry,present]
        · simp [Release.books,PublisherLoad.entry,loadOf,costs]
        · cases head : isFeedHead r.data <;>
            simp [Release.books,PublisherLoad.entry,loadOf,head,Nat.add_comm]
      · have other : p ≠ r.publisherKey := fun same => mine same.symm
        have still : (p ∈ if !kept.any (·.publisherKey == r.publisherKey) then
            insert r.publisherKey released else released) ↔ p ∈ released := by
          split <;> simp [other]
        have unequal : (r.publisherKey == p) = false := by simp [mine]
        generalize (if !kept.any (·.publisherKey == r.publisherKey) then insert r.publisherKey released
          else released) = released' at still
        refine PublisherLoad.ext ?_ ?_ ?_
        · simp [Release.books,other,unequal,still]
        · simp [Release.books,mine,loadOf]
        · simp [Release.books,mine,loadOf]
    · simp [Release.books,costs]

theorem booksOf_releases (kept gone : List DhtRecord) :
    booksOf (kept++gone) = booksOf kept+owed (releases kept ∅ gone) := by
  rw [owed_releases_from]
  refine Prod.ext (funext fun p => PublisherLoad.ext ?_ ?_ ?_) ?_
  · simp only [booksOf,loadOf,any_append,Prod.fst_add,Pi.add_apply]
    cases kept.any (·.publisherKey == p) <;> cases gone.any (·.publisherKey == p) <;> simp
  · simp [booksOf,loadOf,costs]
  · simp [booksOf,loadOf]
  · simp [booksOf,costs]

theorem releases_pos : ∀ r ∈ releases kept released gone, 0 < r.cost := by
  induction gone generalizing released with
  | nil => simp [releases]
  | cons record rest ih =>
    intro r member
    rcases mem_cons.1 member with rfl | later
    · exact cost_pos record
    · exact ih _ r later

theorem booksOf_push : booksOf (records++[r]) = booksOf records +
      (Pi.single r.publisherKey (.entry r.cost (!records.any (·.publisherKey == r.publisherKey))
        (isFeedHead r.data)),r.cost) := by
  rw [booksOf_releases]
  simp [releases,owed,Release.books]

section Ledger
variable (entries : Entries) (k : Key) (records : List DhtRecord)

theorem ledger_split : ledger entries = ledger (entries.erase k)+booksOf (held entries k) := by
  unfold ledger
  rw [← total_erase (fun _ => booksOf) entries k]
  unfold weight held
  cases entries.lookup k <;> rfl

theorem ledger_insert : ledger (entries.insert k records) = ledger (entries.erase k)+booksOf records :=
  total_insert ..

end Ledger

/-- A load of no bytes is empty: every record costs something. -/
private def Settled (load : PublisherLoad) : Prop := load.bytes = 0 → load = 0

private theorem settled_loadOf (records : List DhtRecord) (p : PublisherKey) : Settled (loadOf records p) := by
  intro free
  have none : ∀ r ∈ records, ¬ r.publisherKey = p := by
    intro r member mine
    have inside : r.cost ∈ (records.filter (·.publisherKey == p)).map DhtRecord.cost :=
      mem_map_of_mem (mem_filter.2 ⟨member,by simp [mine]⟩)
    have bound := single_le_sum (by simp) _ inside
    have positive := cost_pos r
    simp only [loadOf,costs] at free
    omega
  refine PublisherLoad.ext ?_ free ?_
  · simp only [loadOf,PublisherLoad.keys_zero]
    rw [Bool.toNat_eq_zero,any_eq_false]
    intro r member
    simp [none r member]
  simp only [loadOf,PublisherLoad.feedHeads_zero,countP_eq_zero]
  intro r member
  simp [none r member]

theorem settled_ledger (entries : Entries) (p : PublisherKey) (free : ((ledger entries).1 p).bytes = 0) :
    (ledger entries).1 p = 0 := by
  simp only [ledger,total] at free ⊢
  generalize entries.entries = walk at free ⊢
  induction walk with
  | nil => rfl
  | cons e rest ih =>
    simp only [map_cons,sum_cons,Prod.fst_add,Pi.add_apply] at free ⊢
    obtain ⟨here,later⟩ := Nat.add_eq_zero_iff.1 free
    rw [ih later]
    exact settled_loadOf e.2 p here

end Ember.Dht
