import Ember.Kad.Inventory

/-! The books of the index: totals and accounts as recounts, and what holds of them when keyword records
leave. -/
namespace Ember.Kad.DhtStore
open Item List Multiset

def keywords (s : DhtStore) : Multiset Item := stock s.keywordEntries
def sources (s : DhtStore) : Multiset Item := stock s.sourceEntries
def notes (s : DhtStore) : Multiset Item := stock s.notesEntries

structure Kept (s : DhtStore) : Prop where
  count : s.totalCount = s.keywords.card+s.sources.card+s.notes.card
  bytes : s.totalRetainedBytes = weightOf s.keywords+weightOf s.sources+weightOf s.notes
  charges : s.charges.Of s.keywords
  keywordLimits : KeywordLimits s.keywords
  sourceLimits : SourceLimits s.sources
  notesLimits : NotesLimits s.notes
  totalCount : s.totalCount ≤ maxTotalEntries
  totalBytes : s.totalRetainedBytes ≤ maxTotalRetainedBytes

def Stocked (t : Table KadId (List StoredEntry)) : Prop := ∀ k, t.lookup k ≠ some []

structure Shed (s : DhtStore) (gone : Multiset Item) (s' : DhtStore) : Prop where
  keywords : s.keywords = s'.keywords+gone
  sources : s'.sourceEntries = s.sourceEntries
  notes : s'.notesEntries = s.notesEntries
  count : s'.totalCount = s.totalCount-gone.card
  bytes : s'.totalRetainedBytes = s.totalRetainedBytes-weightOf gone
  charges : s'.charges.Of s'.keywords

section Leaving
variable {s s' s'' : DhtStore} {gone gone' : Multiset Item}

theorem Shed.none (kept : s.Kept) : Shed s 0 s where
  keywords := (add_zero _).symm
  sources := rfl
  notes := rfl
  count := rfl
  bytes := rfl
  charges := kept.charges

theorem Shed.trans (first : Shed s gone s') (second : Shed s' gone' s'') : Shed s (gone+gone') s'' where
  keywords := by rw [first.keywords,second.keywords,add_assoc,add_comm gone']
  sources := second.sources.trans first.sources
  notes := second.notes.trans first.notes
  count := by rw [second.count,first.count,card_add,Nat.sub_sub]
  bytes := by rw [second.bytes,first.bytes,weightOf_add,Nat.sub_sub]
  charges := second.charges

theorem Shed.part (shed : Shed s gone s') : s'.keywords ≤ s.keywords := by
  rw [shed.keywords]
  exact Multiset.le_add_right ..

theorem Shed.kept (shed : Shed s gone s') (kept : s.Kept) : s'.Kept := by
  have source : s'.sources = s.sources := by rw [DhtStore.sources,shed.sources,DhtStore.sources]
  have note : s'.notes = s.notes := by rw [DhtStore.notes,shed.notes,DhtStore.notes]
  have count := kept.count
  have bytes := kept.bytes
  rw [shed.keywords,card_add] at count
  rw [shed.keywords,weightOf_add] at bytes
  have fewer := shed.count
  have lighter := shed.bytes
  refine ⟨?_,?_,shed.charges,kept.keywordLimits.mono shed.part,?_,?_,?_,?_⟩
  · rw [source,note]
    omega
  · rw [source,note]
    omega
  · rw [source]
    exact kept.sourceLimits
  · rw [note]
    exact kept.notesLimits
  · exact fewer ▸ (Nat.sub_le ..).trans kept.totalCount
  · exact lighter ▸ (Nat.sub_le ..).trans kept.totalBytes

end Leaving

theorem Kept.reshelved {s : DhtStore} {t : Table KadId (List StoredEntry)} (kept : s.Kept) (same : stock t = s.keywords) :
    ({ s with keywordEntries := t } : DhtStore).Kept := by
  have held : ({ s with keywordEntries := t } : DhtStore).keywords = s.keywords := same
  refine { kept with count := ?_, bytes := ?_, charges := ?_, keywordLimits := ?_ }
  · rw [held]
    exact kept.count
  · rw [held]
    exact kept.bytes
  · rw [held]
    exact kept.charges
  · rw [held]
    exact kept.keywordLimits

theorem retainedBytes_perm {a b : List StoredEntry} (same : a.Perm b) : retainedBytes a = retainedBytes b :=
  (same.map StoredEntry.retainedBytes).sum_eq

theorem retainedBytes_append (a b : List StoredEntry) : retainedBytes (a++b) = retainedBytes a+retainedBytes b := by
  simp [retainedBytes]

theorem weightOf_shelf (target : KadId) (entries : List StoredEntry) :
    weightOf ↑(entries.map (Prod.mk target)) = retainedBytes entries := by
  rw [weightOf,map_coe,List.map_map]
  rfl

theorem unexpired_split (now : Int) (entries : List StoredEntry) :
    entries.Perm (unexpired now entries++entries.filter fun e => e.isExpired now) := by
  have split := filter_append_perm (fun e => !e.isExpired now) entries
  simp only [Bool.not_not] at split
  exact split.symm

section Accounts
variable {c : Charges} {m : Multiset Item}

theorem charges_discharged {target : KadId} {expired : List StoredEntry} (exact : c.Of (m+↑(expired.map (Prod.mk target)))) :
    (expired.foldl (fun c e => publisherUsageRemove c e.budgetKey target e.retainedBytes) c).Of m := by
  induction expired generalizing c with
  | nil => rwa [map_nil,coe_nil,add_zero] at exact
  | cons e rest ih =>
    rw [List.map_cons,← cons_coe,add_cons] at exact
    exact ih exact.remove

end Accounts

variable {s : DhtStore} {target : KadId} {publisher : PublisherKey} {e : StoredEntry} {now : Int} {order : Iteration}

theorem shed_pruneKeywords (kept : s.Kept) (now : Int) (target : KadId) :
    Shed s ↑(((shelf s.keywordEntries target).filter fun e => e.isExpired now).map (Prod.mk target)) (s.pruneKeywords now target) := by
  have split := unexpired_split now (shelf s.keywordEntries target)
  have left := stock_removed split
  have charges := kept.charges
  rw [DhtStore.keywords,left] at charges
  refine ⟨left,rfl,rfl,?_,?_,charges_discharged charges⟩
  · have length := split.length_eq
    rw [length_append] at length
    rw [coe_card,length_map]
    simp only [pruneKeywords]
    omega
  have bytes := retainedBytes_perm split
  rw [retainedBytes_append] at bytes
  rw [weightOf_shelf]
  simp only [pruneKeywords]
  omega

theorem shed_dropKeyword (kept : s.Kept) (member : e ∈ shelf s.keywordEntries target) :
    Shed s {(target,e)} (s.dropKeyword e.budgetKey target e) := by
  have split : (shelf s.keywordEntries target).Perm (eraseLast (shelf s.keywordEntries target) e++[e]) :=
    (eraseLast_perm member).trans (perm_append_singleton ..).symm
  have left : s.keywords = (s.dropKeyword e.budgetKey target e).keywords+{(target,e)} := by
    simp only [DhtStore.keywords,dropKeyword]
    split
    next bare =>
      rw [bare] at split
      rw [← stock_erase s.keywordEntries target,coe_eq_coe.2 (split.map _)]
      rfl
    next => exact stock_removed split
  have charges := kept.charges
  rw [left,add_comm] at charges
  refine ⟨left,rfl,rfl,rfl,?_,charges.remove⟩
  rfl

end Ember.Kad.DhtStore
