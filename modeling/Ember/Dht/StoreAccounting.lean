import Ember.Dht.StoreBooks

/-! The counters are the books of the map. Each move changes the map under one key and the counters
by as much; in between, a listing dropped for another of its author's is a key slot ahead until the
new one is pushed. -/
namespace Ember.Dht
open Bytes Table List AList Prod

abbrev DhtRecord.sameAuthor (record r : DhtRecord) : Bool := r.publisherKey == record.publisherKey

namespace DhtStore

structure Balanced (s : DhtStore) (books : Books) : Prop where
  bytes : s.bytes = books.2
  index : s.publisherIndex.Tracks books.1
  exact : s.saturated = false

def Booked (s : DhtStore) : Prop := Balanced s (ledger s.entries)

variable {s t : DhtStore} {books : Books}
variable {α : Type} (m : Moment) (p : PublisherKey) {keep : DhtRecord → Bool} {key : Key} {record : DhtRecord}

theorem Balanced.setEntries (balanced : Balanced s books) (entries : Entries) :
    Balanced (s.setEntries entries) books :=
  { balanced with }

theorem Balanced.memo (balanced : Balanced s books) (same : Memo s t) : Balanced t books := by
  have index := same.field (fun store => { store.publisherIndex with noCrowdingVictim := false }) (fun _ => rfl)
  have load := congrArg PublisherIndex.load index
  have beyond := congrArg PublisherIndex.overShare index
  have crowd := congrArg PublisherIndex.crowd index
  have keys := congrArg PublisherIndex.keyShare index
  have bytes := congrArg PublisherIndex.byteShare index
  have exact := congrArg PublisherIndex.saturated index
  have tracks := balanced.index
  exact ⟨same.bytes.trans balanced.bytes,
    ⟨fun p => (congrArg (AList.lookup p) load).trans (tracks.load p),beyond.trans (tracks.overShare.trans crowd.symm),
      keys ▸ tracks.keyShare,bytes ▸ tracks.byteShare,exact.trans tracks.exact⟩,
    (same.field DhtStore.saturated (fun _ => rfl)).trans balanced.exact⟩

theorem Booked.memo (booked : Booked s) (same : Memo s t) : Booked t := by
  unfold Booked
  rw [same.entries]
  exact Balanced.memo booked same

private theorem tracks_dischargeAll (index : PublisherIndex) (loads : PublisherKey → PublisherLoad)
    (released : List Release) (positive : ∀ r ∈ released, 0 < r.cost)
    (tracks : index.Tracks (loads+(owed released).1)) : (index.dischargeAll released).Tracks loads := by
  induction released generalizing index with
  | nil => simpa [owed,PublisherIndex.dischargeAll] using tracks
  | cons r rest ih =>
    refine ih _ (fun r' member => positive r' (mem_cons_of_mem _ member)) ?_
    refine PublisherIndex.tracks_discharge ?_ (positive r mem_cons_self)
    have order : loads+(owed (r :: rest)).1 =
        loads+(owed rest).1+Pi.single r.publisher (.entry r.cost r.last r.feedHead) := by
      simp only [owed,map_cons,sum_cons,fst_add,Release.books]
      rw [add_assoc,add_comm (Pi.single _ _)]
    rwa [order] at tracks

theorem Balanced.release (freed : Nat) (released : List Release) (positive : ∀ r ∈ released, 0 < r.cost)
    (cost : freed = (owed released).2) (balanced : Balanced s (books+owed released)) :
    Balanced (s.release freed released) books := by
  have bytes : s.bytes = books.2+freed := balanced.bytes.trans (by rw [cost]; rfl)
  refine ⟨by simp [DhtStore.release,bytes],tracks_dischargeAll _ _ _ positive balanced.index,?_⟩
  simp [DhtStore.release,balanced.exact,bytes]

theorem Booked.exchange (booked : Booked s) {k : Key} {l : List DhtRecord} {freed : Nat}
    {released : List Release} (positive : ∀ r ∈ released, 0 < r.cost) (cost : freed = (owed released).2)
    (moved : booksOf (s.records k) = booksOf l+owed released) :
    Booked ((s.setEntries (s.entries.insert k l)).release freed released) := by
  refine Balanced.release freed released positive cost (Balanced.setEntries ?_ _)
  rw [release_entries,setEntries_entries,ledger_insert,add_assoc,← moved,records,← ledger_split]
  exact booked

theorem owed_cost (kept gone : List DhtRecord) : costs gone = (owed (releases kept ∅ gone)).2 := by
  have whole := congrArg snd (booksOf_releases kept gone)
  simp only [booksOf,snd_add,costs_append] at whole
  omega

section
variable (booked : Booked s) {k : Key}
include booked

theorem Booked.dropKey : Booked (s.dropKey k) := by
  unfold DhtStore.dropKey
  split
  · exact booked
  rename_i records found
  refine Balanced.release _ _ (releases_pos _ _ _) (owed_cost [] records) (Balanced.setEntries ?_ _)
  have left : booksOf records = owed (releases [] ∅ records) := by
    have whole := booksOf_releases [] records
    rwa [booksOf_nil,zero_add] at whole
  rw [release_entries,setEntries_entries,← left,← held_of_lookup _ _ _ found,← ledger_split]
  exact booked

theorem Booked.dropRecord {records : List DhtRecord} {victim : DhtRecord}
    (found : s.entries.lookup k = some records) (member : victim ∈ records) :
    Booked (s.dropRecord k records victim) := by
  have order : records.Perm (records.erase victim++[victim]) :=
    (perm_cons_erase member).trans (perm_append_singleton ..).symm
  refine booked.exchange (releases_pos _ _ _) ?_ ?_
  · rw [← owed_cost]
    simp [costs]
  · have here : s.records k = records := held_of_lookup _ _ _ found
    rw [here,booksOf_perm order,booksOf_releases]

theorem Booked.sheds {may : Key → DhtRecord → Prop} (sheds : Sheds may s t) : Booked t := by
  induction sheds with
  | refl => exact booked
  | memo _ same ih => exact ih.memo same
  | key k _ _ ih => exact ih.dropKey
  | record k records victim _ found member _ ih => exact ih.dropRecord found member
  | @empty t k _ found ih =>
    have same : ledger (t.entries.erase k) = ledger t.entries := by
      rw [ledger_split t.entries k,held_of_lookup _ _ _ found,booksOf_nil,add_zero]
    unfold Booked
    rw [setEntries_entries,same]
    exact Balanced.setEntries ih _

theorem Booked.insert {l : List DhtRecord}
    (same : booksOf l = booksOf (s.records k)) : Booked (s.setEntries (s.entries.insert k l)) := by
  unfold Booked
  rw [setEntries_entries,ledger_insert,same,records,← ledger_split]
  exact Balanced.setEntries booked _

theorem Booked.restamps (restamps : Restamps s t) : Booked t := by
  induction restamps with
  | refl => exact booked
  | memo _ same ih => exact ih.memo same
  | @records t k l l' _ found same ih =>
    have here : t.records k = l := held_of_lookup _ _ _ found
    exact ih.insert (by rw [here,booksOf_sameBodies same])

end

private theorem filter_perm (keep : DhtRecord → Bool) (records : List DhtRecord) :
    records.Perm (records.filter keep++records.filter fun r => !keep r) :=
  (filter_append_perm keep records).symm

theorem Booked.reclaim (booked : Booked s) {m : Moment} : Booked (s.reclaim m key (s.records key)) := by
  refine booked.exchange (releases_pos _ _ _) (owed_cost ..) ?_
  rw [← booksOf_releases]
  exact booksOf_perm (filter_perm ..)

private theorem owed_flatMap (f : α → List Release) (walk : List α) :
    owed (walk.flatMap f) = (walk.map fun e => owed (f e)).sum := by
  induction walk with
  | nil => rfl
  | cons e rest ih =>
    have split : owed (f e++rest.flatMap f) = owed (f e)+owed (rest.flatMap f) := by simp [owed]
    rw [flatMap_cons,split,ih,map_cons,sum_cons]

private theorem owed_flatMap_cost (kept gone : α → List DhtRecord) (walk : List α) :
    (walk.map fun e => costs (gone e)).sum = (owed (walk.flatMap fun e => releases (kept e) ∅ (gone e))).2 := by
  rw [owed_flatMap]
  induction walk with
  | nil => rfl
  | cons e rest ih => rw [map_cons,sum_cons,map_cons,sum_cons,snd_add,ih,owed_cost (kept e)]

theorem ledger_sweep : ledger s.entries = ledger (s.sweep m keep).1.entries + total (fun _ records =>
      owed (releases (records.filter keep) ∅ (records.filter fun r => !keep r))) s.entries := by
  have swept : ledger (s.sweep m keep).1.entries = total (fun _ => booksOf) (retain (fun records =>
    if (records.filter keep).isEmpty then none else some (records.filter keep)) s.entries) := rfl
  rw [swept,total_retain]
  · rfl
  intro k records
  have whole : booksOf records = booksOf (records.filter keep)+
      owed (releases (records.filter keep) ∅ (records.filter fun r => !keep r)) := by
    rw [← booksOf_releases]
    exact booksOf_perm (filter_perm keep records)
  rw [whole]
  congr 1
  by_cases none : (records.filter keep).isEmpty
  · rw [List.isEmpty_iff.1 none]
    rfl
  · rw [if_neg none]
    rfl

theorem Booked.sweep (booked : Booked s) {m : Moment} : Booked (s.sweep m keep).1 := by
  have walked : owed ((m.order s.entries).flatMap fun e =>
      releases (e.2.filter keep) ∅ (e.2.filter fun r => !keep r)) =
      total (fun _ records => owed (releases (records.filter keep) ∅ (records.filter fun r => !keep r))) s.entries := by
    rw [owed_flatMap]
    exact ((m.perm s.entries).map _).sum_eq
  refine Balanced.release _ _ ?_ ?_ (Balanced.setEntries ?_ _)
  · intro r member
    obtain ⟨e,_,released⟩ := mem_flatMap.1 member
    exact releases_pos _ _ _ r released
  · exact owed_flatMap_cost (fun e => e.2.filter keep) (fun e => e.2.filter fun r => !keep r) (m.order s.entries)
  · rw [walked,← ledger_sweep m]
    exact booked

private theorem entry_split (cost : Nat) (slot head : Bool) :
    PublisherLoad.entry cost slot head = .entry 0 slot false+.entry cost false head := by
  ext <;> simp [PublisherLoad.entry]

private theorem booksOf_middle (before after : List DhtRecord) (r : DhtRecord) :
    booksOf (before++r :: after) = booksOf (before++after) +
      (Pi.single r.publisherKey (.entry 0 (!(before++after).any (·.publisherKey == r.publisherKey)) false),0) +
      (Pi.single r.publisherKey (.entry r.cost false (isFeedHead r.data)),r.cost) := by
  have order : (before++r :: after).Perm ((before++after)++[r]) :=
    perm_middle.trans (perm_append_singleton ..).symm
  rw [booksOf_perm order,booksOf_push,add_assoc,entry_split]
  simp [mk_add_mk,Pi.single_add]

theorem Booked.substitute (booked : Booked s) {resident : DhtRecord}
    {before after : List DhtRecord} (here : Resident s key record before resident after) :
    Booked (s.substitute key record resident (before++record :: after)) := by
  have owner : resident.publisherKey = record.publisherKey := congrArg fst here.slot
  -- both records stand on the same slot, and only the cost and the head change hands
  generalize shared : ledger (s.entries.erase key)+(booksOf (before++after) +
    (Pi.single record.publisherKey
      (.entry 0 (!(before++after).any record.sameAuthor) false),0)) = rest
  have old : Balanced s (rest+(Pi.single record.publisherKey
      (.entry resident.cost false (isFeedHead resident.data)),resident.cost)) := by
    have held := booksOf_middle before after resident
    rw [owner] at held
    rw [← shared,add_assoc,← held,← here.records,records,← ledger_split]
    exact booked
  have new : ledger (s.substitute key record resident (before++record :: after)).entries =
      rest+(Pi.single record.publisherKey (.entry record.cost false (isFeedHead record.data)),record.cost) := by
    have written : (s.substitute key record resident (before++record :: after)).entries =
        s.entries.insert key (before++record :: after) := rfl
    rw [written,ledger_insert,booksOf_middle,← shared]
    simp [add_assoc]
  have standing : (rest.1 record.publisherKey).spent = false := by
    rw [← shared]
    cases present : (before++after).any record.sameAuthor with
    | false => simp [PublisherLoad.spent,PublisherLoad.entry]
    | true => simp [PublisherLoad.spent,booksOf,loadOf,present]
  unfold Booked
  rw [new]
  have bytes : s.bytes = rest.2+resident.cost := old.bytes
  refine ⟨?_,?_,?_⟩
  · simp only [DhtStore.substitute,snd_add,bytes]
    omega
  · refine PublisherIndex.tracks_charge ?_ _ _ _ _ (fun spent => by simp [standing] at spent) (cost_pos record)
    exact PublisherIndex.tracks_discharge old.index (cost_pos resident)
  · simp [DhtStore.substitute,old.exact,bytes]

/-- The key slot left standing for the author of a listing about to be pushed. -/
private def slack (standing : Bool) : Books := (Pi.single p (.entry 0 standing false),0)

private theorem slack_false : slack p false = 0 := by
  have nothing : PublisherLoad.entry 0 false false = 0 := rfl
  rw [slack,nothing,Pi.single_zero]
  rfl

private theorem Booked.dropStalest (booked : Booked s) (key : Key) (record : DhtRecord) (live : List DhtRecord)
    (here : s.records key = live) :
    Balanced (s.dropStalest key record live).1 (ledger (s.dropStalest key record live).1.entries +
      slack record.publisherKey (live.any record.sameAuthor &&
        !(s.dropStalest key record live).2.any record.sameAuthor)) := by
  unfold DhtStore.dropStalest
  split
  · rw [Bool.and_not_self,slack_false,add_zero]
    exact booked
  rename_i stalest found
  obtain ⟨member,_⟩ := stalestListing_mem record live stalest found
  have order : live.Perm (live.erase stalest++[stalest]) :=
    (perm_cons_erase member).trans (perm_append_singleton ..).symm
  have moved : booksOf live = booksOf (live.erase stalest) +
      slack record.publisherKey (live.any record.sameAuthor &&
        !(live.erase stalest).any record.sameAuthor) +
      owed [⟨stalest.publisherKey,stalest.cost,stalest.publisherKey != record.publisherKey &&
        !(live.erase stalest).any (·.publisherKey == stalest.publisherKey),isFeedHead stalest.data⟩] := by
    rw [booksOf_perm order,booksOf_push,add_assoc,order.any_eq,any_append]
    congr 1
    by_cases same : stalest.publisherKey = record.publisherKey
    · simp only [DhtRecord.sameAuthor,same,any_cons,any_nil,beq_self_eq_true,Bool.true_or,Bool.or_true,Bool.true_and,
        bne_self_eq_false,Bool.false_and,owed,map_cons,map_nil,sum_singleton,Release.books,slack,
        mk_add_mk,← Pi.single_add,← entry_split,Nat.zero_add]
    have other : (stalest.publisherKey == record.publisherKey) = false := by simp [same]
    have differs : (stalest.publisherKey != record.publisherKey) = true := by simp [same]
    simp only [other,differs,any_cons,any_nil,Bool.or_false,Bool.and_not_self,slack_false,zero_add,
      Bool.true_and,owed,map_cons,map_nil,sum_singleton,Release.books]
  refine Balanced.memo (s := (s.setEntries (s.entries.insert key (live.erase stalest))).release ..) ?_ rfl
  refine Balanced.release _ _ (by simpa using cost_pos stalest) (by simp [owed,Release.books])
    (Balanced.setEntries ?_ _)
  have entries : ∀ released e, (((s.setEntries (s.entries.insert key (live.erase stalest))).release
      stalest.cost released).logEviction e).entries = s.entries.insert key (live.erase stalest) :=
    fun _ _ => rfl
  rw [entries,ledger_insert,add_assoc,add_assoc,← add_assoc (booksOf _),← moved,← here,records,← ledger_split]
  exact booked

private theorem Balanced.push (key : Key) (l : List DhtRecord) (record : DhtRecord) (first standing : Bool)
    (here : s.records key = l) (balanced : Balanced s (ledger s.entries+slack record.publisherKey standing))
    (slots : standing.toNat+first.toNat = (!l.any record.sameAuthor).toNat) : Booked (s.push key l record first) := by
  have sum : PublisherLoad.entry 0 standing false+.entry record.cost first (isFeedHead record.data) =
      .entry record.cost (!l.any record.sameAuthor) (isFeedHead record.data) := by
    ext <;> simp [PublisherLoad.entry,slots]
  have new : ledger (s.push key l record first).entries = ledger s.entries+slack record.publisherKey standing +
      (Pi.single record.publisherKey (.entry record.cost first (isFeedHead record.data)),record.cost) := by
    have written : (s.push key l record first).entries = s.entries.insert key (l++[record]) := rfl
    rw [written,ledger_insert,booksOf_push,ledger_split s.entries key,add_assoc,add_assoc]
    simp only [slack,mk_add_mk,← Pi.single_add,Nat.zero_add]
    rw [sum,← here,records]
  have settled : ((ledger s.entries+slack record.publisherKey standing).1 record.publisherKey).spent →
      (ledger s.entries+slack record.publisherKey standing).1 record.publisherKey = 0 := by
    intro spent
    simp only [PublisherLoad.spent,slack,PublisherLoad.entry,fst_add,Pi.add_apply,Pi.single_eq_same,
      PublisherLoad.keys_add,PublisherLoad.bytes_add,Bool.and_eq_true,beq_iff_eq] at spent
    have empty := settled_ledger s.entries record.publisherKey (by omega)
    have none : standing = false := by
      cases standing
      · rfl
      · simp at spent
    rw [none,slack_false,add_zero,empty]
  unfold Booked
  rw [new]
  refine ⟨?_,PublisherIndex.tracks_charge balanced.index _ _ _ _ settled (cost_pos record),balanced.exact⟩
  exact congrArg (·+record.cost) balanced.bytes

theorem Booked.placed {m : Moment} {ok : Bool} (booked : Booked s)
    (filled : Filled s) (size : (s.records key).length ≤ maxRecordsPerKey)
    (placed : Placed m s key record t ok) : Booked t ∧ Filled t := by
  cases placed with
  | older | addressMoved => exact ⟨booked.memo rfl,filled.memo rfl⟩
  | @stamped before after resident here =>
    refine ⟨booked.insert ?_,filled.insert (by simp)⟩
    rw [here.records]
    exact booksOf_sameBodies (SameBodies.replace before after resident _ rfl)
  | @replaced before after resident here =>
    have budget := enforceByteBudget_budgeted m (s.substitute key record resident (before++record :: after)) key
    refine ⟨(booked.substitute here).sheds budget.sheds,budget.filled ?_⟩
    exact filled.insert (by simp)
  | capped why fresh alive =>
    exact ⟨booked.reclaim.memo rfl,filled.insert alive⟩
  | @full live cleared fresh living clearing full =>
    have unchanged := dropStalest_full (s.reclaim m key (s.records key)) key _ record live living size (clearing ▸ full)
    rw [clearing,unchanged] at full ⊢
    have occupied : live ≠ [] := fun none => by simp [none,maxRecordsPerKey] at full
    exact ⟨booked.reclaim.memo rfl,filled.insert (living ▸ occupied)⟩
  | @pushed live cleared fresh living clearing mine room =>
    obtain ⟨here,_⟩ := reclaim_records m s key (s.records key)
    have before : (s.reclaim m key (s.records key)).records key = live := here.trans living.symm
    obtain ⟨clears,left,_⟩ := dropStalest_cleared (s.reclaim m key (s.records key)) key record live before
    have standing := booked.reclaim.dropStalest key record live before
    rw [← clearing] at clears left standing
    have absent : (live.countP record.sameAuthor == 0) = !live.any record.sameAuthor := by
      rw [Bool.eq_iff_iff]
      simp [countP_eq_zero]
    have slots : (live.any record.sameAuthor && !cleared.2.any record.sameAuthor).toNat +
        (live.countP record.sameAuthor == 0).toNat =
          (!cleared.2.any record.sameAuthor).toNat := by
      rw [absent]
      cases present : live.any record.sameAuthor with
      | true => simp
      | false =>
        have gone : cleared.2.any record.sameAuthor = false := by
          rw [any_eq_false] at present ⊢
          exact fun r member => present r (clears.sublist.subset member)
        rw [gone]
        rfl
    have pushed := Balanced.push key cleared.2 record _ _ left standing slots
    have budget := enforceByteBudget_budgeted m (cleared.1.push key cleared.2 record
      (live.countP record.sameAuthor == 0)) key
    refine ⟨pushed.sheds budget.sheds,budget.filled ?_⟩
    intro k
    by_cases same : k = key
    · subst same
      have written : (cleared.1.push k cleared.2 record
          (live.countP record.sameAuthor == 0)).entries.lookup k =
            some (cleared.2++[record]) := lookup_insert _
      simp [written]
    have kept : (cleared.1.push key cleared.2 record
        (live.countP record.sameAuthor == 0)).entries.lookup k = s.entries.lookup k := by
      have unmoved := dropStalest_lookup (s.reclaim m key (s.records key)) key k record live same
      rw [← clearing] at unmoved
      exact ((lookup_insert_ne same).trans unmoved).trans (lookup_insert_ne same)
    rw [kept]
    exact filled k

structure Accounts (s : DhtStore) : Prop where
  shelved : Shelved s
  booked : Booked s
  filled : Filled s

theorem accounts_new : Accounts new where
  shelved k := Shelf.nil k
  booked := ⟨rfl,⟨fun _ => rfl,rfl,by decide,by decide,rfl⟩,rfl⟩
  filled k := by simp [new]

theorem sweep_filled : Filled (s.sweep m keep).1 := by
  intro k
  simp only [DhtStore.sweep,release_entries,setEntries_entries,lookup_retain]
  cases s.entries.lookup k with
  | none => simp
  | some l =>
    by_cases none : (l.filter keep).isEmpty
    · rw [Option.bind_some,if_pos none]
      simp
    · simp

theorem Filled.restamps (filled : Filled s) (restamps : Restamps s t) : Filled t := by
  induction restamps with
  | refl => exact filled
  | memo _ same ih => exact ih.memo same
  | @records t k l l' _ found same ih =>
    refine ih.insert ?_
    rintro rfl
    have empty : l = [] := by simpa using same.symm
    exact ih k (empty ▸ found)

theorem accounts_invariant (env : Env) : Invariant env (fun _ => True) Accounts where
  memo s t same accounts :=
    ⟨(shelved_invariant env).memo s t same accounts.shelved,accounts.booked.memo same,accounts.filled.memo same⟩
  store m s key data signature ip checked accounts := by
    have shelved := (shelved_invariant env).store m s key data signature ip checked accounts.shelved
    rcases storeRecord_cases env m s key data signature ip checked _ rfl with
      ⟨_,same,_⟩ | ⟨p,createdAt,t,ok,_,_,_,_,room,outcome⟩
    · exact ⟨shelved,accounts.booked.memo same,accounts.filled.memo same⟩
    have booked := accounts.booked.sheds room.evicted.sheds
    have filled := room.evicted.filled accounts.filled
    rcases outcome with ⟨_,refused⟩ | ⟨_,placed⟩
    · rw [refused] at shelved ⊢
      exact ⟨shelved,booked,filled⟩
    have size := (accounts.shelved.sheds room.evicted.sheds key).size
    obtain ⟨balanced,occupied⟩ := booked.placed filled size placed
    exact ⟨shelved,balanced,occupied⟩
  sweep m s keep accounts :=
    ⟨(shelved_invariant env).sweep m s keep accounts.shelved,accounts.booked.sweep,sweep_filled m⟩
  restamps s t restamps accounts :=
    ⟨(shelved_invariant env).restamps s t restamps accounts.shelved,accounts.booked.restamps restamps,
      accounts.filled.restamps restamps⟩
  localId s localId accounts :=
    { accounts with booked := { accounts.booked with } }
  localKey s p _ accounts :=
    { accounts with booked := ⟨accounts.booked.bytes,
      { accounts.booked.index with overShare := PublisherIndex.recount_overShare _ },accounts.booked.exact⟩ }
  shares s filtered accounts := by
    unfold setResponsibilityFiltered
    split_ifs
    · exact accounts
    · exact { accounts with booked := ⟨accounts.booked.bytes,
        PublisherIndex.tracks_setShares accounts.booked.index _ _ (by decide) (by decide),
        accounts.booked.exact⟩ }
    · exact { accounts with booked := ⟨accounts.booked.bytes,
        PublisherIndex.tracks_setShares accounts.booked.index _ _ (by decide) (by decide),
        accounts.booked.exact⟩ }
  scale s scale accounts :=
    { accounts with booked := { accounts.booked with } }

end DhtStore

variable (entries : Entries) (p : PublisherKey)

def residents : List DhtRecord := entries.entries.flatMap Sigma.snd

def publishers : Finset PublisherKey :=
  ((residents entries).map DhtRecord.publisherKey).toFinset

def recount : PublisherLoad where
  keys := entries.entries.countP fun e => e.2.any (·.publisherKey == p)
  bytes := costs ((residents entries).filter (·.publisherKey == p))
  feedHeads := (residents entries).countP fun r => r.publisherKey == p && isFeedHead r.data

theorem ledger_recount : ledger entries = (recount entries,costs (residents entries)) := by
  unfold ledger total recount residents
  induction entries.entries with
  | nil => rfl
  | cons e rest ih =>
    rw [map_cons,sum_cons,ih]
    refine Prod.ext (funext fun p => PublisherLoad.ext ?_ ?_ ?_) ?_
    · cases present : e.2.any (·.publisherKey == p) <;>
        simp [booksOf,loadOf,present,Nat.add_comm]
    · simp [booksOf,loadOf,costs]
    · simp [booksOf,loadOf]
    · simp [booksOf,costs]

theorem recount_spent_iff : (recount entries p).spent = true ↔ p ∉ publishers entries := by
  constructor
  · intro spent member
    simp only [PublisherLoad.spent,Bool.and_eq_true,beq_iff_eq] at spent
    obtain ⟨r,resident,rfl⟩ := mem_map.1 (mem_toFinset.1 member)
    have inside : r.cost ∈ ((residents entries).filter (·.publisherKey == r.publisherKey)).map DhtRecord.cost :=
      mem_map_of_mem (mem_filter.2 ⟨resident,by simp⟩)
    have bound := single_le_sum (by simp) _ inside
    have positive := cost_pos r
    simp only [recount,costs] at spent
    omega
  · intro absent
    have none : ∀ r ∈ residents entries, ¬ r.publisherKey = p := by
      rintro r member rfl
      exact absent (mem_toFinset.2 (mem_map_of_mem member))
    have free : (recount entries p).bytes = 0 := by
      have empty : (residents entries).filter (·.publisherKey == p) = [] := by
        rw [filter_eq_nil_iff]
        intro r member
        simp [none r member]
      simp [recount,empty,costs]
    have settled : (recount entries p).bytes = 0 → recount entries p = 0 := by
      simpa only [ledger_recount] using settled_ledger entries p
    rw [settled free]
    rfl

namespace DhtStore

def PastShare (s : DhtStore) (p : PublisherKey) : Prop :=
  s.publisherIndex.localKey ≠ some p ∧
    (s.publisherIndex.keyShare ≤ (recount s.entries p).keys ∨
      s.publisherIndex.byteShare ≤ (recount s.entries p).bytes)

instance (s : DhtStore) : DecidablePred s.PastShare := fun p => by unfold PastShare; infer_instance

/-- Every counter agrees with a recount over the map, and none ever went below zero. -/
structure Reconciled (s : DhtStore) : Prop where
  bytes : s.bytes = costs (residents s.entries)
  load : ∀ p, s.publisherIndex.load.lookup p =
    if p ∈ publishers s.entries then some (recount s.entries p) else none
  overShare : s.publisherIndex.overShare = ((publishers s.entries).filter s.PastShare).card
  occupied : ∀ k, s.entries.lookup k ≠ some []
  unsaturated : s.saturated = false ∧ s.publisherIndex.saturated = false

theorem Booked.reconciled {s : DhtStore} (booked : Booked s) (filled : Filled s) : Reconciled s := by
  have balanced : Balanced s (recount s.entries,costs (residents s.entries)) := ledger_recount s.entries ▸ booked
  have load : ∀ p, s.publisherIndex.load.lookup p =
      if p ∈ publishers s.entries then some (recount s.entries p) else none := by
    intro p
    rw [balanced.index.load p]
    by_cases member : p ∈ publishers s.entries
    · have kept : ¬ (recount s.entries p).spent = true := fun spent => (recount_spent_iff ..).1 spent member
      simp [kept,member]
    · have gone := (recount_spent_iff ..).2 member
      simp [gone,member]
  refine ⟨balanced.bytes,load,?_,filled,balanced.exact,balanced.index.exact⟩
  rw [balanced.index.overShare]
  refine total_count (fun p => ?_)
  rw [Finset.mem_filter,load p]
  by_cases member : p ∈ publishers s.entries
  · simp [member,PastShare,PublisherIndex.reaches]
  · simp [member]

theorem run_reconciled (env : Env) (ops : List (StoreOp env)) : Reconciled (new.run ops) := by
  have accounts := (accounts_invariant env).run ops (fun _ _ => trivial) new accounts_new
  exact accounts.booked.reconciled accounts.filled

/-- A body dated `i64::MIN` is refused as lapsed, by an age the subtraction could not hold. -/
theorem age_saturates : (new.run [@StoreOp.storeAttributed .trusting
    (Moment.reading 1700000000 (by decide)) 0 (buildData recordTypeKeyword 0 0 0 0 0 (-2^63) [] []) 0
    none]).ageSaturated = true := by decide

end DhtStore
end Ember.Dht
