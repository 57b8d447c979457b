import Ember.Dht.StoreAccounting

/-! Every bound of the store at once. The caps sit in different branches of one call: the key count
by making room first, the bytes by the evictor that may not touch the key just written, the feed
heads by a check before either. -/
namespace Ember.Dht
open Bytes Table List AList Prod
variable {l l' : List DhtRecord} (entries : Entries) (p : PublisherKey) {record : DhtRecord} {m : Moment}

def heads (records : List DhtRecord) (p : PublisherKey) : Nat :=
  records.countP fun r => r.publisherKey == p && isFeedHead r.data

def headCount : Nat := heads (residents entries) p

theorem headCount_total : headCount entries p = total (fun _ records => heads records p) entries := by
  unfold headCount residents total
  induction entries.entries with
  | nil => rfl
  | cons e rest ih => simp only [flatMap_cons,heads,countP_append,map_cons,sum_cons] at ih ⊢; omega

theorem costs_total : costs (residents entries) = total (fun _ => costs) entries := by
  unfold residents total
  induction entries.entries with
  | nil => rfl
  | cons e rest ih => rw [flatMap_cons,costs_append,ih,map_cons,sum_cons]

theorem weight_held {g : List DhtRecord → Nat} (empty : g [] = 0) {entries : Entries} {k : Key} :
    weight (fun _ => g) entries k = g (held entries k) := by
  unfold weight held
  cases entries.lookup k with
  | none => exact empty.symm
  | some l => rfl

structure Lighter (l l' : List DhtRecord) : Prop where
  costs : costs l' ≤ costs l
  heads : ∀ p, heads l' p ≤ heads l p

theorem Lighter.of_sublist (thinner : l'.Sublist l) : Lighter l l' :=
  ⟨(thinner.map DhtRecord.cost).sum_le_sum (by simp),fun _ => thinner.countP_le⟩

theorem Lighter.of_sameBodies (same : SameBodies l l') : Lighter l l' := by
  have books := booksOf_sameBodies same
  refine ⟨Nat.le_of_eq (congrArg snd books),fun p => Nat.le_of_eq ?_⟩
  exact congrArg (fun b => (b.1 p).feedHeads) books

section Lighter
variable {e e' : Entries}

theorem headCount_mono (lighter : ∀ k, Lighter (held e k) (held e' k)) {p : PublisherKey} :
    headCount e' p ≤ headCount e p := by
  rw [headCount_total,headCount_total]
  refine total_mono (fun k => ?_)
  rw [weight_held rfl,weight_held rfl]
  exact (lighter k).heads p

theorem costs_mono (lighter : ∀ k, Lighter (held e k) (held e' k)) : costs (residents e') ≤ costs (residents e) := by
  rw [costs_total,costs_total]
  refine total_mono (fun k => ?_)
  rw [weight_held rfl,weight_held rfl]
  exact (lighter k).costs

theorem headCount_split (e : Entries) (k : Key) (p : PublisherKey) :
    headCount e p = headCount (e.erase k) p+heads (held e k) p := by
  rw [headCount_total,headCount_total,← total_erase _ e k,weight_held rfl]

theorem headCount_elsewhere (key : Key) (thinner : ∀ k ≠ key, (held e' k).Sublist (held e k)) (p : PublisherKey) :
    headCount (e'.erase key) p ≤ headCount (e.erase key) p := by
  refine headCount_mono (fun k => .of_sublist ?_)
  by_cases here : k = key
  · subst here
    simp
  · rw [held_erase_ne _ _ here,held_erase_ne _ _ here]
    exact thinner k here

end Lighter

theorem heads_middle (before after : List DhtRecord) (r : DhtRecord) (p : PublisherKey) : heads (before++r :: after) p =
      heads (before++after) p+(r.publisherKey == p && isFeedHead r.data).toNat := by
  unfold heads
  rw [countP_append,countP_cons,countP_append]
  cases (r.publisherKey == p && isFeedHead r.data) <;> rfl

theorem Shelving.heads {ok : Bool} (shelving : Shelving m record l l' ok) (p : PublisherKey) :
    Ember.Dht.heads l' p ≤ Ember.Dht.heads l p+(record.publisherKey == p && isFeedHead record.data).toNat ∧
      ((∃ r ∈ l, r.slot = record.slot ∧ isFeedHead r.data) → (l.map DhtRecord.slot).Nodup →
        Ember.Dht.heads l' p ≤ Ember.Dht.heads l p) := by
  cases shelving with
  | older | addressMoved => exact ⟨Nat.le_add_right ..,fun _ _ => Nat.le_refl _⟩
  | stamped before after resident slot =>
    have same : Ember.Dht.heads (before++DhtStore.stamp m resident :: after) p =
        Ember.Dht.heads (before++resident :: after) p := by
      rw [heads_middle,heads_middle]
      rfl
    rw [same]
    exact ⟨Nat.le_add_right ..,fun _ _ => Nat.le_refl _⟩
  | replaced before after resident slot =>
    have owner : resident.publisherKey = record.publisherKey := congrArg fst slot
    refine ⟨by rw [heads_middle,heads_middle]; omega,?_⟩
    rintro ⟨r,member,same,head⟩ distinct
    have found : r = resident := by
      refine inj_on_of_nodup_map distinct member (by simp) (same.trans slot.symm)
    rw [heads_middle,heads_middle,owner,← found,head]
    cases isFeedHead record.data <;> simp
  | capped records fresh =>
    have fewer := filter_sublist (p := DhtRecord.liveAt m.unix) (l := l)
    exact ⟨Nat.le_add_right_of_le fewer.countP_le,fun _ _ => fewer.countP_le⟩
  | full _ _ fresh cleared =>
    have fewer := cleared.sublist.trans filter_sublist
    exact ⟨Nat.le_add_right_of_le fewer.countP_le,fun _ _ => fewer.countP_le⟩
  | pushed _ left fresh cleared =>
    have fewer := cleared.sublist.trans filter_sublist
    refine ⟨?_,fun ⟨r,member,same,_⟩ => absurd same (fresh r member)⟩
    have pushed := heads_middle left [] record p
    rw [append_nil] at pushed
    rw [pushed]
    exact Nat.add_le_add_right fewer.countP_le _

theorem Shelving.sublist_of_refused (shelving : Shelving m record l l' false) : l'.Sublist l := by
  cases shelving with
  | older | addressMoved => exact .refl _
  | capped => exact filter_sublist
  | full _ _ fresh cleared => exact cleared.sublist.trans filter_sublist

namespace DhtStore
variable {m : Moment} {s t : DhtStore} {key : Key} {record : DhtRecord} {ok : Bool}
variable (env : Env) (own : PublisherKey)

theorem Placed.sublist_of_refused (placed : Placed m s key record t false) {k : Key} :
    (t.records k).Sublist (s.records k) := by
  obtain ⟨shelving,elsewhere⟩ := placed.shelving
  by_cases here : k = key
  · subst here
    exact shelving.sublist_of_refused
  · exact elsewhere k here

theorem Booked.bytes_eq (booked : Booked s) : s.bytes = costs (residents s.entries) := by
  have total := Balanced.bytes booked
  rwa [ledger_recount] at total

private theorem shelf_costs (k : Key) (l : List DhtRecord) (shelf : Shelf k l) :
    costs l ≤ maxRecordsPerKey*recordCost maxStoreRecordBytes := by
  have each : ∀ c ∈ l.map DhtRecord.cost, c ≤ recordCost maxStoreRecordBytes := by
    intro c member
    obtain ⟨r,inside,rfl⟩ := mem_map.1 member
    exact Nat.add_le_add_right (shelf.filed r inside).most _
  have sum := sum_le_card_nsmul _ _ each
  rw [length_map] at sum
  exact sum.trans (Nat.mul_le_mul_right _ shelf.size)

private theorem bytes_of_spare (booked : Booked s) (shelved : Shelved s) (only : ∀ k ∈ s.entries, k = key) :
    s.bytes ≤ maxStoreBytes := by
  have covers : ∀ k ∈ s.entries, k ∈ ({key} : Finset Key) := fun k member => by simp [only k member]
  have bound := shelf_costs key _ (shelved key)
  rw [booked.bytes_eq,costs_total,total_eq_sum _ _ covers,Finset.sum_singleton,weight_held rfl]
  exact bound.trans (by decide)

private theorem Budgeted.bytes {u : DhtStore} (budgeted : Budgeted key u t) (budget : u.byteBudget = maxStoreBytes)
    (booked : Booked t) (shelved : Shelved t) : t.bytes ≤ maxStoreBytes := by
  rcases budgeted.done with under | only
  · exact under.trans (Nat.le_of_eq budget)
  · exact bytes_of_spare booked shelved only

section
variable (placed : Placed m s key record t ok)
include placed

theorem Placed.bytes (budget : s.byteBudget = maxStoreBytes)
    (before : s.bytes ≤ maxStoreBytes) (was : Booked s) (booked : Booked t) (shelved : Shelved t) :
    t.bytes ≤ maxStoreBytes := by
  cases ok with
  | false =>
    have lighter : costs (residents t.entries) ≤ costs (residents s.entries) :=
      costs_mono fun k => .of_sublist placed.sublist_of_refused
    rw [booked.bytes_eq]
    exact lighter.trans (was.bytes_eq ▸ before)
  | true =>
    cases placed with
    | stamped => exact before
    | @replaced before after resident here gives =>
      exact (enforceByteBudget_budgeted m (s.substitute key record resident (before++record :: after)) key).bytes
        budget booked shelved
    | @pushed live cleared fresh living clearing mine room =>
      refine (enforceByteBudget_budgeted m _ key).bytes ?_ booked shelved
      have same : cleared.1.settings = s.settings := by
        simp [clearing]
      exact (congrArg Settings.byteBudget same).trans budget

theorem Placed.mem (k : Key) (member : k ∈ t.entries) : k = key ∨ k ∈ s.entries := by
  have inserted : ∀ l, k ∈ s.entries.insert key l → k = key ∨ k ∈ s.entries := fun l => (mem_insert _).1
  have cleared : ∀ live, k ∈ ((s.reclaim m key (s.records key)).dropStalest key record live).1.entries →
      k = key ∨ k ∈ s.entries := by
    intro live member
    by_cases here : k = key
    · exact .inl here
    · rw [← lookup_isSome,dropStalest_lookup _ key k record live here,lookup_isSome] at member
      exact inserted _ member
  cases placed with
  | older | addressMoved => exact .inr member
  | stamped => exact inserted _ member
  | @replaced before after resident =>
    exact inserted _ ((enforceByteBudget_budgeted m
      (s.substitute key record resident (before++record :: after)) key).sheds.mem member)
  | capped => exact inserted _ member
  | full _ _ clearing => exact cleared _ (clearing ▸ member)
  | @pushed live left _ _ clearing =>
    have pushed := (enforceByteBudget_budgeted m (left.1.push key left.2 record
      (live.countP (·.publisherKey == record.publisherKey) == 0)) key).sheds.mem member
    rcases (mem_insert _).1 pushed with here | before
    · exact .inl here
    · exact cleared _ (clearing ▸ before)

theorem Placed.keyCount : t.keyCount ≤ s.keyCount+(if key ∈ s.entries then 0 else 1) := by
  have size : ∀ u : DhtStore, u.keyCount = u.entries.keys.length := fun u => by
    simp [DhtStore.keyCount,AList.keys,List.keys]
  rw [size,size]
  split
  · rename_i bound
    have inside : t.entries.keys ⊆ s.entries.keys := by
      intro k member
      rcases placed.mem k member with rfl | before
      · exact bound
      · exact before
    exact (t.entries.keys_nodup.subperm inside).length_le
  · have inside : t.entries.keys ⊆ key :: s.entries.keys := by
      intro k member
      rcases placed.mem k member with rfl | before
      · exact mem_cons_self
      · exact mem_cons_of_mem _ before
    exact (t.entries.keys_nodup.subperm inside).length_le

theorem Placed.headCount (p : PublisherKey) : Ember.Dht.headCount t.entries p ≤
        Ember.Dht.headCount s.entries p+(record.publisherKey == p && isFeedHead record.data).toNat ∧
      ((∃ r ∈ s.records key, r.slot = record.slot ∧ isFeedHead r.data) → ((s.records key).map DhtRecord.slot).Nodup →
          Ember.Dht.headCount t.entries p ≤ Ember.Dht.headCount s.entries p) := by
  obtain ⟨shelving,elsewhere⟩ := placed.shelving
  have here := shelving.heads p
  have others : Dht.headCount (t.entries.erase key) p ≤ Dht.headCount (s.entries.erase key) p :=
    headCount_elsewhere key elsewhere p
  rw [headCount_split t.entries key,headCount_split s.entries key]
  have shelf : heads (held t.entries key) p = heads (t.records key) p := rfl
  have before : heads (held s.entries key) p = heads (s.records key) p := rfl
  refine ⟨by omega,fun resident distinct => ?_⟩
  have kept := here.2 resident distinct
  omega

end

structure Capacity (own : PublisherKey) (s : DhtStore) : Prop where
  accounts : Accounts s
  keyBudget : s.keyBudget = maxKeys
  byteBudget : s.byteBudget = maxStoreBytes
  keys : s.keyCount ≤ maxKeys
  bytes : s.bytes ≤ maxStoreBytes
  owner : s.publisherIndex.localKey = none ∨ s.publisherIndex.localKey = some own
  heads : ∀ p, s.publisherIndex.localKey ≠ some p → Ember.Dht.headCount s.entries p ≤ maxFeedHeadsPerPublisher

private theorem capacity_new : Capacity own new :=
  ⟨accounts_new,rfl,rfl,by decide,by decide,.inl rfl,fun p _ => by simp [Ember.Dht.headCount,residents,new,Ember.Dht.heads]⟩

private theorem Capacity.of_lighter {own : PublisherKey} (capacity : Capacity own s) (accounts : Accounts t)
    (settings : t.settings = s.settings) (keys : t.keyCount ≤ s.keyCount)
    (lighter : ∀ k, Lighter (s.records k) (t.records k)) : Capacity own t := by
  have index : t.publisherIndex.localKey = s.publisherIndex.localKey := congrArg Settings.localKey settings
  refine ⟨accounts,?_,?_,keys.trans capacity.keys,?_,?_,fun p remote => ?_⟩
  · exact (congrArg Settings.keyBudget settings).trans capacity.keyBudget
  · exact (congrArg Settings.byteBudget settings).trans capacity.byteBudget
  · rw [accounts.booked.bytes_eq]
    have before := capacity.bytes
    rw [capacity.accounts.booked.bytes_eq] at before
    exact (costs_mono lighter).trans before
  · rw [index]
    exact capacity.owner
  · exact (headCount_mono lighter).trans (capacity.heads p (index ▸ remote))

private theorem headCount_of_not_full (accounts : Accounts s) (p : PublisherKey)
    (remote : s.publisherIndex.localKey ≠ some p) (room : s.publisherIndex.feedHeadsFull p = false) :
    Ember.Dht.headCount s.entries p < maxFeedHeadsPerPublisher := by
  have reconciled := accounts.booked.reconciled accounts.filled
  have counted : (recount s.entries p).feedHeads = Ember.Dht.headCount s.entries p := rfl
  unfold PublisherIndex.feedHeadsFull at room
  rw [reconciled.load p] at room
  by_cases member : p ∈ publishers s.entries
  · simpa [member,remote,counted] using room
  have none : Ember.Dht.headCount s.entries p = 0 := by
    rw [Ember.Dht.headCount,Ember.Dht.heads,countP_eq_zero]
    intro r inside mine
    simp only [Bool.and_eq_true,beq_iff_eq] at mine
    exact member (mem_toFinset.2 (mine.1 ▸ mem_map_of_mem inside))
  rw [none]
  decide

section
variable (m : Moment) (s : DhtStore) (key : Key) (data : Bytes) (signature : Signature) (ip : Option Ipv4Addr) (checked : Bool)

private theorem storeRecord_heads (own : PublisherKey)
    (capacity : Capacity own s) (p : PublisherKey) (remote : s.publisherIndex.localKey ≠ some p) :
    Ember.Dht.headCount (s.storeRecord env m key data signature ip checked).1.entries p ≤ maxFeedHeadsPerPublisher := by
  have before := capacity.heads p remote
  rcases storeRecord_cases env m s key data signature ip checked _ rfl with
    ⟨_,same,_⟩ | ⟨author,createdAt,u,ok,_,_,_,allowed,room,outcome⟩
  · rw [same.entries]
    exact before
  have roomy : headCount u.entries p ≤ headCount s.entries p :=
    headCount_mono (fun k => .of_sublist (room.evicted.sheds.sublist k))
  rcases outcome with ⟨_,refused⟩ | ⟨_,placed⟩
  · rw [refused]
    exact roomy.trans before
  obtain ⟨grows,swaps⟩ := placed.headCount p
  by_cases head : (author == p && isFeedHead data) = true
  · obtain ⟨mine,feed⟩ := Bool.and_eq_true_iff.1 head
    rw [beq_iff_eq] at mine
    subst mine
    have either : s.publisherIndex.feedHeadsFull author = false ∨ (s.records key).any fun r =>
        r.publisherKey == author && isFeedHead r.data && r.fileHash == fileHashFromRecordData data := by
      unfold headRefused at allowed
      cases full : s.publisherIndex.feedHeadsFull author <;> simp_all
    rcases either with below | replaces
    · have fewer := headCount_of_not_full capacity.accounts author remote below
      have one : (author == author && isFeedHead data).toNat = 1 := by simp [feed]
      have counted : (((newRecord m data signature author createdAt ip).publisherKey == author &&
        isFeedHead (newRecord m data signature author createdAt ip).data).toNat = 1) := one
      omega
    obtain ⟨r,inside,same⟩ := any_eq_true.1 replaces
    simp only [Bool.and_eq_true,beq_iff_eq] at same
    have bound : key ∈ s.entries := by
      rw [← lookup_isSome,lookup_of_records s key (ne_nil_of_mem inside)]
      rfl
    have still := (room.old bound).2.1.records key
    have slot : r.slot = (newRecord m data signature author createdAt ip).slot :=
      Prod.ext same.1.1 same.2
    have distinct := (capacity.accounts.shelved key).slots
    exact (swaps ⟨r,still ▸ inside,slot,same.1.2⟩ (still ▸ distinct)).trans (roomy.trans before)
  · have none : (((newRecord m data signature author createdAt ip).publisherKey == p &&
        isFeedHead (newRecord m data signature author createdAt ip).data).toNat = 0) := by
      simpa [newRecord] using head
    omega

private theorem capacity_store (capacity : Capacity own s) :
    Capacity own (s.storeRecord env m key data signature ip checked).1 := by
  have accounts := (accounts_invariant env).store m s key data signature ip checked capacity.accounts
  have heads := storeRecord_heads env m s key data signature ip checked own capacity
  rcases storeRecord_cases env m s key data signature ip checked _ rfl with
    ⟨_,same,_⟩ | ⟨author,createdAt,u,ok,_,_,_,_,room,outcome⟩
  · have still : Sheds (fun _ _ => True) s _ := Sheds.refl.memo same
    exact capacity.of_lighter accounts same.settings still.keyCount (fun k => .of_sublist (still.sublist k))
  have sheds := room.evicted.sheds
  rcases outcome with ⟨_,refused⟩ | ⟨accepted,placed⟩
  · rw [refused] at accounts ⊢
    exact capacity.of_lighter accounts sheds.settings sheds.keyCount (fun k => .of_sublist (sheds.sublist k))
  have settings := placed.settings.trans sheds.settings
  have index : (s.storeRecord env m key data signature ip checked).1.publisherIndex.localKey =
      s.publisherIndex.localKey := congrArg Settings.localKey settings
  have roomy := capacity.of_lighter (t := u) ⟨capacity.accounts.shelved.sheds sheds,
    capacity.accounts.booked.sheds sheds,room.evicted.filled capacity.accounts.filled⟩ sheds.settings
    sheds.keyCount (fun k => .of_sublist (sheds.sublist k))
  refine ⟨accounts,?_,?_,?_,?_,?_,fun p remote => heads p (index ▸ remote)⟩
  · exact (congrArg Settings.keyBudget settings).trans capacity.keyBudget
  · exact (congrArg Settings.byteBudget settings).trans capacity.byteBudget
  · have count := placed.keyCount
    by_cases bound : key ∈ u.entries
    · rw [if_pos bound] at count
      exact count.trans roomy.keys
    have absent : key ∉ s.entries := fun member => bound ((room.old member).2.1.entries ▸ member)
    have below := room.room accepted absent (capacity.keyBudget ▸ capacity.keys)
    rw [if_neg bound] at count
    rw [capacity.keyBudget] at below
    omega
  · exact placed.bytes roomy.byteBudget roomy.bytes roomy.accounts.booked accounts.booked accounts.shelved
  · rw [index]
    exact capacity.owner

end

private theorem sweep_keyCount (m : Moment) (s : DhtStore) (keep : DhtRecord → Bool) :
    (s.sweep m keep).1.keyCount ≤ s.keyCount :=
  length_filterMap_le ..

theorem capacity_invariant : Invariant env (· = own) (Capacity own) where
  memo s t same capacity := by
    have still : Sheds (fun _ _ => True) s t := Sheds.refl.memo same
    exact capacity.of_lighter ((accounts_invariant env).memo s t same capacity.accounts) same.settings still.keyCount
      (fun k => .of_sublist (still.sublist k))
  store m s key data signature ip checked capacity :=
    capacity_store env own m s key data signature ip checked capacity
  sweep m s keep capacity :=
    capacity.of_lighter ((accounts_invariant env).sweep m s keep capacity.accounts) (by simp [DhtStore.sweep])
      (sweep_keyCount m s keep) (fun k => .of_sublist (sweep_records m s keep k ▸ filter_sublist))
  restamps s t restamps capacity :=
    capacity.of_lighter ((accounts_invariant env).restamps s t restamps capacity.accounts) restamps.settings
      (Nat.le_of_eq restamps.keyCount) (fun k => .of_sameBodies (restamps.sameBodies k))
  localId s localId capacity :=
    { capacity with accounts := (accounts_invariant env).localId s localId capacity.accounts }
  localKey s p same capacity := by
    subst same
    refine { capacity with accounts := (accounts_invariant env).localKey s p trivial capacity.accounts, owner := .inr rfl, heads := fun q remote => ?_ }
    refine capacity.heads q ?_
    rcases capacity.owner with none | mine
    · rw [none]
      simp
    · rw [mine]
      exact remote
  shares s filtered capacity := by
    have accounts := (accounts_invariant env).shares s filtered capacity.accounts
    unfold setResponsibilityFiltered at accounts ⊢
    split_ifs at accounts ⊢ with same narrow
    · exact capacity
    · exact { capacity with accounts := accounts }
    · exact { capacity with accounts := accounts }
  scale s scale capacity :=
    { capacity with accounts := (accounts_invariant env).scale s scale capacity.accounts }

structure WithinBounds (s : DhtStore) : Prop where
  keys : s.entries.entries.length ≤ maxKeys
  bytes : s.bytes ≤ maxStoreBytes
  perKey : ∀ k, (s.records k).length ≤ maxRecordsPerKey
  distinct : ∀ k, ((s.records k).map fun r => (r.publisherKey,r.fileHash)).Nodup
  perPublisher : ∀ k p, (s.records k).countP (·.publisherKey == p) ≤ maxRecordsPerPublisherPerKey
  feedHeads : ∀ p, s.publisherIndex.localKey ≠ some p →
    (residents s.entries).countP (fun r => r.publisherKey == p && isFeedHead r.data) ≤ maxFeedHeadsPerPublisher

theorem run_withinBounds (env : Env) (own : PublisherKey) (ops : List (StoreOp env))
    (once : ∀ p, .setLocalPublisherKey p ∈ ops → p = own) : WithinBounds (new.run ops) := by
  have capacity := (capacity_invariant env own).run ops once new (capacity_new own)
  have shelved := capacity.accounts.shelved
  exact ⟨capacity.keys,capacity.bytes,fun k => (shelved k).size,fun k => (shelved k).slots,
    fun k p => (shelved k).share p,capacity.heads⟩

theorem run_withinBounds_own : WithinBounds (new.run [.setLocalPublisherKey 7,
    @StoreOp.storeAttributed .trusting (Moment.reading 1700000000 (by decide)) 3
      (buildData recordTypeFeed 3 0 0 0 7 1700000000 [] []) 0 none]) :=
  run_withinBounds .trusting 7 _ (by simp)

def headOps (p : PublisherKey) (count : Nat) : List (StoreOp .trusting) :=
  (List.range count).map fun i => .storeAttributed (Moment.reading 1700000000 (by decide)) (BitVec.ofNat 128 i)
    (buildData recordTypeFeed (BitVec.ofNat 128 i) 0 0 0 p 1700000000 [] []) 0 none

theorem renamed_publisher_over_heads :
    ¬ WithinBounds (new.run ([.setLocalPublisherKey 1]++headOps 1 65++[.setLocalPublisherKey 2])) := by
  intro within
  have remote : (new.run ([.setLocalPublisherKey 1]++headOps 1 65++
      [.setLocalPublisherKey 2])).publisherIndex.localKey ≠ some 1 := by decide +kernel
  have beyond : maxFeedHeadsPerPublisher < (residents (new.run ([.setLocalPublisherKey 1]++headOps 1 65++
      [.setLocalPublisherKey 2])).entries).countP (fun r => r.publisherKey == 1 && isFeedHead r.data) := by
    decide +kernel
  exact absurd (within.feedHeads 1 remote) (not_le.2 beyond)

end DhtStore
end Ember.Dht
