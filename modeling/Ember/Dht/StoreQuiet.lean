import Ember.Dht.StoreRefusal

/-! Stores no cap or budget had to make way for: under its own key a call does what `Shelving` says,
elsewhere only lapsed records can have gone. -/
namespace Ember.Dht
open Bytes Table List

structure Thinned (m : Moment) (l l' : List DhtRecord) : Prop where
  sublist : l'.Sublist l
  live : l'.filter (DhtRecord.liveAt m.unix) = l.filter (DhtRecord.liveAt m.unix)

variable {l : List DhtRecord} {m : Moment}

theorem Thinned.filter : Thinned m l (l.filter (DhtRecord.liveAt m.unix)) :=
  ⟨filter_sublist,by simp⟩

theorem Thinned.mem {l' : List DhtRecord} (thinned : Thinned m l l') {r : DhtRecord}
    (member : r ∈ l) (alive : m.unix < r.expiresAtUnix) : r ∈ l' := by
  have inside : r ∈ l.filter (DhtRecord.liveAt m.unix) :=
    mem_filter.2 ⟨member,by simpa [DhtRecord.liveAt] using alive⟩
  rw [← thinned.live] at inside
  exact (mem_filter.1 inside).1

namespace DhtStore
variable {m : Moment} {s t u : DhtStore} {key : Key} {record : DhtRecord} {ok : Bool} {env : Env}

def Unforced (s : DhtStore) : Prop := ∀ e ∈ s.evictions, e.forced = false

theorem Unforced.of_suffix (unforced : Unforced t) (grown : s.evictions <:+ t.evictions) : Unforced s :=
  fun e member => unforced e (grown.subset member)

private theorem unforced_logged (unforced : Unforced t)
    (logged : ∃ e : Eviction, e.forced = true ∧ t.evictions = e :: s.evictions) : False := by
  obtain ⟨e,forced,new⟩ := logged
  have calm := unforced e (new ▸ mem_cons_self)
  rw [forced] at calm
  cases calm

theorem Evicted.suffix {quiet : Key → DhtRecord → Prop} (evicted : Evicted quiet s t) :
    s.evictions <:+ t.evictions := by
  rcases evicted.logged with ⟨same,_⟩ | ⟨e,_,logged⟩
  · rw [same]
  · rw [logged]
    exact suffix_cons ..

theorem Budgeted.suffix (budgeted : Budgeted key s t) : s.evictions <:+ t.evictions := by
  rcases budgeted.logged with ⟨same,_⟩ | ⟨e,_,logged⟩
  · rw [same]
  · rw [logged]
    exact suffix_cons ..

theorem dropStalest_suffix (s : DhtStore) (key : Key) (record : DhtRecord) (live : List DhtRecord) :
    s.evictions <:+ (s.dropStalest key record live).1.evictions := by
  unfold dropStalest
  split
  · exact suffix_rfl
  · exact suffix_cons ..

theorem Placed.suffix (placed : Placed m s key record t ok) : s.evictions <:+ t.evictions := by
  cases placed with
  | older | addressMoved | stamped | capped => exact suffix_rfl
  | @replaced before after resident =>
    exact (enforceByteBudget_budgeted m (s.substitute key record resident (before++record :: after)) key).suffix
  | @full live cleared _ _ clearing =>
    have grown := dropStalest_suffix (s.reclaim m key (s.records key)) key record live
    rw [← clearing] at grown
    exact grown
  | @pushed live cleared _ _ clearing =>
    have grown := dropStalest_suffix (s.reclaim m key (s.records key)) key record live
    rw [← clearing] at grown
    exact grown.trans (enforceByteBudget_budgeted m (cleared.1.push key cleared.2 record
      (live.countP (·.publisherKey == record.publisherKey) == 0)) key).suffix

private theorem Budgeted.records (budgeted : Budgeted key u t) (unforced : Unforced t) (k : Key) :
    t.records k = u.records k := by
  rcases budgeted.logged with ⟨_,same⟩ | logged
  · exact same k
  · exact (unforced_logged unforced logged).elim

theorem Placed.elsewhere (placed : Placed m s key record t ok) (unforced : Unforced t) {k : Key} (other : k ≠ key) :
    t.records k = s.records k := by
  have reclaimed := (reclaim_records m s key (s.records key)).2 k other
  have cleared : ∀ live, ((s.reclaim m key (s.records key)).dropStalest key record live).1.records k =
      s.records k := by
    intro live
    rw [DhtStore.records,held,dropStalest_lookup _ key k record live other]
    exact reclaimed
  cases placed with
  | older | addressMoved => rfl
  | stamped => exact records_insert_ne s other
  | @replaced before after resident =>
    rw [(enforceByteBudget_budgeted m _ key).records unforced k]
    exact held_insert_ne _ _ _ other
  | capped => exact reclaimed
  | full _ _ clearing =>
    rw [clearing]
    exact cleared _
  | pushed _ _ clearing =>
    rw [(enforceByteBudget_budgeted m _ key).records unforced k,clearing]
    exact (held_insert_ne _ _ _ other).trans (cleared _)

theorem storeRecord_suffix {data : Bytes} {signature : Signature} {ip : Option Ipv4Addr} {checked : Bool} :
    s.evictions <:+ (s.storeRecord env m key data signature ip checked).1.evictions := by
  rcases storeRecord_cases env m s key data signature ip checked _ rfl with
    ⟨_,_,unlogged,_⟩ | ⟨_,_,u,_,_,_,_,_,room,outcome⟩
  · rw [unlogged]
  rcases outcome with ⟨_,result⟩ | ⟨_,placed⟩
  · rw [result]
    exact room.evicted.suffix
  · exact room.evicted.suffix.trans placed.suffix

private theorem republishKeys_evictions (m : Moment) (request : Republish) (keys : List Key) (skip : Nat)
    (s : DhtStore) (out : Batch) : (republishKeys m request keys skip s out).1.evictions = s.evictions := by
  induction keys generalizing skip s out with
  | nil => rfl
  | cons k rest ih =>
    unfold republishKeys
    split
    · exact ih 0 s out
    dsimp only
    split
    · rfl
    · exact ih 0 ..

theorem restoreAll_suffix (env : Env) (records : List PersistedRecord) (clock : Nat → Moment)
    (s : DhtStore) : s.evictions <:+ (s.restoreAll env records clock).1.evictions := by
  induction records generalizing clock s with
  | nil => exact suffix_rfl
  | cons record rest ih =>
    refine List.IsSuffix.trans ?_ (ih ..)
    rcases restoreRecord_cases env (clock 0) s record with ⟨_,same⟩ | ⟨aged,key,p,createdAt,_,same,_,result⟩
    · rw [same]
    · rw [result,← same]
      exact storeRecord_suffix

theorem apply_suffix {op : StoreOp env} : s.evictions <:+ (op.apply s).evictions := by
  cases op with
  | storeAttributed m key data signature ip => exact storeRecord_suffix
  | restoreVerified clock records => exact restoreAll_suffix env records.records clock s
  | expire => exact suffix_rfl
  | dropPublisherFiles m p files =>
    unfold StoreOp.apply DhtStore.dropPublisherFiles
    dsimp only
    split <;> exact suffix_rfl
  | setLocalId | setLocalPublisherKey | setScale => exact suffix_rfl
  | setResponsibilityFiltered filtered =>
    unfold StoreOp.apply setResponsibilityFiltered
    dsimp only
    split_ifs <;> exact suffix_rfl
  | takeRepublishBatch m request =>
    have same : (s.takeRepublishBatch m request).1.evictions = s.evictions :=
      republishKeys_evictions m request _ _ s []
    rw [StoreOp.apply,same]
  | markRepublishDue key signature =>
    unfold StoreOp.apply DhtStore.markRepublishDue
    dsimp only
    split <;> exact suffix_rfl
  | createdAtAdmissible m data createdAt =>
    rw [StoreOp.apply,createdAtAdmissible,(admitCreatedAt_memo s ..).2]

theorem run_suffix (ops : List (StoreOp env)) (s : DhtStore) : s.evictions <:+ (s.run ops).evictions := by
  induction ops generalizing s with
  | nil => exact suffix_rfl
  | cons op rest ih => exact apply_suffix.trans (ih _)

structure Quiet (env : Env) (m : Moment) (s : DhtStore) (key : Key) (data : Bytes) (signature : Signature)
    (ip : Option Ipv4Addr) (checked : Bool) (t : DhtStore) (ok : Bool) : Prop where
  unforced : Unforced s
  outcome : (ok = false ∧ ∀ k, Thinned m (s.records k) (t.records k)) ∨
    ∃ p createdAt, Filed key p createdAt data ∧ Admissible m data createdAt ∧
      (checked || verifyRecordSignature env data signature p) ∧
      Shelving m (newRecord m data signature p createdAt ip) (s.records key) (t.records key) ok ∧
      ∀ k ≠ key, Thinned m (s.records k) (t.records k)

theorem storeRecord_quiet (env : Env) (m : Moment) (s : DhtStore) (key : Key) (data : Bytes) (signature : Signature)
    (ip : Option Ipv4Addr) (checked : Bool)
    (unforced : Unforced (s.storeRecord env m key data signature ip checked).1) :
    Quiet env m s key data signature ip checked (s.storeRecord env m key data signature ip checked).1
      (s.storeRecord env m key data signature ip checked).2 := by
  have thinned : ∀ t, Harmless m s t → ∀ k, Thinned m (s.records k) (t.records k) :=
    fun t harmless k => ⟨harmless.fresh k,harmless.live k⟩
  rcases storeRecord_cases env m s key data signature ip checked _ rfl with
    ⟨refused,same,unlogged,_⟩ | ⟨author,createdAt,u,ok,filed,fresh,signed,_,room,outcome⟩
  · refine ⟨unforced.of_suffix (unlogged ▸ suffix_rfl),.inl ⟨refused,?_⟩⟩
    exact thinned _ (.of_sheds (Sheds.refl.memo same) unlogged)
  rcases outcome with ⟨denied,result⟩ | ⟨_,placed⟩
  · rw [result] at unforced ⊢
    have unlogged := room.refused denied
    exact ⟨unforced.of_suffix (unlogged ▸ suffix_rfl),.inl ⟨rfl,thinned _ (.of_evicted room.evicted unlogged)⟩⟩
  have between := unforced.of_suffix placed.suffix
  have calm : u.evictions = s.evictions := by
    rcases room.evicted.logged with ⟨same,_⟩ | logged
    · exact same
    · exact (unforced_logged between logged).elim
  have roomy := thinned u (.of_evicted room.evicted calm)
  have here : u.records key = s.records key := by
    by_cases bound : key ∈ s.entries
    · exact (room.old bound).2.1.records key
    have gone : s.records key = [] := by simp [records,held,AList.lookup_eq_none.2 bound]
    have thinner := (roomy key).sublist
    rw [gone] at thinner ⊢
    exact sublist_nil.1 thinner
  refine ⟨between.of_suffix (calm ▸ suffix_rfl),.inr ⟨author,createdAt,filed,fresh,signed,?_,?_⟩⟩
  · exact here ▸ placed.shelving.1
  intro k other
  rw [placed.elsewhere unforced other]
  exact roomy k

end DhtStore
end Ember.Dht
