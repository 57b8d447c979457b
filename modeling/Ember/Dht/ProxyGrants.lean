import Ember.Dht.Record
import Ember.Library.Bisect
import Ember.Library.Index

/-! Grants of proxy buddies, one for each file a buddy acknowledged to publish for us: a table of their times and a
queue from whose front the lapsed and the surplus ones are dropped. -/
namespace Ember.Dht.ProxyGrants
open List AList Table

abbrev GrantKey := EmberNodeId × FileHash
abbrev Grants := Table GrantKey Nat

abbrev Grant := GrantKey × Nat

def proxyStoreAskTtl : Nat := 90*10^9
def callbackClientTtl : Nat := 6*3600*10^9
def maxProxyFileGrants : Nat := 8192

/-- The part of the engine that waits for acknowledgements and keeps what they granted. -/
structure EmberDht where
  pendingProxyAsks : Table EmberNodeId (List (UInt32 × FileHash × Nat)) := ∅
  proxyFileGrants : Grants := ∅
  proxyGrantOrder : List Grant := []

/-- A pair whose time the table no longer holds is a grant since renewed. -/
def live (grants : Grants) (grant : Grant) : Bool := grants.lookup grant.1 = some grant.2

def fresh (now : Nat) (grant : Grant) : Bool := now-grant.2 < callbackClientTtl

def popGrants (now : Nat) (grants : Grants) : List Grant → Grants × List Grant
  | [] => (grants,[])
  | grant :: rest =>
    if live grants grant ∧ fresh now grant ∧ grants.size ≤ maxProxyFileGrants then (grants,grant :: rest)
    else popGrants now (if live grants grant then grants.erase grant.1 else grants) rest

namespace EmberDht
variable (dht : EmberDht) (now : Nat)

def pruneProxyAsks : EmberDht :=
  let popped := popGrants now dht.proxyFileGrants dht.proxyGrantOrder
  { pendingProxyAsks := retain (fun asks =>
      let waiting := asks.filter fun ask => now-ask.2.2 < proxyStoreAskTtl
      if waiting = [] then none else some waiting) dht.pendingProxyAsks
    proxyFileGrants := popped.1
    proxyGrantOrder := popped.2 }

def noteProxyGrant (key : GrantKey) : EmberDht :=
  let grants : Grants := dht.proxyFileGrants.insert key now
  if dht.proxyFileGrants.lookup key = some now then { dht with proxyFileGrants := grants }
  else
    let order := dht.proxyGrantOrder.insertIdx (partitionPoint (fun grant => grant.2 ≤ now) dht.proxyGrantOrder) (key,now)
    -- Renewals leave their earlier pair behind.
    { dht with
      proxyFileGrants := grants
      proxyGrantOrder := if 2*grants.size+64 < order.length then order.filter (live grants) else order }

end EmberDht

inductive Call where
  | noteProxyGrant (key : GrantKey) (now : Nat)
  | pruneProxyAsks (now : Nat)

def Call.now : Call → Nat
  | noteProxyGrant _ now => now
  | pruneProxyAsks now => now

def Call.perform (dht : EmberDht) : Call → EmberDht
  | noteProxyGrant key now => dht.noteProxyGrant now key
  | pruneProxyAsks now => dht.pruneProxyAsks now

/-- The grants held, in the order they were noted: what a table without a queue would be pruned to by sorting it. -/
def Call.refer (noted : List Grant) : Call → List Grant
  | noteProxyGrant key now => if (key,now) ∈ noted then noted else (noted.filter fun grant => grant.1 ≠ key)++[(key,now)]
  | pruneProxyAsks now =>
    let left := noted.filter (fresh now)
    (left.insertionSort fun a b => a.2 ≤ b.2).drop (left.length-maxProxyFileGrants)

variable {grants grants' : Grants} {order noted rest : List Grant} {grant : Grant} {now clock : Nat} {key : GrantKey}

/-- A table and its queue beside the grants noted, all of them by `clock`. -/
structure Follows (clock : Nat) (grants : Grants) (order noted : List Grant) : Prop where
  noted : order.filter (live grants) = noted
  queued : ∀ {key time}, grants.lookup key = some time → (key,time) ∈ order
  held : ∀ grant ∈ order, ∃ time, grant.2 ≤ time ∧ grants.lookup grant.1 = some time
  sorted : order.Pairwise fun a b => a.2 ≤ b.2
  distinct : order.Nodup
  past : ∀ grant ∈ order, grant.2 ≤ clock

namespace Follows
section
variable (follows : Follows clock grants order noted)
include follows

theorem mem_noted {time : Nat} : (key,time) ∈ noted ↔ grants.lookup key = some time := by
  rw [← follows.noted,mem_filter,live,decide_eq_true_eq]
  exact ⟨And.right,fun held => ⟨follows.queued held,held⟩⟩

theorem size_eq : grants.size = noted.length := by
  have same : grants.bindings.Perm noted := by
    refine (perm_ext_iff_of_nodup nodup_bindings.of_map (follows.noted ▸ follows.distinct.filter _)).2 fun ⟨key,time⟩ => ?_
    rw [follows.mem_noted]
    exact mem_bindings
  simpa [bindings,size] using same.length_eq

theorem noted_sorted : noted.Pairwise fun a b => a.2 ≤ b.2 := follows.noted ▸ follows.sorted.filter _

theorem congr (same : ∀ key, grants'.lookup key = grants.lookup key) : Follows clock grants' order noted := by
  have alike : live grants' = live grants := by
    funext grant
    simp only [live,same]
  refine { follows with noted := alike ▸ follows.noted, queued := ?_, held := ?_ }
  · intro key time found
    exact follows.queued (same key ▸ found)
  · intro grant listed
    rw [same]
    exact follows.held grant listed

theorem compact : Follows clock grants (order.filter (live grants)) noted where
  noted := by simp [← follows.noted]
  queued found := mem_filter.2 ⟨follows.queued found,decide_eq_true found⟩
  held grant listed := follows.held grant (mem_of_mem_filter listed)
  sorted := follows.sorted.filter _
  distinct := follows.distinct.filter _
  past grant listed := follows.past grant (mem_of_mem_filter listed)

theorem append (new : grants.lookup key ≠ some clock) : Follows clock (grants.insert key clock) (order++[(key,clock)])
    ((noted.filter fun grant => grant.1 ≠ key)++[(key,clock)]) := by
  have absent : (key,clock) ∉ order := by
    intro listed
    obtain ⟨time,newer,found⟩ := follows.held _ listed
    have older := follows.past _ (follows.queued found)
    exact new (Nat.le_antisymm older newer ▸ found)
  refine ⟨?_,?_,?_,?_,?_,forall_mem_append.2 ⟨follows.past,by simp⟩⟩
  · rw [filter_append,← follows.noted,filter_filter]
    congr 1
    · refine filter_congr fun grant listed => ?_
      rw [live,live,lookup_insert_ite]
      split
      next own =>
        have other : clock ≠ grant.2 := fun same => absent (own ▸ same ▸ listed)
        simp [own,other]
      next other => simp [other]
    · simp [live]
  · intro key' time found
    rw [lookup_insert_ite] at found
    split at found
    next own =>
      cases found
      simp [own]
    next => exact mem_append_left _ (follows.queued found)
  · refine forall_mem_append.2 ⟨fun grant listed => ?_,by simp⟩
    rw [lookup_insert_ite]
    split
    next => exact ⟨clock,follows.past grant listed,rfl⟩
    next => exact follows.held grant listed
  · refine pairwise_append.2 ⟨follows.sorted,pairwise_singleton ..,fun grant listed last only => ?_⟩
    rw [mem_singleton.1 only]
    exact follows.past grant listed
  · exact nodup_append.2 ⟨follows.distinct,nodup_singleton _,fun grant listed last only same =>
      absent (mem_singleton.1 only ▸ same ▸ listed)⟩

end

section
variable (follows : Follows clock grants (grant :: rest) noted)
include follows

theorem pop_live (held : live grants grant = true) :
    ∃ left, noted = grant :: left ∧ Follows clock (grants.erase grant.1) rest left := by
  have found : grants.lookup grant.1 = some grant.2 := of_decide_eq_true held
  have alone : ∀ later ∈ rest, later.1 ≠ grant.1 := by
    intro later listed same
    obtain ⟨time,newer,found'⟩ := follows.held later (mem_cons_of_mem _ listed)
    rw [same,found] at found'
    cases found'
    have older := (pairwise_cons.1 follows.sorted).1 later listed
    have equal : later = grant := Prod.ext same (Nat.le_antisymm newer older)
    exact (nodup_cons.1 follows.distinct).1 (equal ▸ listed)
  have kept : ∀ later ∈ rest, (grants.erase grant.1).lookup later.1 = grants.lookup later.1 :=
    fun later listed => lookup_erase_ne (alone later listed)
  refine ⟨rest.filter (live grants),?_,?_,?_,?_,follows.sorted.of_cons,follows.distinct.of_cons,
    (forall_mem_cons.1 follows.past).2⟩
  · rw [← follows.noted,filter_cons_of_pos held]
  · refine filter_congr fun later listed => ?_
    rw [live,live,kept later listed]
  · intro key time bound
    rw [lookup_erase_ite] at bound
    split at bound
    next => cases bound
    next other =>
      refine (mem_cons.1 (follows.queued bound)).resolve_left fun same => other ?_
      rw [← same]
  · intro later listed
    rw [kept later listed]
    exact follows.held later (mem_cons_of_mem _ listed)

theorem pop_stale (stale : ¬live grants grant = true) : Follows clock grants rest noted where
  noted := by rw [← follows.noted,filter_cons_of_neg stale]
  queued {key time} found := by
    refine (mem_cons.1 (follows.queued found)).resolve_left fun same => stale ?_
    rw [← same]
    exact decide_eq_true found
  held := (forall_mem_cons.1 follows.held).2
  sorted := follows.sorted.of_cons
  distinct := follows.distinct.of_cons
  past := (forall_mem_cons.1 follows.past).2

end
end Follows

/-- Grants in the order of their times are sorted already. -/
theorem refer_prune (sorted : noted.Pairwise fun a b => a.2 ≤ b.2) : (Call.pruneProxyAsks now).refer noted =
    (noted.filter (fresh now)).drop ((noted.filter (fresh now)).length-maxProxyFileGrants) := by
  rw [Call.refer,(sorted.filter _).insertionSort_eq]

section
variable (sorted : (grant :: noted).Pairwise fun a b => a.2 ≤ b.2)
include sorted

theorem filter_fresh (first : fresh now grant = true) : (grant :: noted).filter (fresh now) = grant :: noted := by
  refine filter_eq_self.2 (forall_mem_cons.2 ⟨first,fun later listed => ?_⟩)
  have newer := (pairwise_cons.1 sorted).1 later listed
  simp only [fresh,decide_eq_true_eq] at first ⊢
  omega

theorem refer_pop (goes : ¬(fresh now grant = true ∧ (grant :: noted).length ≤ maxProxyFileGrants)) :
    (Call.pruneProxyAsks now).refer (grant :: noted) = (Call.pruneProxyAsks now).refer noted := by
  rw [refer_prune sorted,refer_prune sorted.of_cons]
  by_cases first : fresh now grant = true
  · have whole := filter_fresh sorted first
    have many : maxProxyFileGrants ≤ noted.length := by
      by_contra few
      exact goes ⟨first,by rw [length_cons]; omega⟩
    rw [whole,length_cons,Nat.succ_sub many,drop_succ_cons]
    rw [filter_cons_of_pos first,cons.injEq] at whole
    rw [whole.2]
  · rw [filter_cons_of_neg first]

end

theorem Follows.popGrants (follows : Follows clock grants order noted) (now : Nat) :
    Follows clock (popGrants now grants order).1 (popGrants now grants order).2 ((Call.pruneProxyAsks now).refer noted) := by
  induction order generalizing grants noted with
  | nil =>
    obtain rfl : noted = [] := follows.noted.symm
    simpa [ProxyGrants.popGrants,Call.refer] using follows
  | cons grant rest ih =>
    rw [ProxyGrants.popGrants]
    by_cases held : live grants grant = true
    · obtain ⟨left,rfl,popped⟩ := follows.pop_live held
      have size := follows.size_eq
      rw [if_pos held]
      split
      next stops =>
        rwa [refer_prune follows.noted_sorted,filter_fresh follows.noted_sorted stops.2.1,← size,
          Nat.sub_eq_zero_of_le stops.2.2,drop_zero]
      next goes =>
        rw [refer_pop follows.noted_sorted fun stops => goes ⟨held,stops.1,size ▸ stops.2⟩]
        exact ih popped
    · rw [if_neg fun stops => held stops.1,if_neg held]
      exact ih (follows.pop_stale held)

theorem Follows.note {dht : EmberDht} (follows : Follows now dht.proxyFileGrants dht.proxyGrantOrder noted) :
    Follows now (dht.noteProxyGrant now key).proxyFileGrants (dht.noteProxyGrant now key).proxyGrantOrder
      ((Call.noteProxyGrant key now).refer noted) := by
  rw [EmberDht.noteProxyGrant,Call.refer]
  by_cases same : dht.proxyFileGrants.lookup key = some now
  · rw [if_pos same,if_pos (follows.mem_noted.2 same)]
    apply follows.congr
    intro key'
    rw [lookup_insert_ite]
    split
    next own => rw [own,same]
    next => rfl
  · rw [if_neg same,if_neg fun listed => same (follows.mem_noted.1 listed)]
    have falling : dht.proxyGrantOrder.Pairwise fun a b => decide (b.2 ≤ now) = true → decide (a.2 ≤ now) = true := by
      refine follows.sorted.imp fun older within => ?_
      rw [decide_eq_true_eq] at within ⊢
      exact older.trans within
    have last : partitionPoint (fun grant : Grant => grant.2 ≤ now) dht.proxyGrantOrder = dht.proxyGrantOrder.length := by
      rw [partitionPoint_eq (parted_takeWhile falling),takeWhile_eq_self_iff.2 (by simpa using follows.past)]
    rw [last,insertIdx_length_self]
    dsimp only
    split
    next => exact (follows.append same).compact
    next => exact follows.append same

theorem run_follows {calls : List Call} (ordered : (calls.map Call.now).Pairwise (· ≤ ·))
    (past : ∀ call ∈ calls, call.now ≤ now) :
    let dht := calls.foldl Call.perform {}
    Follows now dht.proxyFileGrants dht.proxyGrantOrder (calls.foldl Call.refer []) := by
  induction calls using List.reverseRecOn generalizing now with
  | nil => exact ⟨rfl,by simp,by simp,.nil,.nil,by simp⟩
  | append_singleton calls call ih =>
    rw [map_append,pairwise_append] at ordered
    have before := ih ordered.1 fun earlier made => ordered.2.2 _ (mem_map_of_mem made) call.now (by simp)
    simp only [foldl_append,foldl_cons,foldl_nil]
    suffices after : Follows call.now _ _ _ from
      { after with past := fun grant listed => (after.past grant listed).trans (past call (by simp)) }
    cases call with
    | noteProxyGrant key now => exact before.note
    | pruneProxyAsks now => exact before.popGrants now

/-- The queue is sorted, lists each grant held once, and leaves of them what sorting the table would. -/
theorem pruning_sorts (calls : List Call) (ordered : (calls.map Call.now).Pairwise (· ≤ ·)) :
    let dht := calls.foldl Call.perform {}
    dht.proxyGrantOrder.Pairwise (fun a b => a.2 ≤ b.2) ∧
    (∀ key time, dht.proxyFileGrants.lookup key = some time → dht.proxyGrantOrder.count (key,time) = 1) ∧
    ∀ key time, dht.proxyFileGrants.lookup key = some time ↔ (key,time) ∈ calls.foldl Call.refer [] := by
  have follows := run_follows ordered fun call made => le_sum_of_mem (mem_map_of_mem (f := Call.now) made)
  refine ⟨follows.sorted,fun key time held => ?_,fun key time => follows.mem_noted.symm⟩
  exact count_eq_one_of_mem follows.distinct (follows.queued held)

def renewal : List Call :=
  [.noteProxyGrant (1,1) 0,.noteProxyGrant (2,1) 0,.noteProxyGrant (1,1) 5,.pruneProxyAsks callbackClientTtl]

theorem pruning_sorts_renewal : (renewal.foldl Call.perform {}).proxyGrantOrder.count ((1,1),5) = 1 ∧
    ∀ time, (renewal.foldl Call.perform {}).proxyFileGrants.lookup (2,1) ≠ some time := by
  obtain ⟨-,once,same⟩ := pruning_sorts renewal (by decide)
  have left : renewal.foldl Call.refer [] = [((1,1),5)] := by decide
  rw [left] at same
  exact ⟨once _ _ ((same (1,1) 5).2 (by simp)),fun time held => by simpa using (same _ _).1 held⟩

end Ember.Dht.ProxyGrants
