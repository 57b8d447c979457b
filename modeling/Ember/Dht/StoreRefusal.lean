import Ember.Dht.StoreCapacity

/-! A refused store is harmless. Room is made before checks that can still refuse, but only for a
key not held, and under such a key none of them can. -/
namespace Ember.Dht.DhtStore
open Bytes Table List
variable {m : Moment} {s t : DhtStore} {key : Key} {record : DhtRecord}

/-- Every live record is as it was, and nothing is logged as given up. -/
structure Harmless (m : Moment) (s t : DhtStore) : Prop where
  live : ∀ k, t.liveRecords m k = s.liveRecords m k
  gone : ∀ k, ∀ r ∈ s.records k, r ∉ t.records k → r.expiresAtUnix ≤ m.unix
  fresh : ∀ k, (t.records k).Sublist (s.records k)
  evictions : t.evictions = s.evictions

theorem Harmless.of_live (live : ∀ k, t.liveRecords m k = s.liveRecords m k)
    (fresh : ∀ k, (t.records k).Sublist (s.records k)) (evictions : t.evictions = s.evictions) : Harmless m s t := by
  refine ⟨live,fun k r inside outside => ?_,fresh,evictions⟩
  by_contra late
  have kept : r ∈ s.liveRecords m k := mem_filter.2 ⟨inside,by simpa [DhtRecord.liveAt] using late⟩
  rw [← live k] at kept
  exact outside (mem_filter.1 kept).1

theorem Harmless.of_sheds (sheds : Sheds (Lapsed m) s t) (evictions : t.evictions = s.evictions) : Harmless m s t := by
  refine .of_live (fun k => ?_) sheds.sublist evictions
  refine (sheds.keeps k (DhtRecord.liveAt m.unix) ?_).2
  intro r alive lapsed
  rw [lapsed] at alive
  cases alive

theorem Harmless.of_evicted (evicted : Evicted (Lapsed m) s t) (evictions : t.evictions = s.evictions) :
    Harmless m s t := by
  rcases evicted.logged with ⟨_,sheds⟩ | ⟨e,_,logged⟩
  · exact .of_sheds sheds evictions
  · rw [evictions] at logged
    exact absurd (congrArg List.length logged) (by simp)

theorem Harmless.trans {u : DhtStore} (first : Harmless m s t) (second : Harmless m t u) : Harmless m s u :=
  .of_live (fun k => (second.live k).trans (first.live k)) (fun k => (second.fresh k).trans (first.fresh k))
    (second.evictions.trans first.evictions)

private theorem reclaim_harmless (m : Moment) (s : DhtStore) (key : Key) :
    Harmless m s (s.reclaim m key (s.records key)) := by
  obtain ⟨here,elsewhere⟩ := reclaim_records m s key (s.records key)
  refine .of_live (fun k => ?_) (fun k => ?_) rfl
  · unfold liveRecords
    by_cases same : k = key
    · subst same
      rw [here]
      simp
    · rw [elsewhere k same]
  · by_cases same : k = key
    · subst same
      rw [here]
      exact filter_sublist
    · rw [elsewhere k same]

private theorem Placed.harmless (placed : Placed m s key record t false)
    (size : (s.records key).length ≤ maxRecordsPerKey) : Harmless m s t := by
  cases placed with
  | older | addressMoved => exact .of_live (fun _ => rfl) (fun _ => .refl _) rfl
  | capped why =>
    exact (reclaim_harmless m s key).trans (.of_live (fun _ => rfl) (fun _ => .refl _) rfl)
  | @full live cleared fresh living clearing full =>
    have unchanged := dropStalest_full (s.reclaim m key (s.records key)) key _ record live living size (clearing ▸ full)
    rw [clearing,unchanged]
    exact (reclaim_harmless m s key).trans (.of_live (fun _ => rfl) (fun _ => .refl _) rfl)

private theorem Placed.records_of_refused (placed : Placed m s key record t false) : s.records key ≠ [] := by
  intro none
  cases placed with
  | older here =>
    have split := here.records
    simp [none] at split
  | addressMoved here =>
    have split := here.records
    simp [none] at split
  | capped _ _ alive => simp [none] at alive
  | @full live cleared _ living clearing full =>
    obtain ⟨here,_⟩ := reclaim_records m s key (s.records key)
    obtain ⟨clears,_,_⟩ := dropStalest_cleared (s.reclaim m key (s.records key)) key record live (living ▸ here)
    have fewer := clears.sublist.length_le
    rw [← clearing] at fewer
    simp [living,none,maxRecordsPerKey] at fewer full
    simp [fewer] at full

theorem refused_store_harmless (env : Env) (ops : List (StoreOp env)) (m : Moment) (key : Key) (data : Bytes)
    (signature : Signature) (ip : Option Ipv4Addr)
    (refused : ((new.run ops).storeAttributed env m key data signature ip).2 = false) :
    Harmless m (new.run ops) ((new.run ops).storeAttributed env m key data signature ip).1 := by
  have shelved := (shelved_invariant env).run ops (fun _ _ => trivial) new (fun k => Shelf.nil k)
  generalize new.run ops = s at *
  unfold storeAttributed at *
  rcases storeRecord_cases env m s key data signature ip false _ rfl with
    ⟨_,same,unlogged,_⟩ | ⟨author,createdAt,u,ok,_,_,_,_,room,outcome⟩
  · exact .of_sheds (Sheds.refl.memo same) unlogged
  rcases outcome with ⟨denied,result⟩ | ⟨accepted,placed⟩
  · rw [result]
    exact .of_evicted room.evicted (room.refused denied)
  rw [refused] at placed
  have held : key ∈ s.entries := by
    by_contra absent
    refine placed.records_of_refused ?_
    have none : key ∉ u.entries := fun member => absent (room.evicted.sheds.mem member)
    simp [records,Ember.Dht.held,AList.lookup_eq_none.2 none]
  obtain ⟨_,same,unlogged⟩ := room.old held
  have size := (shelved.sheds room.evicted.sheds key).size
  exact (Harmless.of_sheds (Sheds.refl.memo same) unlogged).trans (placed.harmless size)

theorem refused_store_harmless_older : Harmless (Moment.reading 1700000000 (by decide))
      (new.run [@StoreOp.storeAttributed .trusting (Moment.reading 1700000000 (by decide)) 3
        (buildData recordTypeKeyword 3 0 0 0 7 1700000000 [] []) 0 none])
      ((new.run [@StoreOp.storeAttributed .trusting (Moment.reading 1700000000 (by decide)) 3
        (buildData recordTypeKeyword 3 0 0 0 7 1700000000 [] []) 0 none]).storeAttributed .trusting
          (Moment.reading 1700000000 (by decide)) 3 (buildData recordTypeKeyword 3 0 0 0 7 1699999999 [] []) 0
          none).1 :=
  refused_store_harmless .trusting _ _ _ _ _ _ (by decide +kernel)

end Ember.Dht.DhtStore
