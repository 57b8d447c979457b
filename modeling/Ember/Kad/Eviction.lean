import Ember.Kad.StoreBooks

/-! Eviction: every pass sheds records of the publisher it aims at, one by one, until it has freed what
it was asked for, spent its evictions or emptied the keyword records. -/
namespace Ember.Kad.DhtStore
open Item Option AList Multiset

variable {s s' s'' : DhtStore} {target : KadId} {publisher : PublisherKey} {e : StoredEntry} {order : Iteration}
  {gone gone' : Multiset Item}

structure Evicted (s : DhtStore) (gone : Multiset Item) (s' : DhtStore) : Prop extends Shed s gone s' where
  bare : ∀ k, s'.keywordEntries.lookup k = some [] → s.keywordEntries.lookup k = some []

theorem Evicted.none (kept : s.Kept) : Evicted s 0 s := ⟨.none kept,fun _ => id⟩

theorem Evicted.trans (first : Evicted s gone s') (second : Evicted s' gone' s'') : Evicted s (gone+gone') s'' :=
  ⟨first.toShed.trans second.toShed,fun k bare => first.bare k (second.bare k bare)⟩

theorem best_isSome (member : e ∈ shelf s.keywordEntries target) (key : e.budgetKey = publisher) :
    (s.best publisher target).isSome = true := by
  rw [isSome_iff_ne_none]
  intro none
  rw [best,lastMax_eq_none,List.filter_eq_nil_iff] at none
  exact none e member (decide_eq_true key)

private theorem victim_from (s : DhtStore) (publisher : PublisherKey) (candidates : List KadId) (held : Option Item) :
    let found := candidates.foldl (fun victim target =>
      match s.best publisher target with
      | some e => if victim.all fun v => v.2.retainedBytes < e.retainedBytes then some (target,e) else victim
      | none => victim) held
    (∀ x, found = some x → held = some x ∨ s.best publisher x.1 = some x.2) ∧
      (held.isSome ∨ (∃ target ∈ candidates, (s.best publisher target).isSome) → found.isSome) := by
  induction candidates generalizing held with
  | nil => exact ⟨fun x found => .inl found,fun some => some.resolve_right (by simp)⟩
  | cons target rest ih =>
    simp only [List.foldl_cons]
    cases best : s.best publisher target with
    | none =>
      refine ⟨(ih held).1,fun some => (ih held).2 (some.imp_right ?_)⟩
      rintro ⟨t,member,has⟩
      obtain rfl | later := List.mem_cons.1 member
      · rw [best] at has
        cases has
      · exact ⟨t,later,has⟩
    | some e =>
      by_cases larger : held.all fun v => v.2.retainedBytes < e.retainedBytes
      · simp only [larger]
        refine ⟨fun x found => .inr ?_,fun _ => (ih _).2 (.inl rfl)⟩
        obtain kept | later := (ih _).1 x found
        · cases kept
          exact best
        · exact later
      · simp only [larger]
        refine ⟨(ih held).1,fun _ => (ih held).2 (.inl ?_)⟩
        cases held with
        | none => exact absurd rfl larger
        | some v => rfl

theorem victim_spec {candidates : List KadId} (member : target ∈ candidates) (has : (s.best publisher target).isSome) :
    ∃ x, s.victim publisher candidates = some x ∧ x.2 ∈ shelf s.keywordEntries x.1 ∧ x.2.budgetKey = publisher := by
  obtain ⟨origin,found⟩ := victim_from s publisher candidates none
  obtain ⟨x,chosen⟩ := isSome_iff_exists.1 (found (.inr ⟨target,member,has⟩))
  exact ⟨x,chosen,by simpa using mem_of_lastMax ((origin x chosen).resolve_left (by simp))⟩

theorem shed_forget {record : PublisherUsage} (kept : s.Kept) (found : s.charges.usage.lookup publisher = some record) :
    Shed s 0 (s.forget publisher record []) := by
  obtain ⟨some,own⟩ := kept.charges.accounts publisher record found
  exact ⟨(add_zero _).symm,rfl,rfl,rfl,rfl,kept.charges.write own some (fun _ _ => rfl) (.inl rfl)⟩

theorem bare_dropKeyword (k : KadId) (bare : (s.dropKeyword publisher target e).keywordEntries.lookup k = some []) :
    s.keywordEntries.lookup k = some [] := by
  simp only [dropKeyword] at bare
  split at bare
  next => exact Table.lookup_of_erase _ bare
  next left =>
  by_cases same : k = target
  · rw [same,lookup_insert] at bare
    exact absurd (some.inj bare) left
  · rwa [lookup_insert_ne same] at bare

/-- The record `evict_one_keyword_entry` takes. -/
def pick (s : DhtStore) (order : Iteration) (publisher : PublisherKey) : Option Item :=
  (s.charges.usage.lookup publisher).bind fun record =>
    s.victim publisher ((order.targets record.targets).take keywordEvictionTargetProbes)

/-- The records a pass takes, in turn. -/
def victims (order : Nat → Iteration) (needed : Nat) : Nat → Nat → DhtStore → List Item
  | 0, _, _ => []
  | budget+1, freed, s =>
    if freed < needed then
      let aimed := s.aim (order (budget+1))
      match aimed.charges.heaviest with
      | none => []
      | some publisher =>
        match aimed.pick (order (budget+1)) publisher with
        | none => []
        | some x =>
          x :: victims order needed budget (freed+size x) (aimed.evictOneKeywordEntry (order (budget+1)) publisher).1
    else []

theorem evictOneKeywordEntry_evicted (kept : s.Kept) (has : publisher ∈ s.charges.usage) (order : Iteration) :
    ∃ x s', s.evictOneKeywordEntry order publisher = (s',some (size x)) ∧ Evicted s {x} s' ∧ s.pick order publisher = some x := by
  obtain ⟨record,found⟩ := isSome_iff_exists.1 (lookup_isSome.2 has)
  have listed : ∀ t, t ∈ record.targets ↔ ∃ e, e ∈ shelf s.keywordEntries t ∧ e.budgetKey = publisher := fun t =>
    (kept.charges.mem_targets found).trans (exists_congr fun e => and_congr_left fun _ => mem_stock)
  have probed : ∀ t ∈ (order.targets record.targets).take keywordEvictionTargetProbes, (s.best publisher t).isSome = true := by
    intro t member
    have key := (order.targets_perm _).mem_iff.1 (List.mem_of_mem_take member)
    obtain ⟨e,inside,charged⟩ := (listed t).1 (mem_keys.2 key)
    exact best_isSome inside charged
  have fresh : ((order.targets record.targets).take keywordEvictionTargetProbes).filter (fun t => (s.best publisher t).isNone) = [] := by
    rw [List.filter_eq_nil_iff]
    intro t member
    simp [isSome_iff_ne_none.1 (probed t member)]
  obtain ⟨first,some⟩ : ∃ t, t ∈ (order.targets record.targets).take keywordEvictionTargetProbes := by
    obtain ⟨x,mine⟩ := exists_mem_of_ne_zero (kept.charges.accounts publisher record found).1
    have key : x.1 ∈ order.targets record.targets := by
      rw [(order.targets_perm _).mem_iff,← mem_keys,listed]
      exact ⟨x.2,mem_stock.1 (mem_filter.1 mine).1,(mem_filter.1 mine).2⟩
    refine List.exists_mem_of_ne_nil _ fun empty => ?_
    rw [List.take_eq_nil_iff] at empty
    exact absurd key (empty.resolve_left (by decide) ▸ List.not_mem_nil)
  obtain ⟨x,chosen,inside,rfl⟩ := victim_spec some (probed first some)
  have calm := shed_forget kept found
  refine ⟨x,(s.forget x.2.budgetKey record []).dropKeyword x.2.budgetKey x.1 x.2,?_,⟨?_,?_⟩,by rw [pick,found]; exact chosen⟩
  · simp only [evictOneKeywordEntry,found,chosen,fresh]
    rfl
  · have dropped := calm.trans (shed_dropKeyword (calm.kept kept) inside)
    rwa [zero_add] at dropped
  · exact bare_dropKeyword

theorem heaviestOf_mem {usage : Table PublisherKey PublisherUsage} (named : heaviestOf order usage = some publisher) : publisher ∈ usage := by
  exact (order.publishers_perm _).mem_iff.1 (mem_of_lastMax named)

theorem shed_aim (kept : s.Kept) (order : Iteration) : Evicted s 0 (s.aim order) := by
  unfold aim
  split
  · exact .none kept
  · exact ⟨⟨(add_zero _).symm,rfl,rfl,rfl,rfl,kept.charges.accounts,kept.charges.absent,fun _ => heaviestOf_mem⟩,fun _ => id⟩

theorem aim_none (kept : s.Kept) (aimless : (s.aim order).charges.heaviest = none) : (s.aim order).keywords = 0 := by
  have nobody : s.charges.usage.keys = [] := by
    unfold aim at aimless
    split at aimless
    next hint => rw [hint] at aimless; cases aimless
    next =>
    rw [recomputeHeaviestKeywordPublisher,heaviestOf,lastMax_eq_none] at aimless
    exact List.perm_nil.1 (aimless ▸ (order.publishers_perm s.charges.usage).symm)
  rw [← add_zero (s.aim order).keywords,← (shed_aim kept order).keywords,eq_zero_iff_forall_notMem]
  intro x member
  have absent : s.charges.usage.lookup x.2.budgetKey = none := by
    rw [lookup_eq_none,mem_keys,nobody]
    exact List.not_mem_nil
  have none := kept.charges.absent _ absent
  exact notMem_zero x (none ▸ mem_filter.2 ⟨member,rfl⟩)

theorem evictKeywordBytes_evicted (order : Nat → Iteration) (needed budget freed : Nat) (kept : s.Kept) :
    ∃ gone s' left, s.evictKeywordBytes order needed budget freed = (s',left,freed+weightOf gone) ∧ Evicted s gone s' ∧
      gone.card+left = budget ∧ gone = s.victims order needed budget freed ∧
      (needed ≤ freed+weightOf gone ∨ left = 0 ∨ s'.keywords = 0) := by
  induction budget generalizing freed s with
  | zero => exact ⟨0,s,0,rfl,.none kept,rfl,rfl,.inr (.inl rfl)⟩
  | succ budget ih =>
    simp only [evictKeywordBytes,victims]
    by_cases short : freed < needed
    · rw [if_pos short,if_pos short]
      have aimed := shed_aim kept (order (budget+1))
      have kept' := aimed.kept kept
      cases hint : (s.aim (order (budget+1))).charges.heaviest with
      | none => exact ⟨0,_,_,rfl,aimed,Nat.zero_add _,rfl,.inr (.inr (aim_none kept hint))⟩
      | some publisher =>
        obtain ⟨x,s',shed,evicted,picked⟩ :=
          evictOneKeywordEntry_evicted kept' (kept'.charges.heaviest publisher hint) (order (budget+1))
        obtain ⟨gone,s'',left,rest,evicted',spent,same,stopped⟩ := ih (freed+size x) (evicted.kept kept')
        have all := (aimed.trans evicted).trans evicted'
        have weight : freed+weightOf ({x}+gone) = freed+size x+weightOf gone := by
          rw [singleton_add,weightOf_cons,Nat.add_assoc]
        refine ⟨{x}+gone,s'',left,?_,all,?_,?_,weight ▸ stopped⟩
        · simp only [shed,rest,weight]
        · rw [card_add,card_singleton]
          omega
        · simp only [picked,shed,same]
          exact singleton_add ..
    · rw [if_neg short,if_neg short]
      exact ⟨0,s,_,rfl,.none kept,Nat.zero_add _,rfl,.inl (Nat.not_lt.1 short)⟩

end Ember.Kad.DhtStore
