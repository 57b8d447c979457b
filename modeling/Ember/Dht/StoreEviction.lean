import Ember.Dht.StoreShape

/-! The two evictors. Making room gives up only keys that wholly lapsed or logs the key it took; the
byte budget never touches the key just written and, when it logs nothing, changes nothing. -/
namespace Ember.Dht.DhtStore
open Table List AList

variable (target : Nat) (keys : List Key) (m : Moment) (s : DhtStore) (localId : EmberNodeId) (k : Key)

def Lapsed (m : Moment) (_ : Key) (record : DhtRecord) : Prop := record.liveAt m.unix = false

theorem mem_order {e : Σ _ : Key, List DhtRecord} : e ∈ m.order s.entries ↔ s.entries.lookup e.1 = some e.2 := by
  rw [(m.perm s.entries).mem_iff]
  exact (mem_dlookup_iff s.entries.nodupKeys).symm

theorem mem_order_keys : k ∈ (m.order s.entries).map Sigma.fst ↔ k ∈ s.entries := by
  rw [((m.perm s.entries).map Sigma.fst).mem_iff]
  rfl

private theorem scan_mem (keys : List Key)
    (walk : List (Σ _ : Key, List DhtRecord)) (inside : ∀ e ∈ walk, e.1 ∈ keys) (scan : Scan)
    (furthest : ∀ v ∈ scan.furthest, v.1 ∈ keys) (crowding : ∀ v ∈ scan.crowding, v.1 ∈ keys) :
    (∀ v ∈ (walk.foldl (scanKey s localId) scan).furthest, v.1 ∈ keys) ∧
      ∀ v ∈ (walk.foldl (scanKey s localId) scan).crowding, v.1 ∈ keys := by
  induction walk generalizing scan with
  | nil => exact ⟨furthest,crowding⟩
  | cons e rest ih =>
    have here : e.1 ∈ keys := inside e mem_cons_self
    have crowded : ∀ v ∈ (scanKey s localId scan e).crowding, v.1 ∈ keys := by
      intro v found
      have choice : v = (e.1,xorDistance localId e.1) ∨ v ∈ scan.crowding := by
        unfold scanKey at found
        grind
      rcases choice with rfl | old
      · exact here
      · exact crowding v old
    have far : ∀ v ∈ (scanKey s localId scan e).furthest, v.1 ∈ keys := by
      intro v found
      have choice : v = (e.1,xorDistance localId e.1) ∨ v ∈ scan.furthest := by
        unfold scanKey at found
        grind
      rcases choice with rfl | old
      · exact here
      · exact furthest v old
    exact ih (fun e' member => inside e' (mem_cons_of_mem _ member)) _ far crowded

theorem keyCount_dropKey (member : k ∈ s.entries) : (s.dropKey k).keyCount < s.keyCount := by
  have shorter : (s.entries.erase k).keys.length = s.entries.keys.length-1 := by
    rw [keys_erase]
    exact length_erase_of_mem member
  have positive : 0 < s.entries.keys.length := length_pos_of_mem member
  have dropped : (s.dropKey k).keyCount = (s.entries.erase k).keys.length := by
    simp [keyCount,dropKey_entries,AList.keys,List.keys]
  have before : s.keyCount = s.entries.keys.length := by simp [keyCount,AList.keys,List.keys]
  omega

structure Evicted (quiet : Key → DhtRecord → Prop) (s t : DhtStore) : Prop where
  sheds : Sheds (fun _ _ => True) s t
  logged : t.evictions = s.evictions ∧ Sheds quiet s t ∨
    ∃ e : Eviction, e.forced = true ∧ t.evictions = e :: s.evictions
  filled : Filled s → Filled t

theorem giveUpKey_evicted (distance : Key)
    (quiet : Key → DhtRecord → Prop) : Evicted quiet s (s.giveUpKey m localId distance).1 ∧
      ((s.giveUpKey m localId distance).2 = false → (s.giveUpKey m localId distance).1.evictions = s.evictions) ∧
      ((s.giveUpKey m localId distance).2 = true → (s.giveUpKey m localId distance).1.keyCount < s.keyCount) := by
  have victims := scan_mem s localId ((m.order s.entries).map Sigma.fst) (m.order s.entries)
    (fun e member => mem_map_of_mem member) {} (by simp) (by simp)
  unfold giveUpKey
  dsimp only
  cases crowding : ((m.order s.entries).foldl (scanKey s localId) {}).crowding with
  | some victim =>
    have member := (mem_order_keys m s _).1 (victims.2 victim (by simp [crowding]))
    have dropped : Sheds (fun _ _ => True) s (s.dropKey victim.1) := Sheds.refl.key _ (fun _ _ => trivial)
    have logged : ((s.dropKey victim.1).logEviction (.crowdingKey victim.1)).evictions =
        .crowdingKey victim.1 :: s.evictions := by simp [logEviction]
    exact ⟨⟨dropped.memo rfl,.inr ⟨_,rfl,logged⟩,fun filled => filled.dropKey.memo rfl⟩,by simp,
      fun _ => keyCount_dropKey s _ member⟩
  | none =>
    obtain ⟨n,noting⟩ : ∃ n, n = if s.publisherIndex.anyoneOverShare then s.noteNoVictim else s := ⟨_,rfl⟩
    have noted : Memo s n ∧ n.evictions = s.evictions := by
      rw [noting]
      split <;> exact ⟨rfl,rfl⟩
    rw [← noting]
    cases furthest : ((m.order s.entries).foldl (scanKey s localId) {}).furthest with
    | none =>
      exact ⟨⟨.memo .refl noted.1,.inl ⟨noted.2,.memo .refl noted.1⟩,fun filled => filled.memo noted.1⟩,
        fun _ => noted.2,by simp⟩
    | some victim =>
      have member := (mem_order_keys m s _).1 (victims.1 victim (by simp [furthest]))
      dsimp only
      split
      · have bounded : Memo s (n.setBound (some victim.2)) := noted.1
        exact ⟨⟨.memo .refl bounded,.inl ⟨noted.2,.memo .refl bounded⟩,fun filled => filled.memo bounded⟩,
          fun _ => noted.2,by simp⟩
      have dropped : Sheds (fun _ _ => True) s (n.dropKey victim.1) :=
        (Sheds.refl.memo noted.1).key victim.1 (fun _ _ => trivial)
      have logged : ((n.dropKey victim.1).logEviction (.furthestKey victim.1)).evictions =
          .furthestKey victim.1 :: s.evictions := by simp [logEviction,noted.2]
      have fewer := keyCount_dropKey n victim.1 (noted.1.entries ▸ member)
      have same : n.keyCount = s.keyCount := by rw [keyCount,noted.1.entries,keyCount]
      exact ⟨⟨dropped.memo rfl,.inr ⟨_,rfl,logged⟩,fun filled => ((filled.memo noted.1).dropKey).memo rfl⟩,by simp,
        fun _ => same ▸ fewer⟩

private theorem dropKeys_evictions : (keys.foldl dropKey s).evictions = s.evictions := by
  induction keys generalizing s with
  | nil => rfl
  | cons k rest ih => simp [ih]

private theorem dropKeys_filled (filled : Filled s) : Filled (keys.foldl dropKey s) := by
  induction keys generalizing s with
  | nil => exact filled
  | cons k rest ih => exact ih _ filled.dropKey

private theorem dropKeys_sheds (may : Key → DhtRecord → Prop) (keys : List Key) (s : DhtStore)
    (allowed : ∀ k ∈ keys, ∀ r ∈ s.records k, may k r) : Sheds may s (keys.foldl dropKey s) := by
  induction keys generalizing s with
  | nil => exact Sheds.refl
  | cons k rest ih =>
    have first : Sheds may s (s.dropKey k) := Sheds.refl.key k (allowed k mem_cons_self)
    refine first.trans (ih _ ?_)
    intro k' member r inside
    exact allowed k' (mem_cons_of_mem _ member) r ((first.sublist k').subset inside)

private theorem expiredKeys_lapsed (expired : k ∈ s.expiredKeys m)
    (r : DhtRecord) (inside : r ∈ s.records k) : Lapsed m k r := by
  simp only [expiredKeys,mem_map,mem_filter] at expired
  obtain ⟨⟨key,records⟩,⟨bound,lapsed⟩,rfl⟩ := expired
  have found : s.records key = records := held_of_lookup _ _ _ ((mem_order m s).1 bound)
  have member : r ∈ records := found ▸ inside
  simpa [Lapsed] using all_eq_true.1 lapsed r member

theorem makeRoomForKey_evicted (incoming : Key) (publisher : PublisherKey) :
    Evicted (Lapsed m) s (s.makeRoomForKey m incoming publisher).1 ∧
      ((s.makeRoomForKey m incoming publisher).2 = false →
        (s.makeRoomForKey m incoming publisher).1.evictions = s.evictions) ∧
      ((s.makeRoomForKey m incoming publisher).2 = true → s.keyCount ≤ s.keyBudget →
        (s.makeRoomForKey m incoming publisher).1.keyCount < s.keyBudget) := by
  have still : Evicted (Lapsed m) s s := ⟨.refl,.inl ⟨rfl,.refl⟩,id⟩
  unfold makeRoomForKey
  split
  · rename_i room
    exact ⟨still,by simp,fun _ _ => room⟩
  cases s.localId with
  | none => exact ⟨still,fun _ => rfl,by simp⟩
  | some localId =>
    dsimp only
    split
    · exact ⟨still,fun _ => rfl,by simp⟩
    split
    · exact ⟨still,fun _ => rfl,by simp⟩
    split
    · obtain ⟨evicted,refused,fewer⟩ :=
        giveUpKey_evicted m s localId (xorDistance localId incoming) (Lapsed m)
      exact ⟨evicted,refused,fun taken within => (fewer taken).trans_le within⟩
    have quiet : Sheds (Lapsed m) s ((s.expiredKeys m).foldl dropKey s) :=
      dropKeys_sheds _ _ s (expiredKeys_lapsed m s)
    have same := dropKeys_evictions (s.expiredKeys m) s
    have swept : Sheds (Lapsed m) s (((s.expiredKeys m).foldl dropKey s).setBound none) :=
      quiet.memo rfl
    have loud : Sheds (fun _ _ => True) s _ := swept.mono (fun _ _ _ => trivial)
    split
    · rename_i room
      have budget : ((s.expiredKeys m).foldl dropKey s).keyBudget = s.keyBudget :=
        congrArg Settings.keyBudget quiet.settings
      exact ⟨⟨loud,.inl ⟨same,swept⟩,fun filled => (dropKeys_filled _ s filled).memo rfl⟩,by simp,
        fun _ _ => budget ▸ room⟩
    obtain ⟨evicted,refused,fewer⟩ := giveUpKey_evicted m
      (((s.expiredKeys m).foldl dropKey s).setBound none) localId
      (xorDistance localId incoming) (Lapsed m)
    refine ⟨⟨loud.trans evicted.sheds,?_,
      fun filled => evicted.filled ((dropKeys_filled _ s filled).memo rfl)⟩,
      fun no => (refused no).trans same,fun taken within => ?_⟩
    · rcases evicted.logged with ⟨unlogged,gentle⟩ | ⟨e,forced,logged⟩
      · exact .inl ⟨unlogged.trans same,swept.trans gentle⟩
      · exact .inr ⟨e,forced,logged.trans (congrArg (e :: ·) same)⟩
    · exact (fewer taken).trans_le (swept.keyCount.trans within)

private structure Trimmed (target : Nat) (k : Key) (s : DhtStore) (records : List DhtRecord)
    (t : DhtStore) (left : List DhtRecord) : Prop where
  sheds : Sheds (fun key _ => key = k) s t
  here : t.entries.lookup k = some left
  elsewhere : ∀ k' ≠ k, t.entries.lookup k' = s.entries.lookup k'
  evictions : t.evictions = s.evictions
  done : t.bytes ≤ target ∨ left = []
  change : left = records ∧ t = s ∨ left.length < records.length

private theorem trimKey_trimmed (s : DhtStore) (records : List DhtRecord) (found : s.entries.lookup k = some records) :
    Trimmed target k s records (trimKey target k s records).1 (trimKey target k s records).2 := by
  fun_induction trimKey target k s records with
  | case1 s records under => exact ⟨.refl,found,fun _ _ => rfl,rfl,.inl under,.inl ⟨rfl,rfl⟩⟩
  | case2 s records beyond none =>
    exact ⟨.refl,found,fun _ _ => rfl,rfl,.inr (argmin_eq_none.1 none),.inl ⟨rfl,rfl⟩⟩
  | case3 s records beyond victim least ih =>
    have member := argmin_mem least
    have rest := ih (lookup_insert _)
    have dropped : Sheds (fun key _ => key = k) s (s.dropRecord k records victim) :=
      Sheds.refl.record k records victim found member rfl
    have shorter : (records.erase victim).length < records.length := by
      rw [length_erase_of_mem member]
      exact Nat.sub_lt (length_pos_of_mem member) Nat.one_pos
    refine ⟨dropped.trans rest.sheds,rest.here,fun k' other => ?_,rest.evictions,rest.done,.inr ?_⟩
    · rw [rest.elsewhere k' other,dropRecord_entries,lookup_insert_ne other]
    rcases rest.change with ⟨same,_⟩ | fewer
    · rw [same]
      exact shorter
    · exact fewer.trans shorter

private structure TrimmedAll (target : Nat) (keys : List Key) (s : DhtStore) (dropped : Nat)
    (t : DhtStore) (count : Nat) : Prop where
  sheds : Sheds (fun key _ => key ∈ keys) s t
  evictions : t.evictions = s.evictions
  done : t.bytes ≤ target ∨ ∀ k ∈ keys, k ∉ t.entries
  grows : dropped ≤ count
  change : count = dropped → ∀ k, t.records k = s.records k
  filled : Filled s → Filled t

private theorem Trimmed.left {target : Nat} {k : Key} {s t : DhtStore} {records left : List DhtRecord}
    (trimmed : Trimmed target k s records t left) (dropped : Nat) :
    TrimmedAll target [k] s dropped (if left.isEmpty then t.setEntries (t.entries.erase k) else t)
      (dropped+(records.length-left.length)) := by
  have sheds : Sheds (fun key _ => key ∈ [k]) s t :=
    trimmed.sheds.mono (fun key _ same => by simp [same])
  have same : dropped+(records.length-left.length) = dropped → t = s := by
    intro unchanged
    rcases trimmed.change with ⟨_,still⟩ | fewer
    · exact still
    · omega
  cases left with
  | nil =>
    refine ⟨sheds.empty k trimmed.here,trimmed.evictions,.inr ?_,Nat.le_add_right ..,?_,?_⟩
    · simp
    · intro unchanged k'
      have emptied : Sheds (fun _ _ => False) t (t.setEntries (t.entries.erase k)) :=
        Sheds.refl.empty k trimmed.here
      rw [← same unchanged]
      exact emptied.spares (fun _ => id)
    · intro filled k' empty
      by_cases other : k' = k
      · subst other
        simp at empty
      simp only [isEmpty_nil,if_true,setEntries_entries,lookup_erase_ne other,
        trimmed.elsewhere k' other] at empty
      exact filled k' empty
  | cons r rest =>
    refine ⟨sheds,trimmed.evictions,.inl ?_,Nat.le_add_right ..,?_,?_⟩
    · rcases trimmed.done with under | none
      · exact under
      · cases none
    · intro unchanged k'
      rw [same unchanged]
      rfl
    · intro filled k' empty
      by_cases other : k' = k
      · subst other
        simp [trimmed.here] at empty
      · exact filled k' (trimmed.elsewhere k' other ▸ empty)

private theorem TrimmedAll.cons {target : Nat} {k : Key} {keys : List Key} {s t u : DhtStore}
    {dropped middle count : Nat} (first : TrimmedAll target [k] s dropped t middle)
    (gone : k ∉ t.entries) (second : TrimmedAll target keys t middle u count) :
    TrimmedAll target (k :: keys) s dropped u count := by
  refine ⟨?_,second.evictions.trans first.evictions,?_,first.grows.trans second.grows,?_,?_⟩
  · exact (first.sheds.mono (fun key _ inside => by simp_all)).trans
      (second.sheds.mono (fun key _ inside => mem_cons_of_mem k inside))
  · rcases second.done with under | cleared
    · exact .inl under
    right
    intro key member
    rcases mem_cons.1 member with rfl | later
    · exact fun inside => gone (second.sheds.mem inside)
    · exact cleared key later
  · intro unchanged key
    have grown := first.grows
    have still := second.grows
    rw [second.change (by omega) key,first.change (by omega) key]
  · exact fun filled => second.filled (first.filled filled)

private theorem trimKeys_trimmed (dropped : Nat) :
    TrimmedAll target keys s dropped (trimKeys target keys s dropped).1 (trimKeys target keys s dropped).2 := by
  induction keys generalizing s dropped with
  | nil => exact ⟨.refl,rfl,.inr (by simp),Nat.le_refl _,fun _ _ => rfl,id⟩
  | cons k rest ih =>
    unfold trimKeys
    split
    · rename_i absent
      have gone : k ∉ s.entries := lookup_eq_none.1 absent
      exact TrimmedAll.cons ⟨.refl,rfl,.inr (by simpa using gone),Nat.le_refl _,fun _ _ => rfl,id⟩ gone (ih s dropped)
    rename_i records found
    have first := (trimKey_trimmed target k s records found).left dropped
    dsimp only
    generalize (if (trimKey target k s records).2.isEmpty then _ else _ : DhtStore) = left at first
    split
    · rename_i under
      exact ⟨first.sheds.mono (fun key _ inside => by simp_all),first.evictions,.inl under,first.grows,
        first.change,first.filled⟩
    rename_i beyond
    rcases first.done with under | cleared
    · exact absurd under beyond
    · exact first.cons (cleared k (by simp)) (ih ..)

private theorem ranked_keys (spare k : Key) : k ∈ (s.ranked m spare).map Ranked.key ↔ k ∈ s.entries ∧ k ≠ spare := by
  have sorted := (perm_insertionSort Ranked.ahead (((m.order s.entries).filter fun e => e.1 != spare).map
    fun e => ({ key := e.1, crowding := s.crowds e.2, distance := s.localId.elim 0 (xorDistance · e.1) } : Ranked)))
  rw [← mem_order_keys m s k,ranked,(sorted.map Ranked.key).mem_iff]
  simp only [map_map,mem_map,mem_filter,bne_iff_ne]
  constructor
  · rintro ⟨e,⟨member,other⟩,rfl⟩
    exact ⟨⟨e,member,rfl⟩,other⟩
  · rintro ⟨⟨e,member,rfl⟩,other⟩
    exact ⟨e,⟨member,other⟩,rfl⟩

/-- What the byte budget did: it spared one key, and freed down to its low-water mark unless only
that key was left. -/
structure Budgeted (spare : Key) (s t : DhtStore) : Prop where
  sheds : Sheds (fun k _ => k ≠ spare) s t
  logged : t.evictions = s.evictions ∧ (∀ k, t.records k = s.records k) ∨
    ∃ e : Eviction, e.forced = true ∧ t.evictions = e :: s.evictions
  done : t.bytes ≤ s.byteBudget ∨ ∀ k ∈ t.entries, k = spare
  filled : Filled s → Filled t

theorem enforceByteBudget_budgeted (spare : Key) : Budgeted spare s (s.enforceByteBudget m spare) := by
  unfold enforceByteBudget
  split
  · rename_i under
    exact ⟨.refl,.inl ⟨rfl,fun _ => rfl⟩,.inl under,id⟩
  have all := trimKeys_trimmed (s.byteBudget-s.byteBudget/10) ((s.ranked m spare).map Ranked.key) s 0
  dsimp only
  generalize trimKeys _ _ s 0 = trimmed at all
  have sheds : Sheds (fun k _ => k ≠ spare) s trimmed.1 :=
    all.sheds.mono (fun k _ member => ((ranked_keys m s spare k).1 member).2)
  have done : trimmed.1.bytes ≤ s.byteBudget ∨ ∀ k ∈ trimmed.1.entries, k = spare := by
    rcases all.done with under | cleared
    · left
      omega
    right
    intro k member
    by_contra other
    exact cleared k ((ranked_keys m s spare k).2 ⟨sheds.mem member,other⟩) member
  split
  · exact ⟨sheds.memo rfl,.inr ⟨_,rfl,congrArg (_ :: ·) all.evictions⟩,done,all.filled⟩
  · exact ⟨sheds,.inl ⟨all.evictions,all.change (by omega)⟩,done,all.filled⟩

end Ember.Dht.DhtStore
