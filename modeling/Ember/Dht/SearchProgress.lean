import Ember.Dht.SearchShortlist

/-! A search cannot hang. With nothing outstanding, a round of `next_to_query` and `poll_complete`
sends something, ends the search, or queues a parked page, which the next round sends. -/
namespace Ember.Dht
open Table List AList Function

namespace Walk
variable {w : Walk} {canSend : Nat} {w' : Walk} {sent : List QueryTarget} {count : Nat} {node : EmberNodeId}

theorem sendPages_length_le (budget : Nat) (queue skipped : List OwedPage) (w : Walk) (batch : List QueryTarget) :
    (sendPages budget queue skipped (w,batch)).2.length ≤ max batch.length budget := by
  induction queue generalizing skipped w batch with
  | nil => exact le_max_left ..
  | cons owed rest ih =>
    unfold sendPages
    split
    · rename_i room
      split
      · exact ih _ w batch
      refine (ih skipped (w.sendPage owed) _).trans (max_le ?_ (le_max_right ..))
      rw [length_append]
      exact le_max_of_le_right room
    · exact le_max_left ..

theorem sendReferrals_length_le (canSend : Nat) (queue : List EmberNodeId) (w : Walk) (batch : List QueryTarget) :
    (sendReferrals canSend queue (w,batch)).2.length ≤ max batch.length canSend := by
  induction queue generalizing w batch with
  | nil => exact le_max_left ..
  | cons node rest ih =>
    unfold sendReferrals
    split
    · rename_i room
      split
      · exact ih w batch
      refine (ih (w.sendReferral node) _).trans (max_le ?_ (le_max_right ..))
      rw [length_append]
      exact le_max_of_le_right room
    · exact le_max_left ..

theorem askEntry_turn (canSend : Nat) (seedRound : Bool) (near : List EmberNodeId) (prefer : Nat)
    (state : Walk × List QueryTarget) (i : Nat) : askEntry canSend seedRound near prefer state i = state ∨
      state.2.length < canSend ∧ (askEntry canSend seedRound near prefer state i).2.length = state.2.length+1 := by
  unfold askEntry
  split
  · exact .inl rfl
  split
  · exact .inl rfl
  rename_i room
  split
  · exact .inl rfl
  split
  · exact .inr ⟨not_le.1 room,length_append ..⟩
  · exact .inl rfl

theorem askShortlist_length_le (canSend : Nat) (state : Walk × List QueryTarget) :
    (askShortlist canSend state).2.length ≤ max state.2.length canSend := by
  refine List.foldlRecOn (motive := fun state' : Walk × List QueryTarget => state'.2.length ≤ max state.2.length canSend) _ _ (le_max_left ..)
    fun state' within prefer _ => ?_
  refine List.foldlRecOn (motive := fun state' : Walk × List QueryTarget => state'.2.length ≤ max state.2.length canSend) _ _ within
    fun state' within i _ => ?_
  obtain same | ⟨room,grown⟩ := askEntry_turn canSend _ _ prefer state' i
  · rwa [same]
  · rw [grown]
    exact le_max_of_le_right room

theorem dispatch_length_le (w : Walk) (room : 0 < canSend) : (w.dispatch canSend).2.length ≤ canSend := by
  have budget : w.pageBudget canSend ≤ canSend := by
    simp only [pageBudget]
    split_ifs
    all_goals omega
  have pages : (sendPages (w.pageBudget canSend) w.pageQueue [] (w,[])).2.length ≤ canSend :=
    (sendPages_length_le _ _ _ w []).trans (max_le (Nat.zero_le _) budget)
  unfold dispatch
  generalize sendPages (w.pageBudget canSend) w.pageQueue [] (w,[]) = sent at pages
  obtain ⟨w₁,batch⟩ := sent
  dsimp only
  split
  · exact pages
  generalize (if 0 < batch.length then { w₁ with pageTurnOwed := false } else w₁) = w₂
  have referrals := sendReferrals_length_le canSend w₂.referralQueue w₂ batch
  have asked := askShortlist_length_le canSend (sendReferrals canSend w₂.referralQueue (w₂,batch))
  have within : (askShortlist canSend (sendReferrals canSend w₂.referralQueue (w₂,batch))).2.length ≤ canSend :=
    asked.trans (max_le (referrals.trans (max_le pages le_rfl)) le_rfl)
  split
  · exact within
  · exact within

theorem sendReferrals_silent (room : 0 < canSend) (queue : List EmberNodeId) (w : Walk)
    (silent : (sendReferrals canSend queue (w,[])).2 = []) :
    sendReferrals canSend queue (w,[]) = ({ w with referralQueue := [] },[]) := by
  induction queue generalizing w with
  | nil => rfl
  | cons node rest ih =>
    unfold sendReferrals at silent ⊢
    rw [if_pos (show List.length [] < canSend from room)] at silent ⊢
    split at silent
    · exact ih w silent
    rename_i entry _
    obtain ⟨events,batch,-⟩ := sendReferrals_emits canSend rest (w.sendReferral node) ([]++[w.referralTarget entry.contact])
    rw [silent] at batch
    simp at batch

theorem askShortlist_silent (room : 0 < canSend) (w : Walk) (silent : (askShortlist canSend (w,[])).2 = []) :
    askShortlist canSend (w,[]) = (w,[]) ∧ ∀ e ∈ w.shortlist, w.unasked e = false := by
  have turn seedRound near prefer state i :
      askEntry canSend seedRound near prefer state i = state ∨
        state.2.length < (askEntry canSend seedRound near prefer state i).2.length :=
    (askEntry_turn canSend seedRound near prefer state i).imp id fun ⟨_,grown⟩ => by omega
  have pass seedRound near state prefer :
      askPass canSend seedRound near state prefer = state ∨
        state.2.length < (askPass canSend seedRound near state prefer).2.length :=
    (Path.foldl_idle (turn seedRound near prefer) _ state).imp And.left id
  obtain ⟨idle,passes⟩ | sent := Path.foldl_idle (pass (!w.seedRoundDone)
    (if w.searchType = .findValue then w.closest.map ShortlistEntry.nodeId else []))
    (List.range (if !w.seedRoundDone then 3 else 1)) (w,[])
  · refine ⟨idle,fun e member => ?_⟩
    obtain ⟨i,bound,found⟩ := mem_iff_getElem.1 member
    -- the pass that takes this entry's class, or the only pass
    let prefer := if !w.seedRoundDone then e.seedClass else 0
    have taken : prefer ∈ List.range (if !w.seedRoundDone then 3 else 1) := by
      have small : e.seedClass < 3 := by
        unfold ShortlistEntry.seedClass
        split_ifs <;> decide
      rw [mem_range]
      simp only [prefer]
      split <;> omega
    obtain ⟨-,turns⟩ | grew := Path.foldl_idle (turn (!w.seedRoundDone) _ prefer) (List.range w.shortlist.length) (w,[])
    · have idleTurn := congrArg (fun state => state.2) (turns i (mem_range.2 bound))
      have here : w.shortlist[i]? = some e := List.getElem?_eq_some_iff.2 ⟨bound,found⟩
      have preferred : (!w.seedRoundDone && e.seedClass != prefer) = false := by
        cases done : w.seedRoundDone <;> simp [prefer,done]
      simp only [askEntry,here,preferred,length_nil,Nat.not_le.2 room,if_false,Bool.false_eq_true] at idleTurn
      split at idleTurn
      · simp at idleTurn
      · rename_i asked
        exact Bool.eq_false_iff.2 asked
    · exact absurd (passes prefer taken) fun same => by
        unfold askPass at same
        rw [same] at grew
        exact lt_irrefl _ grew
  · refine absurd sent ?_
    change ¬_ < (askShortlist canSend (w,[])).2.length
    rw [silent]
    exact lt_irrefl _

theorem sendPages_sends {budget : Nat} (room : 0 < budget) {owed : OwedPage} (rest skipped : List OwedPage)
    {contact : EmberContact} (known : w.contactOf owed.node = some contact) :
    (sendPages budget (owed :: rest) skipped (w,[])).2 ≠ [] := by
  unfold sendPages
  rw [if_pos (show List.length [] < budget from room),known]
  obtain ⟨events,batch,-⟩ := sendPages_emits budget rest skipped (w.sendPage owed) ([]++[w.pageTarget owed contact])
  rw [batch]
  simp

theorem dispatch_silent (room : 2 ≤ canSend)
    (known : ∀ p ∈ w.pageQueue, (w.contactOf p.node).isSome) (silent : (w.dispatch canSend).2 = []) :
    w.pageQueue = [] ∧ (∀ e ∈ w.shortlist, w.unasked e = false) ∧
      w.dispatch canSend = ({ w with referralQueue := [] },[]) := by
  have budget : 0 < w.pageBudget canSend := by
    simp only [pageBudget]
    split_ifs
    all_goals omega
  have positive : 0 < canSend := by omega
  cases queue : w.pageQueue with
  | cons owed rest =>
    obtain ⟨contact,found⟩ := Option.isSome_iff_exists.1 (known owed (queue ▸ mem_cons_self ..))
    have sends := sendPages_sends budget rest [] found
    rw [← queue] at sends
    unfold dispatch at silent
    generalize sendPages (w.pageBudget canSend) w.pageQueue [] (w,[]) = sent at sends silent
    obtain ⟨w₁,batch⟩ := sent
    dsimp only at sends silent
    split at silent
    · exact absurd silent sends
    generalize (if 0 < batch.length then { w₁ with pageTurnOwed := false } else w₁) = w₂ at silent
    obtain ⟨events,grown,-⟩ := (sendReferrals_emits canSend w₂.referralQueue w₂ batch).trans
      (askShortlist_emits canSend (sendReferrals canSend w₂.referralQueue (w₂,batch)))
    have empty : (askShortlist canSend (sendReferrals canSend w₂.referralQueue (w₂,batch))).2 = [] := by
      split at silent
      · exact silent
      · exact silent
    rw [empty] at grown
    exact absurd (append_eq_nil_iff.1 grown.symm).1 sends
  | nil =>
    have same : { w with pageQueue := [] } = w := by rw [← queue]
    unfold dispatch at silent ⊢
    rw [queue] at silent ⊢
    simp only [sendPages,same,length_nil,Nat.not_lt_zero,Nat.not_le.2 positive,if_false] at silent ⊢
    have empty : (askShortlist canSend (sendReferrals canSend w.referralQueue (w,[]))).2 = [] := by
      split at silent
      · exact silent
      · exact silent
    obtain ⟨events,batch,-⟩ := askShortlist_emits canSend (sendReferrals canSend w.referralQueue (w,[]))
    rw [empty] at batch
    have referrals := sendReferrals_silent positive w.referralQueue w (append_eq_nil_iff.1 batch.symm).1
    rw [referrals] at empty ⊢
    obtain ⟨asked,unasked⟩ := askShortlist_silent positive _ empty
    refine ⟨trivial,unasked,?_⟩
    rw [asked]
    simp [queue]

/-- What every reachable walk keeps: one conversation a node, and a shortlist that agrees. -/
structure Steady (w : Walk) : Prop where
  conversing : w.Conversing
  listed : w.Listed

theorem Steady.path (steady : w.Steady) (path : Path Move w sent w') :
    w'.Steady ∧ w'.inFlight ≤ w.inFlight+sent.length := by
  refine Path.keeps (P := fun past v => v.Steady ∧ v.inFlight ≤ w.inFlight+past.length)
    (fun past v batch v' kept move => ?_) path [] ⟨steady,le_rfl⟩
  obtain ⟨steady,load⟩ := kept
  have step := move.inFlight_le steady.listed
  refine ⟨⟨steady.conversing.move move,steady.listed.move steady.conversing move⟩,?_⟩
  rw [length_append]
  omega

theorem Steady.tracked (steady : w.Steady) (path : Path Move w sent w') (tracked : w.Tracked count)
    (few : count+sent.length ≤ 2^32) : w'.Tracked (count+sent.length) := by
  refine (Path.keeps (P := fun past v => v.Steady ∧ (count+past.length ≤ 2^32 → v.Tracked (count+past.length)))
    (fun past v batch v' kept move => ?_) path [] ⟨steady,fun _ => tracked⟩).2 few
  obtain ⟨steady,tracked⟩ := kept
  refine ⟨⟨steady.conversing.move move,steady.listed.move steady.conversing move⟩,fun few => ?_⟩
  rw [length_append,← Nat.add_assoc] at few ⊢
  exact (tracked (by omega)).move steady.listed few move

def firstQueries (w : Walk) : List EmberNodeId :=
  (w.outstanding.filter fun q => !q.isFollowUp).map PendingQuery.node

def inFlightEntries (w : Walk) : List EmberNodeId :=
  (w.shortlist.filter fun e => e.state = .inFlight).map ShortlistEntry.nodeId

theorem mem_inFlightEntries (listed : w.Listed) :
    node ∈ w.inFlightEntries ↔ stateIn w.shortlist node = some .inFlight := by
  rw [← mem_standing listed.distinct]
  simp only [inFlightEntries,standing,mem_map,mem_filter,decide_eq_true_eq,Prod.mk.injEq]
  exact exists_congr fun e => by rw [and_assoc,and_comm (b := e.nodeId = node)]

theorem mem_firstQueries : node ∈ w.firstQueries ↔ ∃ q ∈ w.outstanding, q.isFollowUp = false ∧ q.node = node := by
  simp [firstQueries,and_assoc]

theorem Conversing.firstQueries_nodup (conv : w.Conversing) : w.firstQueries.Nodup := by
  rw [nodup_iff_count_le_one]
  intro node
  have single := conv.le_one node
  have fewer : w.firstQueries.count node ≤ w.conversations node := by
    rw [firstQueries,List.count,countP_map,countP_filter]
    refine le_trans (countP_mono_left fun q _ first => ?_) (Nat.le_add_left ..)
    simp only [comp_apply,PendingQuery.isFollowUp,Bool.and_eq_true,beq_iff_eq,Bool.not_eq_true',
      Bool.or_eq_false_iff] at first
    simp [first.1,first.2.2]
  omega

theorem Listed.inFlightEntries_nodup (listed : w.Listed) : w.inFlightEntries.Nodup :=
  listed.distinct.sublist (filter_sublist.map _)

theorem Steady.firstQueries_subset (steady : w.Steady) : w.firstQueries ⊆ w.inFlightEntries := by
  intro node asked
  obtain ⟨q,out,first,rfl⟩ := mem_firstQueries.1 asked
  exact (mem_inFlightEntries steady.listed).2 (steady.listed.firsts q out first)

theorem Steady.outstanding_le (steady : w.Steady) : w.outstanding.length ≤ w.inFlight := by
  have firsts := (steady.conversing.firstQueries_nodup.subperm steady.firstQueries_subset).length_le
  have kinds : w.outstanding.length ≤ w.outstanding.countP (fun q => !q.isFollowUp)+
      (w.outstanding.countP PendingQuery.isPage+w.outstanding.countP PendingQuery.referral) := by
    generalize w.outstanding = out
    induction out with
    | nil => exact Nat.zero_le _
    | cons q rest ih =>
      have covered : 1 ≤ (if (!q.isFollowUp) = true then 1 else 0)+((if q.isPage = true then 1 else 0)+
          if q.referral = true then 1 else 0) := by
        unfold PendingQuery.isFollowUp
        cases q.isPage <;> cases q.referral <;> decide
      simp only [length_cons,countP_cons]
      omega
  rw [firstQueries,inFlightEntries,length_map,length_map,← countP_eq_length_filter,
    ← countP_eq_length_filter] at firsts
  rw [inFlight_eq]
  unfold flying
  omega

theorem Steady.firstQueries_perm (steady : w.Steady) (tracked : w.Tracked count) :
    w.firstQueries.Perm w.inFlightEntries := by
  rw [perm_ext_iff_of_nodup steady.conversing.firstQueries_nodup steady.listed.inFlightEntries_nodup]
  refine fun node => ⟨fun first => steady.firstQueries_subset first,fun flying => ?_⟩
  exact mem_firstQueries.2 (tracked.flying node ((mem_inFlightEntries steady.listed).1 flying))

end Walk

namespace IterativeSearch
open Walk
variable (s : IterativeSearch) {j k : Nat}

theorem nextToQuery_load (steady : s.Steady) (load : s.inFlight ≤ alpha) : s.nextToQuery.1.inFlight ≤ alpha := by
  have grown := (steady.path s.nextToQuery_path).2
  have fits : s.inFlight+s.nextToQuery.2.length ≤ alpha := by
    unfold nextToQuery
    split
    · exact load
    dsimp only
    split
    · exact load
    rename_i room
    have batch := dispatch_length_le s.releaseParkedPage (Nat.pos_of_ne_zero room)
    dsimp only
    omega
  exact grown.trans fits

theorem step_load {crypto : Crypto} {s : IterativeSearch} {op : SearchOp} (steady : s.Steady)
    (load : s.inFlight ≤ alpha) : (s.step crypto op).1.inFlight ≤ alpha := by
  have grown := (steady.path (s.step_path crypto op)).2
  cases op with
  | nextToQuery => exact s.nextToQuery_load steady load
  | _ => exact grown.trans load

theorem releaseParkedPage_spec : ∃ parked charged tries more, s.releaseParkedPage = { s.toWalk with
      parkedPages := parked, pagesQueued := charged, pageAttempts := tries, pageQueue := s.pageQueue++more } := by
  have kept parked : ∃ parked' charged tries more, { s.toWalk with parkedPages := parked } =
      { s.toWalk with
        parkedPages := parked', pagesQueued := charged, pageAttempts := tries, pageQueue := s.pageQueue++more } :=
    ⟨parked,s.pagesQueued,s.pageAttempts,[],by simp⟩
  have release queue : ∃ parked charged tries more, s.releaseFrom queue = { s.toWalk with
      parkedPages := parked, pagesQueued := charged, pageAttempts := tries, pageQueue := s.pageQueue++more } := by
    induction queue with
    | nil => exact kept []
    | cons parked rest ih =>
      unfold releaseFrom
      split
      · exact ih
      split
      · exact ih
      · exact ⟨_,_,_,_,rfl⟩
  unfold releaseParkedPage
  split
  · exact kept s.parkedPages
  split
  · exact kept []
  dsimp only
  split
  · exact kept s.parkedPages
  · exact release s.parkedPages

def round (s : IterativeSearch) (now : Instant) : IterativeSearch × List QueryTarget :=
  (s.nextToQuery.1.pollComplete now,s.nextToQuery.2)

theorem nextToQuery_silent (steady : s.Steady) (open_ : s.complete = false)
    (slots : s.inFlight = 0) (silent : s.nextToQuery.2 = []) :
    s.releaseParkedPage.pageQueue = [] ∧ (∀ e ∈ s.shortlist, s.unasked e = false) ∧
      s.nextToQuery.1 = { s with toWalk := { s.releaseParkedPage with referralQueue := [] } } := by
  have released := (steady.path s.releaseParkedPage_quiet).1
  have known : ∀ p ∈ s.releaseParkedPage.pageQueue, (s.releaseParkedPage.contactOf p.node).isSome := by
    intro p member
    have state := released.listed.pages p.node (mem_owedPageNodes.2 (.inl ⟨p,member,rfl⟩))
    obtain ⟨e,found,-⟩ := Option.map_eq_some_iff.1 state
    simp [contactOf,found]
  unfold nextToQuery at silent ⊢
  simp only [open_,slots,Bool.false_eq_true,if_false,Nat.sub_zero,show alpha ≠ 0 by decide] at silent ⊢
  obtain ⟨queue,unasked,same⟩ := dispatch_silent (by decide) known silent
  refine ⟨queue,?_,by rw [same]⟩
  obtain ⟨parked,charged,tries,more,spec⟩ := s.releaseParkedPage_spec
  rw [spec] at unasked
  exact unasked

theorem checkComplete_open (now : Instant) (open_ : (s.checkComplete now).complete = false) :
    s.checkComplete now = { s with toWalk := s.releaseParkedPage } ∧
      exhausted { s with toWalk := s.releaseParkedPage } = false := by
  unfold checkComplete at open_ ⊢
  dsimp only at open_ ⊢
  split_ifs at open_ ⊢ with done early more apart unsettled room
  · rw [done] at open_
    cases open_
  · cases open_
  · cases open_
  · cases open_
  · exact ⟨rfl,Bool.eq_false_iff.2 more⟩

theorem round_progress (steady : s.Steady) (open_ : s.complete = false)
    (idle : s.outstanding = []) (landed : s.inFlightEntries = []) {now₁ now₂ : Instant} :
    (s.round now₁).2 ≠ [] ∨ (s.round now₁).1.complete = true ∨ ((s.round now₁).1.round now₂).2 ≠ [] := by
  have grounded : ∀ e ∈ s.shortlist, e.state ≠ .inFlight := by
    simpa [inFlightEntries] using landed
  have slots (w : Walk) (out : w.outstanding = []) (entries : w.shortlist = s.shortlist) : w.inFlight = 0 := by
    rw [inFlight_eq,out,entries]
    simpa [flying] using grounded
  by_contra stuck
  simp only [not_or,not_not,Bool.not_eq_true] at stuck
  obtain ⟨silent₁,open₁,silent₂⟩ := stuck
  obtain ⟨-,unasked,first⟩ := s.nextToQuery_silent steady open_ (slots s.toWalk idle rfl) silent₁
  have steady₁ := (steady.path s.nextToQuery_path).1
  obtain ⟨polled,more⟩ := s.nextToQuery.1.checkComplete_open now₁ open₁
  have steady₂ := (steady₁.path (s.nextToQuery.1.checkComplete_quiet now₁)).1
  obtain ⟨parked₁,charged₁,tries₁,more₁,spec₁⟩ := s.releaseParkedPage_spec
  obtain ⟨parked₂,charged₂,tries₂,more₂,spec₂⟩ := s.nextToQuery.1.releaseParkedPage_spec
  have listed : (s.nextToQuery.1.checkComplete now₁).shortlist = s.shortlist := by
    rw [polled,spec₂,first,spec₁]
  have out : (s.nextToQuery.1.checkComplete now₁).outstanding = [] := by
    rw [polled,spec₂,first,spec₁]
    exact idle
  obtain ⟨empty,-,-⟩ := (s.nextToQuery.1.checkComplete now₁).nextToQuery_silent steady₂ open₁ (slots _ out listed) silent₂
  obtain ⟨parked₃,charged₃,tries₃,more₃,spec₃⟩ := (s.nextToQuery.1.checkComplete now₁).releaseParkedPage_spec
  rw [spec₃] at empty
  -- nothing was released either, so nothing at all is owed
  have queue : (s.nextToQuery.1.checkComplete now₁).pageQueue = [] := (append_eq_nil_iff.1 empty).1
  have referrals : (s.nextToQuery.1.checkComplete now₁).referralQueue = [] := by
    rw [polled,spec₂,first]
  have settled : ∀ e ∈ s.shortlist, e.state ≠ .pending := by
    intro e member pending
    have fresh := steady.listed.fresh e.nodeId
      ((mem_standing steady.listed.distinct).1 (mem_map.2 ⟨e,member,by rw [standing,pending]⟩))
    have asked := unasked e member
    rw [unasked_iff.2 ⟨pending,fresh⟩] at asked
    cases asked
  rw [← polled] at more
  have beyond : (s.nextToQuery.1.checkComplete now₁).exhausted = true := by
    simpa [exhausted,listed,queue,referrals,pagesInFlight,referralsInFlight,out] using And.intro settled grounded
  rw [beyond] at more
  cases more

section Lives
variable (crypto : Crypto) (searchType : SearchType) (target : EmberNodeId) {contacts : List EmberContact} (now : Instant)

theorem new_steady (distinct : (contacts.map EmberContact.nodeId).Nodup) :
    (new searchType target contacts now).Steady ∧ (new searchType target contacts now).Tracked 0 ∧
      (new searchType target contacts now).inFlight = 0 := by
  let entries := (contacts.filter EmberContact.isDialable).map fun c =>
    (⟨c,target^^^c.nodeId,.pending,false,none⟩ : ShortlistEntry)
  let sorted := sortByKey ShortlistEntry.distance entries
  have perm : sorted.Perm entries := perm_insertionSort ..
  have nodes : (entries.map ShortlistEntry.nodeId).Nodup := by
    rw [map_map]
    exact distinct.sublist (filter_sublist.map _)
  have taken : ((new searchType target contacts now).shortlist.map ShortlistEntry.nodeId).Nodup :=
    ((perm.map ShortlistEntry.nodeId).nodup_iff.2 nodes).sublist ((take_sublist ..).map _)
  have waiting : ∀ e ∈ (new searchType target contacts now).shortlist, e.state = .pending := by
    intro e member
    obtain ⟨c,-,rfl⟩ := mem_map.1 (perm.subset (mem_of_mem_take member))
    rfl
  have pending {node : EmberNodeId} {state : NodeState}
      (found : stateIn (new searchType target contacts now).shortlist node = some state) : state = .pending := by
    obtain ⟨e,member,known⟩ := mem_map.1 ((mem_standing taken).2 found)
    exact (Prod.mk.inj known).2.symm.trans (waiting e member)
  refine ⟨⟨(new_traffic searchType target contacts now).1,⟨taken,?_,?_,?_,?_,?_⟩⟩,⟨rfl,?_,?_⟩,?_⟩
  · exact fun node _ => Finset.notMem_empty node
  · exact fun node state found asked => absurd (pending found) asked
  · exact fun q member => absurd member not_mem_nil
  · exact fun node member => absurd member not_mem_nil
  · exact fun q member => absurd member not_mem_nil
  · exact fun requestId asked out => by simp [new] at out
  · exact fun node flying => absurd (pending flying) (by decide)
  · have grounded : flying (new searchType target contacts now).shortlist = 0 := by
      refine countP_eq_zero.2 fun e member => ?_
      simp [waiting e member]
    rw [inFlight_eq,grounded]
    rfl

theorem run_steady (distinct : (contacts.map EmberContact.nodeId).Nodup) (ops : List SearchOp) :
    let life := (new searchType target contacts now).run crypto ops
    life.1.Steady ∧ life.1.inFlight ≤ alpha ∧ (life.2.length ≤ 2^32 → life.1.Tracked life.2.length) := by
  obtain ⟨steady,tracked,grounded⟩ := new_steady searchType target now distinct
  have path := (new searchType target contacts now).run_path crypto ops
  have load : ((new searchType target contacts now).run crypto ops).1.inFlight ≤ alpha := by
    induction ops using List.reverseRecOn with
    | nil => exact grounded.trans_le (Nat.zero_le _)
    | append_singleton ops op ih =>
      rw [run_concat]
      exact step_load (steady.path ((new searchType target contacts now).run_path crypto ops)).1
        (ih ((new searchType target contacts now).run_path crypto ops))
  exact ⟨(steady.path path).1,load,fun few => by
    simpa using steady.tracked path tracked ((Nat.zero_add _).trans_le few)⟩

/-- No search hangs: in every state a life from distinct contacts reaches, the shortlist agrees with the requests
out. Until request ids come round, first queries pair with in-flight entries, and a search with nothing
outstanding sends something or ends within two rounds. -/
theorem never_hangs (distinct : (contacts.map EmberContact.nodeId).Nodup) (ops : List SearchOp) :
    let life := (new searchType target contacts now).run crypto ops
    (∀ e ∈ life.1.shortlist, e.state = .pending → e.nodeId ∉ life.1.queried) ∧
    (∀ node ∈ life.1.owedPageNodes, ∃ e ∈ life.1.shortlist, e.nodeId = node) ∧
    life.1.outstanding.length ≤ alpha ∧
    (life.2.length ≤ 2^32 →
      life.1.firstQueries.Perm life.1.inFlightEntries ∧ life.1.inFlightEntries.Nodup ∧
      (life.1.outstanding = [] → life.1.complete = false → ∀ now₁ now₂,
        (life.1.round now₁).2 ≠ [] ∨ (life.1.round now₁).1.complete = true ∨
        ((life.1.round now₁).1.round now₂).2 ≠ [] ∨ ((life.1.round now₁).1.round now₂).1.complete = true)) := by
  obtain ⟨steady,load,tracked⟩ := run_steady crypto searchType target now distinct ops
  generalize (new searchType target contacts now).run crypto ops = life at steady load tracked
  obtain ⟨s,sent⟩ := life
  refine ⟨fun e member pending => ?_,fun node owed => ?_,steady.outstanding_le.trans load,fun few => ?_⟩
  · refine steady.listed.fresh e.nodeId ((mem_standing steady.listed.distinct).1 ?_)
    exact mem_map.2 ⟨e,member,by rw [standing,pending]⟩
  · have state := steady.listed.pages node owed
    have is : (stateIn s.shortlist node).isSome := by rw [state]; rfl
    simpa using stateIn_isSome.1 is
  · have pairs := steady.firstQueries_perm (tracked few)
    refine ⟨pairs,steady.listed.inFlightEntries_nodup,fun idle open_ now₁ now₂ => ?_⟩
    have none : s.firstQueries = [] := by simp [firstQueries,show s.outstanding = [] from idle]
    have landed : s.inFlightEntries = [] := by
      rw [none] at pairs
      exact pairs.nil_eq.symm
    exact (s.round_progress steady open_ idle landed).imp id (Or.imp id .inl)

end Lives

def mute : Crypto := ⟨fun _ => 0,fun _ => none,fun _ _ _ => false⟩

def stranger (j : Nat) : EmberContact := { nodeId := BitVec.ofNat 128 (j+1), ip := .v4 0x08080808#32, port := 4672 }

theorem never_hangs_after_timeout :
    let life := (new .findNode 0 [stranger 0] 0).run mute [.nextToQuery,.markFailedWith 0 1 .timedOut]
    life.1.outstanding = [] ∧ life.1.complete = false ∧ ∀ now₁ now₂,
      (life.1.round now₁).2 ≠ [] ∨ (life.1.round now₁).1.complete = true ∨
      ((life.1.round now₁).1.round now₂).2 ≠ [] ∨ ((life.1.round now₁).1.round now₂).1.complete = true := by
  obtain ⟨-,-,-,within⟩ := never_hangs mute .findNode 0 0
    (show ([stranger 0].map EmberContact.nodeId).Nodup from nodup_singleton _) [.nextToQuery,.markFailedWith 0 1 .timedOut]
  exact ⟨by decide +kernel,by decide +kernel,(within (by decide +kernel)).2.2 (by decide +kernel) (by decide +kernel)⟩

def strangerEntry (state : NodeState) (j : Nat) : ShortlistEntry :=
  ⟨stranger j,BitVec.ofNat 128 (j+1),state,0 < j,none⟩

def drift (k : Nat) : List ShortlistEntry :=
  (List.range (k+1)).map fun j => strangerEntry (if j = 0 then .inFlight else .failed) j

def lap (j : Nat) : List SearchOp :=
  [.seedExtraContacts [stranger (j+1)],.nextToQuery,.markFailedWith 0 (UInt32.ofNat (j+2)) .notSent]

structure Adrift (s : IterativeSearch) (entries : List ShortlistEntry) (asked sent : Nat)
    (pending : UInt32 → Option EmberNodeId) : Prop where
  kind : s.searchType = .findValue
  target : s.target = 0
  started : s.startedAt = 0
  going : s.complete = false
  plain : s.keywordLookup = false
  seeded : s.seedRoundDone = true
  pages : s.pageQueue = []
  parked : s.parkedPages = []
  referrals : s.referralQueue = []
  harvest : s.toHarvest = { lastNewRecord := 0 }
  shortlist : s.shortlist = entries
  queried : ∀ node ∈ s.queried, node.toNat ≤ asked
  next : s.nextRequestId = UInt32.ofNat (sent+1)
  out : ∀ requestId, s.pendingRequests.lookup requestId = (pending requestId).map fun node => ⟨node,0,{},false,false⟩

theorem strangerId_toNat (small : j ≤ 2^32) : (stranger j).nodeId.toNat = j+1 := by
  have wide : j+1 < 2^128 := by omega
  exact Nat.mod_eq_of_lt wide

theorem stranger_ne {i : Nat} (lt : i < j) (small : j ≤ 2^32) : (stranger i).nodeId ≠ (stranger j).nodeId := by
  intro same
  have left := strangerId_toNat (lt.le.trans small)
  have right := strangerId_toNat small
  rw [same] at left
  omega

theorem drift_states {e : ShortlistEntry} (member : e ∈ drift k) :
    ∃ j ≤ k, e = strangerEntry (if j = 0 then .inFlight else .failed) j := by
  obtain ⟨j,bound,rfl⟩ := mem_map.1 member
  exact ⟨j,by rw [mem_range] at bound; omega,rfl⟩

theorem drift_succ : drift (k+1) = drift k++[strangerEntry .failed (k+1)] := by
  unfold drift
  rw [range_succ,map_append]
  rfl

theorem drift_sorted (small : k < 2^32) {state : NodeState} :
    sortByKey ShortlistEntry.distance (drift k++[strangerEntry state (k+1)]) =
      drift k++[strangerEntry state (k+1)] := by
  have ordered {i j : Nat} (le : i ≤ j) (bound : j ≤ 2^32) : (BitVec.ofNat 128 (i+1)) ≤ BitVec.ofNat 128 (j+1) := by
    have left := strangerId_toNat (le.trans bound)
    have right := strangerId_toNat bound
    simp only [stranger] at left right
    rw [BitVec.le_def]
    omega
  refine List.Pairwise.insertionSort_eq ?_
  rw [pairwise_append]
  refine ⟨?_,pairwise_singleton ..,fun a before b last => ?_⟩
  · rw [drift,pairwise_map]
    refine pairwise_lt_range.imp_of_mem fun _ right lt => ordered lt.le ?_
    rw [mem_range] at right
    omega
  obtain ⟨j,bound,rfl⟩ := drift_states before
  rw [mem_singleton.1 last]
  exact ordered (by omega) (by omega)

section Laps
variable {s : IterativeSearch} {entries : List ShortlistEntry} {asked sent k : Nat}
  {pending : UInt32 → Option EmberNodeId}

theorem Adrift.released (adrift : s.Adrift entries asked sent pending) : s.releaseParkedPage = s.toWalk := by
  rw [releaseParkedPage,if_pos (.inr (.inr adrift.parked))]

theorem Adrift.seed (adrift : s.Adrift (drift k) (k+1) sent pending) (small : k < 2^32) :
    (s.step mute (.seedExtraContacts [stranger (k+1)])).1.Adrift (drift k++[strangerEntry .pending (k+1)]) (k+1) sent
      pending := by
  have other : (stranger (k+1)).nodeId ≠ s.target := by
    intro same
    have id := strangerId_toNat (j := k+1) (by omega)
    rw [same,adrift.target] at id
    simp at id
  have unknown : s.knows (stranger (k+1)).nodeId = false := by
    rw [knows,adrift.shortlist,any_eq_false]
    intro e member
    obtain ⟨j,bound,rfl⟩ := drift_states member
    rw [decide_eq_true_eq]
    exact stranger_ne (by omega) (by omega)
  have fresh : (stranger (k+1)).nodeId ∉ s.queried := fun member => by
    have old := adrift.queried _ member
    rw [strangerId_toNat (by omega)] at old
    omega
  have dialable : (stranger (k+1)).isDialable = true := rfl
  have entry : (s.toWalk.learn (stranger (k+1)) true none).shortlist = drift k++[strangerEntry .pending (k+1)] := by
    simp [learn,adrift.shortlist,adrift.target,strangerEntry,stranger]
  have pinned : pinContacts [stranger (k+1)] 0 s.toWalk = (s.toWalk.learn (stranger (k+1)) true none,1) := by
    simp only [pinContacts,show ¬maxPinnedExtraContacts ≤ 0 by decide,dialable,other,unknown,fresh,Bool.not_true,
      decide_false,Bool.or_false,Bool.false_eq_true,if_false]
  have learned : (s.toWalk.seedExtraContacts [stranger (k+1)]).1 =
      { s.toWalk with shortlist := drift k++[strangerEntry .pending (k+1)] } := by
    rw [← drift_sorted small,← entry]
    exact congrArg (fun state =>
      { state.1 with shortlist := sortByKey ShortlistEntry.distance state.1.shortlist }) pinned
  have same : (s.step mute (.seedExtraContacts [stranger (k+1)])).1 =
      { s with shortlist := drift k++[strangerEntry .pending (k+1)] } := by
    rw [step,learned]
  rw [same]
  exact { adrift with shortlist := rfl }

theorem drift_flying : flying (drift k) = 1 := by
  rw [flying,drift,countP_map,range_succ_eq_map]
  simp [strangerEntry]

theorem Adrift.ask (adrift : s.Adrift (drift k++[strangerEntry .pending (k+1)]) (k+1) sent pending) (small : k < 2^32) :
    (s.step mute .nextToQuery).1.Adrift (drift k++[strangerEntry .inFlight (k+1)]) (k+2) (sent+1)
      (update pending (UInt32.ofNat (sent+1)) (some (stranger (k+1)).nodeId)) := by
  have firsts : ∀ q ∈ s.outstanding, q.isFollowUp = false := by
    intro q member
    obtain ⟨requestId,found⟩ := mem_values.1 member
    rw [adrift.out] at found
    obtain ⟨node,-,rfl⟩ := Option.map_eq_some_iff.1 found
    rfl
  have slots : s.inFlight = 1 := by
    have none kind (follows : ∀ q, kind q = true → q.isFollowUp = true) :
        s.outstanding.countP kind = 0 := countP_eq_zero.2 fun q member is => by
      have follow := follows q is
      rw [firsts q member] at follow
      cases follow
    have pages := none PendingQuery.isPage fun q is => by rw [PendingQuery.isFollowUp,is,Bool.true_or]
    have referrals := none PendingQuery.referral fun q is => by rw [PendingQuery.isFollowUp,is,Bool.or_true]
    rw [inFlight_eq,pages,referrals,adrift.shortlist,flying,countP_append,← flying,drift_flying]
    rfl
  have fresh : s.unasked (strangerEntry .pending (k+1)) = true := by
    refine unasked_iff.2 ⟨rfl,fun member => ?_⟩
    have old := adrift.queried _ member
    rw [show (strangerEntry .pending (k+1)).nodeId = (stranger (k+1)).nodeId from rfl,strangerId_toNat (by omega)] at old
    omega
  have turns canSend near (room : 0 < canSend) :
      (List.range s.shortlist.length).foldl (askEntry canSend false near 0) (s.toWalk,[]) =
        (s.toWalk.ask (k+1) (strangerEntry .pending (k+1)) true,
          [s.toWalk.firstTarget (strangerEntry .pending (k+1)) true]) := by
    have length : s.shortlist.length = k+1+1 := by simp [adrift.shortlist,drift]
    rw [length,range_succ,foldl_append]
    have idle : (List.range (k+1)).foldl (askEntry canSend false near 0) (s.toWalk,[]) = (s.toWalk,[]) := by
      refine List.foldlRecOn (motive := fun state => state = (s.toWalk,[])) _ _ rfl
        fun state same i bound => ?_
      subst same
      rw [mem_range] at bound
      have here : s.shortlist[i]? = some (strangerEntry (if i = 0 then .inFlight else .failed) i) := by
        rw [adrift.shortlist,getElem?_append_left (by simpa [drift] using bound)]
        simp [drift,bound]
      have landed : s.unasked (strangerEntry (if i = 0 then .inFlight else .failed) i) = false := by
        cases i <;> rfl
      simp [askEntry,here,landed]
    have last : s.shortlist[k+1]? = some (strangerEntry .pending (k+1)) := by
      rw [adrift.shortlist]
      simp [drift]
    rw [idle]
    simp [askEntry,last,fresh,room.ne',show (strangerEntry .pending (k+1)).pinned = true from rfl]
  have pages budget : sendPages budget s.pageQueue [] (s.toWalk,[]) = (s.toWalk,[]) := by
    rw [adrift.pages,sendPages,← adrift.pages]
  have referrals : sendReferrals 4 s.referralQueue (s.toWalk,[]) = (s.toWalk,[]) := by
    rw [adrift.referrals,sendReferrals,← adrift.referrals]
  have batch : askShortlist 4 (s.toWalk,[]) = (s.toWalk.ask (k+1) (strangerEntry .pending (k+1)) true,
      [s.toWalk.firstTarget (strangerEntry .pending (k+1)) true]) := by
    simp only [askShortlist,adrift.seeded]
    exact turns 4 _ (by decide)
  have shortlist : s.shortlist.set (k+1) (strangerEntry .inFlight (k+1)) =
      drift k++[strangerEntry .inFlight (k+1)] := by
    rw [adrift.shortlist]
    simp [drift]
  have after : s.nextToQuery.1 = ⟨{ s.toWalk.ask (k+1) (strangerEntry .pending (k+1)) true with
      seedRoundDone := true, pageTurnOwed := s.pageTurnOwed || !s.pageQueue.isEmpty },s.toHarvest⟩ := by
    simp only [nextToQuery,adrift.going,slots,alpha,adrift.released,dispatch,pages,referrals,batch,length_nil,if_false,Nat.not_lt_zero]
    rfl
  rw [show (s.step mute .nextToQuery).1 = s.nextToQuery.1 from rfl,after]
  refine { adrift with shortlist := shortlist, queried := ?_, next := ?_, out := ?_, seeded := rfl }
  · intro node member
    obtain rfl | old := Finset.mem_insert.1 member
    · exact (strangerId_toNat (by omega)).le
    · exact (adrift.queried node old).trans (by omega)
  · change s.nextRequestId+1 = _
    rw [adrift.next,UInt32.ofNat_add (sent+1) 1]
    rfl
  · intro requestId
    change AList.lookup requestId (s.pendingRequests.insert s.nextRequestId _) = _
    rw [adrift.next]
    by_cases same : requestId = UInt32.ofNat (sent+1)
    · subst same
      rw [lookup_insert,update_self]
      rfl
    · rw [lookup_insert_ne same,update_of_ne same]
      exact adrift.out requestId

theorem setState_append {node : EmberNodeId} {state : NodeState}
    (absent : ∀ e ∈ entries, e.nodeId ≠ node) {rest : List ShortlistEntry} :
    setState node state (entries++rest) = entries++setState node state rest := by
  induction entries with
  | nil => rfl
  | cons e entries ih =>
    rw [cons_append,setState,if_neg (absent e (mem_cons_self ..)),
      ih fun e' member => absent e' (mem_cons_of_mem _ member),cons_append]

theorem Adrift.checkComplete (adrift : s.Adrift (drift k) asked sent pending) : s.checkComplete 0 = s := by
  have flying : (s.shortlist.any fun e => e.state = .inFlight) = true := by
    rw [adrift.shortlist,drift,range_succ_eq_map]
    rfl
  have more : s.exhausted = false := by simp [exhausted,flying]
  have room : s.valueBudgetFull = false := by
    rw [adrift.harvest]
    rfl
  have early : ¬searchTimeoutSecs < secsSince 0 0 := by decide
  simp [IterativeSearch.checkComplete,adrift.started,early,adrift.released,more,converged,adrift.kind,
    keywordWalkSettled,adrift.plain,room]

theorem Adrift.fail {requestId : UInt32} (adrift : s.Adrift (drift k++[strangerEntry .inFlight (k+1)]) (k+2) sent pending)
    (small : k < 2^32) (out : pending requestId = some (stranger (k+1)).nodeId) :
    (s.step mute (.markFailedWith 0 requestId .notSent)).1.Adrift (drift (k+1)) (k+2) sent
      (update pending requestId none) := by
  have found : s.pendingRequests.lookup requestId = some ⟨(stranger (k+1)).nodeId,0,{},false,false⟩ := by
    rw [adrift.out,out]
    rfl
  have failed : s.toWalk.failFirst requestId (stranger (k+1)).nodeId .notSent = { s.toWalk with
      pendingRequests := s.pendingRequests.erase requestId
      shortlist := setState (stranger (k+1)).nodeId .failed s.shortlist } := by
    simp [failFirst]
  have shortlist : setState (stranger (k+1)).nodeId .failed s.shortlist = drift (k+1) := by
    rw [adrift.shortlist,drift_succ,setState_append]
    · simp [setState,strangerEntry,ShortlistEntry.nodeId]
    intro e member
    obtain ⟨j,bound,rfl⟩ := drift_states member
    exact stranger_ne (by omega) (by omega)
  have lost : Adrift ⟨s.toWalk.failFirst requestId (stranger (k+1)).nodeId .notSent,s.toHarvest⟩ (drift (k+1)) (k+2) sent
      (update pending requestId none) := by
    rw [failed]
    refine { adrift with shortlist := shortlist, out := fun requestId' => ?_ }
    by_cases same : requestId' = requestId
    · subst same
      rw [lookup_erase,update_self]
      rfl
    · rw [lookup_erase_ne same,update_of_ne same]
      exact adrift.out requestId'
  have after : (s.step mute (.markFailedWith 0 requestId .notSent)).1 =
      IterativeSearch.checkComplete ⟨s.toWalk.failFirst requestId (stranger (k+1)).nodeId .notSent,s.toHarvest⟩ 0 := by
    simp [step,markFailedWith,found,PendingQuery.isFollowUp,PendingQuery.isPage]
  rw [after,lost.checkComplete]
  exact lost

end Laps
variable {n : Nat} {crypto : Crypto} {s : IterativeSearch}

def onlyFirst (requestId : UInt32) : Option EmberNodeId := if requestId = 1 then some (stranger 0).nodeId else none

theorem adrift_start : ((new .findValue 0 [stranger 0] 0).step mute .nextToQuery).1.Adrift (drift 0) 1 1 onlyFirst := by
  have asked : ((new .findValue 0 [stranger 0] 0).step mute .nextToQuery).1.queried = {(stranger 0).nodeId} := by
    decide +kernel
  have table : ((new .findValue 0 [stranger 0] 0).step mute .nextToQuery).1.pendingRequests =
      AList.insert 1 ⟨(stranger 0).nodeId,0,{},false,false⟩ ∅ := AList.ext (by decide +kernel)
  refine ⟨?_,?_,?_,?_,?_,?_,?_,?_,?_,?_,?_,?_,?_,?_⟩
  case refine_12 =>
    intro node member
    rw [asked,Finset.mem_singleton] at member
    rw [member]
    decide
  case refine_14 =>
    intro requestId
    rw [table]
    by_cases same : requestId = 1
    · subst same
      rw [lookup_insert]
      rfl
    · rw [lookup_insert_ne same,onlyFirst,if_neg same]
      rfl
  all_goals first | decide +kernel | rfl

theorem run_append {ops ops' : List SearchOp} :
    (s.run crypto (ops++ops')).1 = ((s.run crypto ops).1.run crypto ops').1 := by
  induction ops generalizing s with
  | nil => rfl
  | cons op ops ih => rw [cons_append,run_cons,ih,run_cons]

theorem adrift_laps (start : s.Adrift (drift 0) 1 1 onlyFirst) (small : k < 2^32) :
    (s.run mute ((List.range k).flatMap lap)).1.Adrift (drift k) (k+1) (k+1) onlyFirst := by
  induction k with
  | zero => exact start
  | succ k ih =>
    have before := ih (by omega)
    rw [range_succ,flatMap_append,run_append,flatMap_singleton,lap]
    have lost := ((before.seed (by omega)).ask (by omega)).fail (by omega)
      (update_self (UInt32.ofNat (k+2)) ..)
    have other : UInt32.ofNat (k+2) ≠ 1 := by
      intro same
      have equal := congrArg UInt32.toNat same
      change (k+2)%2^32 = 1 at equal
      omega
    have restored : update (update onlyFirst (UInt32.ofNat (k+1+1)) (some (stranger (k+1)).nodeId))
        (UInt32.ofNat (k+2)) none = onlyFirst := by
      rw [update_idem]
      exact update_eq_self_iff.2 (if_neg other).symm
    rw [restored] at lost
    exact lost

def lapsAround (n : Nat) : List SearchOp :=
  .nextToQuery :: ((List.range n).flatMap lap++[.seedExtraContacts [stranger (n+1)],.nextToQuery])

theorem adrift_around (small : n < 2^32) :
    ((new .findValue 0 [stranger 0] 0).run mute (lapsAround n)).1.Adrift (drift n++[strangerEntry .inFlight (n+1)]) (n+2)
      (n+2) (update onlyFirst (UInt32.ofNat (n+2)) (some (stranger (n+1)).nodeId)) := by
  rw [lapsAround,run_cons,run_append,run_cons,run_cons]
  exact ((adrift_laps adrift_start small).seed small).ask small

theorem first_query_taken (small : n < 2^32) (wrapped : UInt32.ofNat (n+2) = 1) :
    ¬((new .findValue 0 [stranger 0] 0).run mute (lapsAround n)).1.firstQueries.Perm
      ((new .findValue 0 [stranger 0] 0).run mute (lapsAround n)).1.inFlightEntries := by
  have last := adrift_around small
  generalize ((new .findValue 0 [stranger 0] 0).run mute (lapsAround n)).1 = s at last
  intro pairs
  have flying : (stranger 0).nodeId ∈ s.inFlightEntries := by
    rw [inFlightEntries,last.shortlist,drift,range_succ_eq_map]
    exact mem_cons_self ..
  obtain ⟨q,out,-,same⟩ := mem_firstQueries.1 (pairs.mem_iff.2 flying)
  obtain ⟨requestId,found⟩ := mem_values.1 out
  rw [last.out,wrapped] at found
  obtain ⟨node,held,rfl⟩ := Option.map_eq_some_iff.1 found
  by_cases one : requestId = 1
  · subst one
    have taken : (stranger 0).nodeId = (stranger (n+1)).nodeId := same.symm.trans (Option.some.inj held).symm
    exact stranger_ne (by omega) (by omega) taken
  · rw [update_of_ne one,onlyFirst,if_neg one] at held
    cases held

/-- Request ids wrap, so a long enough life loses a first query. -/
theorem first_query_lost : ¬((new .findValue 0 [stranger 0] 0).run mute (lapsAround 0xffffffff)).1.firstQueries.Perm
    ((new .findValue 0 [stranger 0] 0).run mute (lapsAround 0xffffffff)).1.inFlightEntries :=
  first_query_taken (by decide) (by decide)

end IterativeSearch
end Ember.Dht
