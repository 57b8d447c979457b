import Ember.Dht.SearchTraffic

/-! The shortlist and the requests out agree. Every first query out has its in-flight entry, a node
owed a page is listed as having answered, and an entry is pending exactly while its node may be
asked. -/
namespace Ember.Dht.Walk
open Table List AList

variable (node : EmberNodeId) (state : NodeState) {entries : List ShortlistEntry} {w w' : Walk} {count : Nat} {requestId : UInt32}
variable {sent : List QueryTarget} {asked : PendingQuery} {entry : ShortlistEntry} {node' : EmberNodeId}

def stateIn (entries : List ShortlistEntry) (node : EmberNodeId) : Option NodeState :=
  (entries.find? fun e => e.nodeId = node).map ShortlistEntry.state

theorem stateIn_cons {rest : List ShortlistEntry} {node : EmberNodeId} :
    stateIn (entry :: rest) node = if entry.nodeId = node then some entry.state else stateIn rest node := by
  unfold stateIn
  by_cases same : entry.nodeId = node
  · simp [same]
  · simp [same]

theorem stateIn_isSome {node : EmberNodeId} :
    (stateIn entries node).isSome ↔ node ∈ entries.map ShortlistEntry.nodeId := by
  simp [stateIn]

theorem mem_standing (distinct : (entries.map ShortlistEntry.nodeId).Nodup) {node : EmberNodeId} {state : NodeState} :
    (node,state) ∈ entries.map standing ↔ stateIn entries node = some state := by
  induction entries with
  | nil => simp [stateIn]
  | cons entry rest ih =>
    rw [map_cons,nodup_cons] at distinct
    rw [map_cons,mem_cons,ih distinct.2,stateIn_cons]
    by_cases same : entry.nodeId = node
    · subst same
      have absent : stateIn rest entry.nodeId = none := by
        rw [← Option.not_isSome_iff_eq_none,stateIn_isSome]
        exact distinct.1
      simp [standing,absent,eq_comm]
    · simp [standing,same,Ne.symm same]

theorem stateIn_setState {node : EmberNodeId} {state : NodeState} : stateIn (setState node state entries) node' =
      if node' = node then (stateIn entries node').map fun _ => state else stateIn entries node' := by
  induction entries with
  | nil => simp [setState,stateIn]
  | cons entry rest ih =>
    unfold setState
    split
    · rename_i mine
      subst mine
      rw [stateIn_cons,stateIn_cons]
      by_cases same : node' = entry.nodeId
      · subst same
        simp [ShortlistEntry.nodeId]
      · have moved : ({ entry with state := state } : ShortlistEntry).nodeId = entry.nodeId := rfl
        rw [if_neg same,moved,if_neg (Ne.symm same),if_neg (Ne.symm same)]
    · rename_i other
      rw [stateIn_cons,stateIn_cons,ih]
      by_cases same : node' = node
      · subst same
        simp [other]
      · simp [same]

theorem set_eq_setState (distinct : (entries.map ShortlistEntry.nodeId).Nodup)
    {i : Nat} (listed : entries[i]? = some entry) {state : NodeState} :
    entries.set i { entry with state := state } = setState entry.nodeId state entries := by
  induction entries generalizing i with
  | nil => cases listed
  | cons head rest ih =>
    rw [map_cons,nodup_cons] at distinct
    cases i with
    | zero =>
      obtain rfl : head = entry := by simpa using listed
      simp [setState]
    | succ i =>
      have later : rest[i]? = some entry := by simpa using listed
      have other : head.nodeId ≠ entry.nodeId := fun same =>
        distinct.1 (same ▸ mem_map_of_mem (mem_of_getElem? later))
      simp [setState,other,ih distinct.2 later]

theorem setState_nodeIds :
    (setState node state entries).map ShortlistEntry.nodeId = entries.map ShortlistEntry.nodeId := by
  induction entries with
  | nil => rfl
  | cons entry rest ih =>
    unfold setState
    split
    · rfl
    · simp [ih]

theorem stateIn_concat {node : EmberNodeId} : stateIn (entries++[entry]) node =
      (stateIn entries node).or (if entry.nodeId = node then some entry.state else none) := by
  simp only [stateIn,find?_append,Option.map_or]
  congr 1
  rw [← stateIn,stateIn_cons]
  rfl

theorem nodeIds_eq : entries.map ShortlistEntry.nodeId = (entries.map standing).map Prod.fst := by
  rw [map_map]
  rfl

section
variable {entries entries' : List ShortlistEntry} (distinct : (entries.map ShortlistEntry.nodeId).Nodup)
include distinct

theorem stateIn_perm (same : (entries.map standing).Perm (entries'.map standing)) :
    (entries'.map ShortlistEntry.nodeId).Nodup ∧ ∀ node, stateIn entries' node = stateIn entries node := by
  have distinct' : (entries'.map ShortlistEntry.nodeId).Nodup := by
    rw [nodeIds_eq,← (same.map Prod.fst).nodup_iff,← nodeIds_eq]
    exact distinct
  refine ⟨distinct',fun node => ?_⟩
  ext state
  rw [← mem_standing distinct',← mem_standing distinct,same.mem_iff]

theorem stateIn_sublist (part : entries'.Sublist entries) {node : EmberNodeId} {state : NodeState}
    (found : stateIn entries' node = some state) : stateIn entries node = some state := by
  have distinct' : (entries'.map ShortlistEntry.nodeId).Nodup := distinct.sublist (part.map _)
  exact (mem_standing distinct).1 ((part.map standing).subset ((mem_standing distinct').2 found))

end

def flying (entries : List ShortlistEntry) : Nat := entries.countP fun e => e.state = .inFlight

theorem flying_setState_le (entries : List ShortlistEntry) :
    flying (setState node state entries) ≤ flying entries+if state = .inFlight then 1 else 0 := by
  induction entries with
  | nil => simp [setState]
  | cons entry rest ih =>
    unfold setState
    split
    · simp only [flying,countP_cons,decide_eq_true_eq]
      omega
    · simp only [flying,countP_cons] at ih ⊢
      omega

structure Listed (w : Walk) : Prop where
  distinct : (w.shortlist.map ShortlistEntry.nodeId).Nodup
  fresh : ∀ node, stateIn w.shortlist node = some .pending → node ∉ w.queried
  known : ∀ node state, stateIn w.shortlist node = some state → state ≠ .pending → node ∈ w.queried
  firsts : ∀ q ∈ w.outstanding, q.isFollowUp = false → stateIn w.shortlist q.node = some .inFlight
  pages : ∀ node ∈ w.owedPageNodes, stateIn w.shortlist node = some .responded
  referrals : ∀ q ∈ w.outstanding, q.referral = true →
    q.node ∈ w.queried ∧ ∀ state, stateIn w.shortlist q.node = some state → state = .responded

theorem mem_owedPageNodes {node : EmberNodeId} : node ∈ w.owedPageNodes ↔
    (∃ p ∈ w.pageQueue, p.node = node) ∨ (∃ p ∈ w.parkedPages, p.node = node) ∨
      ∃ q ∈ w.outstanding, q.isPage = true ∧ q.node = node := by
  simp [owedPageNodes,and_assoc]

section
variable (w : Walk) {p : OwedPage}

theorem owed_queue (member : p ∈ w.pageQueue) : p.node ∈ w.owedPageNodes :=
  mem_owedPageNodes.2 (.inl ⟨p,member,rfl⟩)

theorem owed_parked (member : p ∈ w.parkedPages) : p.node ∈ w.owedPageNodes :=
  mem_owedPageNodes.2 (.inr (.inl ⟨p,member,rfl⟩))

theorem owed_out {q : PendingQuery} (member : q ∈ w.outstanding) (page : q.isPage = true) : q.node ∈ w.owedPageNodes :=
  mem_owedPageNodes.2 (.inr (.inr ⟨q,member,page,rfl⟩))

end

@[elab_as_elim]
theorem owed_cases {node : EmberNodeId} {motive : EmberNodeId → Prop} (owed : node ∈ w.owedPageNodes)
    (queue : ∀ p ∈ w.pageQueue, motive p.node) (parked : ∀ p ∈ w.parkedPages, motive p.node)
    (out : ∀ q ∈ w.outstanding, q.isPage = true → motive q.node) : motive node := by
  obtain ⟨p,member,rfl⟩ | ⟨p,member,rfl⟩ | ⟨q,member,page,rfl⟩ := mem_owedPageNodes.1 owed
  · exact queue p member
  · exact parked p member
  · exact out q member page

theorem owedPageNodes_mono {node : EmberNodeId} (owed : node ∈ w'.owedPageNodes)
    (queue : w'.pageQueue ⊆ w.pageQueue) (parked : w'.parkedPages ⊆ w.parkedPages)
    (out : w'.outstanding ⊆ w.outstanding) : node ∈ w.owedPageNodes :=
  owed_cases owed (fun _ member => w.owed_queue (queue member)) (fun _ member => w.owed_parked (parked member))
    fun _ member page => w.owed_out (out member) page

theorem Move.owed (move : Move w sent w') {node : EmberNodeId} (owed : node ∈ w'.owedPageNodes) :
    node ∈ w.owedPageNodes ∨ (∃ asked ∈ w.outstanding, asked.referral = false ∧ asked.node = node) ∧
      w'.shortlist = setState node .responded w.shortlist := by
  cases move with
  | ask | refer =>
    refine .inl (owed_cases owed (fun _ => w.owed_queue) (fun _ => w.owed_parked) fun q out page => ?_)
    obtain rfl | old := mem_register out
    · cases page
    · exact w.owed_out old page
  | @page due rest contact queue known =>
    refine .inl (owed_cases owed (fun _ left => w.owed_queue (queue ▸ mem_cons_of_mem due left)) (fun _ => w.owed_parked)
      fun q out page => ?_)
    obtain rfl | old := mem_register out
    · exact w.owed_queue (queue ▸ mem_cons_self ..)
    · exact w.owed_out old page
  | @earn requestId asked page out value owner =>
    refine owed_cases owed (fun p queued => ?_) (fun _ parked => .inl (w.owed_parked parked))
      fun _ left page => .inl (w.owed_out (w.withdraw_outstanding left) page)
    obtain old | rfl := mem_concat_pages queued
    · exact .inl (w.owed_queue old)
    · exact .inr ⟨⟨asked,mem_values.2 ⟨requestId,out⟩,value,owner.symm⟩,owner ▸ rfl⟩
  | @park requestId asked start resume out value =>
    refine owed_cases owed (fun _ queued => .inl (w.owed_queue queued)) (fun p parked => ?_)
      fun _ left page => .inl (w.owed_out (w.withdraw_outstanding left) page)
    obtain old | rfl := mem_concat_pages parked
    · exact .inl (w.owed_parked old)
    · exact .inr ⟨⟨asked,mem_values.2 ⟨requestId,out⟩,value,rfl⟩,rfl⟩
  | @requeue requestId asked out page =>
    refine .inl (owed_cases owed (fun p queued => ?_) (fun _ => w.owed_parked)
      fun _ left => w.owed_out (w.withdraw_outstanding left))
    obtain old | rfl := mem_concat_pages queued
    · exact w.owed_queue old
    · exact w.owed_out (mem_values.2 ⟨requestId,out⟩) page
  | @unpark parked rest backed queue =>
    refine .inl (owed_cases owed (fun p queued => ?_)
      (fun p waiting => w.owed_parked (queue ▸ mem_cons_of_mem parked waiting)) fun _ => w.owed_out)
    obtain old | rfl := mem_concat_pages queued
    · exact w.owed_queue old
    · exact @owed_parked w parked (queue ▸ mem_cons_self ..)
  | rotate same => exact .inl (owedPageNodes_mono owed same.symm.subset (fun _ => id) (fun _ => id))
  | letGo part => exact .inl (owedPageNodes_mono owed (fun _ => id) part.subset (fun _ => id))
  | settle | retry | giveUp | drop =>
    exact .inl (owedPageNodes_mono owed (fun _ => id) (fun _ => id) w.withdraw_outstanding)
  | passBy | queueReferral | learn | relist | trim | note => exact .inl owed

def OwedBy (w w' : Walk) : Prop :=
  ∀ node ∈ w'.owedPageNodes, node ∈ w.owedPageNodes ∨ stateIn w'.shortlist node = some .responded

theorem Listed.keep (listed : w.Listed) (shortlist : w'.shortlist = w.shortlist) (queried : w'.queried = w.queried)
    (firsts : ∀ q ∈ w'.outstanding, q.isFollowUp = false → q ∈ w.outstanding)
    (referrals : ∀ q ∈ w'.outstanding, q.referral = true → q ∈ w.outstanding ∨ stateIn w.shortlist q.node = some .responded)
    (owed : OwedBy w w') : w'.Listed where
  distinct := shortlist ▸ listed.distinct
  fresh := by rw [shortlist,queried]; exact listed.fresh
  known := by rw [shortlist,queried]; exact listed.known
  firsts q member first := by rw [shortlist]; exact listed.firsts q (firsts q member first) first
  pages node member := (owed node member).elim (fun old => shortlist ▸ listed.pages node old) id
  referrals q member referral := by
    rw [shortlist,queried]
    obtain old | state := referrals q member referral
    · exact listed.referrals q old referral
    · exact ⟨listed.known _ _ state (by decide),fun state' same => Option.some.inj (same.symm.trans state)⟩

theorem Listed.shrink (listed : w.Listed) (shortlist : w'.shortlist = w.shortlist)
    (queried : w'.queried = w.queried) (out : w'.outstanding ⊆ w.outstanding) (owed : OwedBy w w') : w'.Listed :=
  listed.keep shortlist queried (fun _ member _ => out member) (fun _ member _ => .inl (out member)) owed

theorem Listed.reassign (listed : w.Listed) {node : EmberNodeId} {state : NodeState}
    (shortlist : w'.shortlist = setState node state w.shortlist)
    (others : ∀ other, other ≠ node → (other ∈ w'.queried ↔ other ∈ w.queried))
    (mine : (stateIn w.shortlist node).isSome → (state = .pending → node ∉ w'.queried) ∧
      (state ≠ .pending → node ∈ w'.queried)) (firsts : ∀ q ∈ w'.outstanding, q.isFollowUp = false →
      q.node = node ∧ state = .inFlight ∧ (stateIn w.shortlist node).isSome ∨ q.node ≠ node ∧ q ∈ w.outstanding)
    (pages : ∀ owed ∈ w'.owedPageNodes, stateIn w'.shortlist owed = some .responded ∨ owed ≠ node ∧ owed ∈ w.owedPageNodes)
    (referrals : ∀ q ∈ w'.outstanding, q.referral = true →
      q.node = node ∧ state = .responded ∧ node ∈ w'.queried ∨ q.node ≠ node ∧ q ∈ w.outstanding) : w'.Listed := by
  have same other (differs : other ≠ node) :
      stateIn w'.shortlist other = stateIn w.shortlist other := by
    rw [shortlist,stateIn_setState,if_neg differs]
  have own : stateIn w'.shortlist node = (stateIn w.shortlist node).map fun _ => state := by
    rw [shortlist,stateIn_setState,if_pos rfl]
  have given (is : (stateIn w.shortlist node).isSome) : stateIn w'.shortlist node = some state := by
    obtain ⟨old,found⟩ := Option.isSome_iff_exists.1 is
    rw [own,found]
    rfl
  have only {state' : NodeState} (found : stateIn w'.shortlist node = some state') :
      (stateIn w.shortlist node).isSome ∧ state' = state := by
    rw [own] at found
    obtain ⟨old,before,rfl⟩ := Option.map_eq_some_iff.1 found
    exact ⟨by rw [before]; rfl,rfl⟩
  refine ⟨?_,?_,?_,?_,?_,?_⟩
  · rw [shortlist,setState_nodeIds]
    exact listed.distinct
  · intro other pending
    by_cases differs : other = node
    · subst differs
      obtain ⟨is,rfl⟩ := only pending
      exact (mine is).1 rfl
    · rw [same other differs] at pending
      exact fun member => listed.fresh other pending ((others other differs).1 member)
  · intro other state' found asked
    by_cases differs : other = node
    · subst differs
      obtain ⟨is,rfl⟩ := only found
      exact (mine is).2 asked
    · rw [same other differs] at found
      exact (others other differs).2 (listed.known other state' found asked)
  · intro q member first
    obtain ⟨rfl,rfl,is⟩ | ⟨differs,old⟩ := firsts q member first
    · exact given is
    · rw [same _ differs]
      exact listed.firsts q old first
  · intro owed member
    obtain new | ⟨differs,old⟩ := pages owed member
    · exact new
    · rw [same _ differs]
      exact listed.pages owed old
  · intro q member referral
    obtain ⟨rfl,rfl,queried⟩ | ⟨differs,old⟩ := referrals q member referral
    · exact ⟨queried,fun state' found => (only found).2⟩
    · rw [same _ differs,others _ differs]
      exact listed.referrals q old referral

theorem Conversing.asked_alone (conv : w.Conversing)
    (out : w.Awaits requestId asked) (value : asked.referral = false) :
    (∀ q ∈ (w.withdraw requestId).outstanding, q.referral = false → q.node ≠ asked.node) ∧
      (∀ p ∈ w.pageQueue, p.node ≠ asked.node) ∧ ∀ p ∈ w.parkedPages, p.node ≠ asked.node := by
  have single := conv.le_one asked.node
  rw [w.withdraw_conversations out] at single
  simp only [value,true_and,if_true] at single
  have none : (w.withdraw requestId).conversations asked.node = 0 := by omega
  simp only [conversations,Nat.add_eq_zero_iff,countP_eq_zero] at none
  refine ⟨fun q member value' same => ?_,fun p member same => ?_,fun p member same => ?_⟩
  · exact none.2 q member (by simp [value',same])
  · exact none.1.1 p member (decide_eq_true same)
  · exact none.1.2 p member (decide_eq_true same)

theorem Listed.listed (listed : w.Listed) {q : PendingQuery} (out : q ∈ w.outstanding) (value : q.referral = false) :
    (stateIn w.shortlist q.node).isSome := by
  cases page : q.isPage with
  | true => rw [listed.pages _ (w.owed_out out page)]; rfl
  | false => rw [listed.firsts q out (by simp [PendingQuery.isFollowUp,page,value])]; rfl

section
variable (listed : w.Listed) {i : Nat} {entry : ShortlistEntry} {asked : PendingQuery}
include listed

theorem Listed.queried_of_out {q : PendingQuery} (out : q ∈ w.outstanding) : q.node ∈ w.queried := by
  by_cases referral : q.referral = true
  · exact (listed.referrals q out referral).1
  by_cases page : q.isPage = true
  · exact listed.known _ _ (listed.pages _ (w.owed_out out page)) (by decide)
  · exact listed.known _ _ (listed.firsts q out (by simp [PendingQuery.isFollowUp,referral,page])) (by decide)

theorem Listed.stateIn_of_mem (found : entry ∈ w.shortlist) : stateIn w.shortlist entry.nodeId = some entry.state :=
  (mem_standing listed.distinct).1 (mem_map_of_mem (f := standing) found)

theorem Listed.ask {narrow : Bool} (found : w.shortlist[i]? = some entry) (fresh : w.unasked entry = true)
    (owed : ∀ node ∈ (w.ask i entry narrow).owedPageNodes, node ∈ w.owedPageNodes ∨
      stateIn (w.ask i entry narrow).shortlist node = some .responded) : (w.ask i entry narrow).Listed := by
  obtain ⟨pending,unqueried⟩ := unasked_iff.1 fresh
  have state := listed.stateIn_of_mem (mem_of_getElem? found)
  rw [pending] at state
  have is : (stateIn w.shortlist entry.nodeId).isSome := by rw [state]; rfl
  refine listed.reassign (set_eq_setState listed.distinct found)
    (fun other differs => ?_) (fun _ => ⟨nofun,fun _ => Finset.mem_insert_self ..⟩)
    (fun q out first => ?_) (fun node member => ?_) fun q out referral => ?_
  · exact Finset.mem_insert.trans ⟨fun either => either.resolve_left differs,.inr⟩
  · obtain rfl | old := mem_register out
    · exact .inl ⟨rfl,rfl,is⟩
    refine .inr ⟨fun same => ?_,old⟩
    have flying := listed.firsts q old first
    rw [same,state] at flying
    cases flying
  · refine (owed node member).symm.imp id fun old => ⟨fun same => ?_,old⟩
    have responded := listed.pages node old
    rw [same,state] at responded
    cases responded
  · obtain rfl | old := mem_register out
    · cases referral
    · exact .inr ⟨fun same => unqueried (same ▸ listed.queried_of_out old),old⟩

theorem Listed.answered (conv : w.Conversing) (out : w.Awaits requestId asked)
    (shortlist : w'.shortlist = setState asked.node .responded w.shortlist) (queried : w'.queried = w.queried)
    (outstanding : w'.outstanding = (w.withdraw requestId).outstanding) (owed : OwedBy w w') : w'.Listed := by
  have member : asked ∈ w.outstanding := mem_values.2 ⟨requestId,out⟩
  have known := listed.queried_of_out member
  refine listed.reassign shortlist (fun other _ => by rw [queried])
    (fun _ => ⟨nofun,fun _ => queried ▸ known⟩) (fun q left first => ?_) (fun node open_ => ?_)
    fun q left referral => ?_
  · rw [outstanding] at left
    have old := w.withdraw_outstanding left
    refine .inr ⟨fun same => ?_,old⟩
    by_cases value : asked.referral = false
    · exact (conv.asked_alone out value).1 q left (referral_of_first first) same
    have flying := listed.firsts q old first
    rw [same] at flying
    have answered := (listed.referrals asked member (by simpa using value)).2 _ flying
    cases answered
  · obtain old | new := owed node open_
    · by_cases same : node = asked.node
      · rw [shortlist,stateIn_setState,if_pos same,listed.pages node old]
        exact .inl rfl
      · exact .inr ⟨same,old⟩
    · exact .inl new
  · rw [outstanding] at left
    by_cases same : q.node = asked.node
    · exact .inl ⟨same,rfl,queried ▸ known⟩
    · exact .inr ⟨same,w.withdraw_outstanding left⟩

theorem Listed.failed (conv : w.Conversing) (out : w.Awaits requestId asked) (first : asked.isFollowUp = false)
    {state : NodeState} (shortlist : w'.shortlist = setState asked.node state w.shortlist)
    (others : ∀ other, other ≠ asked.node → (other ∈ w'.queried ↔ other ∈ w.queried))
    (mine : (state = .pending → asked.node ∉ w'.queried) ∧ (state ≠ .pending → asked.node ∈ w'.queried))
    (outstanding : w'.outstanding = (w.withdraw requestId).outstanding) (owed : OwedBy w w') : w'.Listed := by
  have flying := listed.firsts asked (mem_values.2 ⟨requestId,out⟩) first
  have alone := (conv.asked_alone out (referral_of_first first)).1
  refine listed.reassign shortlist others (fun _ => mine) (fun q left first' => ?_)
    (fun node open_ => ?_) fun q left referral => ?_
  · rw [outstanding] at left
    exact .inr ⟨alone q left (referral_of_first first'),w.withdraw_outstanding left⟩
  · refine (owed node open_).symm.imp id fun old => ⟨fun same => ?_,old⟩
    have responded := listed.pages node old
    rw [same,flying] at responded
    cases responded
  · rw [outstanding] at left
    have old := w.withdraw_outstanding left
    refine .inr ⟨fun same => ?_,old⟩
    have answered := (listed.referrals q old referral).2 .inFlight (same ▸ flying)
    cases answered

theorem Listed.learn {contact : EmberContact} {pinned : Bool}
    {referrer : Option EmberNodeId} (fresh : contact.nodeId ∉ w.queried)
    (unknown : ∀ e ∈ w.shortlist, e.nodeId ≠ contact.nodeId) : (w.learn contact pinned referrer).Listed := by
  have absent : stateIn w.shortlist contact.nodeId = none := by
    rw [← Option.not_isSome_iff_eq_none,stateIn_isSome,mem_map]
    rintro ⟨e,member,same⟩
    exact unknown e member same
  have grown node : stateIn (w.learn contact pinned referrer).shortlist node =
      (stateIn w.shortlist node).or (if contact.nodeId = node then some .pending else none) := stateIn_concat ..
  have kept {node : EmberNodeId} {state : NodeState} (found : stateIn w.shortlist node = some state) :
      stateIn (w.learn contact pinned referrer).shortlist node = some state := by rw [grown,found,Option.some_or]
  have old {node : EmberNodeId} (other : contact.nodeId ≠ node) :
      stateIn (w.learn contact pinned referrer).shortlist node = stateIn w.shortlist node := by
    rw [grown,if_neg other,Option.or_none]
  refine ⟨?_,fun node pending => ?_,fun node state found asked => ?_,fun q out first => kept (listed.firsts q out first),
    fun node owed => kept (listed.pages node owed),fun q out referral => ?_⟩
  · have apart : contact.nodeId ∉ w.shortlist.map ShortlistEntry.nodeId := by
      rw [← stateIn_isSome,absent]
      simp
    simp only [Walk.learn,map_append]
    refine nodup_append.2 ⟨listed.distinct,nodup_singleton _,fun a member b new same => ?_⟩
    have mine : b = contact.nodeId := mem_singleton.1 new
    rw [same,mine] at member
    exact apart member
  · by_cases mine : contact.nodeId = node
    · exact mine ▸ fresh
    · exact listed.fresh node (old mine ▸ pending)
  · by_cases mine : contact.nodeId = node
    · rw [grown,← mine,absent,if_pos rfl] at found
      exact absurd (Option.some.inj found).symm asked
    · exact listed.known node state (old mine ▸ found) asked
  · obtain ⟨queried,answered⟩ := listed.referrals q out referral
    have other : contact.nodeId ≠ q.node := fun same => fresh (same ▸ queried)
    exact ⟨queried,fun state found => answered state (old other ▸ found)⟩

theorem Listed.reread
    (distinct : (entries.map ShortlistEntry.nodeId).Nodup)
    (before : ∀ node state, stateIn entries node = some state → stateIn w.shortlist node = some state)
    (after : ∀ node state, stateIn w.shortlist node = some state → state = .inFlight ∨ node ∈ w.owedPageNodes →
      stateIn entries node = some state) : { w with shortlist := entries }.Listed := by
  refine ⟨distinct,?_,?_,?_,?_,?_⟩
  · exact fun node pending => listed.fresh node (before _ _ pending)
  · exact fun node state found => listed.known node state (before _ _ found)
  · exact fun q out first => after _ _ (listed.firsts q out first) (.inl rfl)
  · exact fun node owed => after _ _ (listed.pages node owed) (.inr owed)
  · exact fun q out referral => (listed.referrals q out referral).imp id
      fun answered state found => answered state (before _ _ found)

theorem Listed.trim (part : entries.Sublist w.shortlist)
    (kept : ∀ e ∈ w.shortlist, e.state = .inFlight ∨ e.nodeId ∈ w.owedPageNodes → e ∈ entries) :
    { w with shortlist := entries }.Listed := by
  have distinct : (entries.map ShortlistEntry.nodeId).Nodup := listed.distinct.sublist (part.map _)
  refine listed.reread distinct (fun node state => stateIn_sublist listed.distinct part) fun node state found needed => ?_
  obtain ⟨e,member,same⟩ := mem_map.1 ((mem_standing listed.distinct).2 found)
  obtain ⟨rfl,rfl⟩ := Prod.mk.inj same
  exact (mem_standing distinct).1 (mem_map_of_mem (f := standing) (kept e member needed))

theorem Listed.move (conv : w.Conversing) (move : Move w sent w') : w'.Listed := by
  have owed : OwedBy w w' := by
    intro node member
    refine (move.owed member).imp id fun ⟨⟨asked,out,value,own⟩,shortlist⟩ => ?_
    obtain ⟨state,known⟩ := Option.isSome_iff_exists.1 (own ▸ listed.listed out value)
    rw [shortlist,stateIn_setState,if_pos rfl,known]
    rfl
  cases move with
  | ask narrow found fresh => exact listed.ask found fresh owed
  | @page due rest contact queue known =>
    have start := conv.starts due (.inl (queue ▸ mem_cons_self ..))
    refine listed.keep rfl rfl (fun q out first => ?_) (fun q out referral => .inl ?_) owed
    · refine (mem_register out).resolve_left fun new => ?_
      simp [new,PendingQuery.isFollowUp,PendingQuery.isPage,start] at first
    · refine (mem_register out).resolve_left fun new => ?_
      simp [new] at referral
  | @refer rest entry queue found state =>
    refine listed.keep rfl rfl (fun q out first => ?_) (fun q out _ => (mem_register out).symm.imp id ?_) owed
    · exact (mem_register out).resolve_left fun new => by rw [new] at first; cases first
    rintro rfl
    rw [← state]
    exact listed.stateIn_of_mem found
  | settle out | earn out | park _ out => exact listed.answered conv out rfl rfl rfl owed
  | retry out first left =>
    exact listed.failed conv out first rfl
      (fun other differs => Finset.mem_erase.trans ⟨And.right,fun member => ⟨differs,member⟩⟩)
      ⟨fun _ => Finset.notMem_erase _ _,fun absurd => (absurd rfl).elim⟩ rfl owed
  | giveUp out first =>
    have known := listed.queried_of_out (mem_values.2 ⟨_,out⟩)
    exact listed.failed conv out first rfl (fun other _ => Iff.rfl) ⟨nofun,fun _ => known⟩ rfl owed
  | drop | requeue => exact listed.shrink rfl rfl w.withdraw_outstanding owed
  | learn pinned referrer fresh unknown => exact listed.learn fresh unknown
  | relist same =>
    obtain ⟨distinct,equal⟩ := stateIn_perm listed.distinct same
    exact listed.reread distinct (fun node _ found => equal node ▸ found) fun node _ found _ => (equal node).trans found
  | trim part kept => exact listed.trim part kept
  | rotate | unpark | letGo | passBy | queueReferral | note => exact listed.shrink rfl rfl (List.Subset.refl _) owed

end

theorem inFlight_eq (w : Walk) : w.inFlight = flying w.shortlist+w.outstanding.countP PendingQuery.isPage+
    w.outstanding.countP PendingQuery.referral := by
  simp only [inFlight,flying,pagesInFlight,referralsInFlight,countP_eq_length_filter]

theorem flying_standing : flying entries = (entries.map standing).countP fun known => known.2 = .inFlight := by
  rw [countP_map]
  rfl

theorem withdraw_inFlight_le (entries : flying w'.shortlist ≤ flying w.shortlist)
    (outstanding : w'.outstanding = (w.withdraw requestId).outstanding) : w'.inFlight ≤ w.inFlight := by
  have fewer p : (w.withdraw requestId).outstanding.countP p ≤ w.outstanding.countP p :=
    (values_erase_sublist ..).countP_le
  have pages := fewer PendingQuery.isPage
  have referrals := fewer PendingQuery.referral
  rw [inFlight_eq,inFlight_eq,outstanding]
  omega

theorem register_inFlight_le (query : PendingQuery) {first page referral : Nat}
    (entries : flying w'.shortlist ≤ flying w.shortlist+first)
    (outstanding : w'.outstanding = (w.register query).outstanding)
    (isPage : (if query.isPage then 1 else 0) = page) (isReferral : (if query.referral then 1 else 0) = referral) :
    w'.inFlight ≤ w.inFlight+(first+page+referral) := by
  have pages := register_countP_le w query PendingQuery.isPage
  have referrals := register_countP_le w query PendingQuery.referral
  rw [inFlight_eq,inFlight_eq,outstanding]
  omega

theorem Move.inFlight_le (move : Move w sent w') (listed : w.Listed) : w'.inFlight ≤ w.inFlight+sent.length := by
  cases move with
  | @ask i entry narrow found fresh =>
    have entries := flying_setState_le entry.nodeId .inFlight w.shortlist
    rw [← set_eq_setState listed.distinct found] at entries
    have slot : (w.ask i entry narrow).inFlight ≤ w.inFlight+(1+0+0) :=
      register_inFlight_le ⟨entry.nodeId,0,{},false,false⟩ entries rfl rfl rfl
    exact slot
  | @page owed rest contact queue known =>
    have slot : w.inFlight+(0+(if PendingQuery.isPage ⟨owed.node,owed.start,owed.resumeAfter,owed.backed,false⟩ then 1
        else 0)+0) ≤ w.inFlight+1 := by
      split <;> omega
    exact (register_inFlight_le _ le_rfl rfl rfl rfl).trans slot
  | @refer rest entry queue found state =>
    exact register_inFlight_le (w := w) ⟨entry.nodeId,0,{},false,true⟩ le_rfl rfl rfl rfl
  | settle | earn | park => exact withdraw_inFlight_le (flying_setState_le _ .responded w.shortlist) rfl
  | retry => exact withdraw_inFlight_le (flying_setState_le _ .pending w.shortlist) rfl
  | giveUp => exact withdraw_inFlight_le (flying_setState_le _ .failed w.shortlist) rfl
  | drop | requeue => exact withdraw_inFlight_le (w := w) le_rfl rfl
  | learn pinned referrer fresh unknown =>
    rw [inFlight_eq,inFlight_eq]
    simp [Walk.learn,flying,outstanding]
  | @relist entries same =>
    rw [inFlight_eq,inFlight_eq,flying_standing,flying_standing,same.countP_eq]
    exact le_rfl
  | @trim entries part kept =>
    have fewer : flying entries ≤ flying w.shortlist := part.countP_le
    rw [inFlight_eq,inFlight_eq]
    simp only [outstanding]
    omega
  | rotate | passBy | unpark | letGo | queueReferral | note => exact le_rfl

/-- Request ids count up from one and wrap at 2³². Until they come round no request is lost, so every
entry in flight has its first query out. -/
structure Tracked (w : Walk) (count : Nat) : Prop where
  next : w.nextRequestId = UInt32.ofNat (count+1)
  used : ∀ requestId asked, w.pendingRequests.lookup requestId = some asked →
    ∃ i, 1 ≤ i ∧ i ≤ count ∧ requestId = UInt32.ofNat i
  flying : ∀ node, stateIn w.shortlist node = some .inFlight →
    ∃ q ∈ w.outstanding, q.isFollowUp = false ∧ q.node = node

theorem Tracked.fresh (tracked : w.Tracked count) (few : count < 2^32) :
    w.pendingRequests.lookup w.nextRequestId = none := by
  rw [Option.eq_none_iff_forall_ne_some]
  intro asked out
  obtain ⟨i,positive,small,same⟩ := tracked.used _ asked out
  have equal := congrArg UInt32.toNat (tracked.next.symm.trans same)
  rw [UInt32.toNat_ofNat',UInt32.toNat_ofNat'] at equal
  omega

theorem Tracked.register (tracked : w.Tracked count) (few : count < 2^32)
    {query : PendingQuery} (next : w'.nextRequestId = w.nextRequestId+1)
    (pending : w'.pendingRequests = w.pendingRequests.insert w.nextRequestId query)
    (flying : ∀ node, stateIn w'.shortlist node = some .inFlight →
      query.isFollowUp = false ∧ query.node = node ∨ stateIn w.shortlist node = some .inFlight) :
    w'.Tracked (count+1) where
  next := by
    rw [next,tracked.next]
    exact (UInt32.ofNat_add (count+1) 1).symm
  used requestId asked out := by
    rw [pending] at out
    by_cases same : requestId = w.nextRequestId
    · exact ⟨count+1,by omega,le_rfl,same.trans tracked.next⟩
    rw [lookup_insert_ne same] at out
    obtain ⟨i,positive,small,id⟩ := tracked.used requestId asked out
    exact ⟨i,positive,by omega,id⟩
  flying node state := by
    have kept q (out : q ∈ w.outstanding) : q ∈ w'.outstanding := by
      obtain ⟨requestId,found⟩ := mem_values.1 out
      refine mem_values.2 ⟨requestId,?_⟩
      rw [pending,lookup_insert_ne]
      · exact found
      rintro rfl
      rw [tracked.fresh few] at found
      cases found
    obtain ⟨first,mine⟩ | old := flying node state
    · exact ⟨query,mem_values.2 ⟨w.nextRequestId,by simp [pending]⟩,first,mine⟩
    · obtain ⟨q,out,first,mine⟩ := tracked.flying node old
      exact ⟨q,kept q out,first,mine⟩

theorem Tracked.withdraw (tracked : w.Tracked count) (out : w.Awaits requestId asked)
    (next : w'.nextRequestId = w.nextRequestId) (pending : w'.pendingRequests = w.pendingRequests.erase requestId)
    (flying : ∀ node, stateIn w'.shortlist node = some .inFlight →
      stateIn w.shortlist node = some .inFlight ∧ (asked.isFollowUp = false → node ≠ asked.node)) :
    w'.Tracked count where
  next := next.trans tracked.next
  used requestId' asked' out' := by
    refine tracked.used requestId' asked' ?_
    rw [pending] at out'
    exact lookup_of_erase _ out'
  flying node state := by
    obtain ⟨old,other⟩ := flying node state
    obtain ⟨q,member,first,mine⟩ := tracked.flying node old
    have apart : q ≠ asked := by
      rintro rfl
      exact other first mine.symm
    have left := (values_perm w.pendingRequests out).mem_iff.1 member
    refine ⟨q,?_,first,mine⟩
    change q ∈ values w'.pendingRequests
    rw [pending]
    exact (mem_cons.1 left).resolve_left apart

private theorem flying_landed {node : EmberNodeId} {state : NodeState}
    (landed : state ≠ .inFlight) (found : stateIn (setState node state entries) node' = some .inFlight) :
    stateIn entries node' = some .inFlight ∧ node' ≠ node := by
  rw [stateIn_setState] at found
  split at found
  · obtain ⟨_,_,same⟩ := Option.map_eq_some_iff.1 found
    exact absurd same landed
  · exact ⟨found,‹_›⟩

theorem Tracked.move (tracked : w.Tracked count)
    (listed : w.Listed) (few : count+sent.length ≤ 2^32) (move : Move w sent w') : w'.Tracked (count+sent.length) := by
  cases move with
  | @ask i entry narrow found fresh =>
    refine tracked.register few rfl rfl fun node state => ?_
    have shortlist : (w.ask i entry narrow).shortlist = setState entry.nodeId .inFlight w.shortlist :=
      set_eq_setState listed.distinct found
    rw [shortlist,stateIn_setState] at state
    split at state
    · rename_i mine
      exact .inl ⟨rfl,mine.symm⟩
    · exact .inr state
  | @page owed rest contact queue known =>
    exact tracked.register few rfl rfl fun _ => .inr
  | @refer rest entry queue found state =>
    exact tracked.register few rfl rfl fun _ => .inr
  | settle out | earn out | park _ out | retry out | giveUp out =>
    exact tracked.withdraw out rfl rfl fun _ found => (flying_landed (by decide) found).imp id fun other _ => other
  | drop out follow =>
    exact tracked.withdraw out rfl rfl fun _ found => ⟨found,fun first => by rw [follow] at first; cases first⟩
  | requeue out page =>
    exact tracked.withdraw out rfl rfl fun _ found => ⟨found,fun first => by simp [PendingQuery.isFollowUp,page] at first⟩
  | learn pinned referrer fresh unknown =>
    refine ⟨tracked.next,tracked.used,fun node found => tracked.flying node ?_⟩
    rw [Walk.learn,stateIn_concat] at found
    cases before : stateIn w.shortlist node with
    | none =>
      rw [before] at found
      split at found <;> cases found
    | some state => rwa [before] at found
  | relist same =>
    have equal := (stateIn_perm listed.distinct same).2
    exact ⟨tracked.next,tracked.used,fun node found => tracked.flying node (equal node ▸ found)⟩
  | trim part kept =>
    exact ⟨tracked.next,tracked.used,fun node found => tracked.flying node (stateIn_sublist listed.distinct part found)⟩
  | rotate | passBy | unpark | letGo | queueReferral | note => exact { tracked with }

end Ember.Dht.Walk
