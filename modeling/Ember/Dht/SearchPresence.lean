import Ember.Dht.SearchShortlist

/-! A node the search waits for is on its shortlist, whatever contacts it began with, so the block a
node answers from is known when its records are taken. -/
namespace Ember.Dht
open Table List
variable {e : ShortlistEntry} {node : EmberNodeId} {entries : List ShortlistEntry} {state : NodeState}

theorem map_set_same {α β : Type} {f : α → β} {l : List α} {i : Nat} {a b : α} (found : l[i]? = some a)
    (same : f b = f a) : (l.set i b).map f = l.map f := by
  refine ext_getElem? fun j => ?_
  rw [map_set,getElem?_set,same]
  split
  · rename_i here
    subst here
    obtain ⟨bound,-⟩ := List.getElem?_eq_some_iff.1 found
    rw [if_pos (by rwa [length_map]),getElem?_map,found]
    rfl
  · rfl

theorem mem_setState (member : e ∈ entries) (other : e.nodeId ≠ node) : e ∈ setState node state entries := by
  induction entries with
  | nil => cases member
  | cons head rest ih =>
    unfold setState
    split
    · rename_i mine
      refine mem_cons_of_mem _ ((mem_cons.1 member).resolve_left fun same => ?_)
      exact other (same ▸ mine)
    obtain rfl | later := mem_cons.1 member
    · exact mem_cons_self ..
    · exact mem_cons_of_mem _ (ih later)

theorem setState_mem (member : e ∈ setState node state entries) : e ∈ entries ∨ e.nodeId = node ∧ e.state = state := by
  induction entries with
  | nil => cases member
  | cons head rest ih =>
    unfold setState at member
    split at member
    · rename_i mine
      obtain rfl | later := mem_cons.1 member
      · exact .inr ⟨mine,rfl⟩
      · exact .inl (mem_cons_of_mem _ later)
    obtain rfl | later := mem_cons.1 member
    · exact .inl (mem_cons_self ..)
    · exact (ih later).imp (mem_cons_of_mem _) id

namespace Walk

structure Answered (w : Walk) (node : EmberNodeId) : Prop where
  queried : node ∈ w.queried
  quiet : ∀ q ∈ w.outstanding, q.isFollowUp = false → q.node ≠ node

structure Present (w : Walk) : Prop where
  firsts : ∀ q ∈ w.outstanding, q.isFollowUp = false → ∃ e ∈ w.shortlist, e.nodeId = q.node ∧ e.state = .inFlight
  pages : ∀ node ∈ w.owedPageNodes, node ∈ w.shortlist.map ShortlistEntry.nodeId
  landed : ∀ e ∈ w.shortlist, e.state = .responded → w.Answered e.nodeId
  referrals : ∀ q ∈ w.outstanding, q.referral = true → w.Answered q.node

variable {w : Walk}

theorem Present.listed (present : w.Present) {q : PendingQuery} (out : q ∈ w.outstanding)
    (value : q.referral = false) : q.node ∈ w.shortlist.map ShortlistEntry.nodeId := by
  cases page : q.isPage with
  | true => exact present.pages q.node (w.owed_out out page)
  | false =>
    obtain ⟨e,member,same,-⟩ := present.firsts q out (by simp [PendingQuery.isFollowUp,page,value])
    exact mem_map.2 ⟨e,member,same⟩

variable {asked : PendingQuery} {requestId : UInt32}

theorem Present.settled (present : w.Present) (conv : w.Conversing)
    (out : w.Awaits requestId asked) :
    asked.node ∈ w.queried ∧ ∀ q ∈ (w.withdraw requestId).outstanding, q.isFollowUp = false → q.node ≠ asked.node := by
  have member : asked ∈ w.outstanding := mem_values.2 ⟨requestId,out⟩
  cases value : asked.referral with
  | true =>
    have answered := present.referrals asked member value
    exact ⟨answered.queried,fun q left => answered.quiet q (w.withdraw_outstanding left)⟩
  | false =>
    have alone := (conv.asked_alone out value).1
    refine ⟨?_,fun q left first => alone q left (referral_of_first first)⟩
    have single := conv.single asked.node
    have open_ := value_pos member value rfl
    by_contra unknown
    rw [if_neg unknown] at single
    unfold conversations at single
    omega

theorem Present.followUp {w' : Walk} (present : w.Present) (shortlist : w'.shortlist = w.shortlist)
    (queried : w'.queried = w.queried) (out : ∀ q ∈ w'.outstanding, q ∈ w.outstanding ∨
      q.isFollowUp = true ∧ (q.referral = true → w.Answered q.node))
    (owed : ∀ node ∈ w'.owedPageNodes, node ∈ w.shortlist.map ShortlistEntry.nodeId) : w'.Present := by
  have old {q : PendingQuery} member (first : q.isFollowUp = false) : q ∈ w.outstanding :=
    (out q member).resolve_right fun ⟨follow,_⟩ => by rw [first] at follow; cases follow
  have still {node : EmberNodeId} (answered : w.Answered node) : w'.Answered node :=
    ⟨queried ▸ answered.queried,fun q member first => answered.quiet q (old member first) first⟩
  refine ⟨fun q member first => ?_,fun node member => ?_,fun e member landed => ?_,fun q member referral => ?_⟩
  · rw [shortlist]
    exact present.firsts q (old member first) first
  · rw [shortlist]
    exact owed node member
  · exact still (present.landed e (shortlist ▸ member) landed)
  · obtain before | ⟨-,answered⟩ := out q member
    · exact still (present.referrals q before referral)
    · exact still (answered referral)

theorem Present.reassign {w' : Walk} (present : w.Present) (conv : w.Conversing)
    (out : w.Awaits requestId asked)
    (shortlist : w'.shortlist = setState asked.node state w.shortlist)
    (outstanding : w'.outstanding = (w.withdraw requestId).outstanding)
    (others : ∀ node, node ≠ asked.node → node ∈ w.queried → node ∈ w'.queried)
    (mine : w'.queried = w.queried ∨ asked.isFollowUp = false ∧ state ≠ .responded)
    (owed : ∀ node ∈ w'.owedPageNodes, node ∈ w.shortlist.map ShortlistEntry.nodeId) : w'.Present := by
  have member : asked ∈ w.outstanding := mem_values.2 ⟨requestId,out⟩
  obtain ⟨known,alone⟩ := present.settled conv out
  have left {q : PendingQuery} (out : q ∈ w'.outstanding) : q ∈ w.outstanding :=
    w.withdraw_outstanding (outstanding ▸ out)
  have still {node : EmberNodeId} (answered : w.Answered node) : w'.Answered node := by
    refine ⟨?_,fun q out => answered.quiet q (left out)⟩
    obtain same | ⟨first,-⟩ := mine
    · exact same ▸ answered.queried
    · exact others node (answered.quiet asked member first).symm answered.queried
  refine ⟨fun q out first => ?_,fun node member => ?_,fun e listed landed => ?_,fun q out referral => ?_⟩
  · obtain ⟨e,listed,same,flying⟩ := present.firsts q (left out) first
    have other := alone q (outstanding ▸ out) first
    exact ⟨e,shortlist ▸ mem_setState listed (same ▸ other),same,flying⟩
  · rw [shortlist,setState_nodeIds]
    exact owed node member
  · obtain before | ⟨same,is⟩ := setState_mem (shortlist ▸ listed)
    · exact still (present.landed e before landed)
    obtain kept | ⟨-,absurd⟩ := mine
    · exact ⟨same ▸ kept ▸ known,fun q out => same ▸ alone q (outstanding ▸ out)⟩
    · exact (absurd (is.symm.trans landed)).elim
  · exact still (present.referrals q (left out) referral)

theorem Present.ask (present : w.Present) (conv : w.Conversing) {i : Nat} {entry : ShortlistEntry}
    {narrow : Bool} (found : w.shortlist[i]? = some entry) (fresh : w.unasked entry = true)
    (owed : ∀ node ∈ (w.ask i entry narrow).owedPageNodes, node ∈ w.shortlist.map ShortlistEntry.nodeId) :
    (w.ask i entry narrow).Present := by
  have unqueried := (unasked_iff.1 fresh).2
  obtain ⟨bound,-⟩ := List.getElem?_eq_some_iff.1 found
  have shortlist : (w.ask i entry narrow).shortlist = w.shortlist.set i { entry with state := .inFlight } := rfl
  have kept {e : ShortlistEntry} (member : e ∈ w.shortlist) (other : e.nodeId ≠ entry.nodeId) :
      e ∈ (w.ask i entry narrow).shortlist := by
    obtain ⟨j,there⟩ := mem_iff_getElem?.1 member
    refine mem_iff_getElem?.2 ⟨j,?_⟩
    rw [shortlist,getElem?_set_ne,there]
    rintro rfl
    exact other (congrArg ShortlistEntry.nodeId (Option.some.inj (there.symm.trans found)))
  have still {node : EmberNodeId} (answered : w.Answered node) : (w.ask i entry narrow).Answered node := by
    refine ⟨Finset.mem_insert_of_mem answered.queried,fun q out first => ?_⟩
    obtain rfl | old := mem_register out
    · rintro rfl
      exact unqueried answered.queried
    · exact answered.quiet q old first
  refine ⟨fun q out first => ?_,fun node member => ?_,fun e listed landed => ?_,fun q out referral => ?_⟩
  · obtain rfl | old := mem_register out
    · exact ⟨{ entry with state := .inFlight },mem_set bound _,rfl,rfl⟩
    have before : q ∈ w.outstanding := old
    obtain ⟨e,listed,same,flying⟩ := present.firsts q before first
    refine ⟨e,kept listed fun mine => ?_,same,flying⟩
    have single := conv.single q.node
    have open_ := value_pos before (referral_of_first first) rfl
    rw [if_neg fun known => unqueried (mine ▸ same ▸ known)] at single
    unfold conversations at single
    omega
  · have ids : (w.ask i entry narrow).shortlist.map ShortlistEntry.nodeId = w.shortlist.map ShortlistEntry.nodeId := by
      exact map_set_same found rfl
    rw [ids]
    exact owed node member
  · obtain before | rfl := mem_or_eq_of_mem_set listed
    · exact still (present.landed e before landed)
    · cases landed
  · obtain rfl | old := mem_register out
    · cases referral
    · exact still (present.referrals q old referral)

theorem Present.relisted (present : w.Present)
    (firsts : ∀ e ∈ w.shortlist, e.state = .inFlight → ∃ e' ∈ entries, standing e' = standing e)
    (owed : ∀ node ∈ w.owedPageNodes, node ∈ entries.map ShortlistEntry.nodeId)
    (landed : ∀ e ∈ entries, e.state = .responded → ∃ e' ∈ w.shortlist, standing e' = standing e) :
    { w with shortlist := entries }.Present := by
  have still {node : EmberNodeId} (answered : w.Answered node) : { w with shortlist := entries }.Answered node :=
    { answered with }
  refine ⟨fun q out first => ?_,owed,fun e listed responded => ?_,fun q out referral => ?_⟩
  · obtain ⟨e,listed,own,flying⟩ := present.firsts q out first
    obtain ⟨e',listed',known⟩ := firsts e listed flying
    obtain ⟨id,state⟩ := Prod.mk.inj known
    exact ⟨e',listed',id.trans own,state.trans flying⟩
  · obtain ⟨e',listed',known⟩ := landed e listed responded
    obtain ⟨id,state⟩ := Prod.mk.inj known
    exact still (id ▸ present.landed e' listed' (state.trans responded))
  · exact still (present.referrals q out referral)

section
variable {w w' : Walk} {sent : List QueryTarget}

theorem Present.move (present : w.Present) (conv : w.Conversing) (move : Move w sent w') : w'.Present := by
  have owed : ∀ node ∈ w'.owedPageNodes, node ∈ w.shortlist.map ShortlistEntry.nodeId := by
    intro node member
    obtain before | ⟨⟨asked,out,value,rfl⟩,-⟩ := move.owed member
    · exact present.pages node before
    · exact present.listed out value
  cases move with
  | ask narrow found fresh => exact present.ask conv found fresh owed
  | @page due rest contact queue known =>
    have start := conv.starts due (.inl (queue ▸ mem_cons_self ..))
    refine present.followUp rfl rfl (fun q out => ?_) owed
    obtain rfl | old := mem_register out
    · exact .inr ⟨by simp [PendingQuery.isFollowUp,PendingQuery.isPage,start],fun no => by cases no⟩
    · exact .inl old
  | @refer rest entry queue found state =>
    refine present.followUp rfl rfl (fun q out => ?_) owed
    obtain rfl | old := mem_register out
    · exact .inr ⟨rfl,fun _ => present.landed entry found state⟩
    · exact .inl old
  | settle out | earn out | park _ out =>
    exact present.reassign conv out rfl rfl (fun node _ => id) (.inl rfl) owed
  | @retry requestId asked out first left =>
    exact present.reassign conv out rfl rfl (fun node other known => Finset.mem_erase.2 ⟨other,known⟩)
      (.inr ⟨first,fun no => by cases no⟩) owed
  | @giveUp requestId asked out first =>
    exact present.reassign conv out rfl rfl (fun node _ => id) (.inl rfl) owed
  | drop | requeue =>
    exact present.followUp rfl rfl (fun q out => .inl (w.withdraw_outstanding out)) owed
  | rotate | unpark | letGo | passBy | queueReferral | note =>
    exact present.followUp rfl rfl (fun q out => .inl out) owed
  | @learn contact pinned referrer fresh unknown =>
    refine present.relisted (fun e listed _ => ⟨e,mem_append_left _ listed,rfl⟩) (fun node member => ?_)
      fun e listed landed => ?_
    · exact map_subset _ (subset_append_left ..) (owed node member)
    obtain before | added := mem_append.1 listed
    · exact ⟨e,before,rfl⟩
    · rw [mem_singleton.1 added] at landed
      cases landed
  | @relist entries same =>
    refine present.relisted (fun e listed _ => mem_map.1 (same.subset (mem_map_of_mem listed)))
      (fun node member => ?_) fun e listed _ => mem_map.1 (same.symm.subset (mem_map_of_mem listed))
    rw [nodeIds_eq] at owed ⊢
    exact (same.map Prod.fst).subset (owed node member)
  | @trim entries part kept =>
    refine present.relisted (fun e listed flying => ⟨e,kept e listed (.inl flying),rfl⟩) (fun node member => ?_)
      fun e listed _ => ⟨e,part.subset listed,rfl⟩
    obtain ⟨e,listed,own⟩ := mem_map.1 (owed node member)
    exact mem_map.2 ⟨e,kept e listed (.inr (own ▸ member)),own⟩

theorem Move.aim (move : Move w sent w') : w'.target = w.target ∧ w'.searchType = w.searchType := by
  cases move with
  | _ => exact ⟨rfl,rfl⟩

theorem Path.aim (path : Path Move w sent w') : w'.target = w.target ∧ w'.searchType = w.searchType :=
  Path.keeps (P := fun _ v => v.target = w.target ∧ v.searchType = w.searchType)
    (fun _ _ _ _ kept move => ⟨move.aim.1.trans kept.1,move.aim.2.trans kept.2⟩) path [] ⟨rfl,rfl⟩

end

end Walk

namespace IterativeSearch
open Walk

theorem run_present (crypto : Crypto) (searchType : SearchType) (target : EmberNodeId) (contacts : List EmberContact)
    (now : Instant) (ops : List SearchOp) :
    let s := ((new searchType target contacts now).run crypto ops).1
    s.Conversing ∧ s.Present := by
  have path := (new searchType target contacts now).run_path crypto ops
  refine Path.keeps (P := fun _ w => Walk.Conversing w ∧ w.Present)
    (fun past w batch w' kept move => ⟨kept.1.move move,kept.2.move kept.1 move⟩) path []
    ⟨(new_traffic searchType target contacts now).1,?_,?_,?_,?_⟩
  · exact fun q member => absurd member not_mem_nil
  · exact fun node member => absurd member not_mem_nil
  · intro e member landed
    obtain ⟨c,-,rfl⟩ := mem_map.1 ((perm_insertionSort ..).subset (mem_of_mem_take member))
    cases landed
  · exact fun q member => absurd member not_mem_nil

theorem one_conversation (crypto : Crypto) (searchType : SearchType) (target : EmberNodeId) (contacts : List EmberContact)
    (now : Instant) (ops : List SearchOp) (node : EmberNodeId) :
    ((new searchType target contacts now).run crypto ops).1.conversations node ≤ 1 :=
  ((run_present crypto searchType target contacts now ops).1.single node).trans (by split <;> decide)

end IterativeSearch
end Ember.Dht
