import Ember.Dht.SearchMoves
import Ember.Dht.SearchBudget

/-! How much traffic one node draws. A node has at most one conversation with a search at a time:
its first query, or one page queued, parked or out. Everything sent to it is paid for by a
counter with a ceiling. -/
namespace Ember.Dht
open Table List

namespace QueryTarget
variable (query : QueryTarget)

def isPage : Bool := 0 < query.startPosition

def isReferral : Bool := query.findNode

def isFirst : Bool := !query.isPage && !query.isReferral

end QueryTarget

variable (kind : QueryTarget → Bool) (node : EmberNodeId)

def sentTo (kind : QueryTarget → Bool) (node : EmberNodeId) (sent : List QueryTarget) : Nat :=
  sent.countP fun query => kind query && query.contact.nodeId = node

theorem sentTo_append {sent sent' : List QueryTarget} :
    sentTo kind node (sent++sent') = sentTo kind node sent+sentTo kind node sent' := countP_append

theorem sentTo_singleton {query : QueryTarget} :
    sentTo kind node [query] = if kind query && query.contact.nodeId = node then 1 else 0 := by
  simp [sentTo]

namespace Walk

variable {pages : List OwedPage} {w : Walk} {sent : List QueryTarget} {entry : ShortlistEntry}

variable {requestId : UInt32} {asked : PendingQuery} {query q : PendingQuery} {contact : EmberContact} {w' : Walk} {p owed : OwedPage}
variable {rest : List OwedPage}

/-- Exchanges open with a node: pages owed or out to it, and its first query. -/
def conversations (w : Walk) (node : EmberNodeId) : Nat :=
  w.pageQueue.countP (fun p => p.node = node)+w.parkedPages.countP (fun p => p.node = node)+
    w.outstanding.countP fun q => !q.referral && q.node = node

structure Conversing (w : Walk) : Prop where
  single : ∀ node, w.conversations node ≤ if node ∈ w.queried then 1 else 0
  starts : ∀ p, p ∈ w.pageQueue ∨ p ∈ w.parkedPages → 0 < p.start
  kinds : ∀ q ∈ w.outstanding, q.isPage = true → q.referral = false

theorem mem_register (out : q ∈ (w.register query).outstanding) : q = query ∨ q ∈ w.outstanding := by
  have split : q ∈ query :: values (w.pendingRequests.erase w.nextRequestId) := by
    exact out
  exact (mem_cons.1 split).imp id ((values_erase_sublist ..).subset ·)

theorem register_countP_le (w : Walk) (query : PendingQuery) (p : PendingQuery → Bool) :
    (w.register query).outstanding.countP p ≤ w.outstanding.countP p+if p query then 1 else 0 := by
  rw [outstanding,register,values_insert,countP_cons]
  exact Nat.add_le_add_right (values_erase_sublist ..).countP_le _

theorem withdraw_outstanding (w : Walk) : (w.withdraw requestId).outstanding ⊆ w.outstanding :=
  (values_erase_sublist ..).subset

theorem withdraw_countP (w : Walk) (out : w.Awaits requestId asked) (p : PendingQuery → Bool) :
    w.outstanding.countP p = (w.withdraw requestId).outstanding.countP p+if p asked then 1 else 0 := by
  rw [outstanding,(values_perm _ out).countP_eq,countP_cons]
  rfl

theorem contactOf_nodeId {node : EmberNodeId} (known : w.contactOf node = some contact) : contact.nodeId = node := by
  obtain ⟨entry,found,rfl⟩ := Option.map_eq_some_iff.1 known
  have holds := find?_some found
  exact of_decide_eq_true holds

theorem unasked_iff : w.unasked entry = true ↔ entry.state = .pending ∧ entry.nodeId ∉ w.queried := by
  simp [unasked]

theorem Conversing.shrink (conv : w.Conversing) (queried : w'.queried = w.queried)
    (fewer : ∀ node, w'.conversations node ≤ w.conversations node)
    (pages : ∀ p, p ∈ w'.pageQueue ∨ p ∈ w'.parkedPages → 0 < p.start)
    (out : ∀ q ∈ w'.outstanding, q.isPage = true → q.referral = false) : w'.Conversing where
  single node := queried ▸ (fewer node).trans (conv.single node)
  starts := pages
  kinds := out

theorem register_conversations_le {node : EmberNodeId} : (w.register query).conversations node ≤
      w.conversations node+if query.referral = false ∧ query.node = node then 1 else 0 := by
  have grown := w.register_countP_le query fun q => !q.referral && q.node = node
  simp only [Bool.and_eq_true,Bool.not_eq_true',decide_eq_true_eq] at grown
  have queue : (w.register query).pageQueue = w.pageQueue := rfl
  have parked : (w.register query).parkedPages = w.parkedPages := rfl
  rw [conversations,conversations,queue,parked]
  omega

theorem withdraw_conversations (w : Walk) (out : w.Awaits requestId asked) (node : EmberNodeId) :
    w.conversations node =
      (w.withdraw requestId).conversations node+if asked.referral = false ∧ asked.node = node then 1 else 0 := by
  have shrunk := w.withdraw_countP out fun q => !q.referral && q.node = node
  simp only [Bool.and_eq_true,Bool.not_eq_true',decide_eq_true_eq] at shrunk
  have queue : (w.withdraw requestId).pageQueue = w.pageQueue := rfl
  have parked : (w.withdraw requestId).parkedPages = w.parkedPages := rfl
  rw [conversations,conversations,queue,parked]
  omega

theorem queue_conversations (w : Walk) (page : OwedPage) (node : EmberNodeId) :
    { w with pageQueue := w.pageQueue++[page] }.conversations node =
      w.conversations node+if page.node = node then 1 else 0 := by
  simp only [conversations,countP_append,countP_singleton,decide_eq_true_eq]
  exact (congrArg (·+_) (Nat.add_right_comm ..)).trans (Nat.add_right_comm ..)

theorem park_conversations {page : OwedPage} {node : EmberNodeId} :
    { w with parkedPages := w.parkedPages++[page] }.conversations node =
      w.conversations node+if page.node = node then 1 else 0 := by
  simp only [conversations,countP_append,countP_singleton,decide_eq_true_eq]
  exact (congrArg (·+_) (Nat.add_assoc ..).symm).trans (Nat.add_right_comm ..)

theorem mem_concat_pages {page : OwedPage} (member : p ∈ pages++[page]) : p ∈ pages ∨ p = page := by
  simpa using member

theorem referral_of_first (first : asked.isFollowUp = false) : asked.referral = false :=
  (Bool.or_eq_false_iff.1 first).2

theorem Conversing.starts_queue (conv : w.Conversing) {page : OwedPage} (start : 0 < page.start) (p : OwedPage)
    (member : p ∈ w.pageQueue++[page] ∨ p ∈ w.parkedPages) : 0 < p.start := by
  obtain queued | parked := member
  · obtain old | rfl := mem_concat_pages queued
    · exact conv.starts p (.inl old)
    · exact start
  · exact conv.starts p (.inr parked)

theorem Conversing.kinds_register (conv : w.Conversing) (kind : query.isPage = true → query.referral = false) :
    ∀ q ∈ (w.register query).outstanding, q.isPage = true → q.referral = false := by
  intro q out page
  obtain rfl | old := mem_register out
  · exact kind page
  · exact conv.kinds q old page

theorem Conversing.kinds_withdraw (conv : w.Conversing) :
    ∀ q ∈ (w.withdraw requestId).outstanding, q.isPage = true → q.referral = false :=
  fun q left => conv.kinds q (w.withdraw_outstanding left)

theorem Conversing.move (conv : w.Conversing) (move : Move w sent w') : w'.Conversing := by
  have queues := conv.starts
  cases move with
  | @ask i entry narrow listed fresh =>
    have opened node : (w.ask i entry narrow).conversations node ≤
        w.conversations node+if entry.nodeId = node then 1 else 0 := by
      refine register_conversations_le.trans_eq ?_
      simp only [true_and]
      rfl
    refine ⟨fun node => ?_,queues,conv.kinds_register fun _ => rfl⟩
    have grown := opened node
    have before := conv.single node
    change _ ≤ if node ∈ insert entry.nodeId w.queried then 1 else 0
    by_cases same : entry.nodeId = node
    · subst same
      rw [if_neg (unasked_iff.1 fresh).2] at before
      rw [if_pos (Finset.mem_insert_self ..)]
      simp only [if_true] at grown
      omega
    rw [if_neg same] at grown
    simp only [Finset.mem_insert,Ne.symm same,false_or]
    omega
  | @page owed rest contact queue known =>
    refine conv.shrink rfl (fun node => ?_) (fun p member => ?_) (conv.kinds_register fun _ => rfl)
    · refine register_conversations_le.trans_eq ?_
      simp only [true_and,conversations,queue,countP_cons,decide_eq_true_eq]
      exact (Nat.add_right_comm ..).trans (congrArg (·+_) (Nat.add_right_comm ..))
    · exact queues p (member.imp (fun member => queue ▸ mem_cons_of_mem owed member) id)
  | @rotate queue same =>
    refine conv.shrink rfl (fun node => ?_) (fun p member => ?_) conv.kinds
    · simp only [conversations,same.countP_eq]
      exact le_rfl
    · exact queues p (member.imp same.mem_iff.2 id)
  | @refer rest entry queue listed state =>
    refine conv.shrink rfl (fun node => ?_) queues (conv.kinds_register nofun)
    refine register_conversations_le.trans_eq ?_
    rfl
  | settle out | giveUp out | drop out =>
    have settled := w.withdraw_conversations out
    exact conv.shrink rfl (fun node => (settled node).symm ▸ Nat.le_add_right ..) queues conv.kinds_withdraw
  | @earn requestId asked page out value owner start room =>
    refine conv.shrink rfl (fun node => ?_) (conv.starts_queue start) conv.kinds_withdraw
    rw [w.withdraw_conversations out node]
    simp only [value,true_and,← owner]
    exact (queue_conversations (w.withdraw requestId) page node).le
  | @park requestId asked start resume out value positive =>
    refine conv.shrink rfl (fun node => ?_) (fun p member => ?_) conv.kinds_withdraw
    · rw [w.withdraw_conversations out node]
      simp only [value,true_and]
      exact park_conversations.le
    obtain queued | parked := member
    · exact queues p (.inl queued)
    obtain old | rfl := mem_concat_pages parked
    · exact queues p (.inr old)
    · exact positive
  | @retry requestId asked out first left =>
    refine ⟨fun node => ?_,queues,conv.kinds_withdraw⟩
    have settled := w.withdraw_conversations out node
    have before := conv.single node
    have value := referral_of_first first
    change (w.withdraw requestId).conversations node ≤ if node ∈ w.queried.erase asked.node then 1 else 0
    by_cases same : asked.node = node
    · -- the node is free to be asked again: its one conversation is over
      subst same
      simp only [value,true_and,if_true] at settled
      split at before <;> omega
    simp only [Finset.mem_erase,Ne.symm same,ne_eq,not_false_eq_true,true_and]
    omega
  | @requeue requestId asked out page left =>
    have value := conv.kinds asked (mem_values.2 ⟨requestId,out⟩) page
    refine conv.shrink rfl (fun node => ?_) (conv.starts_queue (of_decide_eq_true page)) conv.kinds_withdraw
    rw [w.withdraw_conversations out node]
    simp only [value,true_and]
    exact (queue_conversations (w.withdraw requestId) _ node).le
  | @unpark parked rest backed queue room =>
    refine conv.shrink rfl (fun node => ?_) (fun p member => ?_) conv.kinds
    · refine (queue_conversations { w with parkedPages := rest } _ node).le.trans ?_
      simp only [conversations,outstanding,queue,countP_cons,decide_eq_true_eq]
      omega
    · exact @Conversing.starts_queue w conv { parked with backed } (queues parked (.inr (queue ▸ mem_cons_self ..))) p
        (member.imp id fun waiting => queue ▸ mem_cons_of_mem _ waiting)
  | @letGo rest part =>
    refine conv.shrink rfl (fun node => ?_) (fun p member => ?_) conv.kinds
    · have fewer := part.countP_le (p := fun p => p.node = node)
      simp only [conversations,outstanding]
      omega
    · exact queues p (member.imp id part.mem)
  | passBy | queueReferral | learn | relist | trim | note => exact ⟨conv.single,queues,conv.kinds⟩

/-- The books of everything sent. A page counts once when charged and may be sent twice; `queued`
and `flying` say how many of its sends are to come. -/
structure Traffic (w : Walk) (sent : List QueryTarget) : Prop where
  firsts : ∀ node, sentTo QueryTarget.isFirst node sent = w.attempts.count node
  attempts : ∀ node, w.attempts.count node ≤ maxQueryAttempts
  spent : ∀ node, maxQueryAttempts ≤ w.attempts.count node → node ∈ w.queried
  referrals : ∀ node, sentTo QueryTarget.isReferral node sent+w.referralQueue.count node ≤
    if node ∈ w.referred then 1 else 0
  charged : ∀ node, w.pagesQueued.count node ≤ maxPagesPerNodeExhausted
  paid : ∀ node, sentTo QueryTarget.isPage node sent ≤ maxQueryAttempts*w.pagesQueued.count node
  queued : ∀ p ∈ w.pageQueue, ∀ tries, w.pageAttempts.count (p.node,p.start) = tries →
    sentTo QueryTarget.isPage p.node sent+(maxQueryAttempts-min 1 tries) ≤ maxQueryAttempts*w.pagesQueued.count p.node
  flying : ∀ q ∈ w.outstanding, q.isPage = true → ∀ tries, w.pageAttempts.count (q.node,q.startPosition) = tries →
    0 < tries ∧ sentTo QueryTarget.isPage q.node sent+(maxQueryAttempts-tries) ≤
      maxQueryAttempts*w.pagesQueued.count q.node
  tried : ∀ node start, w.pageAttempts.count (node,start) ≤ sentTo QueryTarget.isPage node sent

theorem Traffic.shrink (traffic : w.Traffic sent)
    (attempts : w'.attempts = w.attempts) (queried : w.queried ⊆ w'.queried)
    (waiting : w'.referralQueue.Sublist w.referralQueue) (referred : w'.referred = w.referred)
    (pagesQueued : w'.pagesQueued = w.pagesQueued) (pageAttempts : w'.pageAttempts = w.pageAttempts)
    (pages : w'.pageQueue ⊆ w.pageQueue) (out : w'.outstanding ⊆ w.outstanding) : w'.Traffic sent where
  firsts := attempts ▸ traffic.firsts
  attempts := attempts ▸ traffic.attempts
  spent node full := queried (traffic.spent node (attempts ▸ full))
  referrals node := by
    rw [referred]
    exact (Nat.add_le_add_left (waiting.count_le node) _).trans (traffic.referrals node)
  charged := pagesQueued ▸ traffic.charged
  paid := pagesQueued ▸ traffic.paid
  queued p member := by
    rw [pagesQueued,pageAttempts]
    exact traffic.queued p (pages member)
  flying q member := by
    rw [pagesQueued,pageAttempts]
    exact traffic.flying q (out member)
  tried := pageAttempts ▸ traffic.tried

private theorem page_pos {node : EmberNodeId} (member : p ∈ pages)
    (same : p.node = node) : 0 < pages.countP fun p => p.node = node :=
  countP_pos_iff.2 ⟨p,member,decide_eq_true same⟩

theorem value_pos {node : EmberNodeId} (member : q ∈ w.outstanding)
    (value : q.referral = false) (same : q.node = node) :
    0 < w.outstanding.countP fun q => !q.referral && q.node = node :=
  countP_pos_iff.2 ⟨q,member,by simp [value,same]⟩

theorem Conversing.le_one (conv : w.Conversing) (node : EmberNodeId) : w.conversations node ≤ 1 :=
  (conv.single node).trans (by split <;> decide)

theorem Conversing.queued_alone (conv : w.Conversing) (queue : w.pageQueue = owed :: rest) :
    (∀ p ∈ rest, p.node ≠ owed.node) ∧ ∀ q ∈ w.outstanding, q.referral = false → q.node ≠ owed.node := by
  have single := conv.le_one owed.node
  simp only [conversations,queue,countP_cons,decide_true,if_true] at single
  constructor
  · intro p member same
    have positive := page_pos member same
    omega
  intro q member value same
  have positive := value_pos member value same
  omega

theorem Conversing.parked_alone {parked : OwedPage} (conv : w.Conversing) (waiting : parked ∈ w.parkedPages) :
    (∀ p ∈ w.pageQueue, p.node ≠ parked.node) ∧ ∀ q ∈ w.outstanding, q.referral = false → q.node ≠ parked.node := by
  have single := conv.le_one parked.node
  have held := page_pos waiting rfl
  unfold conversations at single
  constructor
  · intro p member same
    have positive := page_pos member same
    omega
  intro q member value same
  have positive := value_pos member value same
  omega

section
variable (traffic : w.Traffic sent)
include traffic

theorem Traffic.send {query : QueryTarget} (plain : query.isPage = false)
    (firsts : ∀ node, sentTo QueryTarget.isFirst node (sent++[query]) = w'.attempts.count node)
    (attempts : ∀ node, w'.attempts.count node ≤ maxQueryAttempts)
    (spent : ∀ node, maxQueryAttempts ≤ w'.attempts.count node → node ∈ w'.queried)
    (referrals : ∀ node, sentTo QueryTarget.isReferral node (sent++[query])+w'.referralQueue.count node ≤
      if node ∈ w'.referred then 1 else 0)
    (pagesQueued : w'.pagesQueued = w.pagesQueued) (pageAttempts : w'.pageAttempts = w.pageAttempts)
    (pages : w'.pageQueue = w.pageQueue) (out : ∀ q ∈ w'.outstanding, q.isPage = true → q ∈ w.outstanding) :
    w'.Traffic (sent++[query]) := by
  have page node : sentTo QueryTarget.isPage node (sent++[query]) = sentTo QueryTarget.isPage node sent := by
    rw [sentTo_append,sentTo_singleton,plain]
    rfl
  refine ⟨firsts,attempts,spent,referrals,pagesQueued ▸ traffic.charged,fun node => ?_,fun p member => ?_,
    fun q member isPage => ?_,fun node start => ?_⟩
  · rw [page,pagesQueued]
    exact traffic.paid node
  · rw [page,pagesQueued,pageAttempts]
    exact traffic.queued p (pages ▸ member)
  · rw [page,pagesQueued,pageAttempts]
    exact traffic.flying q (out q member isPage) isPage
  · rw [page,pageAttempts]
    exact traffic.tried node start

theorem Traffic.ask {i : Nat} {narrow : Bool} (fresh : w.unasked entry = true) :
    (w.ask i entry narrow).Traffic (sent++[w.firstTarget entry narrow]) := by
  have first node : sentTo QueryTarget.isFirst node [w.firstTarget entry narrow] =
      if node = entry.nodeId then 1 else 0 := by
    rw [sentTo_singleton]
    simp only [firstTarget,QueryTarget.isFirst,QueryTarget.isPage,QueryTarget.isReferral,lt_irrefl,decide_false,
      Bool.not_false,Bool.true_and,decide_eq_true_eq,eq_comm (b := node)]
    rfl
  have bumped node : (w.ask i entry narrow).attempts.count node =
      w.attempts.count node+if node = entry.nodeId then 1 else 0 := count_bump ..
  have left : w.attempts.count entry.nodeId < maxQueryAttempts :=
    not_le.1 fun full => (unasked_iff.1 fresh).2 (traffic.spent _ full)
  refine traffic.send rfl (fun node => ?_) (fun node => ?_) (fun node full => ?_) (fun node => ?_) rfl rfl rfl
    fun q out isPage => ?_
  · rw [sentTo_append,first,bumped,traffic.firsts]
  · have before := traffic.attempts node
    rw [bumped]
    split
    · rename_i same
      subst same
      omega
    · exact before
  · rw [bumped] at full
    split at full
    · rename_i same
      exact same ▸ Finset.mem_insert_self ..
    · exact Finset.mem_insert_of_mem (traffic.spent node full)
  · rw [sentTo_append]
    exact traffic.referrals node
  · obtain rfl | old := mem_register out
    · cases isPage
    · exact old

theorem Traffic.page (conv : w.Conversing) (queue : w.pageQueue = owed :: rest)
    (known : w.contactOf owed.node = some contact) :
    ({ w with pageQueue := rest }.sendPage owed).Traffic (sent++[w.pageTarget owed contact]) := by
  obtain ⟨others,answers⟩ := conv.queued_alone queue
  have listed : owed ∈ w.pageQueue := queue ▸ mem_cons_self ..
  have start := conv.starts owed (.inl listed)
  have page node : sentTo QueryTarget.isPage node [w.pageTarget owed contact] =
      if node = owed.node then 1 else 0 := by
    rw [sentTo_singleton]
    simp only [pageTarget,QueryTarget.isPage,start,decide_true,Bool.true_and,decide_eq_true_eq,
      contactOf_nodeId known,eq_comm (b := node)]
  have first node : sentTo QueryTarget.isFirst node [w.pageTarget owed contact] = 0 := by
    rw [sentTo_singleton]
    simp [pageTarget,QueryTarget.isFirst,QueryTarget.isPage,start]
  have bumped node start :
      (({ w with pageQueue := rest }.sendPage owed).pageAttempts).count (node,start) =
        w.pageAttempts.count (node,start)+if (node,start) = (owed.node,owed.start) then 1 else 0 := count_bump ..
  have paid := traffic.queued owed listed _ rfl
  constructor
  case firsts => intro node; rw [sentTo_append,first]; exact traffic.firsts node
  case attempts => exact traffic.attempts
  case spent => exact traffic.spent
  case referrals => intro node; rw [sentTo_append]; exact traffic.referrals node
  case charged => exact traffic.charged
  case paid =>
    intro node
    have before := traffic.paid node
    rw [sentTo_append,page]
    change _ ≤ maxQueryAttempts*w.pagesQueued.count node
    split
    · rename_i same
      subst same
      simp only [maxQueryAttempts] at paid ⊢
      omega
    · exact before
  case queued =>
    intro p member tries
    have other := others p member
    rw [sentTo_append,page,bumped,if_neg other,if_neg fun same => other (Prod.mk.inj same).1]
    exact traffic.queued p (queue ▸ mem_cons_of_mem owed member) tries
  case flying =>
    intro q out isPage tries
    obtain rfl | old := mem_register out
    · rw [sentTo_append,page,bumped,if_pos rfl,if_pos rfl]
      rintro rfl
      change _ ∧ _ ≤ maxQueryAttempts*w.pagesQueued.count owed.node
      simp only [maxQueryAttempts] at paid ⊢
      omega
    have other := answers q old (conv.kinds q old isPage)
    rw [sentTo_append,page,bumped,if_neg other,if_neg fun same => other (Prod.mk.inj same).1]
    exact traffic.flying q old isPage tries
  case tried =>
    intro node start'
    have before := traffic.tried node start'
    rw [sentTo_append,page,bumped]
    by_cases same : (node,start') = (owed.node,owed.start)
    · rw [if_pos same,if_pos (Prod.mk.inj same).1]
      omega
    · rw [if_neg same]
      omega

theorem Traffic.refer {rest : List EmberNodeId} (queue : w.referralQueue = entry.nodeId :: rest) :
    ({ w with referralQueue := rest }.sendReferral entry.nodeId).Traffic
      (sent++[w.referralTarget entry.contact]) := by
  have referral node : sentTo QueryTarget.isReferral node [w.referralTarget entry.contact] =
      if entry.nodeId = node then 1 else 0 := by
    rw [sentTo_singleton]
    exact if_congr decide_eq_true_iff rfl rfl
  refine traffic.send rfl (fun node => ?_) traffic.attempts traffic.spent (fun node => ?_) rfl rfl rfl fun q out isPage => ?_
  · rw [sentTo_append]
    exact traffic.firsts node
  · have before := traffic.referrals node
    rw [queue,count_cons] at before
    simp only [beq_iff_eq] at before
    rw [sentTo_append,referral]
    exact (Nat.add_assoc ..).trans_le ((congrArg (_+·) (Nat.add_comm ..)).trans_le before)
  · obtain rfl | old := mem_register out
    · cases isPage
    · exact old

theorem Traffic.charge (page : OwedPage)
    (room : w.pagesQueued.count page.node < maxPagesPerNodeExhausted) (attempts : w'.attempts = w.attempts)
    (queried : w'.queried = w.queried) (referralQueue : w'.referralQueue = w.referralQueue)
    (referred : w'.referred = w.referred) (pagesQueued : w'.pagesQueued = w.pagesQueued.bump page.node)
    (queue : w'.pageQueue = w.pageQueue++[page]) (fewer : ∀ key, w'.pageAttempts.count key ≤ w.pageAttempts.count key)
    (same : ∀ node start, node ≠ page.node → w'.pageAttempts.count (node,start) = w.pageAttempts.count (node,start))
    (out : ∀ q ∈ w'.outstanding, q.isPage = true → q ∈ w.outstanding ∧
      w'.pageAttempts.count (q.node,q.startPosition) = w.pageAttempts.count (q.node,q.startPosition)) :
    w'.Traffic sent := by
  have bumped node : w'.pagesQueued.count node =
      w.pagesQueued.count node+if node = page.node then 1 else 0 := by rw [pagesQueued,count_bump]
  constructor
  case firsts => rw [attempts]; exact traffic.firsts
  case attempts => rw [attempts]; exact traffic.attempts
  case spent => rw [attempts,queried]; exact traffic.spent
  case referrals => rw [referralQueue,referred]; exact traffic.referrals
  case charged =>
    intro node
    have before := traffic.charged node
    rw [bumped]
    split
    · rename_i mine
      subst mine
      omega
    · exact before
  case paid =>
    intro node
    have before := traffic.paid node
    rw [bumped]
    exact before.trans (Nat.mul_le_mul_left _ (Nat.le_add_right ..))
  case queued =>
    intro p member tries count
    have before := traffic.paid p.node
    rw [bumped]
    by_cases mine : p.node = page.node
    · rw [if_pos mine]
      simp only [maxQueryAttempts] at before ⊢
      omega
    rw [if_neg mine]
    rw [same p.node p.start mine] at count
    rw [queue] at member
    obtain old | rfl := mem_concat_pages member
    · exact traffic.queued p old tries count
    · exact absurd rfl mine
  case flying =>
    intro q member isPage tries count
    obtain ⟨old,tried⟩ := out q member isPage
    obtain ⟨positive,before⟩ := traffic.flying q old isPage tries (tried ▸ count)
    rw [bumped]
    exact ⟨positive,before.trans (Nat.mul_le_mul_left _ (Nat.le_add_right ..))⟩
  case tried => exact fun node start => (fewer _).trans (traffic.tried node start)

theorem Traffic.requeue (out : w.Awaits requestId asked) (page : asked.isPage = true)
    (left : w.pageAttempts.count (asked.node,asked.startPosition) < maxQueryAttempts) :
    (w.requeue requestId asked).Traffic sent := by
  refine { traffic with
    queued := fun p member tries count => ?_, flying := fun q member => traffic.flying q (w.withdraw_outstanding member) }
  obtain old | rfl := mem_concat_pages member
  · exact traffic.queued p old tries count
  · -- sent once and not answered: the charge has one send left
    obtain ⟨positive,before⟩ := traffic.flying asked (mem_values.2 ⟨requestId,out⟩) page tries count
    have once : tries < maxQueryAttempts := count ▸ left
    change _ ≤ maxQueryAttempts*w.pagesQueued.count asked.node
    simp only [maxQueryAttempts] at before once ⊢
    omega

theorem Traffic.move {batch : List QueryTarget} (conv : w.Conversing)
    (move : Move w batch w') : w'.Traffic (sent++batch) := by
  have settled requestId : (w.withdraw requestId).Traffic sent := traffic.shrink rfl (Finset.Subset.refl _)
    (Sublist.refl _) rfl rfl rfl (List.Subset.refl _) w.withdraw_outstanding
  cases move with
  | ask narrow listed fresh => exact traffic.ask fresh
  | page queue known => exact traffic.page conv queue known
  | refer queue listed state => exact traffic.refer queue
  | rotate same =>
    rw [append_nil]
    exact traffic.shrink rfl (Finset.Subset.refl _) (Sublist.refl _) rfl rfl rfl same.symm.subset
      (List.Subset.refl _)
  | passBy queue =>
    rw [append_nil]
    exact traffic.shrink rfl (Finset.Subset.refl _) (queue ▸ sublist_cons_self ..) rfl rfl rfl
      (List.Subset.refl _) (List.Subset.refl _)
  | settle | giveUp | drop | park =>
    rw [append_nil]
    exact { settled _ with }
  | @earn requestId asked page out value owner start room =>
    rw [append_nil]
    exact traffic.charge page (owner ▸ room) rfl rfl rfl rfl rfl rfl (fun _ => le_rfl) (fun _ _ _ => rfl)
      fun q member _ => ⟨w.withdraw_outstanding member,rfl⟩
  | @retry requestId asked out first left =>
    rw [append_nil]
    -- a node with an attempt left is not one whose attempts are spent
    have kept : ∀ node, maxQueryAttempts ≤ w.attempts.count node → node ∈ w.queried.erase asked.node :=
      fun node full => Finset.mem_erase.2 ⟨fun same => absurd (same ▸ full) (not_le.2 left),traffic.spent node full⟩
    exact { settled requestId with spent := kept }
  | requeue out page left =>
    rw [append_nil]
    exact traffic.requeue out page left
  | @unpark parked rest backed queue room =>
    rw [append_nil]
    have alone := (conv.parked_alone (queue ▸ mem_cons_self ..)).2
    have erased (key : EmberNodeId × Nat) : count (w.pageAttempts.erase (parked.node,parked.start)) key =
        if key = (parked.node,parked.start) then 0 else w.pageAttempts.count key := count_erase ..
    refine traffic.charge { parked with backed := backed } room rfl rfl rfl rfl rfl rfl (fun key => ?_)
      (fun node start other => ?_) fun q member isPage => ⟨member,?_⟩
    · refine (erased key).trans_le ?_
      split
      · exact Nat.zero_le _
      · exact le_rfl
    · exact (erased _).trans (if_neg fun same => other (Prod.mk.inj same).1)
    · have other := alone q member (conv.kinds q member isPage)
      exact (erased _).trans (if_neg fun same => other (Prod.mk.inj same).1)
  | @queueReferral node fresh =>
    rw [append_nil]
    refine { traffic with referrals := fun node' => ?_ }
    have before := traffic.referrals node'
    rw [count_append,count_singleton]
    by_cases same : node = node'
    · subst same
      rw [if_neg fresh] at before
      rw [if_pos (Finset.mem_insert_self ..),beq_self_eq_true,if_pos rfl]
      omega
    simp only [Finset.mem_insert,Ne.symm same,false_or]
    rw [if_neg (by simpa using same)]
    exact before
  | letGo | learn | relist | trim | note =>
    rw [append_nil]
    exact { traffic with }

end

end Walk

namespace IterativeSearch
open Harvest

section Lives
variable (crypto : Crypto) (searchType : SearchType) (target : EmberNodeId) (contacts : List EmberContact) (now : Instant)

theorem new_traffic : (new searchType target contacts now).Conversing ∧ (new searchType target contacts now).Traffic [] := by
  refine ⟨⟨fun node => Nat.zero_le _,fun p member => ?_,fun q member => ?_⟩,?_⟩
  · simp [new] at member
  · cases member
  · constructor
    case queued => exact fun p member => absurd member not_mem_nil
    case flying => exact fun q member => absurd member not_mem_nil
    case spent => exact fun node full => absurd full (Nat.not_succ_le_zero 1)
    case referrals => exact fun node => Nat.zero_le _
    all_goals
      intros
      first
        | rfl
        | exact Nat.zero_le _

theorem run_traffic (ops : List SearchOp) :
    let life := (new searchType target contacts now).run crypto ops
    life.1.Conversing ∧ life.1.Traffic life.2 := by
  have path := (new searchType target contacts now).run_path crypto ops
  exact Path.keeps (P := fun sent w => Walk.Conversing w ∧ w.Traffic sent)
    (fun past w batch w' kept move => ⟨kept.1.move move,kept.2.move kept.1 move⟩) path []
    (new_traffic searchType target contacts now)

theorem new_budget : (new searchType target contacts now).Budget := ⟨Nat.zero_le _,le_rfl,Nat.zero_le _⟩

theorem run_budget (ops : List SearchOp) :
    let s := ((new searchType target contacts now).run crypto ops).1
    s.Budget ∧ ∀ node, s.offeredResults.count node ≤ maxSearchResults := by
  induction ops using List.reverseRecOn with
  | nil => exact ⟨new_budget searchType target contacts now,fun node => Nat.zero_le _⟩
  | append_singleton ops op ih =>
    obtain ⟨budget,offered⟩ := ih
    obtain ⟨kept,charged⟩ := step_budget crypto _ op budget
    rw [run_concat]
    exact ⟨kept,fun node => (charged node).1.trans (max_le (offered node) le_rfl)⟩

/-- The quarter share bound `node` at every answer of its that was accepted. -/
def ShareBoundThroughout (node : EmberNodeId) (s : IterativeSearch) : List SearchOp → Prop
  | [] => True
  | op :: ops => s.ShareBindsAt node op ∧ ShareBoundThroughout node (s.step crypto op).1 ops

theorem run_share (ops : List SearchOp) (node : EmberNodeId) (s : IterativeSearch) (budget : s.Budget)
    (bound : ShareBoundThroughout crypto node s ops) (share : s.offeredResults.count node ≤ maxResultsPerNode) :
    (s.run crypto ops).1.offeredResults.count node ≤ maxResultsPerNode := by
  induction ops generalizing s with
  | nil => exact share
  | cons op ops ih =>
    obtain ⟨binds,later⟩ := bound
    obtain ⟨kept,charged⟩ := step_budget crypto s op budget
    rw [run_cons]
    exact ih _ kept later (((charged node).2 binds).trans (max_le share le_rfl))

/-- However answers and failures fall, one node draws bounded traffic from a search, and the harvest is
bounded. -/
theorem traffic_bounded (ops : List SearchOp) (node : EmberNodeId) :
    let life := (new searchType target contacts now).run crypto ops
    sentTo QueryTarget.isFirst node life.2 ≤ maxQueryAttempts ∧
    sentTo QueryTarget.isReferral node life.2 ≤ 1 ∧
    life.1.pagesQueued.count node ≤ maxPagesPerNodeExhausted ∧
    sentTo QueryTarget.isPage node life.2 ≤ maxQueryAttempts*life.1.pagesQueued.count node ∧
    life.1.offeredResults.count node ≤ maxSearchResults ∧
    (ShareBoundThroughout crypto node (new searchType target contacts now) ops →
      life.1.offeredResults.count node ≤ maxResultsPerNode) ∧
    life.1.budgetSpent.card ≤ maxSearchResults ∧
    life.1.remoteBlobs ≤ maxSearchResultBlobs := by
  obtain ⟨_,traffic⟩ := run_traffic crypto searchType target contacts now ops
  obtain ⟨budget,offered⟩ := run_budget crypto searchType target contacts now ops
  refine ⟨?_,?_,traffic.charged node,traffic.paid node,offered node,fun bound => ?_,budget.spent,?_⟩
  · exact (traffic.firsts node).trans_le (traffic.attempts node)
  · exact (Nat.le_add_right ..).trans ((traffic.referrals node).trans (by split <;> decide))
  · exact run_share crypto ops node _ (new_budget searchType target contacts now) bound (Nat.zero_le _)
  · have blobs := budget.blobs
    unfold remoteBlobs
    omega

theorem counters_fit {ops : List SearchOp} {node : EmberNodeId} {start : Nat} :
    let s := ((new searchType target contacts now).run crypto ops).1
    s.attempts.count node < 2^8 ∧ s.pagesQueued.count node < 2^8 ∧ s.pageAttempts.count (node,start) < 2^8 := by
  obtain ⟨_,traffic⟩ := run_traffic crypto searchType target contacts now ops
  have attempts := traffic.attempts node
  have charged := traffic.charged node
  have paid := (traffic.tried node start).trans (traffic.paid node)
  simp only [maxQueryAttempts,maxPagesPerNodeExhausted,maxSearchResults,recordsPerUnfragmentedPage] at attempts charged paid
  omega

end Lives
end IterativeSearch
end Ember.Dht
