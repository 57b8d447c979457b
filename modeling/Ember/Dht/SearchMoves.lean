import Ember.Library.Path
import Ember.Dht.SearchDrive

/-! What the calls on a search do to its walk, as single moves. Every operation is a path of them
that emits what it sends, so an invariant is proved once for each move. -/
namespace Ember.Dht
open Table List

namespace Walk

def standing (entry : ShortlistEntry) : EmberNodeId × NodeState := (entry.nodeId,entry.state)

abbrev Awaits (w : Walk) (requestId : UInt32) (asked : PendingQuery) : Prop := w.pendingRequests.lookup requestId = some asked

def withdraw (w : Walk) (requestId : UInt32) : Walk := { w with pendingRequests := w.pendingRequests.erase requestId }

def retry (w : Walk) (requestId : UInt32) (node : EmberNodeId) : Walk :=
  { w.withdraw requestId with shortlist := setState node .pending w.shortlist, queried := w.queried.erase node }

def giveUp (w : Walk) (requestId : UInt32) (node : EmberNodeId) : Walk :=
  { w.withdraw requestId with shortlist := setState node .failed w.shortlist }

def requeue (w : Walk) (requestId : UInt32) (asked : PendingQuery) : Walk :=
  { w.withdraw requestId with
    pageQueue := w.pageQueue++[⟨asked.node,asked.startPosition,asked.resumeAfter,asked.backed⟩] }

inductive Move : Walk → List QueryTarget → Walk → Prop where
  | ask {w i entry} (narrow : Bool) (listed : w.shortlist[i]? = some entry) (fresh : w.unasked entry = true) :
      Move w [w.firstTarget entry narrow] (w.ask i entry narrow)
  | page {w owed rest contact} (queue : w.pageQueue = owed :: rest) (known : w.contactOf owed.node = some contact) :
      Move w [w.pageTarget owed contact] ({ w with pageQueue := rest }.sendPage owed)
  | rotate {w queue} (same : w.pageQueue.Perm queue) : Move w [] { w with pageQueue := queue }
  | refer {w rest entry} (queue : w.referralQueue = entry.nodeId :: rest) (listed : entry ∈ w.shortlist)
      (state : entry.state = .responded) :
      Move w [w.referralTarget entry.contact] ({ w with referralQueue := rest }.sendReferral entry.nodeId)
  | passBy {w node rest} (queue : w.referralQueue = node :: rest) : Move w [] { w with referralQueue := rest }
  | settle {w requestId asked} (out : w.Awaits requestId asked) :
      Move w [] (w.answered requestId asked.node)
  | earn {w requestId asked page} (out : w.Awaits requestId asked)
      (value : asked.referral = false) (owner : page.node = asked.node) (start : 0 < page.start)
      (room : w.pagesQueued.count asked.node < maxPagesPerNodeExhausted) :
      Move w [] ((w.answered requestId asked.node).chargePage page)
  | park {w requestId asked start} (resume : ResumeAnchors) (out : w.Awaits requestId asked)
      (value : asked.referral = false) (positive : 0 < start) :
      Move w [] { w.answered requestId asked.node with parkedPages := w.parkedPages++[⟨asked.node,start,resume,false⟩] }
  | retry {w requestId asked} (out : w.Awaits requestId asked)
      (first : asked.isFollowUp = false) (left : w.attempts.count asked.node < maxQueryAttempts) :
      Move w [] (w.retry requestId asked.node)
  | giveUp {w requestId asked} (out : w.Awaits requestId asked)
      (first : asked.isFollowUp = false) : Move w [] (w.giveUp requestId asked.node)
  | drop {w requestId asked} (out : w.Awaits requestId asked)
      (follow : asked.isFollowUp = true) : Move w [] (w.withdraw requestId)
  | requeue {w requestId asked} (out : w.Awaits requestId asked)
      (page : asked.isPage = true)
      (left : w.pageAttempts.count (asked.node,asked.startPosition) < maxQueryAttempts) :
      Move w [] (w.requeue requestId asked)
  | unpark {w parked rest} (backed : Bool) (queue : w.parkedPages = parked :: rest)
      (room : w.pagesQueued.count parked.node < maxPagesPerNodeExhausted) :
      Move w [] (w.unparkPage { parked with backed := backed } rest)
  | letGo {w rest} (part : rest.Sublist w.parkedPages) : Move w [] { w with parkedPages := rest }
  | queueReferral {w node} (fresh : node ∉ w.referred) :
      Move w [] { w with referred := insert node w.referred, referralQueue := w.referralQueue++[node] }
  | learn {w contact} (pinned : Bool) (referrer : Option EmberNodeId) (fresh : contact.nodeId ∉ w.queried)
      (unknown : ∀ e ∈ w.shortlist, e.nodeId ≠ contact.nodeId) : Move w [] (w.learn contact pinned referrer)
  | relist {w entries} (same : (w.shortlist.map standing).Perm (entries.map standing)) :
      Move w [] { w with shortlist := entries }
  | trim {w entries} (part : entries.Sublist w.shortlist)
      (kept : ∀ e ∈ w.shortlist, e.state = .inFlight ∨ e.nodeId ∈ w.owedPageNodes → e ∈ entries) :
      Move w [] { w with shortlist := entries }
  | note {w complete} (pageTurnOwed seedRoundDone keywordLookup : Bool) (staleResponses : Nat)
      (beyond : w.complete = true → complete = true) :
      Move w [] { w with complete, pageTurnOwed, seedRoundDone, keywordLookup, staleResponses }

abbrev Quiet (w w' : Walk) : Prop := Path Move w [] w'

variable {w w' : Walk} {sent : List QueryTarget}

theorem Move.complete (move : Move w sent w') (beyond : w.complete = true) : w'.complete = true := by
  cases move with
  | note _ _ _ _ still => exact still beyond
  | _ => exact beyond

variable {batch : List QueryTarget}

theorem Move.emits (move : Move w sent w') : Path.Emits Move (w,batch) (w',batch++sent) := ⟨sent,rfl,.single move⟩

theorem Move.silent (move : Move w [] w') :
    Path.Emits Move (w,batch) (w',batch) := ⟨[],(append_nil batch).symm,.single move⟩

theorem sendPages_emits (budget : Nat) (queue skipped : List OwedPage) (w : Walk) (batch : List QueryTarget) :
    Path.Emits Move ({ w with pageQueue := queue++skipped },batch) (sendPages budget queue skipped (w,batch)) := by
  induction queue generalizing skipped w batch with
  | nil => exact .refl
  | cons owed rest ih =>
    unfold sendPages
    split
    · split
      · -- a page passed over waits behind the others
        have turned : (owed :: rest++skipped).Perm (rest++(skipped++[owed])) := by
          rw [← append_assoc]
          exact (perm_append_singleton owed (rest++skipped)).symm
        exact ((Move.rotate (w := { w with pageQueue := owed :: rest++skipped }) turned).silent).trans
          (ih _ w batch)
      · rename_i contact known
        have queue : { w with pageQueue := owed :: rest++skipped }.pageQueue = owed :: (rest++skipped) := rfl
        have sent := Move.page queue known
        exact sent.emits.trans (ih skipped (w.sendPage owed) _)
    · exact .refl

theorem sendReferrals_emits (canSend : Nat) (queue : List EmberNodeId) (w : Walk) (batch : List QueryTarget) :
    Path.Emits Move ({ w with referralQueue := queue },batch) (sendReferrals canSend queue (w,batch)) := by
  induction queue generalizing w batch with
  | nil => exact .refl
  | cons node rest ih =>
    unfold sendReferrals
    split
    · split
      · have passed := Move.passBy (w := { w with referralQueue := node :: rest }) rfl
        exact passed.silent.trans (ih w batch)
      rename_i entry found
      have holds := find?_some found
      simp only [decide_eq_true_eq] at holds
      obtain ⟨rfl,state⟩ := holds
      have sent := Move.refer (w := { w with referralQueue := entry.nodeId :: rest }) rfl
        (mem_of_find?_eq_some found) state
      exact sent.emits.trans (ih (w.sendReferral entry.nodeId) _)
    · exact .refl

theorem askEntry_emits (canSend : Nat) (seedRound : Bool) (near : List EmberNodeId) (prefer : Nat)
    (state : Walk × List QueryTarget) (i : Nat) :
    Path.Emits Move state (askEntry canSend seedRound near prefer state i) := by
  unfold askEntry
  split
  · exact .refl
  rename_i entry listed
  split
  · exact .refl
  split
  · exact .refl
  split
  · rename_i fresh
    exact (Move.ask _ listed fresh).emits
  · exact .refl

theorem askShortlist_emits (canSend : Nat) (state : Walk × List QueryTarget) :
    Path.Emits Move state (askShortlist canSend state) :=
  Path.Emits.foldl (fun state _ => Path.Emits.foldl (askEntry_emits canSend _ _ _) _ state) _ state

theorem dispatch_emits (w : Walk) (canSend : Nat) : Path.Emits Move (w,[]) (w.dispatch canSend) := by
  have pages := sendPages_emits (w.pageBudget canSend) w.pageQueue [] w []
  rw [append_nil] at pages
  unfold dispatch
  generalize sendPages (w.pageBudget canSend) w.pageQueue [] (w,[]) = sent at pages
  obtain ⟨w₁,batch⟩ := sent
  dsimp only
  have turn : Path.Emits Move (w,[]) ((if 0 < batch.length then { w₁ with pageTurnOwed := false } else w₁),batch) := by
    split
    · exact pages.trans
        ((Move.note false w₁.seedRoundDone w₁.keywordLookup w₁.staleResponses id).silent)
    · exact pages
  split
  · exact turn
  generalize (if 0 < batch.length then { w₁ with pageTurnOwed := false } else w₁) = w₂ at turn
  have asked := (turn.trans (sendReferrals_emits canSend w₂.referralQueue w₂ batch)).trans (askShortlist_emits canSend _)
  generalize askShortlist canSend (sendReferrals canSend w₂.referralQueue (w₂,batch)) = rest at asked
  obtain ⟨w₃,batch'⟩ := rest
  split
  · exact asked.trans ((Move.note _ true w₃.keywordLookup w₃.staleResponses id).silent)
  · exact asked

theorem mergeCloser_quiet (fromId best : EmberNodeId) (contacts : List EmberContact) (referred : Nat)
    (state : Walk × Bool) : Quiet state.1 (mergeCloser fromId best contacts referred state).1 := by
  induction contacts generalizing referred state with
  | nil => exact .refl _
  | cons contact rest ih =>
    obtain ⟨w,newCloser⟩ := state
    unfold mergeCloser
    split
    · exact ih referred (w,newCloser)
    rename_i new
    split
    · exact .refl _
    simp only [Bool.or_eq_true,decide_eq_true_eq,not_or,knows,any_eq_true,not_exists,not_and] at new
    exact (Path.single (.learn false (some fromId) new.1.1.2 new.2)).trans (ih _ (_,_))

theorem sorted_quiet :
    Quiet w { w with shortlist := sortByKey ShortlistEntry.distance w.shortlist } :=
  .single (.relist ((perm_insertionSort _ w.shortlist).symm.map standing))

theorem trim_quiet : Quiet w w.trim := by
  refine sorted_quiet.trans (.single (.trim ?_ ?_))
  · have split := take_append_drop kBucketSize (sortByKey ShortlistEntry.distance w.shortlist)
    conv => rhs; rw [← split]
    exact (Sublist.refl _).append filter_sublist
  intro e listed needed
  rw [← take_append_drop kBucketSize (sortByKey ShortlistEntry.distance w.shortlist)] at listed
  rw [mem_append]
  refine (mem_append.1 listed).imp id fun past => mem_filter.2 ⟨past,?_⟩
  simp only [Bool.or_eq_true,decide_eq_true_eq]
  exact needed.elim (fun flying => .inl (.inl (.inl flying))) .inr

theorem pin_quiet (w : Walk) (node : EmberNodeId) : Quiet w (w.pin node) := by
  have same i (entries : List ShortlistEntry) :
      (entries.modify i fun e => { e with pinned := true }).map standing = entries.map standing := by
    induction entries generalizing i with
    | nil => simp
    | cons e rest ih =>
      cases i with
      | zero => rfl
      | succ i => simp [ih]
  exact .single (.relist (Perm.of_eq (same ..).symm))

theorem pinContacts_quiet (contacts : List EmberContact) (added : Nat) (w : Walk) :
    Quiet w (pinContacts contacts added w).1 := by
  induction contacts generalizing added w with
  | nil => exact .refl _
  | cons contact rest ih =>
    unfold pinContacts
    split
    · exact .refl _
    split
    · exact ih added w
    split
    · exact (pin_quiet w contact.nodeId).trans (ih added _)
    rename_i unknown
    split
    · exact ih added w
    rename_i fresh
    have absent : ∀ e ∈ w.shortlist, e.nodeId ≠ contact.nodeId := by simpa [knows] using unknown
    exact (Path.single (.learn true none fresh absent)).trans (ih ..)

section
variable {w : Walk} {requestId : UInt32} {asked : PendingQuery} {failure : QueryFailure}
  (out : w.Awaits requestId asked)
include out

theorem failFirst_quiet (first : asked.isFollowUp = false) : Quiet w (w.failFirst requestId asked.node failure) := by
  unfold failFirst
  dsimp only
  split
  · rename_i retryable
    refine .single (.retry out first ?_)
    cases found : w.attempts.lookup asked.node with
    | none => simp [found] at retryable
    | some spent => simpa [Table.count,found] using retryable.1
  · exact .single (.giveUp out first)

theorem failFollowUp_quiet (follow : asked.isFollowUp = true) : Quiet w (w.failFollowUp requestId asked failure) := by
  unfold failFollowUp
  dsimp only
  split
  · rename_i retryable
    refine .single (.requeue out retryable.1 ?_)
    cases found : w.pageAttempts.lookup (asked.node,asked.startPosition) with
    | none => simp [found] at retryable
    | some spent => simpa [Table.count,found] using retryable.2.2
  · exact .single (.drop out follow)

end

theorem maybeQueueReferral_quiet {node : EmberNodeId} : Quiet w (w.maybeQueueReferral node) := by
  unfold maybeQueueReferral
  split
  · exact .refl _
  rename_i eligible
  split
  · exact .single (.queueReferral (not_or.1 eligible).2)
  · exact .refl _

end Walk

namespace IterativeSearch
open Walk
variable (crypto : Crypto) (s : IterativeSearch) (node : EmberNodeId) (op : SearchOp) (ops : List SearchOp) {requestId : UInt32} {w : Walk}
variable {asked : PendingQuery}

theorem perNodePageAllowance_le : s.perNodePageAllowance node ≤ maxPagesPerNodeExhausted := by
  have base : maxPagesPerNode ≤ maxPagesPerNodeExhausted := by decide
  unfold perNodePageAllowance
  dsimp only
  split
  · exact base
  split
  · exact base
  generalize (if s.holdsSoleWord node then s.heldDelivered.count node else 0) = held
  split
  · exact Nat.le_refl _
  · exact base

section
variable (s : IterativeSearch)

theorem releaseFrom_quiet {queue : List OwedPage} (part : queue.Sublist s.parkedPages) :
    Quiet s.toWalk (s.releaseFrom queue) := by
  induction queue with
  | nil => exact .single (.letGo part)
  | cons parked rest ih =>
    have tail : rest.Sublist s.parkedPages := (sublist_cons_self parked rest).trans part
    unfold releaseFrom
    split
    · exact ih tail
    split
    · exact ih tail
    rename_i room
    have fewer := lt_of_lt_of_le (not_le.1 room) (s.perNodePageAllowance_le parked.node)
    have front : Quiet s.toWalk { s.toWalk with parkedPages := parked :: rest } := .single (.letGo part)
    exact front.trans (.single (.unpark _ rfl fewer))

theorem releaseParkedPage_quiet : Quiet s.toWalk s.releaseParkedPage := by
  unfold releaseParkedPage
  split
  · exact .refl _
  split
  · exact .single (.letGo (nil_sublist _))
  dsimp only
  split
  · exact .refl _
  · exact s.releaseFrom_quiet (Sublist.refl _)

theorem complete_quiet : Quiet s.toWalk { s.toWalk with complete := true } :=
  .single (.note s.pageTurnOwed s.seedRoundDone s.keywordLookup s.staleResponses fun _ => rfl)

theorem checkComplete_quiet (now : Instant) : Quiet s.toWalk (s.checkComplete now).toWalk := by
  unfold checkComplete
  split
  · exact .refl _
  split
  · exact s.complete_quiet
  dsimp only
  have released := s.releaseParkedPage_quiet
  have ended := complete_quiet { s with toWalk := s.releaseParkedPage }
  split
  · exact released.trans ended
  split
  · exact released.trans ended
  split
  · exact released.trans ended
  split
  · exact released.trans ended
  · exact released

end

theorem queueNextPage_cases (asked next : FindValueRequest) (total : Nat) (cutShort backed : Bool) :
    s.queueNextPage node asked next total cutShort backed = s.toWalk ∨ (∃ start resume, 0 < start ∧
        s.queueNextPage node asked next total cutShort backed = s.parkPage node start resume) ∨
      ∃ page : OwedPage, page.node = node ∧ 0 < page.start ∧ s.pagesQueued.count node < maxPagesPerNodeExhausted ∧
        s.queueNextPage node asked next total cutShort backed = s.chargePage page := by
  unfold queueNextPage
  split
  · exact .inl rfl
  split
  · exact .inl rfl
  split
  · exact .inl rfl
  rename_i forward
  split
  · exact .inl rfl
  dsimp only
  have resumes : 0 < (if cutShort ∧ 0 < asked.startPosition then asked else next).startPosition := by
    split
    · rename_i cut
      exact cut.2
    · omega
  split
  · split
    · exact .inr (.inl ⟨_,_,resumes,rfl⟩)
    · exact .inl rfl
  split
  · split
    · exact .inr (.inl ⟨_,_,resumes,rfl⟩)
    · exact .inl rfl
  rename_i room
  have fewer := lt_of_lt_of_le (not_le.1 room) (s.perNodePageAllowance_le node)
  exact .inr (.inr ⟨_,rfl,by dsimp only; omega,fewer,rfl⟩)

theorem queueNextPage_quiet {query : PendingQuery} {s : IterativeSearch}
    (out : w.pendingRequests.lookup requestId = some query) (value : query.referral = false)
    (after : s.toWalk = w.answered requestId query.node) {asked next : FindValueRequest} {total : Nat}
    {cutShort backed : Bool} : Quiet w (s.queueNextPage query.node asked next total cutShort backed) := by
  obtain same | ⟨start,resume,positive,same⟩ | ⟨page,owner,positive,room,same⟩ :=
    s.queueNextPage_cases query.node asked next total cutShort backed
  · rw [same,after]
    exact .single (.settle out)
  · rw [same,after]
    unfold parkPage
    split
    · exact .single (.settle out)
    · exact .single (.park resume out value positive)
  · rw [after] at room
    rw [same,after]
    exact .single (.earn out value owner positive room)

theorem earnedPage_quiet (s : IterativeSearch)
    (out : w.Awaits requestId asked) (after : s.toWalk = w.answered requestId asked.node)
    (valueRecords : List Bytes) (intake : Intake) (page : Option ValuePage)
    (value : page.isSome → asked.referral = false) : Quiet w (s.earnedPage asked valueRecords intake page) := by
  have settled : Quiet w s.toWalk := by
    rw [after]
    exact .single (.settle out)
  cases page with
  | none => exact settled
  | some page =>
    unfold earnedPage
    dsimp only
    split
    · exact queueNextPage_quiet out (value rfl) after
    · exact settled

theorem takeAnswer_quiet (crypto : Crypto) (clock : Clock)
    (s : IterativeSearch) (out : w.Awaits requestId asked)
    (after : s.toWalk = w.answered requestId asked.node) (noCloser : Bool) (valueRecords : List Bytes)
    (page : Option ValuePage) : Quiet w (takeAnswer crypto clock s asked noCloser valueRecords page).toWalk := by
  unfold takeAnswer
  dsimp only
  generalize takeRecords crypto clock _ asked.node _ _ _ = intake
  have value : (if s.searchType = .findValue && !asked.referral then page else none).isSome →
      asked.referral = false := by
    split
    · rename_i expected
      intro _
      simpa using (Bool.and_eq_true_iff.1 expected).2
    · intro absent
      cases absent
  have earned := earnedPage_quiet { s with toHarvest := intake.harvest } out after
    (if s.searchType = .findValue && !asked.referral then valueRecords else []) intake _ value
  split
  · exact earned.trans maybeQueueReferral_quiet
  · exact earned

theorem takeContacts_quiet (w : Walk) (fromId : EmberNodeId) (closerNodes : List EmberContact) :
    Quiet w (takeContacts w fromId closerNodes).1 := by
  unfold takeContacts
  dsimp only
  generalize merged : mergeCloser fromId _ _ _ (w,false) = state
  have merge : Quiet w state.1 := merged ▸ mergeCloser_quiet fromId _ _ _ (w,false)
  have noted := Move.note (w := state.1.trim) state.1.trim.pageTurnOwed state.1.trim.seedRoundDone state.1.trim.keywordLookup
    (if state.2 then 0 else min 255 (state.1.trim.staleResponses+1)) id
  exact merge.trans (trim_quiet.trans (.single noted))

theorem processResponse_quiet {crypto : Crypto} {clock : Clock} {s : IterativeSearch}
    {fromId : EmberNodeId} {closerNodes : List EmberContact} {valueRecords : List Bytes} {page : Option ValuePage} :
    Quiet s.toWalk (processResponse crypto clock s requestId fromId closerNodes valueRecords page).1.toWalk := by
  obtain same | ⟨asked,out,rfl,s',read,same⟩ := processResponse_cases crypto clock s requestId fromId closerNodes valueRecords page
  · rw [same]
    exact .refl _
  have taken := takeAnswer_quiet crypto clock ⟨s.answered requestId asked.node,s.toHarvest⟩ out rfl
    closerNodes.isEmpty valueRecords page
  rw [← read] at taken
  rw [same]
  have merged := takeContacts_quiet s'.toWalk asked.node closerNodes
  exact taken.trans (merged.trans (checkComplete_quiet ⟨_,s'.toHarvest⟩ clock.instant))

theorem markFailedWith_quiet (s : IterativeSearch) {now : Instant} {failure : QueryFailure} :
    Quiet s.toWalk (s.markFailedWith now requestId failure).1.toWalk := by
  unfold markFailedWith
  split
  · exact s.checkComplete_quiet now
  rename_i asked out
  split
  · rename_i follow
    exact (failFollowUp_quiet out follow).trans (checkComplete_quiet ⟨_,s.toHarvest⟩ now)
  rename_i first
  rw [Bool.not_eq_true] at first
  exact (failFirst_quiet out first).trans (checkComplete_quiet ⟨_,s.toHarvest⟩ now)

theorem nextToQuery_path (s : IterativeSearch) : Path Move s.toWalk s.nextToQuery.2 s.nextToQuery.1.toWalk := by
  unfold nextToQuery
  split
  · exact .refl _
  dsimp only
  split
  · exact .refl _
  obtain ⟨sent,batch,path⟩ := s.releaseParkedPage.dispatch_emits (alpha-s.inFlight)
  rw [nil_append] at batch
  rw [← batch] at path
  exact s.releaseParkedPage_quiet.trans path

theorem step_path (crypto : Crypto) (s : IterativeSearch) (op : SearchOp) :
    Path Move s.toWalk (s.step crypto op).2 (s.step crypto op).1.toWalk := by
  cases op with
  | nextToQuery => exact s.nextToQuery_path
  | processResponse clock requestId fromId closerNodes valueRecords page =>
    exact processResponse_quiet
  | markFailedWith now requestId failure => exact s.markFailedWith_quiet
  | seedExtraContacts contacts => exact (pinContacts_quiet _ 0 s.toWalk).trans sorted_quiet
  | pollComplete now => exact s.checkComplete_quiet now
  | seedLocalResults localId records => exact .refl _
  | absorbResults records => exact .refl _
  | markKeywordLookup => exact .single (.note s.pageTurnOwed s.seedRoundDone true s.staleResponses id)

theorem step_complete (beyond : s.complete = true) : (s.step crypto op).1.complete = true :=
  (step_path crypto s op).keeps (P := fun _ w => w.complete = true) (fun _ _ _ _ done move => move.complete done) [] beyond

theorem run_concat (op : SearchOp) : s.run crypto (ops++[op]) = (((s.run crypto ops).1.step crypto op).1,
      (s.run crypto ops).2++((s.run crypto ops).1.step crypto op).2) := by
  simp [run]

theorem run_cons : (s.run crypto (op :: ops)).1 = ((s.step crypto op).1.run crypto ops).1 := by
  induction ops using List.reverseRecOn with
  | nil => rfl
  | append_singleton ops last ih =>
    rw [← cons_append,run_concat,run_concat,ih]

theorem run_path : Path Move s.toWalk (s.run crypto ops).2 (s.run crypto ops).1.toWalk := by
  induction ops using List.reverseRecOn with
  | nil => exact .refl _
  | append_singleton ops op ih =>
    rw [run_concat]
    exact ih.trans (step_path crypto _ op)

end IterativeSearch
end Ember.Dht
