import Ember.Dht.SearchHarvest

/-! The operations that drive an iterative search, and runs of them. What a call sends is returned
with the state, so a run yields every query sent. -/
namespace Ember.Dht
open Bytes Table
attribute [local instance] nodeId_lawful

namespace Walk

variable (w : Walk) (requestId : UInt32) (node : EmberNodeId)

def answered (fromId : EmberNodeId) : Walk :=
  { w with
    pendingRequests := w.pendingRequests.erase requestId
    shortlist := setState fromId .responded w.shortlist }

def learn (contact : EmberContact) (pinned : Bool) (referrer : Option EmberNodeId) : Walk :=
  { w with
    shortlist := w.shortlist++[⟨contact,w.target^^^contact.nodeId,.pending,pinned,referrer⟩] }

def knows : Bool := w.shortlist.any fun e => e.nodeId = node

/-- Merges the contacts a responder named, closest first, up to its quota; says whether one is
closer than `best`. -/
def mergeCloser (fromId best : EmberNodeId) : List EmberContact → Nat → Walk × Bool → Walk × Bool
  | [], _, state => state
  | contact :: rest, referred, (w,newCloser) =>
    if !contact.isDialable || contact.nodeId ∈ w.queried || contact.nodeId = w.target || w.knows contact.nodeId then
      mergeCloser fromId best rest referred (w,newCloser)
    else if maxShortlistEntriesPerReferrer ≤ referred then (w,newCloser)
    else mergeCloser fromId best rest (referred+1)
      (w.learn contact false (some fromId),newCloser || decide (w.target^^^contact.nodeId < best))

def owedPageNodes : List EmberNodeId :=
  (w.pageQueue++w.parkedPages).map OwedPage.node++(w.outstanding.filter PendingQuery.isPage).map PendingQuery.node

def trim : Walk :=
  let sorted := sortByKey ShortlistEntry.distance w.shortlist
  { w with
    shortlist := sorted.take kBucketSize++(sorted.drop kBucketSize).filter fun e =>
      e.state = .inFlight || e.pinned || e.contact.isVerified || decide (e.nodeId ∈ w.owedPageNodes) }

def pin : Walk :=
  let i := w.shortlist.findIdx fun e => e.nodeId = node
  { w with shortlist := w.shortlist.modify i fun e => { e with pinned := true } }

def pinContacts : List EmberContact → Nat → Walk → Walk × Nat
  | [], added, w => (w,added)
  | contact :: rest, added, w =>
    if maxPinnedExtraContacts ≤ added then (w,added)
    else if !contact.isDialable || contact.nodeId = w.target then pinContacts rest added w
    else if w.knows contact.nodeId then pinContacts rest added (w.pin contact.nodeId)
    else if contact.nodeId ∈ w.queried then pinContacts rest added w
    else pinContacts rest (added+1) (w.learn contact true none)

def seedExtraContacts (contacts : List EmberContact) : Walk × Nat :=
  let (w,added) := pinContacts (contacts.insertionSort fun a b => b.lastSeen ≤ a.lastSeen) 0 w
  ({ w with shortlist := sortByKey ShortlistEntry.distance w.shortlist },added)

def failFirst (failure : QueryFailure) : Walk :=
  let spent := (w.attempts.lookup node).getD maxQueryAttempts
  let w := { w with pendingRequests := w.pendingRequests.erase requestId }
  if spent < maxQueryAttempts ∧ failure = .timedOut then
    { w with shortlist := setState node .pending w.shortlist, queried := w.queried.erase node }
  else { w with shortlist := setState node .failed w.shortlist }

/-- A page or referral that will not be answered: a page with retries left is queued again. -/
def failFollowUp (asked : PendingQuery) (failure : QueryFailure) : Walk :=
  let spent := (w.pageAttempts.lookup (asked.node,asked.startPosition)).getD maxQueryAttempts
  let w := { w with pendingRequests := w.pendingRequests.erase requestId }
  if asked.isPage ∧ failure ≠ .notSent ∧ spent < maxQueryAttempts then
    { w with pageQueue := w.pageQueue++[⟨asked.node,asked.startPosition,asked.resumeAfter,asked.backed⟩] }
  else w

end Walk

namespace IterativeSearch
variable (crypto : Crypto) (w : Walk) (clock : Clock) (s : IterativeSearch) (localId : EmberNodeId) (h : Harvest)
  (asked : PendingQuery) (now : Instant) (requestId : UInt32) (fromId : EmberNodeId) (closerNodes : List EmberContact)
  (valueRecords : List Bytes) (node : EmberNodeId)

def new (searchType : SearchType) (target : EmberNodeId) (initialContacts : List EmberContact) (now : Instant) :
    IterativeSearch where
  searchType := searchType
  target := target
  shortlist := (sortByKey ShortlistEntry.distance ((initialContacts.filter EmberContact.isDialable).map fun c =>
    ⟨c,target^^^c.nodeId,.pending,false,none⟩)).take kBucketSize
  startedAt := now
  lastNewRecord := now

def perNodeResultAllowance : Nat :=
  if s.shareBinds node || !s.offersMostlyAdmissible node then maxResultsPerNode else maxSearchResults

def perNodePageAllowance : Nat :=
  if s.shareBinds node then maxPagesPerNode
  else
    let queued := s.pagesQueued.count node
    if queued < maxPagesPerNode then maxPagesPerNode
    else
      let held := if s.holdsSoleWord node then s.heldDelivered.count node else 0
      if (queued+1)*minRecordsPerPageToContinue ≤ s.deliveredResults.count node+held then maxPagesPerNodeExhausted
      else maxPagesPerNode

def queueNextPage (asked next : FindValueRequest) (total : Nat)
    (cutShort backed : Bool) : Walk :=
  if s.searchType ≠ .findValue then s.toWalk
  else if total ≤ next.startPosition then s.toWalk
  else if next.startPosition ≤ asked.startPosition then s.toWalk
  else if s.valueBudgetFull then s.toWalk
  else
    let resumeAt := if cutShort ∧ 0 < asked.startPosition then asked else next
    let offered := s.offeredResults.count node
    if s.perNodeResultAllowance node ≤ offered then
      if s.shareBinds node ∧ offered < maxSearchResults then
        s.parkPage node resumeAt.startPosition resumeAt.resumeAfter
      else s.toWalk
    else
      let queued := s.pagesQueued.count node
      if s.perNodePageAllowance node ≤ queued then
        if s.shareBinds node ∧ queued < maxPagesPerNodeExhausted then
          s.parkPage node resumeAt.startPosition resumeAt.resumeAfter
        else s.toWalk
      else s.chargePage ⟨node,next.startPosition,next.resumeAfter,backed⟩

def releaseFrom (s : IterativeSearch) : List OwedPage → Walk
  | [] => { s.toWalk with parkedPages := [] }
  | parked :: rest =>
    if s.perNodeResultAllowance parked.node ≤ s.offeredResults.count parked.node then s.releaseFrom rest
    else if s.perNodePageAllowance parked.node ≤ s.pagesQueued.count parked.node then s.releaseFrom rest
    else s.unparkPage { parked with backed := 0 < s.deliveredResults.count parked.node } rest

def releaseParkedPage : Walk :=
  if s.searchType ≠ .findValue ∨ s.complete ∨ s.parkedPages = [] then s.toWalk
  else if s.valueBudgetFull then { s.toWalk with parkedPages := [] }
  else
    let backedPageOwed := s.pageQueue.any OwedPage.backed || s.outstanding.any fun p => p.isPage && p.backed
    if s.canStillDescend || backedPageOwed then s.toWalk else s.releaseFrom s.parkedPages

def nextToQuery : IterativeSearch × List QueryTarget :=
  if s.complete then (s,[])
  else
    let canSend := alpha-s.inFlight
    if canSend = 0 then (s,[])
    else
      let (w,batch) := s.releaseParkedPage.dispatch canSend
      ({ s with toWalk := w },batch)

def keywordWalkSettled : Bool :=
  s.keywordLookup && s.searchType = .findValue && s.pageQueue.isEmpty && s.parkedPages.isEmpty &&
    s.referralQueue.isEmpty && !s.outstanding.any PendingQuery.isFollowUp &&
    ((s.shortlist.filter ShortlistEntry.pinned).all fun e => e.state = .responded || e.state = .failed) &&
    s.closestHaveResponded && keywordSettleSecs ≤ secsSince now s.lastNewRecord

def finish : IterativeSearch :=
  { s with toHarvest := s.takeSoleContributorsHeld, complete := true }

def exhausted : Bool :=
  !s.shortlist.any (fun e => e.state = .pending) && !s.shortlist.any (fun e => e.state = .inFlight) &&
    (s.pageQueue.isEmpty && s.pagesInFlight == 0) && (s.referralQueue.isEmpty && s.referralsInFlight == 0)

def converged : Bool :=
  s.searchType = .findNode && s.closestHaveResponded && staleResponsesToConverge ≤ s.staleResponses &&
    minResponsesToConverge ≤ s.respondedCount

def checkComplete : IterativeSearch :=
  if s.complete then s
  else if searchTimeoutSecs < secsSince now s.startedAt then s.finish
  else
    let s := { s with toWalk := s.releaseParkedPage }
    if s.exhausted then s.finish
    else if s.converged then { s with complete := true }
    else if s.keywordWalkSettled now then s.finish
    else if s.searchType = .findValue && s.valueBudgetFull then { s with complete := true }
    else s

def pollComplete : IterativeSearch := s.checkComplete now

structure ResponseOutcome where
  accepted : Bool
  newCloser : Bool

def ResponseOutcome.refused : ResponseOutcome := ⟨false,false⟩

def noteSubnet : IterativeSearch :=
  match s.nodeSubnet node with
  | some subnet => { s with responderSubnets := s.responderSubnets.insert node subnet }
  | none => s

def earnedPage (intake : Intake) : Option ValuePage → Walk
  | none => s.toWalk
  | some page =>
    let resume := pageResumeAnchors valueRecords asked.startPosition page.nextPosition
    if 0 < intake.carried then
      s.queueNextPage asked.node ⟨asked.startPosition,asked.resumeAfter⟩ ⟨page.nextPosition,resume⟩
        page.totalAvailable intake.cutShort (0 < intake.deliveredNow)
    else s.toWalk

def takeAnswer (noCloser : Bool)
    (valueRecords : List Bytes) (page : Option ValuePage) : IterativeSearch :=
  -- a referral asked for contacts, as a FIND_NODE does: records and pages under it were not asked for
  let valueAnswerExpected := s.searchType = .findValue && !asked.referral
  let valueRecords := if valueAnswerExpected then valueRecords else []
  let page := if valueAnswerExpected then page else none
  let noted := if valueAnswerExpected then s.noteSubnet asked.node else s
  let intake := takeRecords crypto clock noted asked.node (s.nodeSubnet asked.node)
    (s.perNodeResultAllowance asked.node) valueRecords
  let s := { s with toHarvest := intake.harvest }
  let w := s.earnedPage asked valueRecords intake page
  let owedReferral := !asked.isFollowUp && 0 < intake.carried && noCloser
  { s with toWalk := if owedReferral then w.maybeQueueReferral asked.node else w }

def takeContacts : Walk × Bool :=
  let best := (w.shortlist.head?.map ShortlistEntry.distance).getD (BitVec.allOnes 128)
  let closest := sortByKey (fun c : EmberContact => w.target^^^c.nodeId) closerNodes
  let referred := (w.shortlist.filter fun e => e.referrer = some fromId).length
  let (w,newCloser) := Walk.mergeCloser fromId best closest referred (w,false)
  let w := w.trim
  ({ w with staleResponses := if newCloser then 0 else min 255 (w.staleResponses+1) },newCloser)

def processResponse (page : Option ValuePage) : IterativeSearch × ResponseOutcome :=
  match s.pendingRequests.lookup requestId with
  | none => (s,.refused)
  | some asked =>
    -- a request of another node's is put back as it was
    if asked.node ≠ fromId then (s,.refused)
    else
      let s := { s with toWalk := s.answered requestId fromId }
      let s := takeAnswer crypto clock s asked closerNodes.isEmpty valueRecords page
      let (w,newCloser) := takeContacts s.toWalk fromId closerNodes
      ({ s with toWalk := w }.checkComplete clock.instant,⟨true,newCloser⟩)

def markFailedWith (failure : QueryFailure) : IterativeSearch × Option EmberNodeId :=
  match s.pendingRequests.lookup requestId with
  | none => (s.checkComplete now,none)
  | some asked =>
    if asked.isFollowUp then
      ({ s with toWalk := s.failFollowUp requestId asked failure }.checkComplete now,none)
    else ({ s with toWalk := s.failFirst requestId asked.node failure }.checkComplete now,some asked.node)

def seedRecord (data : Bytes) : Harvest :=
  if maxLocalSeedResults ≤ h.results.length then h
  else if data.length < 17+64 || array 128 (slice data 1 17) != w.target then h
  else
    let blobDigest := crypto.blake3 data
    if blobDigest ∈ h.seenResults ∨ (h.turnedAway.lookup blobDigest).isSome then h
    else
      let share := publisherShare data
      if share.any fun owned => maxPublishersPerFilePerNode ≤ h.publishersTaken.count (localId,owned) then
        { toWalk := w, toHarvest := h : IterativeSearch }.holdTurnedAway localId blobDigest data
      else
        { h with
          publishersTaken := share.elim h.publishersTaken fun owned => h.publishersTaken.bump (localId,owned)
          seenResults := insert blobDigest h.seenResults
          seededCount := h.seededCount+1 }.push blobDigest ⟨data,localId,none,none,none,true⟩

def seedLocalResults (records : List Bytes) : IterativeSearch :=
  let h := { s.toHarvest with localNode := some localId }
  { s with toHarvest := records.foldl (seedRecord crypto s.toWalk localId) h }

def absorbRecord (record : SearchResultRecord) : Harvest :=
  let blobDigest := crypto.blake3 record.data
  if blobDigest ∈ h.seenResults then h
  else { h with
    seenResults := insert blobDigest h.seenResults
    absorbedCount := h.absorbedCount+1 }.push blobDigest record

def absorbResults (records : List SearchResultRecord) : IterativeSearch :=
  { s with toHarvest := records.foldl (absorbRecord crypto) s.toHarvest }

theorem checkComplete_harvest : (s.checkComplete now).toHarvest = s.toHarvest ∨
    ∃ w, (s.checkComplete now).toHarvest = takeSoleContributorsHeld ⟨w,s.toHarvest⟩ := by
  unfold checkComplete
  dsimp only
  split_ifs
  · exact .inl rfl
  · exact .inr ⟨s.toWalk,rfl⟩
  · exact .inr ⟨s.releaseParkedPage,rfl⟩
  · exact .inl rfl
  · exact .inr ⟨s.releaseParkedPage,rfl⟩
  · exact .inl rfl
  · exact .inl rfl

/-- An answer is refused, or it is read by the node that was asked. -/
theorem processResponse_cases (page : Option ValuePage) :
    (processResponse crypto clock s requestId fromId closerNodes valueRecords page).1 = s ∨
    ∃ asked, s.pendingRequests.lookup requestId = some asked ∧ asked.node = fromId ∧
      ∃ s', s' = takeAnswer crypto clock ⟨s.answered requestId asked.node,s.toHarvest⟩ asked closerNodes.isEmpty valueRecords page ∧
        (processResponse crypto clock s requestId fromId closerNodes valueRecords page).1 =
          checkComplete ⟨(takeContacts s'.toWalk asked.node closerNodes).1,s'.toHarvest⟩ clock.instant := by
  unfold processResponse
  split
  · exact .inl rfl
  rename_i asked out
  split
  · exact .inl rfl
  rename_i owner
  obtain rfl := not_not.1 owner
  exact .inr ⟨asked,out,rfl,_,rfl,rfl⟩

theorem markFailedWith_harvest (failure : QueryFailure) :
    ∃ w, (s.markFailedWith now requestId failure).1 = checkComplete ⟨w,s.toHarvest⟩ now := by
  unfold markFailedWith
  split
  · exact ⟨s.toWalk,rfl⟩
  split
  · exact ⟨_,rfl⟩
  · exact ⟨_,rfl⟩

end IterativeSearch

inductive SearchOp where
  | nextToQuery
  | processResponse (clock : Clock) (requestId : UInt32) (fromId : EmberNodeId) (closerNodes : List EmberContact)
      (valueRecords : List Bytes) (page : Option ValuePage)
  | markFailedWith (now : Instant) (requestId : UInt32) (failure : QueryFailure)
  | seedExtraContacts (contacts : List EmberContact)
  | pollComplete (now : Instant)
  | seedLocalResults (localId : EmberNodeId) (records : List Bytes)
  | absorbResults (records : List SearchResultRecord)
  | markKeywordLookup

namespace IterativeSearch

variable (crypto : Crypto) (s : IterativeSearch)

def step : SearchOp → IterativeSearch × List QueryTarget
  | .nextToQuery => s.nextToQuery
  | .processResponse clock requestId fromId closerNodes valueRecords page =>
    ((processResponse crypto clock s requestId fromId closerNodes valueRecords page).1,[])
  | .markFailedWith now requestId failure => ((s.markFailedWith now requestId failure).1,[])
  | .seedExtraContacts contacts => ({ s with toWalk := (s.toWalk.seedExtraContacts contacts).1 },[])
  | .pollComplete now => (s.pollComplete now,[])
  | .seedLocalResults localId records => (seedLocalResults crypto s localId records,[])
  | .absorbResults records => (absorbResults crypto s records,[])
  | .markKeywordLookup => ({ s with keywordLookup := true },[])

def run (ops : List SearchOp) : IterativeSearch × List QueryTarget :=
  ops.foldl (fun state op => ((state.1.step crypto op).1,state.2++(state.1.step crypto op).2)) (s,[])

end IterativeSearch
end Ember.Dht
