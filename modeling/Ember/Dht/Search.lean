import Ember.Dht.Contact
import Ember.Dht.FindValue

/-! The state of an iterative search. The walk decides whom to ask next: the shortlist, the requests
out and the pages and referrals owed. The harvest is what the answers brought: the records taken and
the books that ration them. -/
namespace Ember.Dht
open Bytes Table List
attribute [local instance] nodeId_lawful

def alpha : Nat := 5
def searchTimeoutSecs : Nat := 60
def maxSearchResults : Nat := 300
def maxSearchResultBlobs : Nat := maxSearchResults*4
def maxLocalSeedResults : Nat := maxSearchResults/2
def maxResultsPerNode : Nat := maxSearchResults/4
def maxPublishersPerFilePerNode : Nat := 5
def maxConfirmedPerFilePerNode : Nat := 4*maxPublishersPerFilePerNode
def maxQueryAttempts : Nat := 2
def maxShortlistEntriesPerReferrer : Nat := (kBucketSize+alpha-1)/alpha
def maxPinnedExtraContacts : Nat := kBucketSize/2
def staleResponsesToConverge : Nat := alpha
def recordsPerUnfragmentedPage : Nat := 3
def minRecordsPerPageToContinue : Nat := 2
def maxPagesPerNode : Nat := maxResultsPerNode/recordsPerUnfragmentedPage
def maxPagesPerNodeExhausted : Nat := maxSearchResults/recordsPerUnfragmentedPage
def minResponsesToConverge : Nat := kBucketSize/2
def keywordSettleSecs : Nat := 5

/-- A reading of the monotonic clock, in nanoseconds. -/
abbrev Instant := Nat

def secsSince (now earlier : Instant) : Nat := (now-earlier)/1000000000

structure Clock where
  instant : Instant
  unix : Int

/-- The hash and the signature check the searcher relies on. -/
structure Crypto where
  blake3 : Bytes → Digest
  verifyingKeyFromBytes : PublisherKey → Option PublisherKey
  verify : PublisherKey → Bytes → Signature → Bool

inductive QueryFailure where
  | timedOut
  | notSent
  | handshakeNeverCompleted
  deriving DecidableEq

inductive NodeState where
  | pending
  | inFlight
  | responded
  | failed
  deriving DecidableEq

inductive SearchType where
  | findNode
  | findValue
  deriving DecidableEq

structure ShortlistEntry where
  contact : EmberContact
  distance : EmberNodeId
  state : NodeState
  pinned : Bool
  referrer : Option EmberNodeId
  deriving DecidableEq

structure ValuePage where
  nextPosition : Nat
  totalAvailable : Nat

structure QueryTarget where
  contact : EmberContact
  requestId : UInt32
  startPosition : Nat
  resumeAfter : ResumeAnchors
  findNode : Bool
  narrow : Bool

structure PendingQuery where
  node : EmberNodeId
  startPosition : Nat
  resumeAfter : ResumeAnchors
  backed : Bool
  referral : Bool
  deriving DecidableEq

namespace PendingQuery

def isPage (query : PendingQuery) : Bool := 0 < query.startPosition

def isFollowUp (query : PendingQuery) : Bool := query.isPage || query.referral

end PendingQuery

structure OwedPage where
  node : EmberNodeId
  start : Nat
  resumeAfter : ResumeAnchors
  backed : Bool

structure SearchResultRecord where
  data : Bytes
  fromNode : EmberNodeId
  confirmedBy : Option EmberNodeId
  fromSubnet : Option Nat
  confirmedSubnet : Option Nat
  fromLocalStore : Bool

structure Walk where
  searchType : SearchType
  target : EmberNodeId
  shortlist : List ShortlistEntry
  startedAt : Instant
  queried : Finset EmberNodeId := ∅
  attempts : Table EmberNodeId Nat := ∅
  complete : Bool := false
  nextRequestId : UInt32 := 1
  pendingRequests : Table UInt32 PendingQuery := ∅
  pageQueue : List OwedPage := []
  parkedPages : List OwedPage := []
  pageTurnOwed : Bool := false
  pagesQueued : Table EmberNodeId Nat := ∅
  pageAttempts : Table (EmberNodeId × Nat) Nat := ∅
  staleResponses : Nat := 0
  seedRoundDone : Bool := false
  referralQueue : List EmberNodeId := []
  referred : Finset EmberNodeId := ∅
  keywordLookup : Bool := false
  broadNodes : Finset EmberNodeId := ∅

structure Harvest where
  lastNewRecord : Instant
  results : List SearchResultRecord := []
  seenResults : Finset Digest := ∅
  resultSlots : Table Digest Nat := ∅
  publishersTaken : Table (EmberNodeId × FileHash × Digest) Nat := ∅
  turnedAway : Table Digest (EmberNodeId × Option Nat) := ∅
  confirmationsTaken : Table (EmberNodeId × FileHash × Digest) Nat := ∅
  responderSubnets : Table EmberNodeId Nat := ∅
  soleHeld : List (Digest × Bytes) := []
  contributors : List EmberNodeId := []
  localNode : Option EmberNodeId := none
  heldDelivered : Table EmberNodeId Nat := ∅
  offeredResults : Table EmberNodeId Nat := ∅
  deliveredResults : Table EmberNodeId Nat := ∅
  seededCount : Nat := 0
  budgetSpent : Finset FileHash := ∅
  absorbedCount : Nat := 0

structure IterativeSearch extends Walk, Harvest

def sortByKey {α β : Type} [LE β] [DecidableLE β] (key : α → β) (xs : List α) : List α :=
  xs.insertionSort fun a b => key a ≤ key b

namespace ShortlistEntry

def nodeId (entry : ShortlistEntry) : EmberNodeId := entry.contact.nodeId

/-- Pinned session peers, then verified contacts, then mute leads. -/
def seedClass (entry : ShortlistEntry) : Nat :=
  if entry.pinned then 0 else if entry.contact.isVerified then 1 else 2

end ShortlistEntry

def setState (node : EmberNodeId) (state : NodeState) : List ShortlistEntry → List ShortlistEntry
  | [] => []
  | entry :: rest =>
    if entry.nodeId = node then { entry with state := state } :: rest else entry :: setState node state rest

namespace Walk
variable (w : Walk) (owed : OwedPage) (contact : EmberContact) (i : Nat) (entry : ShortlistEntry) (canSend : Nat)
  (seedRound : Bool) (near : List EmberNodeId) (prefer : Nat) (state : Walk × List QueryTarget) (node : EmberNodeId)
  (narrow : Bool)

def outstanding : List PendingQuery := w.pendingRequests.values

def pagesInFlight : Nat := (w.outstanding.filter PendingQuery.isPage).length

def referralsInFlight : Nat := (w.outstanding.filter PendingQuery.referral).length

def inFlight (w : Walk) : Nat :=
  (w.shortlist.filter fun e => e.state = .inFlight).length+w.pagesInFlight+w.referralsInFlight

def unasked : Bool := entry.state = .pending && entry.nodeId ∉ w.queried

def canStillDescend : Bool :=
  !w.referralQueue.isEmpty || 0 < w.referralsInFlight ||
    w.shortlist.any fun e => e.state = .inFlight || w.unasked e

def pagesOwedElsewhere : Bool :=
  w.pageQueue.any (fun p => p.backed && p.node != node) ||
    w.outstanding.any fun p => p.isPage && p.backed && p.node != node

def shareBinds : Bool := w.canStillDescend || w.pagesOwedElsewhere node

def closest : List ShortlistEntry :=
  (w.shortlist.filter fun e => e.state ≠ .failed).take kBucketSize

def closestHaveResponded : Bool := w.closest.all fun e => e.state = .responded

def respondedCount : Nat := (w.shortlist.filter fun e => e.state = .responded).length

def contactOf : Option EmberContact :=
  (w.shortlist.find? fun e => e.nodeId = node).map ShortlistEntry.contact

def maybeQueueReferral : Walk :=
  if w.searchType ≠ .findValue ∨ node ∈ w.referred then w
  else if w.closest.any fun e => e.nodeId = node then
    { w with referred := insert node w.referred, referralQueue := w.referralQueue++[node] }
  else w

def chargePage (page : OwedPage) : Walk :=
  { w with pagesQueued := w.pagesQueued.bump page.node, pageQueue := w.pageQueue++[page] }

def parkPage (start : Nat) (resumeAfter : ResumeAnchors) : Walk :=
  if w.parkedPages.any fun p => p.node = node then w
  else { w with parkedPages := w.parkedPages++[⟨node,start,resumeAfter,false⟩] }

/-- Puts a parked page back on the queue, charged like any page, its retries counted afresh. -/
def unparkPage (parked : OwedPage) (rest : List OwedPage) : Walk :=
  { w with
    parkedPages := rest
    pagesQueued := w.pagesQueued.bump parked.node
    pageAttempts := w.pageAttempts.erase (parked.node,parked.start)
    pageQueue := w.pageQueue++[parked] }

def register (query : PendingQuery) : Walk :=
  { w with
    nextRequestId := w.nextRequestId+1
    pendingRequests := w.pendingRequests.insert w.nextRequestId query }

def sendPage : Walk :=
  { w with pageAttempts := w.pageAttempts.bump (owed.node,owed.start) }.register
    ⟨owed.node,owed.start,owed.resumeAfter,owed.backed,false⟩

def pageTarget : QueryTarget :=
  ⟨contact,w.nextRequestId,owed.start,owed.resumeAfter,false,owed.node ∉ w.broadNodes⟩

def sendPages (budget : Nat) : List OwedPage → List OwedPage → Walk × List QueryTarget → Walk × List QueryTarget
  | [], skipped, (w,batch) => ({ w with pageQueue := skipped },batch)
  | owed :: rest, skipped, (w,batch) =>
    if batch.length < budget then
      match w.contactOf owed.node with
      | none => sendPages budget rest (skipped++[owed]) (w,batch)
      | some contact => sendPages budget rest skipped (w.sendPage owed,batch++[w.pageTarget owed contact])
    else ({ w with pageQueue := owed :: rest++skipped },batch)

def sendReferral : Walk := w.register ⟨node,0,{},false,true⟩

def referralTarget : QueryTarget :=
  ⟨contact,w.nextRequestId,0,{},true,false⟩

def sendReferrals (canSend : Nat) : List EmberNodeId → Walk × List QueryTarget → Walk × List QueryTarget
  | [], (w,batch) => ({ w with referralQueue := [] },batch)
  | node :: rest, (w,batch) =>
    if batch.length < canSend then
      match w.shortlist.find? fun e => e.nodeId = node ∧ e.state = .responded with
      | none => sendReferrals canSend rest (w,batch)
      | some entry => sendReferrals canSend rest (w.sendReferral node,batch++[w.referralTarget entry.contact])
    else ({ w with referralQueue := node :: rest },batch)

def markBreadth : Finset EmberNodeId :=
  if narrow then w.broadNodes.erase node
  else if w.searchType = .findValue then insert node w.broadNodes
  else w.broadNodes

def ask : Walk :=
  { w with
    shortlist := w.shortlist.set i { entry with state := .inFlight }
    queried := insert entry.nodeId w.queried
    attempts := w.attempts.bump entry.nodeId
    broadNodes := w.markBreadth entry.nodeId narrow }.register
    ⟨entry.nodeId,0,{},false,false⟩

def firstTarget : QueryTarget :=
  ⟨entry.contact,w.nextRequestId,0,{},false,narrow⟩

def askEntry (i : Nat) : Walk × List QueryTarget :=
  match state.1.shortlist[i]? with
  | none => state
  | some entry =>
    if canSend ≤ state.2.length then state
    else if seedRound && entry.seedClass != prefer then state
    else if state.1.unasked entry then
      let narrow := entry.pinned || decide (entry.nodeId ∈ near)
      (state.1.ask i entry narrow,state.2++[state.1.firstTarget entry narrow])
    else state

def askPass
    (prefer : Nat) : Walk × List QueryTarget :=
  (range state.1.shortlist.length).foldl (askEntry canSend seedRound near prefer) state

def askShortlist : Walk × List QueryTarget :=
  let seedRound := !state.1.seedRoundDone
  let near := if state.1.searchType = .findValue then state.1.closest.map ShortlistEntry.nodeId else []
  (range (if seedRound then 3 else 1)).foldl (askPass canSend seedRound near) state

def pageBudget : Nat :=
  let hasDescent := !w.referralQueue.isEmpty || w.shortlist.any w.unasked
  let share := if hasDescent then canSend/2 else canSend
  if share = 0 ∧ w.pageTurnOwed then 1 else share

def dispatch : Walk × List QueryTarget :=
  let (w,batch) := sendPages (w.pageBudget canSend) w.pageQueue [] (w,[])
  let pagesSent := batch.length
  let w := if 0 < pagesSent then { w with pageTurnOwed := false } else w
  if canSend ≤ pagesSent then (w,batch)
  else
    let pageWaiting := !w.pageQueue.isEmpty
    let (w,batch) := askShortlist canSend (sendReferrals canSend w.referralQueue (w,batch))
    if pagesSent < batch.length then
      ({ w with seedRoundDone := true, pageTurnOwed := w.pageTurnOwed || pageWaiting },batch)
    else (w,batch)

end Walk
end Ember.Dht
