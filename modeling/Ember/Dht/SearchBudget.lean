import Ember.Dht.SearchDrive

/-! The ceilings of a search's harvest: the files and blobs it takes from the network, and the
records one node may offer. -/
namespace Ember.Dht
open Table List

namespace Harvest

structure Budget (h : Harvest) : Prop where
  spent : h.budgetSpent.card ≤ maxSearchResults
  ours : h.seededCount+h.absorbedCount ≤ h.results.length
  blobs : h.results.length ≤ h.seededCount+h.absorbedCount+maxSearchResultBlobs

structure Unspent (h h' : Harvest) : Prop where
  budgetSpent : h'.budgetSpent = h.budgetSpent
  results : h'.results.length = h.results.length
  seededCount : h'.seededCount = h.seededCount
  absorbedCount : h'.absorbedCount = h.absorbedCount
  offeredResults : h'.offeredResults = h.offeredResults

variable {h h' h'' : Harvest}

theorem Unspent.refl (h : Harvest) : Unspent h h := ⟨rfl,rfl,rfl,rfl,rfl⟩

theorem Unspent.trans (first : Unspent h h') (second : Unspent h' h'') : Unspent h h'' :=
  ⟨second.1.trans first.1,second.2.trans first.2,second.3.trans first.3,second.4.trans first.4,second.5.trans first.5⟩

theorem Unspent.budget (same : Unspent h h') (budget : h.Budget) : h'.Budget := by
  refine ⟨?_,?_,?_⟩
  · rw [same.budgetSpent]
    exact budget.spent
  · rw [same.seededCount,same.absorbedCount,same.results]
    exact budget.ours
  · rw [same.seededCount,same.absorbedCount,same.results]
    exact budget.blobs

theorem noteContributor_unspent (h : Harvest) (node : EmberNodeId) : Unspent h (h.noteContributor node) := by
  unfold noteContributor
  split
  · exact .refl h
  · exact ⟨rfl,rfl,rfl,rfl,rfl⟩

theorem valueBudgetFull_false (room : h.valueBudgetFull = false) :
    h.budgetSpent.card < maxSearchResults ∧ h.results.length < h.seededCount+h.absorbedCount+maxSearchResultBlobs := by
  simp only [valueBudgetFull,remoteBlobs,Bool.or_eq_false_iff,decide_eq_false_iff_not,not_le] at room
  refine ⟨room.1,?_⟩
  have fewer := of_decide_eq_false room.2
  omega

theorem Budget.take (budget : h.Budget) (room : h.valueBudgetFull = false) (identity : FileHash)
    (spent : h'.budgetSpent = insert identity h.budgetSpent) (results : h'.results.length = h.results.length+1)
    (seeded : h'.seededCount = h.seededCount) (absorbed : h'.absorbedCount = h.absorbedCount) : h'.Budget := by
  obtain ⟨fewer,less⟩ := valueBudgetFull_false room
  have ours := budget.ours
  refine ⟨?_,?_,?_⟩
  · rw [spent]
    exact (Finset.card_insert_le ..).trans fewer
  · omega
  · omega

theorem Budget.own (budget : h.Budget) (spent : h'.budgetSpent = h.budgetSpent)
    (results : h'.results.length = h.results.length+1)
    (ours : h'.seededCount+h'.absorbedCount = h.seededCount+h.absorbedCount+1) : h'.Budget := by
  refine ⟨?_,?_,?_⟩
  · rw [spent]
    exact budget.spent
  · rw [ours,results]
    exact Nat.add_le_add_right budget.ours 1
  · have blobs := budget.blobs
    omega

end Harvest

namespace IterativeSearch
open Harvest
variable {fromId : EmberNodeId} {allowance : Nat} {h h' : Harvest} (crypto : Crypto) (clock : Clock) (w : Walk)
  (s : IterativeSearch) (now : Instant) (node : EmberNodeId)

theorem holdTurnedAway_unspent (blobDigest : Digest) (data : Bytes) :
    Unspent s.toHarvest (s.holdTurnedAway node blobDigest data) := by
  have noted := s.toHarvest.noteContributor_unspent node
  unfold holdTurnedAway
  dsimp only
  split
  · exact noted.trans ⟨rfl,rfl,rfl,rfl,rfl⟩
  · exact noted.trans ⟨rfl,rfl,rfl,rfl,rfl⟩

theorem confirm_unspent (fromId : EmberNodeId) (fromSubnet : Option Nat) (blobDigest : Digest) :
    Unspent s.toHarvest (s.confirm fromId fromSubnet blobDigest) := by
  unfold confirm
  split
  · exact .refl _
  refine Unspent.trans ?_ (noteContributor_unspent _ fromId)
  split
  · exact ⟨rfl,length_set ..,rfl,rfl,rfl⟩
  · exact .refl _

theorem keep_budget (budget : h.Budget) (fromId : EmberNodeId) (fromSubnet : Option Nat)
    (blobDigest : Digest) (data : Bytes) (unlocked prior : Option EmberNodeId) (share : Option (FileHash × Digest)) :
    (keep clock h fromId fromSubnet blobDigest data unlocked prior share).Budget ∧
      (keep clock h fromId fromSubnet blobDigest data unlocked prior share).offeredResults = h.offeredResults := by
  unfold keep
  split
  · exact ⟨budget,rfl⟩
  rename_i room
  rw [Bool.not_eq_true] at room
  exact ⟨budget.take room (budgetIdentity data blobDigest) rfl (length_append ..) rfl rfl,rfl⟩

theorem weigh_budget (budget : s.Budget) (fromId : EmberNodeId)
    (fromSubnet : Option Nat) (blobDigest : Digest) (data : Bytes) (unlocked prior : Option EmberNodeId) :
    (weigh crypto clock s fromId fromSubnet blobDigest data unlocked prior).1.Budget ∧
      (weigh crypto clock s fromId fromSubnet blobDigest data unlocked prior).1.offeredResults =
        s.offeredResults.bump fromId := by
  have charged : (s.chargeOffer fromId).Budget := { budget with }
  unfold weigh
  dsimp only
  generalize (if unlocked.isNone then publisherShare data else none) = share
  split
  · exact ⟨charged,rfl⟩
  split
  · split
    · have held := holdTurnedAway_unspent { s with toHarvest := s.chargeOffer fromId } fromId blobDigest data
      exact ⟨held.budget charged,held.offeredResults⟩
    · exact ⟨charged,rfl⟩
  split
  · exact ⟨{ charged with },rfl⟩
  generalize noted : noteContributor _ fromId = h
  have same := noted ▸ noteContributor_unspent _ fromId
  obtain ⟨kept,offered⟩ := keep_budget clock (same.budget { charged with }) fromId fromSubnet
    blobDigest data unlocked prior share
  exact ⟨kept,offered.trans same.offeredResults⟩

def Charged (fromId : EmberNodeId) (allowance : Nat) (h h' : Harvest) : Prop :=
  ∀ node, h'.offeredResults.count node ≤
    if node = fromId then max (h.offeredResults.count node) allowance else h.offeredResults.count node

theorem Charged.of_eq (fromId : EmberNodeId) (allowance : Nat)
    (same : h'.offeredResults = h.offeredResults) : Charged fromId allowance h h' := by
  intro node
  rw [same]
  split
  · exact le_max_left ..
  · exact le_rfl

theorem Charged.trans {h'' : Harvest}
    (first : Charged fromId allowance h h') (second : Charged fromId allowance h' h'') :
    Charged fromId allowance h h'' := by
  intro node
  have before := first node
  have after := second node
  split at before <;> split at after <;> simp_all <;> omega

theorem Charged.bump
    (room : h.offeredResults.count fromId < allowance) (charged : h'.offeredResults = h.offeredResults.bump fromId) :
    Charged fromId allowance h h' := by
  intro node
  rw [charged,count_bump]
  split
  · rename_i same
    subst same
    exact le_max_of_le_right room
  · exact le_rfl

theorem takeRecord_budget (fromId : EmberNodeId) (fromSubnet : Option Nat)
    (allowance : Nat) (intake : Intake) (data : Bytes) (budget : intake.harvest.Budget) :
    (takeRecord crypto clock w fromId fromSubnet allowance intake data).harvest.Budget ∧
      Charged fromId allowance intake.harvest
        (takeRecord crypto clock w fromId fromSubnet allowance intake data).harvest := by
  have same := Charged.of_eq (h := intake.harvest) fromId allowance rfl
  unfold takeRecord
  dsimp only
  split
  · exact ⟨budget,same⟩
  split
  · exact ⟨budget,same⟩
  rename_i room
  rw [not_le] at room
  split
  · have confirmed := confirm_unspent { toWalk := w, toHarvest := intake.harvest } fromId fromSubnet (crypto.blake3 data)
    exact ⟨confirmed.budget budget,.of_eq fromId allowance confirmed.offeredResults⟩
  have weighed := weigh_budget crypto clock { toWalk := w, toHarvest := intake.harvest } budget fromId fromSubnet
    (crypto.blake3 data) data
  split
  · exact ⟨(weighed none none).1,.bump room (weighed none none).2⟩
  split
  · exact ⟨budget,same⟩
  split
  · exact ⟨{ budget with },.bump room rfl⟩
  · exact ⟨(weighed ..).1,.bump room (weighed ..).2⟩

theorem takeRecords_budget (budget : s.Budget)
    (fromId : EmberNodeId) (fromSubnet : Option Nat) (allowance : Nat) (records : List Bytes) :
    (takeRecords crypto clock s fromId fromSubnet allowance records).harvest.Budget ∧
      Charged fromId allowance s.toHarvest (takeRecords crypto clock s fromId fromSubnet allowance records).harvest := by
  unfold takeRecords
  generalize start : ({ harvest := s.toHarvest } : Intake) = intake
  have same : intake.harvest = s.toHarvest := start ▸ rfl
  rw [← same] at budget ⊢
  clear start same
  induction records generalizing intake with
  | nil => exact ⟨budget,.of_eq fromId allowance rfl⟩
  | cons data rest ih =>
    obtain ⟨kept,charged⟩ := takeRecord_budget crypto clock s.toWalk fromId fromSubnet allowance intake data budget
    obtain ⟨ended,more⟩ := ih _ kept
    exact ⟨ended,charged.trans more⟩

theorem takeHeld_budget (seeded : Bool) (held : List (Digest × Bytes)) (h : Harvest) (budget : h.Budget) :
    (takeHeld s node seeded held h).Budget ∧ (takeHeld s node seeded held h).offeredResults = h.offeredResults := by
  induction held generalizing h with
  | nil => exact ⟨budget,rfl⟩
  | cons entry rest ih =>
    obtain ⟨blobDigest,data⟩ := entry
    unfold takeHeld
    generalize full : (if seeded then decide (maxLocalSeedResults ≤ h.seededCount) else h.valueBudgetFull) = stop
    split
    · exact ⟨budget,rfl⟩
    rename_i room
    rw [Bool.not_eq_true] at room
    split
    · exact ih h budget
    dsimp only
    split
    · exact ih _ { budget with }
    cases seeded with
    | true =>
      exact ih _ (budget.own rfl (length_append ..) (Nat.add_right_comm h.seededCount 1 h.absorbedCount))
    | false =>
      exact ih _ (budget.take (full.trans room) (budgetIdentity data blobDigest) rfl (length_append ..) rfl rfl)

theorem takeSoleContributorsHeld_budget (budget : s.Budget) :
    s.takeSoleContributorsHeld.Budget ∧ s.takeSoleContributorsHeld.offeredResults = s.offeredResults := by
  unfold takeSoleContributorsHeld
  split
  · exact ⟨budget,rfl⟩
  dsimp only
  split
  · exact ⟨budget,rfl⟩
  split
  · exact ⟨{ budget with },rfl⟩
  · exact takeHeld_budget s _ _ _ _ { budget with }

theorem checkComplete_budget (budget : s.Budget) :
    (s.checkComplete now).Budget ∧ (s.checkComplete now).offeredResults = s.offeredResults := by
  obtain same | ⟨w,same⟩ := s.checkComplete_harvest now
  · rw [same]
    exact ⟨budget,rfl⟩
  · rw [same]
    exact takeSoleContributorsHeld_budget ⟨w,s.toHarvest⟩ budget

theorem noteSubnet_unspent : Unspent s.toHarvest (s.noteSubnet node).toHarvest := by
  unfold noteSubnet
  split
  · exact ⟨rfl,rfl,rfl,rfl,rfl⟩
  · exact .refl _

theorem takeAnswer_budget (budget : s.Budget)
    (asked : PendingQuery) (noCloser : Bool) (valueRecords : List Bytes) (page : Option ValuePage) :
    (takeAnswer crypto clock s asked noCloser valueRecords page).Budget ∧
      Charged asked.node (s.perNodeResultAllowance asked.node) s.toHarvest
        (takeAnswer crypto clock s asked noCloser valueRecords page).toHarvest := by
  unfold takeAnswer
  dsimp only
  have noted : Unspent s.toHarvest
      (if s.searchType = .findValue && !asked.referral then s.noteSubnet asked.node else s).toHarvest := by
    split
    · exact s.noteSubnet_unspent asked.node
    · exact .refl _
  generalize (if s.searchType = .findValue && !asked.referral then s.noteSubnet asked.node else s) = s' at noted ⊢
  have taken := takeRecords_budget crypto clock s' (noted.budget budget) asked.node (s.nodeSubnet asked.node)
    (s.perNodeResultAllowance asked.node)
  exact ⟨(taken _).1,(Charged.of_eq _ _ noted.offeredResults).trans (taken _).2⟩

theorem processResponse_budget (crypto : Crypto) (clock : Clock) (s : IterativeSearch) (budget : s.Budget)
    (requestId : UInt32) (fromId : EmberNodeId) (closerNodes : List EmberContact) (valueRecords : List Bytes)
    (page : Option ValuePage) :
    let s' := (processResponse crypto clock s requestId fromId closerNodes valueRecords page).1
    s'.Budget ∧ (s' = s ∨ (s.pendingRequests.lookup requestId).map PendingQuery.node = some fromId ∧
      Charged fromId (perNodeResultAllowance { s with toWalk := s.answered requestId fromId } fromId)
        s.toHarvest s'.toHarvest) := by
  obtain same | ⟨asked,out,rfl,s',read,same⟩ := processResponse_cases crypto clock s requestId fromId closerNodes valueRecords page
  · rw [same]
    exact ⟨budget,.inl rfl⟩
  have taken := takeAnswer_budget crypto clock ⟨s.answered requestId asked.node,s.toHarvest⟩ budget asked
    closerNodes.isEmpty valueRecords page
  rw [← read] at taken
  rw [same]
  have ended := checkComplete_budget ⟨(takeContacts s'.toWalk asked.node closerNodes).1,s'.toHarvest⟩ clock.instant taken.1
  exact ⟨ended.1,.inr ⟨by rw [out]; rfl,taken.2.trans (.of_eq _ _ ended.2)⟩⟩

theorem nextToQuery_harvest : s.nextToQuery.1.toHarvest = s.toHarvest := by
  unfold nextToQuery
  split
  · rfl
  dsimp only
  split
  · rfl
  · rfl

theorem seedRecord_budget (localId : EmberNodeId) (h : Harvest) (data : Bytes)
    (budget : h.Budget) : (seedRecord crypto w localId h data).Budget ∧
      (seedRecord crypto w localId h data).offeredResults = h.offeredResults := by
  unfold seedRecord
  split
  · exact ⟨budget,rfl⟩
  split
  · exact ⟨budget,rfl⟩
  dsimp only
  split
  · exact ⟨budget,rfl⟩
  split
  · have held := holdTurnedAway_unspent { toWalk := w, toHarvest := h } localId (crypto.blake3 data) data
    exact ⟨held.budget budget,held.offeredResults⟩
  · exact ⟨budget.own rfl (length_append ..) (Nat.add_right_comm h.seededCount 1 h.absorbedCount),rfl⟩

theorem absorbRecord_budget (h : Harvest) (record : SearchResultRecord) (budget : h.Budget) :
    (absorbRecord crypto h record).Budget ∧ (absorbRecord crypto h record).offeredResults = h.offeredResults := by
  unfold absorbRecord
  dsimp only
  split
  · exact ⟨budget,rfl⟩
  · exact ⟨budget.own rfl (length_append ..) rfl,rfl⟩

private theorem foldl_budget {α : Type} {f : Harvest → α → Harvest}
    (each : ∀ h x, h.Budget → (f h x).Budget ∧ (f h x).offeredResults = h.offeredResults) (xs : List α) (h : Harvest)
    (budget : h.Budget) : (xs.foldl f h).Budget ∧ (xs.foldl f h).offeredResults = h.offeredResults := by
  induction xs generalizing h with
  | nil => exact ⟨budget,rfl⟩
  | cons x rest ih =>
    obtain ⟨kept,same⟩ := each h x budget
    obtain ⟨ended,same'⟩ := ih _ kept
    exact ⟨ended,same'.trans same⟩

theorem perNodeResultAllowance_le : s.perNodeResultAllowance node ≤ maxSearchResults := by
  unfold perNodeResultAllowance
  split
  · decide
  · exact le_rfl

/-- If a call accepts an answer of `node`, the quarter share binds the node then. -/
def ShareBindsAt (s : IterativeSearch) (node : EmberNodeId) : SearchOp → Prop
  | .processResponse _ requestId fromId _ _ _ =>
    fromId = node → (s.pendingRequests.lookup requestId).map PendingQuery.node = some fromId →
      (s.answered requestId fromId).shareBinds fromId = true
  | _ => True

theorem step_budget (op : SearchOp) (budget : s.Budget) : (s.step crypto op).1.Budget ∧ ∀ node,
      (s.step crypto op).1.offeredResults.count node ≤ max (s.offeredResults.count node) maxSearchResults ∧
      (s.ShareBindsAt node op →
        (s.step crypto op).1.offeredResults.count node ≤ max (s.offeredResults.count node) maxResultsPerNode) := by
  have still {h : Harvest} (kept : h.Budget ∧ h.offeredResults = s.offeredResults) node :
      h.offeredResults.count node ≤ max (s.offeredResults.count node) maxSearchResults ∧
        (s.ShareBindsAt node op → h.offeredResults.count node ≤ max (s.offeredResults.count node) maxResultsPerNode) := by
    rw [kept.2]
    exact ⟨le_max_left ..,fun _ => le_max_left ..⟩
  cases op with
  | nextToQuery =>
    have same := s.nextToQuery_harvest
    have kept : s.nextToQuery.1.Budget ∧ s.nextToQuery.1.offeredResults = s.offeredResults := by
      rw [same]
      exact ⟨budget,rfl⟩
    exact ⟨kept.1,still kept⟩
  | processResponse clock requestId fromId closerNodes valueRecords page =>
    obtain ⟨kept,same | ⟨accepted,charged⟩⟩ :=
      processResponse_budget crypto clock s budget requestId fromId closerNodes valueRecords page
    · exact ⟨kept,still ⟨kept,congrArg (fun s => s.offeredResults) same⟩⟩
    refine ⟨kept,fun node => ?_⟩
    have spent := charged node
    by_cases mine : node = fromId
    · subst mine
      rw [if_pos rfl] at spent
      refine ⟨spent.trans (max_le_max le_rfl (perNodeResultAllowance_le ..)),fun binds => ?_⟩
      rw [perNodeResultAllowance,binds rfl accepted] at spent
      exact spent
    · rw [if_neg mine] at spent
      exact ⟨spent.trans (le_max_left ..),fun _ => spent.trans (le_max_left ..)⟩
  | markFailedWith now requestId failure =>
    obtain ⟨w,same⟩ := s.markFailedWith_harvest now requestId failure
    rw [step,same]
    have kept := checkComplete_budget ⟨w,s.toHarvest⟩ now budget
    exact ⟨kept.1,still kept⟩
  | seedExtraContacts contacts => exact ⟨budget,still ⟨budget,rfl⟩⟩
  | pollComplete now =>
    have kept := s.checkComplete_budget now budget
    exact ⟨kept.1,still kept⟩
  | seedLocalResults localId records =>
    have kept := foldl_budget (seedRecord_budget crypto s.toWalk localId) records
      { s.toHarvest with localNode := some localId } { budget with }
    exact ⟨kept.1,still kept⟩
  | absorbResults records =>
    have kept := foldl_budget (absorbRecord_budget crypto) records s.toHarvest budget
    exact ⟨kept.1,still kept⟩
  | markKeywordLookup => exact ⟨budget,still ⟨budget,rfl⟩⟩

end IterativeSearch
end Ember.Dht
