import Ember.Dht.SearchProgress
import Ember.Dht.SearchPresence

/-! One host's word stays one word. What a search holds is authentic and filed under its key, a
confirmation comes from another block than the record did, and one node's unconfirmed word on a
file is rationed. -/
namespace Ember.Dht
open Bytes Table List Option AList

def filedUnder (data : Bytes) : EmberNodeId := array 128 (slice data 1 17)

/-- Two nodes that are not one host: one is our own store, or they answered from different blocks. -/
def Independent (own : EmberNodeId → Prop) (heard : EmberNodeId → Nat → Prop) (a b : EmberNodeId) : Prop :=
  own a ∨ own b ∨ ∃ x y, heard a x ∧ heard b y ∧ x ≠ y

namespace Harvest

/-- What a harvest says of its nodes, given our own ids and the blocks nodes answered from. -/
structure Word (crypto : Crypto) (target : EmberNodeId) (own : EmberNodeId → Prop) (heard : EmberNodeId → Nat → Prop)
    (h : Harvest) : Prop where
  ours : ∀ node, h.localNode = some node → own node
  blocks : ∀ node subnet, h.responderSubnets.lookup node = some subnet → heard node subnet
  seen : ∀ r ∈ h.results, crypto.blake3 r.data ∈ h.seenResults
  distinct : (h.results.map SearchResultRecord.data).Nodup
  filed : ∀ r ∈ h.results, filedUnder r.data = target
  authentic : ∀ r ∈ h.results, r.fromLocalStore = false → valueBlobIsAuthentic crypto r.data = true
  sources : ∀ r ∈ h.results, own r.fromNode ∨ (h.responderSubnets.lookup r.fromNode).isSome
  voices : ∀ node ∈ h.contributors, own node ∨ (h.responderSubnets.lookup node).isSome
  confirmed : ∀ r ∈ h.results, ∀ c, r.confirmedBy = some c → c ≠ r.fromNode ∧ Independent own heard r.fromNode c
  away : ∀ digest node subnet, h.turnedAway.lookup digest = some (node,subnet) →
    own node ∨ ∃ block, subnet = some block ∧ h.responderSubnets.lookup node = some block
  held : ∀ entry ∈ h.soleHeld, crypto.blake3 entry.2 = entry.1 ∧ filedUnder entry.2 = target ∧
    (h.contributors ≠ [] → valueBlobIsAuthentic crypto entry.2 = true)

def unconfirmed (h : Harvest) (node : EmberNodeId) (owned : FileHash × Digest) : Nat :=
  h.results.countP fun r => r.fromNode = node && r.confirmedBy.isNone && publisherShare r.data = some owned

/-- Every unconfirmed record is charged to its node's share of the file, and none is overdrawn. -/
structure Rationed (h : Harvest) : Prop where
  charged : ∀ node owned, h.unconfirmed node owned ≤ h.publishersTaken.count (node,owned)
  capped : ∀ node owned, h.publishersTaken.count (node,owned) ≤ maxPublishersPerFilePerNode

variable {crypto : Crypto} {target : EmberNodeId} {own own' : EmberNodeId → Prop} {heard heard' : EmberNodeId → Nat → Prop}
  {h : Harvest}
variable {h' : Harvest} {node : EmberNodeId} {record : SearchResultRecord}

theorem Word.mono (word : h.Word crypto target own heard) (owned : ∀ node, own node → own' node)
    (answered : ∀ node subnet, heard node subnet → heard' node subnet) : h.Word crypto target own' heard' where
  ours node is := owned node (word.ours node is)
  blocks node subnet found := answered node subnet (word.blocks node subnet found)
  seen := word.seen
  distinct := word.distinct
  filed := word.filed
  authentic := word.authentic
  sources r member := (word.sources r member).imp (owned _) id
  voices node member := (word.voices node member).imp (owned _) id
  confirmed r member c names := by
    obtain ⟨other,mine | theirs | ⟨x,y,first,second,apart⟩⟩ := word.confirmed r member c names
    · exact ⟨other,.inl (owned _ mine)⟩
    · exact ⟨other,.inr (.inl (owned _ theirs))⟩
    · exact ⟨other,.inr (.inr ⟨x,y,answered _ _ first,answered _ _ second,apart⟩)⟩
  away digest node subnet found := (word.away digest node subnet found).imp (owned _) id
  held := word.held

theorem noteContributor_word (word : h.Word crypto target own heard)
    (source : own node ∨ (h.responderSubnets.lookup node).isSome) :
    (h.noteContributor node).Word crypto target own heard := by
  unfold noteContributor
  split
  · exact word
  refine { word with held := fun entry member => absurd member not_mem_nil, voices := fun voice member => ?_ }
  obtain old | new := mem_append.1 member
  · exact word.voices voice old
  · exact mem_singleton.1 new ▸ source

theorem noteContributor_results (h : Harvest) (node : EmberNodeId) :
    (h.noteContributor node).results = h.results ∧ (h.noteContributor node).publishersTaken = h.publishersTaken ∧
      (h.noteContributor node).localNode = h.localNode ∧ (h.noteContributor node).responderSubnets = h.responderSubnets ∧
      (h.noteContributor node).turnedAway = h.turnedAway ∧ (h.noteContributor node).seenResults = h.seenResults := by
  unfold noteContributor
  split
  · exact ⟨rfl,rfl,rfl,rfl,rfl,rfl⟩
  · exact ⟨rfl,rfl,rfl,rfl,rfl,rfl⟩

theorem noteContributor_seen (h : Harvest) (node : EmberNodeId) (seen : Finset Digest) :
    { h with seenResults := seen }.noteContributor node = { h.noteContributor node with seenResults := seen } := by
  unfold noteContributor
  split
  · rfl
  · rfl

theorem Rationed.of_eq (rationed : h.Rationed) (results : h'.results = h.results)
    (taken : h'.publishersTaken = h.publishersTaken) : h'.Rationed := by
  refine ⟨fun node owned => ?_,fun node owned => ?_⟩
  · rw [unconfirmed,results,taken]
    exact rationed.charged node owned
  · rw [taken]
    exact rationed.capped node owned

theorem Word.push (word : h.Word crypto target own heard) (record : SearchResultRecord)
    (fresh : crypto.blake3 record.data ∉ h.seenResults) (results : h'.results = h.results++[record])
    (seen : ∀ digest, digest = crypto.blake3 record.data ∨ digest ∈ h.seenResults → digest ∈ h'.seenResults)
    (ours : h'.localNode = h.localNode) (blocks : h'.responderSubnets = h.responderSubnets)
    (filed : filedUnder record.data = target)
    (authentic : record.fromLocalStore = false → valueBlobIsAuthentic crypto record.data = true)
    (source : own record.fromNode ∨ (h.responderSubnets.lookup record.fromNode).isSome)
    (confirmed : ∀ c, record.confirmedBy = some c → c ≠ record.fromNode ∧ Independent own heard record.fromNode c)
    (away : ∀ digest value, h'.turnedAway.lookup digest = some value → h.turnedAway.lookup digest = some value)
    (held : h'.soleHeld = h.soleHeld) (contributors : h'.contributors = h.contributors) :
    h'.Word crypto target own heard := by
  have each {P : SearchResultRecord → Prop} (old : ∀ r ∈ h.results, P r) (new : P record) : ∀ r ∈ h'.results, P r := by
    rw [results]
    exact forall_mem_append.2 ⟨old,forall_mem_singleton.2 new⟩
  refine ⟨?_,?_,each (fun r old => seen _ (.inr (word.seen r old))) (seen _ (.inl rfl)),?_,each word.filed filed,
    each word.authentic authentic,?_,?_,each word.confirmed confirmed,?_,?_⟩
  · rw [ours]
    exact word.ours
  · rw [blocks]
    exact word.blocks
  · rw [results,map_append,nodup_append]
    refine ⟨word.distinct,nodup_singleton _,fun data old data' new same => ?_⟩
    obtain ⟨r,member,rfl⟩ := List.mem_map.1 old
    rw [map_singleton,mem_singleton] at new
    exact fresh (new ▸ same ▸ word.seen r member)
  · rw [blocks]
    exact each word.sources source
  · rw [contributors,blocks]
    exact word.voices
  · intro digest node subnet found
    rw [blocks]
    exact word.away digest node subnet (away digest _ found)
  · rw [held,contributors]
    exact word.held

theorem unconfirmed_push (results : h'.results = h.results++[record])
    {owned : FileHash × Digest} : h'.unconfirmed node owned = h.unconfirmed node owned+
      if record.fromNode = node ∧ record.confirmedBy = none ∧ publisherShare record.data = some owned then 1 else 0 := by
  rw [unconfirmed,unconfirmed,results]
  simp [and_assoc]

theorem Rationed.push (rationed : h.Rationed)
    (results : h'.results = h.results++[record]) {share : Option (FileHash × Digest)} {payer : EmberNodeId}
    (taken : h'.publishersTaken = share.elim h.publishersTaken fun owned => h.publishersTaken.bump (payer,owned))
    (room : ∀ owned, share = some owned → h.publishersTaken.count (payer,owned) < maxPublishersPerFilePerNode)
    (pays : record.confirmedBy = none → record.fromNode = payer ∧ publisherShare record.data = share) : h'.Rationed := by
  have counts node owned : h'.publishersTaken.count (node,owned) =
      h.publishersTaken.count (node,owned)+if share = some owned ∧ node = payer then 1 else 0 := by
    rw [taken]
    cases share with
    | none => simp
    | some owned' =>
      rw [elim_some,count_bump]
      by_cases same : (node,owned) = (payer,owned')
      · obtain ⟨rfl,rfl⟩ := Prod.mk.inj same
        simp
      · rw [if_neg same,if_neg fun both => same (Prod.ext both.2 (some.inj both.1).symm)]
  refine ⟨fun node owned => ?_,fun node owned => ?_⟩
  · rw [unconfirmed_push results,counts]
    refine Nat.add_le_add (rationed.charged node owned) ?_
    split
    · rename_i word
      obtain ⟨mine,open_,shared⟩ := word
      obtain ⟨payer',is⟩ := pays open_
      rw [if_pos ⟨is.symm.trans shared,mine.symm.trans payer'⟩]
    · exact Nat.zero_le _
  · rw [counts]
    split
    · rename_i word
      obtain ⟨is,rfl⟩ := word
      exact room owned is
    · exact rationed.capped node owned

/-- What reading an answer leaves: the word, the blocks nodes answered from, and the rations. -/
structure Kept (crypto : Crypto) (target : EmberNodeId) (own : EmberNodeId → Prop) (heard : EmberNodeId → Nat → Prop)
    (h h' : Harvest) : Prop where
  word : h'.Word crypto target own heard
  blocks : h'.responderSubnets = h.responderSubnets
  rationed : h.Rationed → h'.Rationed

theorem Word.kept (word : h.Word crypto target own heard) : Kept crypto target own heard h h := ⟨word,rfl,id⟩

theorem Kept.trans {h'' : Harvest} (first : Kept crypto target own heard h h') (second : Kept crypto target own heard h' h'') :
    Kept crypto target own heard h h'' :=
  ⟨second.word,second.blocks.trans first.blocks,fun rationed => second.rationed (first.rationed rationed)⟩

theorem noteContributor_kept (word : h.Word crypto target own heard)
    (source : own node ∨ (h.responderSubnets.lookup node).isSome) :
    Kept crypto target own heard h (h.noteContributor node) := by
  obtain ⟨results,taken,-,blocks,-⟩ := h.noteContributor_results node
  exact ⟨noteContributor_word word source,blocks,fun rationed => rationed.of_eq results taken⟩

theorem Word.grow {seen : Finset Digest} (word : { h with seenResults := seen }.Word crypto target own heard)
    (grown : seen ⊆ h.seenResults) : h.Word crypto target own heard :=
  { word with seen := fun r member => grown (word.seen r member) }

end Harvest

theorem Independent.symm {own : EmberNodeId → Prop} {heard : EmberNodeId → Nat → Prop} {a b : EmberNodeId} :
    Independent own heard a b → Independent own heard b a
  | .inl mine => .inr (.inl mine)
  | .inr (.inl theirs) => .inl theirs
  | .inr (.inr ⟨x,y,first,second,apart⟩) => .inr (.inr ⟨y,x,second,first,apart.symm⟩)

namespace IterativeSearch
open Harvest

variable {crypto : Crypto} {target : EmberNodeId} {own : EmberNodeId → Prop} {heard : EmberNodeId → Nat → Prop}

variable (clock : Clock) (w : Walk) (s : IterativeSearch) (fromId : EmberNodeId) (fromSubnet : Option Nat) (node : EmberNodeId)
  (blobDigest : Digest) (data : Bytes) {allowance : Nat}

/-- The node whose answer is read: its block is on the books, unless its id is our own. -/
def Reading (own : EmberNodeId → Prop) (h : Harvest) (fromId : EmberNodeId) (fromSubnet : Option Nat) : Prop :=
  (∃ block, fromSubnet = some block ∧ h.responderSubnets.lookup fromId = some block) ∨ fromSubnet = none ∧ own fromId

theorem Reading.source {h : Harvest} {fromId : EmberNodeId} {fromSubnet : Option Nat}
    (reading : Reading own h fromId fromSubnet) : own fromId ∨ (h.responderSubnets.lookup fromId).isSome := by
  obtain ⟨block,-,found⟩ | ⟨-,mine⟩ := reading
  · exact .inr (by rw [found]; rfl)
  · exact .inl mine

theorem differ_iff {a b : Option Nat} : differ a b = true ↔ ∃ x y, a = some x ∧ b = some y ∧ x ≠ y := by
  cases a <;> cases b <;> simp [differ]

theorem holdTurnedAway_kept (word : s.Word crypto target own heard) (node : EmberNodeId)
    (data : Bytes) (filed : filedUnder data = target)
    (reading : own node ∨ ∃ block, s.responderSubnets.lookup node = some block)
    (authentic : valueBlobIsAuthentic crypto data = true ∨ s.localNode = some node) :
    Kept crypto target own heard s.toHarvest (s.holdTurnedAway node (crypto.blake3 data) data) := by
  have noted := noteContributor_word word (reading.imp id fun ⟨_,known⟩ => by rw [known]; rfl)
  obtain ⟨results,taken,ours,blocks,turned,-⟩ := s.toHarvest.noteContributor_results node
  have away : ∀ digest node' subnet,
      AList.lookup digest ((s.noteContributor node).turnedAway.insert (crypto.blake3 data) (node,s.nodeSubnet node)) =
        some (node',subnet) →
      own node' ∨ ∃ block, subnet = some block ∧ (s.noteContributor node).responderSubnets.lookup node' = some block := by
    intro digest node' subnet found
    by_cases same : digest = crypto.blake3 data
    · subst same
      rw [lookup_insert] at found
      obtain ⟨rfl,rfl⟩ := found
      by_cases mine : s.localNode = some node
      · exact .inl (word.ours node mine)
      · refine reading.imp id fun ⟨block,known⟩ => ⟨block,?_,blocks ▸ known⟩
        simp [nodeSubnet,mine,known]
    · rw [lookup_insert_ne same] at found
      exact noted.away digest node' subnet found
  unfold holdTurnedAway
  dsimp only
  split
  · rename_i sole
    refine ⟨{ noted with away := away, held := fun entry member => ?_ },blocks,fun rationed => rationed.of_eq results taken⟩
    obtain old | new := mem_append.1 member
    · exact noted.held entry old
    rw [mem_singleton.1 new]
    refine ⟨rfl,filed,fun others => authentic.resolve_right fun mine => others ?_⟩
    -- our own store holds the sole word only while nobody contributes
    have local_ : (s.noteContributor node).localNode = some node := ours.trans mine
    simpa [holdsSoleWord,local_] using sole
  · exact ⟨{ noted with away := away },blocks,fun rationed => rationed.of_eq results taken⟩

theorem confirm_kept (word : s.Word crypto target own heard) {fromId : EmberNodeId}
    {fromSubnet : Option Nat} (reading : Reading own s.toHarvest fromId fromSubnet) {blobDigest : Digest} :
    Kept crypto target own heard s.toHarvest (s.confirm fromId fromSubnet blobDigest) := by
  unfold confirm
  split
  · exact word.kept
  rename_i slot held found
  dsimp only
  split
  · rename_i fits
    simp only [Bool.and_eq_true,Bool.or_eq_true,beq_iff_eq,bne_iff_ne] at fits
    obtain ⟨⟨independent,other⟩,open_⟩ := fits
    obtain ⟨slot',filed,at_⟩ := bind_eq_some_iff.1 found
    obtain ⟨held',here,same⟩ := map_eq_some_iff.1 at_
    obtain ⟨rfl,rfl⟩ := Prod.mk.inj same
    have member : held' ∈ s.results := mem_of_getElem? here
    have confirmed : Kept crypto target own heard s.toHarvest { s.toHarvest with
        results := s.results.set slot' { held' with confirmedBy := some fromId, confirmedSubnet := fromSubnet } } := by
      have each {P : SearchResultRecord → Prop} (old : ∀ r ∈ s.results, P r)
          (new : P { held' with confirmedBy := some fromId, confirmedSubnet := fromSubnet }) : ∀ r ∈ s.results.set slot' _, P r :=
        fun r listed => (mem_or_eq_of_mem_set listed).elim (old r) fun same => same ▸ new
      refine ⟨{ word with
        seen := each word.seen (word.seen held' member), distinct := ?_, filed := each word.filed (word.filed held' member)
        authentic := each word.authentic (word.authentic held' member), sources := each word.sources (word.sources held' member)
        confirmed := each word.confirmed fun c names => ?_ },rfl,fun rationed =>
          ⟨fun node owned => le_trans ?_ (rationed.charged node owned),rationed.capped⟩⟩
      · rw [map_set_same here]
        · exact word.distinct
        · rfl
      · obtain rfl := some.inj names
        refine ⟨Ne.symm other,?_⟩
        obtain mine | apart := independent
        · exact .inl (word.ours _ mine)
        obtain ⟨x,y,first,second,ne⟩ := differ_iff.1 apart
        have foreign : s.localNode ≠ some held'.fromNode := fun mine => by simp [nodeSubnet,mine] at first
        obtain mine | known := word.sources held' member
        · exact .inl mine
        obtain ⟨x',known⟩ := isSome_iff_exists.1 known
        obtain ⟨y',is,answered⟩ | ⟨none,-⟩ := reading
        · have same : x' = x := by simpa [nodeSubnet,foreign,known] using first
          have same' : y' = y := some.inj (is.symm.trans second)
          exact .inr (.inr ⟨x,y,word.blocks _ _ (same ▸ known),word.blocks _ _ (same' ▸ answered),ne⟩)
        · rw [none] at second
          cases second
      · unfold unconfirmed
        rw [countP_set (List.getElem?_eq_some_iff.1 here).1]
        simp
    exact confirmed.trans (noteContributor_kept confirmed.word reading.source)
  · exact noteContributor_kept word reading.source

/-- Who offered a turned-away blob first, as the second copy finds it. -/
structure Prior (own : EmberNodeId → Prop) (heard : EmberNodeId → Nat → Prop) (h : Harvest) (fromId first : EmberNodeId) :
    Prop where
  other : first ≠ fromId
  independent : Independent own heard first fromId
  source : own first ∨ (h.responderSubnets.lookup first).isSome

section
variable {data : Bytes} {fromId : EmberNodeId} {fromSubnet : Option Nat} {unlocked prior : Option EmberNodeId}

theorem keep_kept (clock : Clock) {h : Harvest} {seen : Finset Digest} {share : Option (FileHash × Digest)}
    (word : { h with seenResults := seen }.Word crypto target own heard) (fresh : crypto.blake3 data ∉ seen)
    (grown : h.seenResults = insert (crypto.blake3 data) seen)
    (reading : Reading own h fromId fromSubnet) (filed : filedUnder data = target)
    (authentic : valueBlobIsAuthentic crypto data = true)
    (unlocks : ∀ first, unlocked = some first → prior = some first)
    (offered : ∀ first, prior = some first → Prior own heard h fromId first)
    (shared : (if unlocked.isNone then publisherShare data else none) = share)
    (room : ∀ owned, share = some owned → h.publishersTaken.count (fromId,owned) < maxPublishersPerFilePerNode) :
    Kept crypto target own heard h (keep clock h fromId fromSubnet (crypto.blake3 data) data unlocked prior share) := by
  unfold keep
  split
  · exact (word.grow (grown ▸ Finset.subset_insert ..)).kept
  have pushed (record : SearchResultRecord) (is : record.data = data)
      (source : own record.fromNode ∨ (h.responderSubnets.lookup record.fromNode).isSome)
      (confirmed : ∀ c, record.confirmedBy = some c → c ≠ record.fromNode ∧ Independent own heard record.fromNode c)
      (pays : record.confirmedBy = none → record.fromNode = fromId ∧ publisherShare record.data = share)
      {h' : Harvest} (results : h'.results = h.results++[record]) (sees : h'.seenResults = h.seenResults)
      (ours : h'.localNode = h.localNode) (blocks : h'.responderSubnets = h.responderSubnets)
      (away : h'.turnedAway = h.turnedAway.erase (crypto.blake3 data)) (held : h'.soleHeld = h.soleHeld)
      (contributors : h'.contributors = h.contributors)
      (taken : h'.publishersTaken = share.elim h.publishersTaken fun owned => h.publishersTaken.bump (fromId,owned)) :
      Kept crypto target own heard h h' := by
    refine ⟨word.push record (is ▸ fresh) results (fun digest known => ?_) ours blocks (is ▸ filed) (fun _ => is ▸ authentic)
      source confirmed (fun digest value found => ?_) held contributors,blocks,
      fun rationed => rationed.push results taken room pays⟩
    · rw [sees,grown,Finset.mem_insert,← is]
      exact known
    rw [away] at found
    exact lookup_of_erase _ found
  cases unlocked with
  | some first =>
    have before := offered first (unlocks first rfl)
    refine pushed _ rfl before.source (fun c names => ?_) ?_ rfl rfl rfl rfl rfl rfl rfl rfl
    · obtain rfl := some.inj names
      exact ⟨before.other.symm,before.independent⟩
    · nofun
  | none =>
    refine pushed _ rfl reading.source (fun c names => ?_) (fun _ => ?_) rfl rfl rfl rfl rfl rfl rfl rfl
    · have before := offered c names
      exact ⟨before.other,before.independent.symm⟩
    · exact ⟨rfl,shared⟩

theorem weigh_kept (word : s.Word crypto target own heard) (fresh : crypto.blake3 data ∉ s.seenResults)
    (reading : Reading own s.toHarvest fromId fromSubnet) (filed : filedUnder data = target)
    (unlocks : ∀ first, unlocked = some first → prior = some first)
    (offered : ∀ first, prior = some first → Prior own heard s.toHarvest fromId first) : Kept crypto target own heard
      s.toHarvest (weigh crypto clock s fromId fromSubnet (crypto.blake3 data) data unlocked prior).1 := by
  have charged : Kept crypto target own heard s.toHarvest (s.chargeOffer fromId) :=
    ⟨{ word with },rfl,fun rationed => rationed.of_eq rfl rfl⟩
  unfold weigh
  dsimp only
  generalize shared : (if unlocked.isNone then publisherShare data else none) = share
  split
  · exact charged
  split
  · split
    · rename_i authentic
      refine charged.trans
        (holdTurnedAway_kept ⟨s.toWalk,s.chargeOffer fromId⟩ charged.word fromId data filed ?_ (.inl authentic))
      exact reading.source.imp id fun known => isSome_iff_exists.1 known
    · exact charged
  rename_i within
  split
  · exact ⟨@Word.grow _ _ _ _ _ s.seenResults { word with } (Finset.subset_insert ..),rfl,
      fun rationed => rationed.of_eq rfl rfl⟩
  rename_i authentic
  rw [Bool.not_eq_true,Bool.not_eq_false'] at authentic
  generalize noted : Harvest.noteContributor _ fromId = h
  have word' : { h with seenResults := s.seenResults }.Word crypto target own heard := by
    rw [← noted,← noteContributor_seen]
    refine noteContributor_word ?_ reading.source
    exact { word with }
  obtain ⟨results,taken,-,blocks,-,seen⟩ := noted ▸ noteContributor_results _ fromId
  have reading' : Reading own h fromId fromSubnet := by
    unfold Reading
    rw [blocks]
    exact reading
  have room : ∀ owned, share = some owned → h.publishersTaken.count (fromId,owned) < maxPublishersPerFilePerNode := by
    rintro owned rfl
    rw [show h.publishersTaken = s.publishersTaken from taken]
    simpa using within
  have kept := keep_kept clock word' fresh seen reading' filed authentic unlocks (fun first is => by
    obtain ⟨other,independent,source⟩ := offered first is
    exact ⟨other,independent,by rwa [blocks]⟩) shared room
  exact ⟨kept.word,kept.blocks.trans blocks,fun rationed => kept.rationed (rationed.of_eq results taken)⟩

end

theorem takeRecord_kept (aim : w.target = target) (value : w.searchType = .findValue)
    {fromId : EmberNodeId} {fromSubnet : Option Nat} {intake : Intake} {data : Bytes}
    (word : intake.harvest.Word crypto target own heard) (reading : Reading own intake.harvest fromId fromSubnet) :
    Kept crypto target own heard intake.harvest
      (takeRecord crypto clock w fromId fromSubnet allowance intake data).harvest := by
  unfold takeRecord
  dsimp only
  split
  · exact word.kept
  rename_i answers
  have filed : filedUnder data = target := by
    simp only [value,decide_true,Bool.true_and,Bool.not_eq_true',Bool.not_eq_false,answersKey,Bool.and_eq_true,
      beq_iff_eq] at answers
    exact answers.1.2.trans aim
  split
  · exact word.kept
  split
  · exact confirm_kept ⟨w,intake.harvest⟩ word reading
  rename_i fresh
  split
  · exact weigh_kept clock ⟨w,intake.harvest⟩ word fresh reading filed (fun _ => id) fun _ none => by cases none
  rename_i first firstSubnet found
  split
  · exact word.kept
  rename_i other
  split
  · exact ⟨{ word with },rfl,fun rationed => rationed.of_eq rfl rfl⟩
  rename_i independent
  rw [Bool.not_eq_true,Bool.not_eq_false',Bool.or_eq_true,beq_iff_eq] at independent
  have prior : Prior own heard intake.harvest fromId first := by
    have source := word.away _ first firstSubnet found
    refine ⟨other,?_,source.imp id fun heard => by obtain ⟨_,_,known⟩ := heard; rw [known]; rfl⟩
    obtain mine | apart := independent
    · exact .inl (word.ours first mine)
    obtain ⟨x,y,rfl,rfl,ne⟩ := differ_iff.1 apart
    obtain mine | ⟨block,is,known⟩ := source
    · exact .inl mine
    obtain ⟨block',is',known'⟩ | ⟨none,-⟩ := reading
    · obtain rfl := some.inj is
      obtain rfl := some.inj is'
      exact .inr (.inr ⟨x,y,word.blocks _ _ known,word.blocks _ _ known',ne⟩)
    · cases none
  refine weigh_kept clock ⟨w,intake.harvest⟩ word fresh reading filed (fun first' is => ?_) fun first' is => ?_
  · split at is
    · exact is
    · cases is
  · exact some.inj is ▸ prior

theorem takeRecords_kept (aim : s.target = target)
    (value : s.searchType = .findValue) {fromId : EmberNodeId} {fromSubnet : Option Nat}
    {records : List Bytes} (word : s.Word crypto target own heard) (reading : Reading own s.toHarvest fromId fromSubnet) :
    Kept crypto target own heard s.toHarvest
      (takeRecords crypto clock s fromId fromSubnet allowance records).harvest := by
  refine List.foldlRecOn (motive := fun intake : Intake => Kept crypto target own heard s.toHarvest intake.harvest)
    records _ word.kept fun intake kept data _ => ?_
  refine kept.trans (takeRecord_kept clock s.toWalk aim value kept.word ?_)
  unfold Reading
  rw [kept.blocks]
  exact reading

theorem takeHeld_word (seeded : Bool) (held : List (Digest × Bytes))
    (h : Harvest) (word : h.Word crypto target own heard) (source : own node ∨ (h.responderSubnets.lookup node).isSome)
    (queue : ∀ entry ∈ held, crypto.blake3 entry.2 = entry.1 ∧ filedUnder entry.2 = target ∧
      (seeded = false → valueBlobIsAuthentic crypto entry.2 = true)) :
    (takeHeld s node seeded held h).Word crypto target own heard := by
  induction held generalizing h with
  | nil => exact word
  | cons entry rest ih =>
    obtain ⟨blobDigest,data⟩ := entry
    obtain ⟨named,filed,signed⟩ := queue _ (mem_cons_self ..)
    have named : crypto.blake3 data = blobDigest := named
    subst named
    have later := fun entry member => queue entry (mem_cons_of_mem _ member)
    have erased : { h with turnedAway := h.turnedAway.erase (crypto.blake3 data) }.Word crypto target own heard :=
      { word with away := fun digest node subnet found => word.away digest node subnet (lookup_of_erase _ found) }
    unfold takeHeld
    generalize (if seeded then decide (maxLocalSeedResults ≤ h.seededCount) else h.valueBudgetFull) = stop
    split
    · exact word
    split
    · exact ih h word source later
    dsimp only
    split
    · exact ih _ erased source later
    rename_i fresh
    refine ih _ ?_ source later
    exact erased.push ⟨data,node,none,s.nodeSubnet node,none,seeded⟩ fresh rfl
      (fun digest known => Finset.mem_insert.2 known) rfl rfl filed signed source (fun _ none => by cases none) (fun _ _ => id) rfl
      rfl

theorem takeSoleContributorsHeld_word (word : s.Word crypto target own heard) :
    s.takeSoleContributorsHeld.Word crypto target own heard := by
  unfold takeSoleContributorsHeld
  split
  · exact word
  dsimp only
  have emptied : { s.toHarvest with soleHeld := [] }.Word crypto target own heard :=
    { word with held := fun entry member => absurd member not_mem_nil }
  split
  · exact word
  rename_i node sole
  split
  · exact emptied
  -- either nobody contributed and the word is our own store's, or one node did and holds only signed records
  have whose : s.contributors = [] ∧ s.localNode = some node ∨ s.contributors = [node] := by
    split at sole
    · exact .inl ⟨‹_›,sole⟩
    · rename_i only alone
      exact .inr (some.inj sole ▸ alone)
    · cases sole
  refine takeHeld_word s node _ _ _ emptied ?_ fun entry member => ?_
  · obtain ⟨-,mine⟩ | alone := whose
    · exact .inl (word.ours node mine)
    · exact word.voices node (alone ▸ mem_singleton_self node)
  obtain ⟨digest,filed,signed⟩ := word.held entry member
  refine ⟨digest,filed,fun foreign => signed fun nobody => ?_⟩
  obtain ⟨-,mine⟩ | alone := whose
  · simp [mine] at foreign
  · simp [nobody] at alone

def Carries (crypto : Crypto) (target : EmberNodeId) (own : EmberNodeId → Prop) (heard : EmberNodeId → Nat → Prop)
    (h : Harvest) (s' : IterativeSearch) : Prop :=
  s'.Word crypto target own heard ∧ (s'.complete = false → h.Rationed → s'.Rationed)

theorem checkComplete_carries (now : Instant) (word : s.Word crypto target own heard) :
    Carries crypto target own heard s.toHarvest (s.checkComplete now) := by
  refine ⟨?_,fun open_ rationed => by rwa [(s.checkComplete_open now open_).1]⟩
  obtain same | ⟨w,same⟩ := s.checkComplete_harvest now
  · rw [same]
    exact word
  · rw [same]
    exact takeSoleContributorsHeld_word ⟨w,s.toHarvest⟩ word

theorem seedRecord_word (aim : w.target = target) (localId : EmberNodeId) (h : Harvest) (data : Bytes)
    (word : h.Word crypto target own heard) (ours : h.localNode = some localId) :
    (seedRecord crypto w localId h data).Word crypto target own heard ∧
      (seedRecord crypto w localId h data).localNode = some localId ∧
      (h.Rationed → (seedRecord crypto w localId h data).Rationed) := by
  unfold seedRecord
  split
  · exact ⟨word,ours,id⟩
  split
  · exact ⟨word,ours,id⟩
  rename_i answers
  have filed : filedUnder data = target := by
    simp only [Bool.or_eq_true,bne_iff_ne,not_or,not_not] at answers
    exact answers.2.trans aim
  have mine : own localId := word.ours localId ours
  dsimp only
  split
  · exact ⟨word,ours,id⟩
  rename_i fresh
  split
  · have held := holdTurnedAway_kept ⟨w,h⟩ word localId data filed (.inl mine) (.inr ours)
    refine ⟨held.word,?_,held.rationed⟩
    unfold holdTurnedAway
    dsimp only
    have same := (h.noteContributor_results localId).2.2.1
    split
    · exact same.trans ours
    · exact same.trans ours
  · rename_i within
    refine ⟨?_,ours,fun rationed => ?_⟩
    · exact word.push ⟨data,localId,none,none,none,true⟩ (fun seen => fresh (.inl seen)) rfl
        (fun digest known => Finset.mem_insert.2 known) rfl rfl filed (fun ours => by cases ours) (.inl mine) (fun _ none => by cases none)
        (fun _ _ => id) rfl rfl
    refine rationed.push rfl rfl (fun owned is => ?_)
      fun _ => ⟨rfl,rfl⟩
    rw [is] at within
    simpa using within

theorem noteSubnet_word (word : s.Word crypto target own heard) {node : EmberNodeId}
    (answers : ∀ contact, s.contactOf node = some contact → heard node contact.subnetKey) :
    (s.noteSubnet node).Word crypto target own heard := by
  unfold noteSubnet
  split
  · rename_i block known
    have foreign : s.localNode ≠ some node := fun mine => by simp [nodeSubnet,mine] at known
    have first : s.responderSubnets.lookup node = some block ∨ s.responderSubnets.lookup node = none ∧
        ∃ contact, s.contactOf node = some contact ∧ contact.subnetKey = block := by
      simp only [nodeSubnet,if_neg foreign] at known
      cases found : s.responderSubnets.lookup node with
      | some block' =>
        rw [found] at known
        exact .inl known
      | none =>
        rw [found] at known
        exact .inr ⟨rfl,map_eq_some_iff.1 known⟩
    have keeps {node' : EmberNodeId} {block' : Nat} (found : s.responderSubnets.lookup node' = some block') :
        AList.lookup node' (s.responderSubnets.insert node block) = some block' := by
      by_cases same : node' = node
      · subst same
        rw [lookup_insert]
        obtain old | ⟨none,-⟩ := first
        · exact old.symm.trans found
        · rw [none] at found
          cases found
      · rwa [lookup_insert_ne same]
    have still {node' : EmberNodeId} (source : own node' ∨ (s.responderSubnets.lookup node').isSome) :
        own node' ∨ (AList.lookup node' (s.responderSubnets.insert node block)).isSome := by
      refine source.imp id fun found => ?_
      obtain ⟨block',found⟩ := isSome_iff_exists.1 found
      rw [keeps found]
      rfl
    refine { word with
      blocks := fun node' block' found => ?_, sources := fun r member => still (word.sources r member),
      voices := fun voice member => still (word.voices voice member),
      away := fun digest node' subnet found => ?_ }
    · by_cases same : node' = node
      · subst same
        rw [lookup_insert] at found
        obtain rfl := some.inj found
        obtain old | ⟨-,contact,listed,rfl⟩ := first
        · exact word.blocks _ _ old
        · exact answers contact listed
      · rw [lookup_insert_ne same] at found
        exact word.blocks _ _ found
    · exact (word.away digest node' subnet found).imp id fun ⟨block',is,old⟩ => ⟨block',is,keeps old⟩
  · exact word

theorem takeAnswer_word (aim : s.target = target) (word : s.Word crypto target own heard) (asked : PendingQuery)
    (answers : ∀ contact, s.contactOf asked.node = some contact → heard asked.node contact.subnetKey)
    (listed : asked.referral = false → (s.contactOf asked.node).isSome) (noCloser : Bool) (valueRecords : List Bytes)
    (page : Option ValuePage) :
    (takeAnswer crypto clock s asked noCloser valueRecords page).Word crypto target own heard ∧
      (s.Rationed → (takeAnswer crypto clock s asked noCloser valueRecords page).Rationed) := by
  unfold takeAnswer
  cases expected : (decide (s.searchType = .findValue) && !asked.referral) with
  | false => exact ⟨word,id⟩
  | true =>
    obtain ⟨value,first⟩ := Bool.and_eq_true_iff.1 expected
    have noted := s.noteSubnet_word word answers
    obtain ⟨walk,results,taken⟩ : (s.noteSubnet asked.node).toWalk = s.toWalk ∧
        (s.noteSubnet asked.node).results = s.results ∧ (s.noteSubnet asked.node).publishersTaken = s.publishersTaken := by
      unfold noteSubnet
      split
      · exact ⟨rfl,rfl,rfl⟩
      · exact ⟨rfl,rfl,rfl⟩
    refine (fun kept => ⟨kept.word,fun rationed => kept.rationed (rationed.of_eq results taken)⟩)
      (takeRecords_kept clock (s.noteSubnet asked.node) (walk ▸ aim) (walk ▸ of_decide_eq_true value) noted ?_)
    obtain ⟨contact,known⟩ := isSome_iff_exists.1 (listed (by simpa using first))
    cases block : s.nodeSubnet asked.node with
    | some block' =>
      refine .inl ⟨block',rfl,?_⟩
      simp [noteSubnet,block]
    | none =>
      refine .inr ⟨rfl,word.ours _ ?_⟩
      by_contra foreign
      simp [nodeSubnet,foreign,known] at block

theorem contactOf_answered (requestId : UInt32) (fromId node : EmberNodeId) :
    (w.answered requestId fromId).contactOf node = w.contactOf node := by
  have same entries :
      ((setState fromId .responded entries).find? fun e => e.nodeId = node).map ShortlistEntry.contact =
        (entries.find? fun e => e.nodeId = node).map ShortlistEntry.contact := by
    induction entries with
    | nil => rfl
    | cons e rest ih =>
      unfold setState
      split
      · rw [find?_cons,find?_cons]
        have id : ({ e with state := .responded } : ShortlistEntry).nodeId = e.nodeId := rfl
        rw [id]
        split
        · rfl
        · rfl
      · rw [find?_cons,find?_cons]
        split
        · rfl
        · exact ih
  exact same w.shortlist

def AnswersFrom (subnet : Nat) : SearchOp → Prop
  | .processResponse _ requestId fromId _ _ _ => fromId = node ∧
    (s.pendingRequests.lookup requestId).map PendingQuery.node = some node ∧
    (s.contactOf node).map EmberContact.subnetKey = some subnet
  | _ => False

def SeedsAs : SearchOp → Prop
  | .seedLocalResults localId _ => localId = node
  | _ => False

theorem processResponse_carries (present : s.Present) (aim : s.target = target)
    (word : s.Word crypto target own heard) {requestId : UInt32} {fromId : EmberNodeId} {closerNodes : List EmberContact}
    {valueRecords : List Bytes} {page : Option ValuePage} (hears : ∀ subnet, s.AnswersFrom fromId subnet
      (.processResponse clock requestId fromId closerNodes valueRecords page) → heard fromId subnet) :
    Carries crypto target own heard s.toHarvest
      (processResponse crypto clock s requestId fromId closerNodes valueRecords page).1 := by
  obtain same | ⟨asked,out,rfl,s',read,same⟩ := processResponse_cases crypto clock s requestId fromId closerNodes valueRecords page
  · rw [same]
    exact ⟨word,fun _ => id⟩
  have member : asked ∈ s.outstanding := mem_values.2 ⟨requestId,out⟩
  have taken := takeAnswer_word clock ⟨s.answered requestId asked.node,s.toHarvest⟩ aim word asked
    (fun contact listed => hears contact.subnetKey ⟨rfl,by rw [out]; rfl,by
      have before : s.contactOf asked.node = some contact := (contactOf_answered s.toWalk requestId ..).symm.trans listed
      rw [before]
      rfl⟩)
    (fun value => by
      rw [contactOf_answered]
      obtain ⟨e,listed,same⟩ := List.mem_map.1 (present.listed member value)
      rw [Walk.contactOf,isSome_map,find?_isSome]
      exact ⟨e,listed,decide_eq_true same⟩) closerNodes.isEmpty valueRecords page
  rw [← read] at taken
  rw [same]
  have checked := checkComplete_carries ⟨(takeContacts s'.toWalk asked.node closerNodes).1,s'.toHarvest⟩ clock.instant taken.1
  exact ⟨checked.1,fun open_ rationed => checked.2 open_ (taken.2 rationed)⟩

theorem step_carries (present : s.Present) (aim : s.target = target)
    (word : s.Word crypto target own heard) (op : SearchOp) (alone : ∀ records, op ≠ .absorbResults records)
    (seeds : ∀ node, SeedsAs node op → own node) (hears : ∀ node subnet, s.AnswersFrom node subnet op → heard node subnet) :
    Carries crypto target own heard s.toHarvest (s.step crypto op).1 := by
  cases op with
  | nextToQuery =>
    unfold Carries
    rw [show (s.step crypto .nextToQuery).1.toHarvest = s.toHarvest from s.nextToQuery_harvest]
    exact ⟨word,fun _ => id⟩
  | processResponse clock requestId fromId closerNodes valueRecords page =>
    exact processResponse_carries clock s present aim word (hears fromId)
  | markFailedWith now requestId failure =>
    obtain ⟨w,same⟩ := s.markFailedWith_harvest now requestId failure
    rw [step,same]
    exact checkComplete_carries ⟨w,s.toHarvest⟩ now word
  | seedExtraContacts contacts => exact ⟨word,fun _ => id⟩
  | pollComplete now => exact s.checkComplete_carries now word
  | seedLocalResults localId records =>
    have start : { s.toHarvest with localNode := some localId }.Word crypto target own heard :=
      { word with ours := fun node is => some.inj is ▸ seeds localId rfl }
    have kept := List.foldlRecOn (motive := fun h : Harvest => h.Word crypto target own heard ∧
        h.localNode = some localId ∧ (s.Rationed → h.Rationed))
      records _ ⟨start,rfl,fun rationed => rationed.of_eq rfl rfl⟩ fun h kept data _ => by
        obtain ⟨word,ours,rationed⟩ := seedRecord_word s.toWalk aim localId h data kept.1 kept.2.1
        exact ⟨word,ours,fun before => rationed (kept.2.2 before)⟩
    exact ⟨kept.1,fun _ => kept.2.2⟩
  | absorbResults records => exact (alone records rfl).elim
  | markKeywordLookup => exact ⟨word,fun _ => id⟩

section Lives
variable (crypto : Crypto) (target : EmberNodeId) (contacts : List EmberContact) (now : Instant)

variable (ops : List SearchOp) (node : EmberNodeId)

/-- In the life `ops`, an answer of `node` was accepted, its contact in the block `subnet`. -/
def AnsweredFrom (subnet : Nat) : Prop :=
  ∃ before op after, ops = before++op :: after ∧
    ((new .findValue target contacts now).run crypto before).1.AnswersFrom node subnet op

def OwnStore : Prop := ∃ op ∈ ops, SeedsAs node op

theorem run_word (alone : ∀ records, .absorbResults records ∉ ops) :
    let s := ((new .findValue target contacts now).run crypto ops).1
    s.Word crypto target (OwnStore ops) (AnsweredFrom crypto target contacts now ops) ∧
      (s.complete = false → s.Rationed) := by
  induction ops using List.reverseRecOn with
  | nil =>
    exact ⟨⟨nofun,nofun,nofun,nodup_nil,nofun,nofun,nofun,nofun,nofun,nofun,nofun⟩,
      fun _ => ⟨fun _ _ => Nat.zero_le _,fun _ _ => Nat.zero_le _⟩⟩
  | append_singleton ops op ih =>
    obtain ⟨before,rationed⟩ := ih fun records member => alone records (mem_append_left _ member)
    rw [run_concat]
    refine (fun carried => ⟨carried.1,fun open_ => carried.2 open_ (rationed ?_)⟩)
      (step_carries _ (run_present crypto .findValue target contacts now ops).2
        (Walk.Path.aim (run_path crypto (new .findValue target contacts now) ops)).1 (before.mono ?_ ?_) op ?_ ?_ ?_)
    · rintro node ⟨op',member,seeds⟩
      exact ⟨op',mem_append_left _ member,seeds⟩
    · rintro node subnet ⟨early,op',late,rfl,answers⟩
      exact ⟨early,op',late++[op],by simp,answers⟩
    · rintro records rfl
      exact alone records (mem_append_right _ (mem_singleton_self _))
    · exact fun node seeds => ⟨op,mem_append_right _ (mem_singleton_self _),seeds⟩
    · exact fun node subnet answers => ⟨ops,op,[],rfl,answers⟩
    · by_contra beyond
      rw [step_complete crypto _ op (Bool.not_eq_false _ ▸ beyond)] at open_
      cases open_

/-- One host's word stays one word, whatever a search is fed. -/
theorem word_stays_one (ops : List SearchOp) (alone : ∀ records, .absorbResults records ∉ ops) :
    let s := ((new .findValue target contacts now).run crypto ops).1
    (s.results.map SearchResultRecord.data).Nodup ∧
    (∀ r ∈ s.results, r.fromLocalStore = false →
      valueBlobIsAuthentic crypto r.data = true ∧ filedUnder r.data = target) ∧
    (∀ r ∈ s.results, ∀ c, r.confirmedBy = some c → c ≠ r.fromNode ∧
      (OwnStore ops r.fromNode ∨ OwnStore ops c ∨ ∃ a b, AnsweredFrom crypto target contacts now ops r.fromNode a ∧
        AnsweredFrom crypto target contacts now ops c b ∧ a ≠ b)) ∧
    (s.complete = false → ∀ node fileHash digest,
      (s.results.countP fun r => r.fromNode = node && r.confirmedBy.isNone &&
        publisherShare r.data = some (fileHash,digest)) ≤ maxPublishersPerFilePerNode) := by
  obtain ⟨word,rationed⟩ := run_word crypto target contacts now ops alone
  refine ⟨word.distinct,fun r member remote => ⟨word.authentic r member remote,word.filed r member⟩,word.confirmed,
    fun open_ node fileHash digest => ?_⟩
  exact ((rationed open_).charged node (fileHash,digest)).trans ((rationed open_).capped node (fileHash,digest))

end Lives
/-- Every signature holds, and a blob's digest is the last byte of its publisher's key. -/
def trusting : Crypto := ⟨fun data => array 256 (slice data 104 105),some,fun _ _ _ => true⟩

def blobOf (recordType : UInt8) (trailer : Bytes) (p : Nat) : Bytes :=
  buildData recordType 5 1 2 0 (BitVec.ofNat 256 p) 1000000 [] trailer++List.replicate 64 0

/-- Our store, id 9, holds 26 publishers of one file; node 2 returns the 21 its share turned away. -/
def ourWordToo : List SearchOp :=
  [.seedLocalResults 9 ((List.range 26).map (blobOf recordTypeKeyword [])),.nextToQuery,
    .processResponse ⟨0,1000000⟩ 1 2 [] ((List.range' 5 21).map (blobOf recordTypeKeyword [])) none]

/-- Node 2 returns six sources of one file, while node 3 has not answered. -/
def sixSources : List SearchOp :=
  [.nextToQuery,.processResponse ⟨0,1000000⟩ 2 2 []
    ((List.range 6).map (blobOf recordTypeSource (List.replicate sourceContactWireLen 0))) none]

/-- Past what one node may unlock, a copy of a record our own store was turned away with is taken as that node's word
and our store's. And only keyword records have a share. -/
theorem word_of_our_own : (∃ r ∈ ((new .findValue 5 [stranger 1] 0).run trusting ourWordToo).1.results, ∃ c,
      r.confirmedBy = some c ∧ ¬(OwnStore ourWordToo r.fromNode ∨
        ∃ a b, AnsweredFrom trusting 5 [stranger 1] 0 ourWordToo r.fromNode a ∧
          AnsweredFrom trusting 5 [stranger 1] 0 ourWordToo c b ∧ a ≠ b)) ∧
    ((new .findValue 5 [stranger 1,stranger 2] 0).run trusting sixSources).1.complete = false ∧
    maxPublishersPerFilePerNode <
      ((new .findValue 5 [stranger 1,stranger 2] 0).run trusting sixSources).1.results.countP fun r =>
        r.fromNode = 2 && r.confirmedBy.isNone && fileHashFromRecordData r.data = 1 &&
          emberDigestFromRecordData r.data = 2 := by
  have confirms : ∃ r ∈ ((new .findValue 5 [stranger 1] 0).run trusting ourWordToo).1.results,
      r.fromNode = 2 ∧ r.confirmedBy = some 9 := by decide +kernel
  refine ⟨?_,by decide +kernel⟩
  obtain ⟨r,member,source,confirmed⟩ := confirms
  refine ⟨r,member,9,confirmed,?_⟩
  rw [source]
  rintro (⟨op,listed,seeds⟩ | ⟨a,b,-,⟨before,op,after,split,answers⟩,-⟩)
  · simp only [ourWordToo,mem_cons,not_mem_nil,or_false] at listed
    obtain rfl | rfl | rfl := listed
    · exact absurd (show (9 : EmberNodeId) = 2 from seeds) (by decide)
    · exact seeds
    · exact seeds
  have listed : op ∈ ourWordToo := split ▸ mem_append_right _ (mem_cons_self ..)
  simp only [ourWordToo,mem_cons,not_mem_nil,or_false] at listed
  obtain rfl | rfl | rfl := listed
  · exact answers
  · exact answers
  · exact absurd (show (2 : EmberNodeId) = 9 from answers.1) (by decide)

theorem word_stays_one_of_ours : let s := ((new .findValue 5 [stranger 1,stranger 7] 0).run trusting ourWordToo).1
    (s.results.map SearchResultRecord.data).Nodup ∧
    (∃ r ∈ s.results, valueBlobIsAuthentic trusting r.data = true ∧ r.confirmedBy = some 9 ∧ 9 ≠ r.fromNode) ∧
    s.unconfirmed 9 (1,2) = maxPublishersPerFilePerNode ∧ ∀ node, s.unconfirmed node (1,2) ≤ maxPublishersPerFilePerNode := by
  have word := word_stays_one trusting 5 [stranger 1,stranger 7] 0 ourWordToo (by simp [ourWordToo])
  have seen : let s := ((new .findValue 5 [stranger 1,stranger 7] 0).run trusting ourWordToo).1
      s.complete = false ∧ (∃ r ∈ s.results, r.fromLocalStore = false ∧ r.confirmedBy = some 9) ∧
      s.unconfirmed 9 (1,2) = maxPublishersPerFilePerNode := by decide +kernel
  dsimp only at word seen ⊢
  generalize (run trusting _ ourWordToo).1 = s at word seen ⊢
  obtain ⟨distinct,authentic,confirmed,rationed⟩ := word
  obtain ⟨open_,⟨r,member,remote,seconded⟩,full⟩ := seen
  exact ⟨distinct,⟨r,member,(authentic r member remote).1,seconded,(confirmed r member 9 seconded).1⟩,full,
    fun node => rationed open_ node 1 2⟩

theorem traffic_bounded_of_six : ShareBoundThroughout trusting 2 (new .findValue 5 [stranger 1,stranger 2] 0) sixSources ∧
    let s := ((new .findValue 5 [stranger 1,stranger 2] 0).run trusting sixSources).1
    s.offeredResults.count 2 = 6 ∧ s.offeredResults.count 2 ≤ maxResultsPerNode := by
  have bound : ShareBoundThroughout trusting 2 (new .findValue 5 [stranger 1,stranger 2] 0) sixSources :=
    ⟨trivial,fun _ _ => by decide +kernel,trivial⟩
  obtain ⟨-,-,-,-,-,share,-⟩ := traffic_bounded trusting .findValue 5 [stranger 1,stranger 2] 0 sixSources 2
  exact ⟨bound,by decide +kernel,share bound⟩

end IterativeSearch
end Ember.Dht
