import Ember.Library.Cursor
import Ember.Dht.FindValueWalk

/-! Walks over a store that changes between pages. The anchors find where the last page ended,
however far the list has shifted, so what is held all along is reached. -/
namespace Ember.Dht
open Bytes Window Cursor List Option Prod

def DhtRecord.identity (record : DhtRecord) : PublisherKey × FileHash :=
  (array 256 (slice record.data 73 105),fileHashFromRecordData record.data)

theorem recordAnchor_congr {r r' : DhtRecord} (least : minStoreRecordBytes ≤ r.data.length)
    (least' : minStoreRecordBytes ≤ r'.data.length) (same : r.identity = r'.identity) :
    recordAnchor r.data = recordAnchor r'.data := by
  have header : minStoreRecordBytes = 115 := by decide
  have long : recordHeaderLen = 115 := by decide
  have sizes : ∀ start stop, stop ≤ 115 → (slice r.data start stop).length = stop-start ∧
      (slice r'.data start stop).length = stop-start := fun start stop inside =>
    ⟨slice_length _ _ _ (by omega),slice_length _ _ _ (by omega)⟩
  have publishers : slice r.data 73 105 = slice r'.data 73 105 := by
    refine array_injective ((sizes 73 105 (by omega)).1.trans (sizes 73 105 (by omega)).2.symm) ?_
      (congrArg fst same)
    rw [(sizes 73 105 (by omega)).1]
    norm_num
  have files : slice r.data 17 33 = slice r'.data 17 33 := by
    have hashes : fileHashFromRecordData r.data = fileHashFromRecordData r'.data := congrArg snd same
    rw [fileHashFromRecordData,if_neg (by omega),fileHashFromRecordData,if_neg (by omega)] at hashes
    refine array_injective ((sizes 17 33 (by omega)).1.trans (sizes 17 33 (by omega)).2.symm) ?_ hashes
    rw [(sizes 17 33 (by omega)).1]
    norm_num
  unfold recordAnchor
  rw [if_neg (by omega),if_neg (by omega),← slice_take r.data 17 33 4 (by omega),← slice_take r.data 73 105 4 (by omega),
    ← slice_take r'.data 17 33 4 (by omega),← slice_take r'.data 73 105 4 (by omega),publishers,files]

theorem recordAnchor_factors : ∃ f : PublisherKey × FileHash → Option Anchor,
    ∀ r : DhtRecord, minStoreRecordBytes ≤ r.data.length → f r.identity = recordAnchor r.data := by
  classical
  refine ⟨fun x => if known : ∃ r : DhtRecord, minStoreRecordBytes ≤ r.data.length ∧ r.identity = x
    then recordAnchor known.choose.data else none,fun r least => ?_⟩
  have known : ∃ r' : DhtRecord, minStoreRecordBytes ≤ r'.data.length ∧ r'.identity = r.identity := ⟨r,least,rfl⟩
  dsimp only
  rw [dif_pos known]
  exact recordAnchor_congr known.choose_spec.1 least known.choose_spec.2

/-- The list a responder serves from, page by page: before page `k+1` some records have gone or were
replaced in place, which leaves `kept k`, and `appended k` came in behind. No two records held at
once share an anchor. -/
structure Drift (held kept appended : Nat → List DhtRecord) : Prop where
  pageable : ∀ k, Pageable (held k)
  distinct : ∀ k, ((held k).map fun r => recordAnchor r.data).Nodup
  change : ∀ k, held (k+1) = kept k++appended k
  keeps : ∀ k, ((kept k).map DhtRecord.identity).Sublist ((held k).map DhtRecord.identity)

/-- A follow-up that names a record still held, and none only now come in. -/
structure Anchored (records appended : List DhtRecord) (asked : FindValueRequest) : Prop where
  fresh : ∀ r ∈ appended, ∀ anchor ∈ asked.resumeAfter.anchors, recordAnchor r.data ≠ some anchor
  left : ∃ r ∈ records, ∃ anchor ∈ asked.resumeAfter.anchors, recordAnchor r.data = some anchor

abbrev anchorOf (r : DhtRecord) : Option Anchor := recordAnchor r.data

structure Parted (records left front back : List DhtRecord) (stop : Nat) : Prop where
  split : left = front++back
  before : (front.map DhtRecord.identity).Sublist ((records.take stop).map DhtRecord.identity)
  behind : (back.map DhtRecord.identity).Sublist ((records.drop stop).map DhtRecord.identity)

section Step
variable {records left appended : List DhtRecord} {asked asked' : FindValueRequest} {start : Nat} {reply : FoundValueReply}

theorem exists_parted (keeps : (left.map DhtRecord.identity).Sublist (records.map DhtRecord.identity)) (stop : Nat) :
    ∃ front back, Parted records left front back stop := by
  rw [← take_append_drop stop records,map_append,sublist_append_iff] at keeps
  obtain ⟨l,l',split,before,behind⟩ := keeps
  obtain ⟨front,back,rfl,rfl,rfl⟩ := map_eq_append_iff.1 split
  exact ⟨front,back,rfl,before,behind⟩

theorem nextPage_some (page : Page records asked.startPosition start reply) (pageable : Pageable records)
    (inside : start < records.length) (behind : start ≤ asked.startPosition)
    (follows : nextPage asked reply = some asked') :
    asked'.startPosition = asked.startPosition+runLength records start ∧ asked'.startPosition < maxPosition ∧
      asked'.resumeAfter.anchors =
        (((records.drop start).take (runLength records start)).reverse.take maxResumeAnchors).filterMap anchorOf := by
  unfold nextPage at follows
  split_ifs at follows with ended stuck
  obtain rfl := some.inj follows
  have next := page.next
  have total := page.total
  rw [toSearcher_eq behind] at next total
  have exact : reply.nextPosition = asked.startPosition+runLength records start := by omega
  exact ⟨exact,by dsimp only; omega,page.anchors pageable inside exact⟩

theorem resumeStart_eq {position : Nat} {resume : ResumeAnchors} {named : List (Option Anchor)}
    (spelled : resume.anchors.map some = named) {i : Nat}
    (found : named.findSome? (fun x => ((records.map anchorOf).take
      (min position records.length)).findIdx? (· == x)) = some i) : resumeStart records position resume = i+1 := by
  rw [← spelled,findSome?_map] at found
  have same : (resume.anchors.findSome? fun anchor => (records.take (min position records.length)).findIdx?
      fun r => recordAnchor r.data == some anchor) = some i := by
    rw [← found]
    congr 1
    funext anchor
    rw [Function.comp_apply,← map_take,findIdx?_map]
    rfl
  unfold resumeStart
  dsimp only
  rw [same]

private theorem map_some_filterMap (rs : List DhtRecord) (read : ∀ r ∈ rs, ∃ anchor, anchorOf r = some anchor) :
    (rs.filterMap anchorOf).map some = rs.map anchorOf := by
  induction rs with
  | nil => rfl
  | cons r rest ih =>
    obtain ⟨anchor,found⟩ := read r mem_cons_self
    rw [filterMap_cons_some (f := anchorOf) found,map_cons,map_cons,found,
      ih fun r member => read r (mem_cons_of_mem _ member)]

private theorem anchors_sublist {rs rs' : List DhtRecord} (least : ∀ r ∈ rs, minStoreRecordBytes ≤ r.data.length)
    (least' : ∀ r ∈ rs', minStoreRecordBytes ≤ r.data.length)
    (kept : (rs.map DhtRecord.identity).Sublist (rs'.map DhtRecord.identity)) :
    (rs.map anchorOf).Sublist (rs'.map anchorOf) := by
  obtain ⟨f,factors⟩ := recordAnchor_factors
  have through : ∀ l : List DhtRecord, (∀ r ∈ l, minStoreRecordBytes ≤ r.data.length) →
      (l.map DhtRecord.identity).map f = l.map anchorOf := by
    intro l floor
    rw [List.map_map]
    exact map_congr_left fun r member => factors r (floor r member)
  have mapped := kept.map f
  rwa [through rs least,through rs' least'] at mapped

theorem follow_start {drifted front back : List DhtRecord} (page : Page records asked.startPosition start reply)
    (pageable : Pageable records) (pageable' : Pageable drifted)
    (distinct : (records.map anchorOf).Nodup) (inside : start < records.length)
    (behind : start ≤ asked.startPosition) (follows : nextPage asked reply = some asked')
    (change : drifted = left++appended)
    (parted : Parted records left front back (start+runLength records start)) (anchored : Anchored drifted appended asked') :
    resumeStart drifted asked'.startPosition asked'.resumeAfter = front.length := by
  obtain ⟨position,_,named⟩ := nextPage_some page pageable inside behind follows
  have listed : drifted = front++(back++appended) := by rw [change,parted.split,append_assoc]
  have floor : ∀ r ∈ records, minStoreRecordBytes ≤ r.data.length := pageable.least
  have floor' : ∀ r ∈ drifted, minStoreRecordBytes ≤ r.data.length := pageable'.least
  have spelled : asked'.resumeAfter.anchors.map some = (((records.drop start).take (runLength records start)).map
      anchorOf).reverse.take maxResumeAnchors := by
    rw [named,map_some_filterMap,map_take,map_reverse]
    intro r member
    refine recordAnchor_isSome (floor r ?_)
    exact mem_of_mem_drop (mem_of_mem_take (mem_reverse.1 (mem_of_mem_take member)))
  have whole : (records.take start).map anchorOf++((records.drop start).take
      (runLength records start)).map anchorOf =
        (records.take (start+runLength records start)).map anchorOf := by
    rw [← map_append,← take_add]
  have before := anchors_sublist (fun r member => floor' r (by rw [listed]; exact mem_append_left _ member))
    (fun r member => floor r (mem_of_mem_take member)) parted.before
  have after := anchors_sublist (fun r member => floor' r (by rw [listed]; simp [member]))
    (fun r member => floor r (mem_of_mem_drop member)) parted.behind
  have parts := distinct
  rw [← take_append_drop (start+runLength records start) records,map_append,nodup_append] at parts
  have size : front.length ≤ start+runLength records start := by
    have fewer := parted.before.length_le
    rw [length_map,length_map,length_take] at fewer
    omega
  have gone : ∀ x ∈ (((records.drop start).take (runLength records start)).map
      anchorOf).reverse.take maxResumeAnchors,
        x ∉ (back++appended).map anchorOf := by
    intro x member
    have seen : x ∈ (records.take (start+runLength records start)).map anchorOf := by
      rw [← whole]
      exact mem_append_right _ (mem_reverse.1 (mem_of_mem_take member))
    rw [map_append,mem_append,not_or]
    refine ⟨fun later => parts.2.2 x seen x (after.subset later) rfl,fun new => ?_⟩
    rw [← spelled] at member
    obtain ⟨anchor,among,rfl⟩ := List.mem_map.1 member
    obtain ⟨r,came,same⟩ := List.mem_map.1 new
    exact anchored.fresh r came anchor among same
  have remains : ∃ x ∈ (((records.drop start).take (runLength records start)).map
      anchorOf).reverse.take maxResumeAnchors,
        x ∈ front.map anchorOf++(back++appended).map anchorOf := by
    obtain ⟨r,held,anchor,among,same⟩ := anchored.left
    refine ⟨some anchor,spelled ▸ List.mem_map_of_mem among,?_⟩
    rw [← map_append,← listed]
    exact List.mem_map.2 ⟨r,held,same⟩
  have room : (front.map anchorOf).length ≤ min asked'.startPosition drifted.length := by
    rw [length_map,listed,length_append]
    omega
  obtain ⟨positive,found⟩ := findSome_nearest maxResumeAnchors (min asked'.startPosition drifted.length)
    ((records.take start).map anchorOf) _ _ _ (whole ▸ parts.1) (whole ▸ before) gone remains room
  rw [length_map] at positive found
  rw [← map_append,← listed] at found
  rw [resumeStart_eq spelled found]
  omega

section
variable {x : PublisherKey × FileHash} {a b : List (PublisherKey × FileHash)}

theorem Page.receives {position : Nat}
    (page : Page records position start reply) (ahead : (records.drop start).map DhtRecord.identity = a++x :: b)
    (near : a.length < runLength records start) : ∃ r ∈ records, r.identity = x ∧ recordBlob r ∈ reply.blobs := by
  have found : ((records.drop start).map DhtRecord.identity)[a.length]? = some x := by
    simp [ahead]
  rw [getElem?_map,getElem?_drop,map_eq_some_iff] at found
  obtain ⟨r,here,same⟩ := found
  exact ⟨r,mem_of_getElem? here,same,page.carries here (Nat.le_add_right ..) (by omega)⟩

theorem Parted.ahead {front back : List DhtRecord} (parted : Parted records left front back (start+runLength records start))
    (distinct : (records.map DhtRecord.identity).Nodup)
    (ahead : (records.drop start).map DhtRecord.identity = a++x :: b) (far : runLength records start ≤ a.length)
    (kept : ∃ r ∈ left, r.identity = x) :
    ∃ c d, ((left++appended).drop front.length).map DhtRecord.identity = c++x :: d ∧
      c.length+runLength records start ≤ a.length := by
  have rest : (records.drop (start+runLength records start)).map DhtRecord.identity =
      a.drop (runLength records start)++x :: b := by
    rw [← drop_drop,map_drop,ahead,drop_append_of_le_length far]
  have later := distinct
  rw [← take_append_drop (start+runLength records start) records,map_append,nodup_append] at later
  have inside : x ∈ back.map DhtRecord.identity := by
    obtain ⟨r,member,same⟩ := kept
    rw [parted.split] at member
    rcases mem_append.1 member with early | late
    · have passed := parted.before.subset (List.mem_map_of_mem early)
      refine absurd rfl (later.2.2 r.identity passed r.identity ?_)
      rw [rest,same]
      simp
    · exact same ▸ List.mem_map_of_mem late
  obtain ⟨c,d,split,shorter,_⟩ := sublist_split (rest ▸ parted.behind) inside (rest ▸ later.2.1)
  refine ⟨c,d++appended.map DhtRecord.identity,?_,?_⟩
  · rw [parted.split,append_assoc,drop_left,map_append,split,append_assoc,cons_append]
  have fewer := shorter.length_le
  rw [length_drop] at fewer
  omega

end

end Step

section Drifting
variable {primary : Key} {held kept appended : Nat → List DhtRecord}

theorem reply_page (pageable : ∀ k, Pageable (held k)) {k : Nat} {asked : FindValueRequest} {reply : FoundValueReply}
    (asks : pageRequest (answers primary held) nextPage k = some asked) (replied : pageReply (answers primary held) nextPage k = some reply) :
    resumeStart (held k) asked.startPosition asked.resumeAfter < (held k).length ∧
      Page (held k) asked.startPosition (resumeStart (held k) asked.startPosition asked.resumeAfter) reply := by
  rw [pageReply_of_request asks] at replied
  have inside : resumeStart (held k) asked.startPosition asked.resumeAfter < (held k).length := by
    by_contra past
    rw [answers,packReply_none primary _ asked (not_lt.1 past)] at replied
    cases replied
  obtain ⟨reply',packs,page⟩ := packReply_page primary _ asked _ (pageable k) rfl inside
  rw [← some.inj (packs.symm.trans replied)]
  exact ⟨inside,page⟩

theorem request_inversion (pageable : ∀ k, Pageable (held k)) {k : Nat} {asked' : FindValueRequest}
    (asks : pageRequest (answers primary held) nextPage (k+1) = some asked') :
    ∃ asked reply, pageRequest (answers primary held) nextPage k = some asked ∧
      pageReply (answers primary held) nextPage k = some reply ∧
      resumeStart (held k) asked.startPosition asked.resumeAfter < (held k).length ∧
      Page (held k) asked.startPosition (resumeStart (held k) asked.startPosition asked.resumeAfter) reply ∧
      nextPage asked reply = some asked' := by
  obtain ⟨asked,asks,follows⟩ := bind_eq_some_iff.1 asks
  obtain ⟨reply,replies,follows⟩ := bind_eq_some_iff.1 follows
  have replied := (pageReply_of_request asks).trans replies
  obtain ⟨inside,page⟩ := reply_page pageable asks replied
  exact ⟨asked,reply,asks,replied,inside,page,follows⟩

def Received (primary : Key) (held : Nat → List DhtRecord) (k : Nat) (x : PublisherKey × FileHash) : Prop :=
  ∃ reply, pageReply (answers primary held) nextPage k = some reply ∧
    ∃ r ∈ held k, r.identity = x ∧ recordBlob r ∈ reply.blobs

theorem identities_nodup {records : List DhtRecord} (least : ∀ r ∈ records, minStoreRecordBytes ≤ r.data.length)
    (distinct : (records.map anchorOf).Nodup) : (records.map DhtRecord.identity).Nodup := by
  obtain ⟨f,factors⟩ := recordAnchor_factors
  refine Nodup.of_map f ?_
  rw [List.map_map]
  exact (map_congr_left fun r member => factors r (least r member)) ▸ distinct

section
variable (drift : Drift held kept appended)
    (anchored : ∀ k asked, pageRequest (answers primary held) nextPage (k+1) = some asked →
      Anchored (held (k+1)) (appended k) asked)
include drift anchored

theorem Drift.behind (k : Nat) (asked : FindValueRequest)
    (asks : pageRequest (answers primary held) nextPage k = some asked) :
    resumeStart (held k) asked.startPosition asked.resumeAfter ≤ asked.startPosition ∧
      asked.startPosition < maxPosition := by
  induction k generalizing asked with
  | zero =>
    obtain rfl := some.inj asks
    exact ⟨le_rfl,by decide⟩
  | succ k ih =>
    obtain ⟨before,reply,asks',_,inside,page,follows⟩ := request_inversion drift.pageable asks
    obtain ⟨behind,_⟩ := ih before asks'
    obtain ⟨front,back,parted⟩ := exists_parted (drift.keeps k)
      (resumeStart (held k) before.startPosition before.resumeAfter+
        runLength (held k) (resumeStart (held k) before.startPosition before.resumeAfter))
    have start := follow_start page (drift.pageable k) (drift.pageable (k+1)) (drift.distinct k) inside behind follows
      (drift.change k) parted (anchored k asked asks)
    obtain ⟨position,low,_⟩ := nextPage_some page (drift.pageable k) inside behind follows
    have fewer := parted.before.length_le
    rw [length_map,length_map,length_take] at fewer
    exact ⟨by omega,low⟩

theorem Drift.pending (x : PublisherKey × FileHash) (first : ∃ r ∈ held 0, r.identity = x)
    (k : Nat) (throughout : ∀ j < k, ∃ r ∈ kept j, r.identity = x) (asked : FindValueRequest)
    (asks : pageRequest (answers primary held) nextPage k = some asked) : (∃ j < k, Received primary held j x) ∨ ∃ a b,
      ((held k).drop (resumeStart (held k) asked.startPosition asked.resumeAfter)).map DhtRecord.identity = a++x :: b ∧
        asked.startPosition+6*a.length ≤ 6*maxRecordsPerKey := by
  induction k generalizing asked with
  | zero =>
    obtain rfl := some.inj asks
    obtain ⟨r,member,same⟩ := first
    obtain ⟨a,b,split⟩ := append_of_mem (same ▸ List.mem_map_of_mem (f := DhtRecord.identity) member)
    refine .inr ⟨a,b,split,?_⟩
    have size := (drift.pageable 0).size
    have length := congrArg List.length split
    rw [length_map,length_append] at length
    dsimp only
    omega
  | succ k ih =>
    obtain ⟨before,reply,asks',replied,inside,page,follows⟩ := request_inversion drift.pageable asks
    obtain ⟨behind,_⟩ := drift.behind anchored k before asks'
    rcases ih (fun j early => throughout j (by omega)) before asks' with ⟨j,early,received⟩ | ⟨a,b,ahead,low⟩
    · exact .inl ⟨j,by omega,received⟩
    by_cases near : a.length < runLength (held k) (resumeStart (held k) before.startPosition before.resumeAfter)
    · exact .inl ⟨k,Nat.lt_succ_self k,reply,replied,page.receives ahead near⟩
    obtain ⟨front,back,parted⟩ := exists_parted (drift.keeps k)
      (resumeStart (held k) before.startPosition before.resumeAfter+
        runLength (held k) (resumeStart (held k) before.startPosition before.resumeAfter))
    have start := follow_start page (drift.pageable k) (drift.pageable (k+1)) (drift.distinct k) inside behind follows
      (drift.change k) parted (anchored k asked asks)
    obtain ⟨position,_,_⟩ := nextPage_some page (drift.pageable k) inside behind follows
    have distinct := identities_nodup (drift.pageable k).least (drift.distinct k)
    obtain ⟨c,d,split,shorter⟩ : ∃ c d, ((kept k++appended k).drop front.length).map DhtRecord.identity = _ ∧ _ :=
      parted.ahead distinct ahead (not_lt.1 near) (throughout k (Nat.lt_succ_self k))
    refine .inr ⟨c,d,?_,by omega⟩
    rw [start,drift.change k]
    exact split

end

theorem drifting_walk_complete (primary : Key) (held kept appended : Nat → List DhtRecord)
    (drift : Drift held kept appended)
    (anchored : ∀ k asked, pageRequest (answers primary held) nextPage (k+1) = some asked →
      Anchored (held (k+1)) (appended k) asked) :
    (∀ k asked, pageRequest (answers primary held) nextPage k = some asked →
      resumeStart (held k) asked.startPosition asked.resumeAfter ≤ asked.startPosition) ∧
    (∀ k asked reply, pageRequest (answers primary held) nextPage k = some asked →
      pageReply (answers primary held) nextPage k = some reply → asked.startPosition < reply.nextPosition) ∧
    ∀ last asked, pageRequest (answers primary held) nextPage last = some asked →
      pageRequest (answers primary held) nextPage (last+1) = none →
        ∀ x, (∃ r ∈ held 0, r.identity = x) → (∀ k < last, ∃ r ∈ kept k, r.identity = x) →
          ∃ k ≤ last, Received primary held k x := by
  refine ⟨fun k asked asks => (drift.behind anchored k asked asks).1,?_,?_⟩
  · intro k asked reply asks replied
    obtain ⟨behind,low⟩ := drift.behind anchored k asked asks
    obtain ⟨inside,page⟩ := reply_page drift.pageable asks replied
    have positive := runLength_pos (drift.pageable k) inside
    rw [page.next,toSearcher_eq behind]
    omega
  · intro last asked asks ended x first throughout
    rcases drift.pending anchored x first last throughout asked asks with ⟨j,early,received⟩ | ⟨a,b,ahead,low⟩
    · exact ⟨j,early.le,received⟩
    obtain ⟨behind,_⟩ := drift.behind anchored last asked asks
    have length := congrArg List.length ahead
    rw [length_map,length_drop,length_append,length_cons] at length
    have inside : resumeStart (held last) asked.startPosition asked.resumeAfter < (held last).length := by omega
    obtain ⟨reply,packs,page⟩ := packReply_page primary _ asked _ (drift.pageable last) rfl inside
    have replied := (pageReply_of_request asks).trans packs
    by_cases near : a.length < runLength (held last) (resumeStart (held last) asked.startPosition asked.resumeAfter)
    · exact ⟨last,le_rfl,reply,replied,page.receives ahead near⟩
    · -- the positions are low and the list goes on, so there is a further request
      have positive := runLength_pos (drift.pageable last) inside
      have size := (drift.pageable last).size
      have next := page.next
      have total := page.total
      rw [toSearcher_eq behind] at next total
      unfold maxRecordsPerKey at low size
      unfold maxPosition at next total
      have follows : nextPage asked reply = some
          ⟨reply.nextPosition,pageResumeAnchors reply.blobs asked.startPosition reply.nextPosition⟩ := by
        rw [nextPage,if_neg (by omega),if_neg (by omega)]
      rw [pageReply_of_request asks] at replied
      rw [pageRequest_succ asks replied,follows] at ended
      cases ended

end Drifting

def driftHeld : Nat → List DhtRecord
  | 0 => [namedRecord 0x1000000000000000000000000 0,namedRecord 0x2000000000000000000000000 0,
      namedRecord 0x3000000000000000000000000 1050]
  | _+1 => [namedRecord 0x1000000000000000000000000 0,namedRecord 0x3000000000000000000000000 1050]

theorem drifting_walk_complete_once :
    ∃ k ≤ 1, Received 5 driftHeld k (namedRecord 0x3000000000000000000000000 1050).identity := by
  have two : Pageable (driftHeld 1) := ⟨by decide,by decide +kernel,by decide +kernel⟩
  have apart : ((driftHeld 1).map anchorOf).Nodup := by decide +kernel
  have drift : Drift driftHeld (fun k => driftHeld (k+1)) (fun _ => []) := by
    refine ⟨fun k => ?_,fun k => ?_,fun k => (append_nil _).symm,fun k => ?_⟩
    · cases k with
      | zero => exact ⟨by decide,by decide +kernel,by decide +kernel⟩
      | succ k => exact two
    · cases k with
      | zero => decide +kernel
      | succ k => exact apart
    · cases k with
      | zero => decide +kernel
      | succ k => exact .refl _
  have beyond : pageRequest (answers 5 driftHeld) nextPage 2 = none := isNone_iff_eq_none.1 (by decide +kernel)
  have later : ∀ k, pageRequest (answers 5 driftHeld) nextPage (k+2) = none := by
    intro k
    induction k with
    | zero => exact beyond
    | succ k ih => rw [pageRequest,ih,bind_none]
  have named : (pageRequest (answers 5 driftHeld) nextPage 1).map (·.resumeAfter.anchors) =
      some [0x0000000200000000,0x0000000100000000] := by decide +kernel
  obtain ⟨asked,asks,_⟩ := map_eq_some_iff.1 named
  have all_along : ∀ k, namedRecord 0x3000000000000000000000000 1050 ∈ driftHeld k := by
    intro k
    cases k <;> simp [driftHeld]
  refine (drifting_walk_complete 5 driftHeld (fun k => driftHeld (k+1)) (fun _ => []) drift ?_).2.2 1 asked asks beyond _
    ⟨_,all_along 0,rfl⟩ fun k _ => ⟨_,all_along (k+1),rfl⟩
  intro k asked asks
  cases k with
  | zero =>
    rw [asks,map_some,Option.some.injEq] at named
    refine ⟨by simp,namedRecord 0x1000000000000000000000000 0,by simp [driftHeld],0x0000000100000000,?_,by decide +kernel⟩
    rw [named]
    simp
  | succ k =>
    rw [later k] at asks
    cases asks

end Ember.Dht
