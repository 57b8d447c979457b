import Ember.Dht.FindValuePage

/-! Walks over an unchanged store. A searcher that resumes where a page ended has every record after
at most as many pages as records: by positions always, by anchors as long as the record a page ended
on is the first with its anchor. -/
namespace Ember.Dht
open Bytes Window List Option

def answers (primary : Key) (held : Nat → List DhtRecord) (k : Nat) (asked : FindValueRequest) :
    Option FoundValueReply :=
  packReply primary (held k) asked.startPosition asked.resumeAfter

/-- The walk ends on a page that says so, within as many pages as records, and every record was on
some page. -/
def Complete (answer : Nat → FindValueRequest → Option FoundValueReply)
    (follow : FindValueRequest → FoundValueReply → Option FindValueRequest) (records : List DhtRecord) : Prop :=
  ∃ last < records.length, ∃ reply, pageReply answer follow last = some reply ∧
    reply.totalAvailable ≤ reply.nextPosition ∧
    ∀ r ∈ records, ∃ k ≤ last, ∃ page, pageReply answer follow k = some page ∧ recordBlob r ∈ page.blobs

/-- Where the records, taken greedily into runs that fill a page, are cut. -/
inductive Cut (records : List DhtRecord) : Nat → Prop where
  | first : Cut records 0
  | next {start : Nat} : Cut records start → start < records.length → Cut records (start+runLength records start)

section Walk
variable {primary : Key} {records : List DhtRecord} {answer : Nat → FindValueRequest → Option FoundValueReply}
  {follow : FindValueRequest → FoundValueReply → Option FindValueRequest}
variable {k : Nat} {reply : FoundValueReply} {asked : FindValueRequest}

theorem pageReply_of_request (asks : pageRequest answer follow k = some asked) :
    pageReply answer follow k = answer k asked := by
  rw [pageReply,asks,bind_some]

theorem pageRequest_succ (asks : pageRequest answer follow k = some asked) (replies : answer k asked = some reply) :
    pageRequest answer follow (k+1) = follow asked reply := by
  rw [pageRequest,asks,bind_some,replies,bind_some]

def Aligned (records : List DhtRecord) (start : Nat) (asked : FindValueRequest) : Prop :=
  asked.startPosition = start ∧ resumeStart records asked.startPosition asked.resumeAfter = start

/-- Why a walk works: after each page short of the end, the follow-up is aligned with the end of its run. -/
def Resumes (records : List DhtRecord)
    (follow : FindValueRequest → FoundValueReply → Option FindValueRequest) : Prop :=
  ∀ start asked reply, Cut records start → Aligned records start asked → Page records start start reply →
    start+runLength records start < records.length →
      ∃ asked', follow asked reply = some asked' ∧ Aligned records (start+runLength records start) asked'

theorem Page.unshifted {start : Nat} (page : Page records start start reply)
    (pageable : Pageable records) (inside : start < records.length) :
    reply.nextPosition = start+runLength records start ∧ reply.totalAvailable = records.length := by
  have bound := runLength_le inside.le
  have size := pageable.size
  unfold maxRecordsPerKey at size
  rw [page.next,page.total,toSearcher_eq le_rfl,toSearcher_eq le_rfl]
  unfold maxPosition
  omega

theorem walk_from (pageable : Pageable records) (resumes : Resumes records follow)
    (responds : ∀ k asked, answer k asked = packReply primary records asked.startPosition asked.resumeAfter)
    (fuel k start : Nat) (asked : FindValueRequest) (enough : records.length-start ≤ fuel)
    (asks : pageRequest answer follow k = some asked) (aligned : Aligned records start asked) (cut : Cut records start)
    (inside : start < records.length) (few : k ≤ start) :
    ∃ last, k ≤ last ∧ last < records.length ∧ ∃ reply, pageReply answer follow last = some reply ∧
      reply.totalAvailable ≤ reply.nextPosition ∧ ∀ i r, start ≤ i → records[i]? = some r →
        ∃ j ≤ last, ∃ page, pageReply answer follow j = some page ∧ recordBlob r ∈ page.blobs := by
  induction fuel generalizing k start asked with
  | zero => omega
  | succ fuel ih =>
    obtain ⟨reply,packs,page⟩ := packReply_page primary records asked start pageable aligned.2 inside
    rw [aligned.1] at page
    have replies : answer k asked = some reply := (responds k asked).trans packs
    have replied : pageReply answer follow k = some reply := (pageReply_of_request asks).trans replies
    obtain ⟨next,total⟩ := page.unshifted pageable inside
    have positive := runLength_pos pageable inside
    have bound := runLength_le inside.le
    by_cases ended : start+runLength records start = records.length
    · -- the run reaches the end of the list: this is the last page
      refine ⟨k,le_rfl,by omega,reply,replied,by omega,fun i r after found => ⟨k,le_rfl,reply,replied,?_⟩⟩
      obtain ⟨short,_⟩ := List.getElem?_eq_some_iff.1 found
      exact page.carries found after (by omega)
    obtain ⟨asked',follows,aligned'⟩ := resumes start asked reply cut aligned page (by omega)
    have asks' := (pageRequest_succ asks replies).trans follows
    obtain ⟨last,later,fewer,final,sent,exhausted,covered⟩ := ih (k+1) (start+runLength records start) asked' (by omega)
      asks' aligned' (cut.next inside) (by omega) (by omega)
    refine ⟨last,by omega,fewer,final,sent,exhausted,fun i r after found => ?_⟩
    by_cases here : i < start+runLength records start
    · exact ⟨k,by omega,reply,replied,page.carries found after here⟩
    · exact covered i r (not_lt.1 here) found

theorem walk_complete (pageable : Pageable records) (resumes : Resumes records follow)
    (responds : ∀ k asked, answer k asked = packReply primary records asked.startPosition asked.resumeAfter) :
    records = [] ∨ Complete answer follow records := by
  cases size : records with
  | nil => exact .inl rfl
  | cons head tail =>
    have inside : 0 < records.length := by rw [size]; exact Nat.succ_pos _
    obtain ⟨last,_,fewer,reply,sent,exhausted,covered⟩ := walk_from pageable resumes responds records.length 0 0 {}
      (Nat.sub_le ..) rfl ⟨rfl,rfl⟩ .first inside le_rfl
    refine .inr ⟨last,size ▸ fewer,reply,sent,exhausted,fun r member => ?_⟩
    obtain ⟨i,found⟩ := mem_iff_getElem?.1 (size ▸ member)
    exact covered i r (Nat.zero_le i) found

end Walk

section Requests
variable {primary : Key} {records : List DhtRecord}
  {follow : FindValueRequest → FoundValueReply → Option FindValueRequest}

theorem walk_aligned (pageable : Pageable records) (resumes : Resumes records follow)
    (stops : ∀ asked reply, reply.totalAvailable ≤ reply.nextPosition → follow asked reply = none)
    (k : Nat) (asked : FindValueRequest) (asks : pageRequest (answers primary fun _ => records) follow k = some asked) :
    ∃ start, Aligned records start asked ∧ Cut records start ∧ k ≤ start ∧ (0 < k → start < records.length) := by
  induction k generalizing asked with
  | zero =>
    obtain rfl := some.inj asks
    exact ⟨0,⟨rfl,rfl⟩,.first,le_rfl,fun absurd => by omega⟩
  | succ k ih =>
    obtain ⟨before,asks,follows⟩ := bind_eq_some_iff.1 asks
    obtain ⟨reply,replies,follows⟩ := bind_eq_some_iff.1 follows
    obtain ⟨start,aligned,cut,few,_⟩ := ih before asks
    have inside : start < records.length := by
      by_contra past
      rw [answers,packReply_none primary records before (aligned.2.symm ▸ not_lt.1 past)] at replies
      cases replies
    obtain ⟨reply',packs,page⟩ := packReply_page primary records before start pageable aligned.2 inside
    obtain rfl : reply' = reply := some.inj (packs.symm.trans replies)
    rw [aligned.1] at page
    obtain ⟨next,total⟩ := page.unshifted pageable inside
    have positive := runLength_pos pageable inside
    have short : start+runLength records start < records.length := by
      by_contra ended
      rw [stops before reply' (by omega)] at follows
      cases follows
    obtain ⟨asked',follows',aligned'⟩ := resumes start before reply' cut aligned page short
    obtain rfl : asked' = asked := some.inj (follows'.symm.trans follows)
    exact ⟨_,aligned',cut.next inside,by omega,fun _ => short⟩

end Requests

section Positions
variable {records : List DhtRecord}

theorem nextWindow_resumes (pageable : Pageable records) : Resumes records nextWindow := by
  intro start asked reply _ _ page short
  obtain ⟨next,total⟩ := page.unshifted pageable (by omega)
  refine ⟨⟨start+runLength records start,{}⟩,?_,rfl,rfl⟩
  rw [nextWindow,if_neg (by omega),next]

theorem positional_walk_complete (primary : Key) (records : List DhtRecord) (pageable : Pageable records) :
    (records = [] ∨ Complete (answers primary fun _ => records) nextWindow records) ∧
      (∀ k, records.length ≤ k → pageReply (answers primary fun _ => records) nextWindow k = none) ∧
      (∀ k asked asked', pageRequest (answers primary fun _ => records) nextWindow k = some asked →
        pageRequest (answers primary fun _ => records) nextWindow (k+1) = some asked' →
          asked.startPosition < asked'.startPosition) ∧
      ∀ k reply, pageReply (answers primary fun _ => records) nextWindow k = some reply →
        pageBytes reply.blobs ≤ maxFoundValueRecordBytes ∧ reply.blobs.length ≤ maxFoundValueRecords := by
  have resumes := nextWindow_resumes pageable
  have stops : ∀ (asked : FindValueRequest) reply, reply.totalAvailable ≤ reply.nextPosition →
      nextWindow asked reply = none := fun _ _ exhausted => if_pos exhausted
  have paged : ∀ k reply, pageReply (answers primary fun _ => records) nextWindow k = some reply →
      ∃ asked start, pageRequest (answers primary fun _ => records) nextWindow k = some asked ∧
        asked.startPosition = start ∧ k ≤ start ∧ start < records.length ∧ Page records start start reply := by
    intro k reply replied
    obtain ⟨asked,asks,replies⟩ := bind_eq_some_iff.1 replied
    obtain ⟨start,aligned,_,few,_⟩ := walk_aligned pageable resumes stops k asked asks
    have inside : start < records.length := by
      by_contra past
      rw [answers,packReply_none primary records asked (aligned.2.symm ▸ not_lt.1 past)] at replies
      cases replies
    obtain ⟨reply',packs,page⟩ := packReply_page primary records asked start pageable aligned.2 inside
    obtain rfl : reply' = reply := some.inj (packs.symm.trans replies)
    exact ⟨asked,start,asks,aligned.1,few,inside,aligned.1 ▸ page⟩
  refine ⟨walk_complete pageable resumes fun _ _ => rfl,?_,?_,?_⟩
  · intro k many
    by_contra answered
    obtain ⟨reply,replied⟩ := ne_none_iff_exists'.1 answered
    obtain ⟨_,start,_,_,few,inside,_⟩ := paged k reply replied
    omega
  · intro k asked asked' asks asks'
    obtain ⟨before,same,follows⟩ := bind_eq_some_iff.1 asks'
    obtain rfl : asked = before := some.inj (asks.symm.trans same)
    obtain ⟨reply,replies,follows⟩ := bind_eq_some_iff.1 follows
    obtain ⟨asked'',start,asks'',begins,_,inside,page⟩ := paged k reply ((pageReply_of_request asks).trans replies)
    obtain rfl : asked = asked'' := some.inj (asks.symm.trans asks'')
    obtain ⟨next,_⟩ := page.unshifted pageable inside
    have positive := runLength_pos pageable inside
    unfold nextWindow at follows
    split at follows
    · cases follows
    obtain rfl := some.inj follows
    dsimp only
    omega
  · intro k reply replied
    obtain ⟨_,_,_,_,_,_,page⟩ := paged k reply replied
    have few := page.count
    exact ⟨page.bytes,few.trans (by decide)⟩

def namedRecord (fileHash : FileHash) (length : Nat) : DhtRecord :=
  newRecord (Moment.reading 1000000 range_million)
    (buildData recordTypeKeyword 5 fileHash 0 0 7 1000000 (List.replicate length 97) []) 0 7 1000000 none

/-- A record too large for the rest of the first page, between two small ones. -/
theorem positional_walk_complete_gap :
    Complete (answers 5 fun _ => [namedRecord 1 0,namedRecord 2 1050,namedRecord 3 0]) nextWindow
      [namedRecord 1 0,namedRecord 2 1050,namedRecord 3 0] :=
  (positional_walk_complete 5 [namedRecord 1 0,namedRecord 2 1050,namedRecord 3 0]
    ⟨by decide,by decide +kernel,by decide +kernel⟩).1.resolve_left (by simp)

end Positions
section Anchored
variable {records : List DhtRecord}

def Told (records : List DhtRecord) : Prop :=
  ∀ stop, Cut records stop → stop < records.length → ∀ i r last, i+1 < stop → records[i]? = some r →
    records[stop-1]? = some last → recordAnchor r.data ≠ recordAnchor last.data

theorem told_of_nodup (distinct : (records.map fun r => recordAnchor r.data).Nodup) : Told records := by
  intro stop _ _ i r last before here found same
  obtain ⟨inside,-⟩ := List.getElem?_eq_some_iff.1 found
  refine nodup_iff_getElem?_ne_getElem?.1 distinct i (stop-1) (by omega) (by rwa [length_map]) ?_
  rw [getElem?_map,getElem?_map,here,found]
  exact congrArg some same

theorem resumeStart_of_nearest {position i : Nat} {resume : ResumeAnchors} {nearest : Anchor} {others : List Anchor}
    {last : DhtRecord} (named : resume.anchors = nearest :: others) (before : i < position)
    (found : records[i]? = some last) (anchor : recordAnchor last.data = some nearest)
    (first : ∀ j r, j < i → records[j]? = some r → recordAnchor r.data ≠ some nearest) :
    resumeStart records position resume = i+1 := by
  obtain ⟨inside,here⟩ := List.getElem?_eq_some_iff.1 found
  have index : (records.take (min position records.length)).findIdx? (fun r => recordAnchor r.data == some nearest) =
      some i := by
    rw [findIdx?_eq_some_iff_getElem]
    refine ⟨by rw [length_take]; omega,?_,?_⟩
    · rw [getElem_take,here,anchor,beq_self_eq_true]
    intro j earlier
    rw [getElem_take,beq_iff_eq]
    exact first j _ earlier (getElem?_eq_getElem (by omega))
  unfold resumeStart
  dsimp only
  rw [named,findSome?_cons,index]

theorem run_last {start : Nat} (pageable : Pageable records) (inside : start < records.length) :
    ∃ initial last, (records.drop start).take (runLength records start) = initial++[last] ∧
      records[start+runLength records start-1]? = some last := by
  have positive := runLength_pos pageable inside
  have bound := runLength_le inside.le
  have size : ((records.drop start).take (runLength records start)).length = runLength records start := by
    rw [length_take,length_drop]
    omega
  obtain ⟨last,found⟩ : ∃ last, records[start+runLength records start-1]? = some last :=
    ⟨_,getElem?_eq_getElem (by omega)⟩
  have ends : ((records.drop start).take (runLength records start)).getLast? = some last := by
    rw [getLast?_eq_getElem?,getElem?_take_of_lt (by omega),getElem?_drop,← found]
    congr 1
    omega
  exact ⟨_,last,(dropLast_append_getLast? last ends).symm,found⟩

theorem nextPage_resumes (pageable : Pageable records) (told : Told records) : Resumes records nextPage := by
  intro start asked reply cut aligned page short
  have inside : start < records.length := by omega
  obtain ⟨next,total⟩ := page.unshifted pageable inside
  have positive := runLength_pos pageable inside
  obtain ⟨initial,last,run,found⟩ := run_last pageable inside
  obtain ⟨nearest,anchor⟩ := recordAnchor_isSome (pageable.least last (mem_of_getElem? found))
  have named := page.anchors pageable inside next
  rw [run,reverse_append,reverse_singleton,singleton_append,
    take_cons (by decide),filterMap_cons_some (f := fun r : DhtRecord => recordAnchor r.data) anchor] at named
  refine ⟨⟨reply.nextPosition,pageResumeAnchors reply.blobs asked.startPosition reply.nextPosition⟩,?_,next,?_⟩
  · rw [nextPage,if_neg (by omega),if_neg (by have := aligned.1; omega)]
  dsimp only
  rw [aligned.1,resumeStart_of_nearest named (by omega) found anchor]
  · omega
  · intro j r earlier here same
    exact told _ (cut.next inside) short j r last (by omega) here found (same.trans anchor.symm)

end Anchored

section Store
variable (reader : NameReader) (m : Moment) (store : DhtStore) (keys : List Key) (constraints : ValueConstraints)

def matching : List DhtRecord :=
  match intersectLiveRecords reader m store keys with
  | none => []
  | some (_,filtered,_) =>
    if constraints.isEmpty then filtered
    else filtered.filter fun record => recordMatchesConstraints reader record.data constraints

variable {reader m store keys} in
theorem intersectLiveRecords_perm {primary : Key} {filtered : List DhtRecord} {count : Nat}
    (found : intersectLiveRecords reader m store keys = some (primary,filtered,count)) :
    keys.headD 0 = primary ∧ filtered.Perm (store.liveRecords m primary) := by
  unfold intersectLiveRecords at found
  cases keys with
  | nil => cases found
  | cons key others =>
    dsimp only at found
    split_ifs at found <;> simp only [Option.some.injEq] at found <;> obtain ⟨rfl,rfl,_⟩ := found
    · exact ⟨rfl,.refl _⟩
    · exact ⟨rfl,filter_append_perm ..⟩

theorem intersectFindValueRecords_eq {asked : FindValueRequest} :
    intersectFindValueRecords reader m store keys asked.startPosition asked.resumeAfter constraints =
      packReply (keys.headD 0) (matching reader m store keys constraints) asked.startPosition asked.resumeAfter := by
  have nothing : packReply (keys.headD 0) [] asked.startPosition asked.resumeAfter = none :=
    packReply_none _ _ asked (Nat.zero_le _)
  unfold intersectFindValueRecords matching
  cases found : intersectLiveRecords reader m store keys with
  | none => exact nothing.symm
  | some listed =>
    rw [(intersectLiveRecords_perm found).1] at nothing ⊢
    dsimp only
    split
    · rfl
    split
    · rename_i empty
      rw [List.isEmpty_iff.1 empty,nothing]
    · rfl

theorem matching_subperm : (matching reader m store keys constraints).Subperm (store.records (keys.headD 0)) := by
  unfold matching
  cases found : intersectLiveRecords reader m store keys with
  | none => exact nil_subperm
  | some listed =>
    obtain ⟨primary,filtered,count⟩ := listed
    obtain ⟨first,same⟩ := intersectLiveRecords_perm found
    have among : filtered.Subperm (store.records (keys.headD 0)) := by
      rw [first]
      exact same.subperm.trans filter_sublist.subperm
    dsimp only
    split
    · exact among
    · exact filter_sublist.subperm.trans among

theorem matching_pageable (shelved : DhtStore.Shelved store) : Pageable (matching reader m store keys constraints) := by
  have among := matching_subperm reader m store keys constraints
  have shelf := shelved (keys.headD 0)
  refine ⟨among.length_le.trans shelf.size,fun r member => ?_,fun r member => ?_⟩
  · exact (shelf.filed r (among.subset member)).least
  · exact (shelf.filed r (among.subset member)).most

end Store

theorem anchored_walk_complete (env : Env) (ops : List (StoreOp env)) (reader : NameReader) (m : Moment)
    (keys : List Key) (constraints : ValueConstraints)
    (told : Told (matching reader m (DhtStore.new.run ops) keys constraints)) :
    matching reader m (DhtStore.new.run ops) keys constraints = [] ∨
      Complete (fun _ asked => intersectFindValueRecords reader m (DhtStore.new.run ops) keys asked.startPosition
        asked.resumeAfter constraints) nextPage (matching reader m (DhtStore.new.run ops) keys constraints) := by
  have shelved := (DhtStore.shelved_invariant env).run ops (fun _ _ => trivial) DhtStore.new
    (fun k => Shelf.nil k)
  have pageable := matching_pageable reader m _ keys constraints shelved
  exact walk_complete pageable (nextPage_resumes pageable told) fun _ asked =>
    intersectFindValueRecords_eq reader m _ keys constraints

/-- Every page a node serves fits a datagram, and what is on it is held under the key asked for and signed for it. -/
theorem pages_served (env : Env) (ops : List (StoreOp env)) (reader : NameReader) (m : Moment) (keys : List Key)
    (constraints : ValueConstraints) (asked : FindValueRequest) :
    let store := DhtStore.new.run ops
    let reply := intersectFindValueRecords reader m store keys asked.startPosition asked.resumeAfter constraints
    reply = none ∨ ∃ page, reply = some page ∧ pageBytes page.blobs ≤ maxFoundValueRecordBytes ∧ page.blobs.length ≤ 6 ∧
      ∀ blob ∈ page.blobs, ∃ r ∈ store.records (keys.headD 0), blob = recordBlob r ∧
        Filed (keys.headD 0) r.publisherKey r.createdAt r.data := by
  intro store reply
  have shelved := (DhtStore.shelved_invariant env).run ops (fun _ _ => trivial) DhtStore.new (fun k => Shelf.nil k)
  have among := matching_subperm reader m store keys constraints
  have pageable := matching_pageable reader m store keys constraints shelved
  dsimp only [reply]
  rw [intersectFindValueRecords_eq,packReply]
  generalize matching .. = records at *
  dsimp only
  generalize resumeStart .. = start
  have fresh : Packed (records.drop start) { pastLastTaken := start } := ⟨rfl,Nat.zero_le _,Nat.zero_le _,by simp⟩
  have packed := pack_packed (i := start) fresh (fun r member => member) fun r member => pageable.least r (mem_of_mem_drop member)
  split
  · exact .inl rfl
  split
  · exact .inl rfl
  refine .inr ⟨_,rfl,packed.spent ▸ packed.within,packed.few,fun blob member => ?_⟩
  obtain ⟨r,here,rfl⟩ := packed.origin blob member
  have held := among.subset (mem_of_mem_drop here)
  exact ⟨r,held,rfl,(shelved _).filed r held⟩

def namedOp (fileHash : FileHash) (length : Nat) : StoreOp .trusting :=
  .storeAttributed (Moment.reading 1000000 range_million) 5
    (buildData recordTypeKeyword 5 fileHash 0 0 7 1000000 (List.replicate length 97) []) 0 none

def NameReader.blank : NameReader := ⟨fun _ => [],fun _ => [],fun _ _ => false⟩

def heldAfter (ops : List (StoreOp .trusting)) : List DhtRecord :=
  matching .blank (Moment.reading 1000000 range_million) (DhtStore.new.run ops) [5] {}

def servedAfter (ops : List (StoreOp .trusting)) (_ : Nat) (asked : FindValueRequest) : Option FoundValueReply :=
  intersectFindValueRecords .blank (Moment.reading 1000000 range_million) (DhtStore.new.run ops) [5]
    asked.startPosition asked.resumeAfter {}

theorem anchored_walk_complete_gap : Complete (servedAfter [namedOp (2^96) 0,namedOp (2^97) 1050]) nextPage
    (heldAfter [namedOp (2^96) 0,namedOp (2^97) 1050]) :=
  (anchored_walk_complete .trusting [namedOp (2^96) 0,namedOp (2^97) 1050] .blank
    (Moment.reading 1000000 range_million) [5] {} (told_of_nodup (by decide +kernel))).resolve_left (by decide +kernel)

def alikeFiles : List (StoreOp .trusting) := [namedOp 1 0,namedOp 2 0,namedOp (2^96) 1050]

/-- Two files of one publisher whose hashes begin alikeFiles, and a record that fits no page with them:
the second page and all after it resume after the first of the two. -/
theorem colliding_anchors_repeat : ((heldAfter alikeFiles).map DhtRecord.slot).Nodup ∧
    ¬ Complete (servedAfter alikeFiles) nextPage (heldAfter alikeFiles) := by
  refine ⟨by decide +kernel,?_⟩
  rintro ⟨last,bound,reply,sent,exhausted,_⟩
  have size : (heldAfter alikeFiles).length = 3 := by decide +kernel
  have unfinished : ∀ k < 3, (pageReply (servedAfter alikeFiles) nextPage k).all
      (fun reply => decide (reply.nextPosition < reply.totalAvailable)) = true := by decide +kernel
  have more := unfinished last (size ▸ bound)
  rw [sent,all_some,decide_eq_true_eq] at more
  omega

end Ember.Dht
