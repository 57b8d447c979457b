import Ember.Library.Window
import Ember.Dht.FindValue
import Ember.Dht.StoreShelf

/-! What one page carries: the run of records the byte budget covers from the start, then perhaps
smaller ones from behind; it is to be continued where the run ends. -/
namespace Ember.Dht
open Bytes Window List

structure Pageable (records : List DhtRecord) : Prop where
  size : records.length ≤ maxRecordsPerKey
  least : ∀ r ∈ records, minStoreRecordBytes ≤ r.data.length
  most : ∀ r ∈ records, r.data.length ≤ maxStoreRecordBytes

variable {record : DhtRecord}

/-- How many records a page covers without a gap from `start` on. -/
def runLength (records : List DhtRecord) (start : Nat) : Nat :=
  fit maxFoundValueRecordBytes ((records.drop start).map blobCost)

theorem recordBlob_length : (recordBlob record).length = record.data.length+64 := by
  simp [recordBlob]

theorem blobAnchor_recordBlob : blobAnchor (recordBlob record) = recordAnchor record.data := by
  rw [blobAnchor,recordBlob_length,if_neg (by omega),Nat.add_sub_cancel,recordBlob,take_left]

def pageBytes (blobs : List Bytes) : Nat := (blobs.map fun blob => 2+blob.length).sum

theorem pageBytes_push {blobs : List Bytes} :
    pageBytes (blobs++[recordBlob record]) = pageBytes blobs+blobCost record := by
  simp only [pageBytes,blobCost,map_append,sum_append,map_cons,map_nil,sum_singleton,
    recordBlob_length,Nat.add_assoc]

theorem min_le_blobCost (least : minStoreRecordBytes ≤ record.data.length) :
    minFoundValueRecordBytes ≤ blobCost record := by
  unfold blobCost minFoundValueRecordBytes foundValueBlobLenPrefix foundValueBlobSignatureLen
  omega

structure Packed (source : List DhtRecord) (packing : Packing) : Prop where
  spent : packing.used = pageBytes packing.blobs
  within : packing.used ≤ maxFoundValueRecordBytes
  floor : packing.blobs.length*minFoundValueRecordBytes ≤ packing.used
  origin : ∀ blob ∈ packing.blobs, ∃ r ∈ source, blob = recordBlob r

section Pack
variable {source rest : List DhtRecord} {packing : Packing} {i : Nat}

section
variable (packed : Packed source packing)
include packed

theorem Packed.passOver : Packed source (packing.passOver i) :=
  { packed with }

theorem Packed.take (member : record ∈ source) (least : minStoreRecordBytes ≤ record.data.length)
    (fits : packing.used+blobCost record ≤ maxFoundValueRecordBytes) : Packed source (packing.take i record) := by
  refine ⟨?_,fits,?_,?_⟩
  · rw [Packing.take,pageBytes_push,← packed.spent]
  · have longer : (packing.take i record).blobs.length = packing.blobs.length+1 := length_append
    rw [longer,Nat.add_one_mul]
    exact Nat.add_le_add packed.floor (min_le_blobCost least)
  · intro blob inside
    rcases mem_append.1 inside with before | last
    · exact packed.origin blob before
    · exact ⟨record,member,mem_singleton.1 last⟩

theorem Packed.few : packing.blobs.length ≤ 6 := by
  have floor := packed.floor
  have within := packed.within
  have least : minFoundValueRecordBytes = 181 := by decide
  have most : maxFoundValueRecordBytes = 1231 := by decide
  rw [least] at floor
  omega

theorem pack_packed (inside : ∀ r ∈ rest, r ∈ source)
    (least : ∀ r ∈ rest, minStoreRecordBytes ≤ r.data.length) : Packed source (pack i rest packing) := by
  induction rest generalizing i packing with
  | nil => exact packed
  | cons record rest ih =>
    have later : ∀ r ∈ rest, r ∈ source := fun r member => inside r (mem_cons_of_mem _ member)
    have floors : ∀ r ∈ rest, minStoreRecordBytes ≤ r.data.length := fun r member =>
      least r (mem_cons_of_mem _ member)
    unfold pack
    split
    · exact packed
    split
    · exact packed.passOver
    split
    · exact ih packed.passOver later floors
    rename_i fits
    exact ih (packed.take (inside record mem_cons_self) (least record mem_cons_self) (not_lt.1 fits))
      later floors

end

theorem pack_passed (j : Nat) (passed : packing.firstPassedOver = some j) :
    (pack i rest packing).firstPassedOver = some j ∧ packing.blobs <+: (pack i rest packing).blobs := by
  induction rest generalizing i packing with
  | nil => exact ⟨passed,List.prefix_rfl⟩
  | cons record rest ih =>
    have still : (packing.passOver i).firstPassedOver = some j := by rw [Packing.passOver,passed]; rfl
    unfold pack
    split
    · exact ⟨passed,List.prefix_rfl⟩
    split
    · exact ⟨still,List.prefix_rfl⟩
    split
    · exact ih still
    have still : (packing.take i record).firstPassedOver = some j := passed
    obtain ⟨kept,grown⟩ := ih still
    exact ⟨kept,(List.prefix_append ..).trans grown⟩

theorem pack_run (packed : Packed source packing) (inside : ∀ r ∈ rest, r ∈ source)
    (least : ∀ r ∈ rest, minStoreRecordBytes ≤ r.data.length) (straight : packing.firstPassedOver = none)
    (reached : packing.pastLastTaken = i) :
    (pack i rest packing).firstPassedOver.getD (pack i rest packing).pastLastTaken =
        i+fit (maxFoundValueRecordBytes-packing.used) (rest.map blobCost) ∧
      packing.blobs++(rest.take (fit (maxFoundValueRecordBytes-packing.used) (rest.map blobCost))).map recordBlob <+:
        (pack i rest packing).blobs := by
  induction rest generalizing i packing with
  | nil => simp [pack,fit,straight,reached]
  | cons record rest ih =>
    have later : ∀ r ∈ rest, r ∈ source := fun r member => inside r (mem_cons_of_mem _ member)
    have floors : ∀ r ∈ rest, minStoreRecordBytes ≤ r.data.length := fun r member =>
      least r (mem_cons_of_mem _ member)
    have few := packed.few
    have within := packed.within
    have cost := min_le_blobCost (least record mem_cons_self)
    have stopped : (packing.passOver i).firstPassedOver = some i := by rw [Packing.passOver,straight]; rfl
    have nothing : maxFoundValueRecordBytes < packing.used+blobCost record →
        fit (maxFoundValueRecordBytes-packing.used) ((record :: rest).map blobCost) = 0 := by
      intro exceeds
      refine if_neg (not_le.2 ?_)
      omega
    unfold pack
    split
    · rename_i full
      unfold maxFoundValueRecords at full
      omega
    split
    · rw [nothing (by omega),stopped]
      exact ⟨rfl,by simp [Packing.passOver]⟩
    split
    · rename_i exceeds
      obtain ⟨kept,grown⟩ : (pack (i+1) rest (packing.passOver i)).firstPassedOver = some i ∧ _ := pack_passed i stopped
      rw [nothing exceeds,kept]
      exact ⟨rfl,by simpa [Packing.passOver] using grown⟩
    rename_i fits
    have taken : Packed source (packing.take i record) :=
      packed.take (inside record mem_cons_self) (least record mem_cons_self) (not_lt.1 fits)
    have past : (packing.take i record).pastLastTaken = i+1 := rfl
    obtain ⟨next,grown⟩ := ih taken later floors straight past
    have left : maxFoundValueRecordBytes-(packing.take i record).used =
        maxFoundValueRecordBytes-packing.used-blobCost record := Nat.sub_add_eq ..
    rw [map_cons,fit_cons_of_le (by omega),← left]
    refine ⟨by omega,?_⟩
    simpa [Packing.take] using grown

end Pack

section Run
variable {records : List DhtRecord} {start : Nat}

theorem runLength_le (inside : start ≤ records.length) : start+runLength records start ≤ records.length := by
  have fits := fit_le_length maxFoundValueRecordBytes ((records.drop start).map blobCost)
  rw [length_map,length_drop] at fits
  unfold runLength
  omega

theorem runLength_pos (pageable : Pageable records) (inside : start < records.length) :
    0 < runLength records start := by
  have first := drop_eq_getElem_cons inside
  have fits : blobCost records[start] ≤ maxFoundValueRecordBytes := by
    have small := pageable.most _ (getElem_mem inside)
    have most : maxStoreRecordBytes+66 = maxFoundValueRecordBytes := by decide
    unfold blobCost
    omega
  rw [runLength,first,map_cons,fit_cons_of_le fits]
  exact Nat.succ_pos _

end Run

/-- A reply to a page asked at `asked`, beginning at index `start` of the list. -/
structure Page (records : List DhtRecord) (asked start : Nat) (reply : FoundValueReply) : Prop where
  next : reply.nextPosition = toSearcher asked start (start+runLength records start)
  total : reply.totalAvailable = toSearcher asked start records.length
  run : ((records.drop start).take (runLength records start)).map recordBlob <+: reply.blobs
  bytes : pageBytes reply.blobs ≤ maxFoundValueRecordBytes
  count : reply.blobs.length ≤ 6
variable (primary : Key) (records : List DhtRecord) (asked : FindValueRequest) {start : Nat}

theorem packReply_none (past : records.length ≤ resumeStart records asked.startPosition asked.resumeAfter) :
    packReply primary records asked.startPosition asked.resumeAfter = none :=
  if_pos past

theorem packReply_page (start : Nat)
    (pageable : Pageable records) (begins : resumeStart records asked.startPosition asked.resumeAfter = start)
    (inside : start < records.length) :
    ∃ reply, packReply primary records asked.startPosition asked.resumeAfter = some reply ∧
      Page records asked.startPosition start reply := by
  have least : ∀ r ∈ records.drop start, minStoreRecordBytes ≤ r.data.length := fun r member =>
    pageable.least r (mem_of_mem_drop member)
  have fresh : Packed (records.drop start) { pastLastTaken := start } :=
    ⟨rfl,Nat.zero_le _,Nat.zero_le _,by simp⟩
  have packed := pack_packed (i := start) fresh (fun _ member => member) least
  obtain ⟨next,run⟩ := pack_run fresh (fun _ member => member) least rfl rfl
  have taken : (pack start (records.drop start) { pastLastTaken := start }).blobs.isEmpty = false := by
    have some := runLength_pos pageable inside
    have longer := run.length_le
    rw [nil_append,length_map,length_take,length_drop] at longer
    rw [isEmpty_eq_false_iff,← length_pos_iff]
    unfold runLength at some
    simp only [Nat.sub_zero] at longer
    omega
  have written : packReply primary records asked.startPosition asked.resumeAfter = some
      { key := primary
        blobs := (pack start (records.drop start) { pastLastTaken := start }).blobs
        withheld := records.length-(pack start (records.drop start) { pastLastTaken := start }).pastLastTaken
        nextPosition := toSearcher asked.startPosition start
          ((pack start (records.drop start) { pastLastTaken := start }).firstPassedOver.getD
            (pack start (records.drop start) { pastLastTaken := start }).pastLastTaken)
        totalAvailable := toSearcher asked.startPosition start records.length } := by
    unfold packReply
    rw [begins]
    dsimp only
    rw [if_neg (not_le.2 inside),taken,if_neg Bool.false_ne_true]
  exact ⟨_,written,congrArg (toSearcher _ _) next,rfl,run,packed.spent ▸ packed.within,packed.few⟩

theorem Page.carries {records : List DhtRecord} {asked i : Nat} {reply : FoundValueReply} {r : DhtRecord}
    (page : Page records asked start reply) (found : records[i]? = some r) (after : start ≤ i)
    (before : i < start+runLength records start) : recordBlob r ∈ reply.blobs := by
  refine page.run.subset (mem_map_of_mem (mem_of_getElem? (i := i-start) ?_))
  rw [getElem?_take_of_lt (by omega),getElem?_drop,Nat.add_sub_cancel' after]
  exact found

theorem toSearcher_eq {asked index : Nat} (behind : start ≤ asked) :
    toSearcher asked start index = min (index+(asked-start)) maxPosition := by
  unfold toSearcher
  omega

section Anchors
variable {records : List DhtRecord} {asked start : Nat} {reply : FoundValueReply}

theorem recordAnchor_isSome {data : Bytes} (least : minStoreRecordBytes ≤ data.length) :
    ∃ anchor, recordAnchor data = some anchor :=
  ⟨_,if_neg (not_lt.2 least)⟩

theorem pushAnchors_anchors (blobs : List Bytes) (resume : ResumeAnchors)
    (room : resume.anchors.length+blobs.length ≤ maxResumeAnchors)
    (read : ∀ blob ∈ blobs, ∃ anchor, blobAnchor blob = some anchor) :
    (pushAnchors blobs resume).anchors = resume.anchors++blobs.filterMap blobAnchor := by
  induction blobs generalizing resume with
  | nil => simp [pushAnchors]
  | cons blob rest ih =>
    obtain ⟨anchor,found⟩ := read blob mem_cons_self
    rw [length_cons] at room
    have pushed : (resume.push anchor).anchors = resume.anchors++[anchor] := by
      rw [ResumeAnchors.push,dif_pos (by omega)]
    have longer : (resume.push anchor).anchors.length = resume.anchors.length+1 := by
      simp [pushed]
    have rest := ih (resume.push anchor) (by omega) (fun b member => read b (mem_cons_of_mem _ member))
    rw [pushAnchors,found,filterMap_cons_some found]
    rw [rest,pushed,append_assoc,singleton_append]

theorem Page.anchors (page : Page records asked start reply) (pageable : Pageable records)
    (inside : start < records.length) (exact : reply.nextPosition = asked+runLength records start) :
    (pageResumeAnchors reply.blobs asked reply.nextPosition).anchors =
      (((records.drop start).take (runLength records start)).reverse.take maxResumeAnchors).filterMap
        fun r => recordAnchor r.data := by
  have positive := runLength_pos pageable inside
  have bound := runLength_le inside.le
  have size : (((records.drop start).take (runLength records start)).map recordBlob).length =
      runLength records start := by
    rw [length_map,length_take,length_drop]
    omega
  have longer := page.run.length_le
  have span : reply.nextPosition-asked = runLength records start := by omega
  have front : reply.blobs.take (runLength records start) =
      ((records.drop start).take (runLength records start)).map recordBlob := by
    have whole := List.prefix_iff_eq_take.1 page.run
    rw [size] at whole
    exact whole.symm
  unfold pageResumeAnchors
  rw [if_pos (by omega),span,front,← map_reverse,← map_take,pushAnchors_anchors]
  · rw [filterMap_map]
    exact filterMap_congr fun r _ => blobAnchor_recordBlob
  · rw [length_map]
    exact (Nat.zero_add _).symm ▸ length_take_le ..
  · intro blob member
    obtain ⟨r,among,rfl⟩ := mem_map.1 member
    rw [blobAnchor_recordBlob]
    refine recordAnchor_isSome (pageable.least r ?_)
    exact mem_of_mem_drop (mem_of_mem_take (mem_reverse.1 (mem_of_mem_take among)))

end Anchors
end Ember.Dht
