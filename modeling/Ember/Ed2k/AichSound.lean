import Ember.Ed2k.AichRecovery

/-! No answer talks a peer into other leaves than the file's own: the size it trusts fixes the shape of
the tree, so whatever it is sent is climbed along the way of the true leaves. -/
namespace Ember.Ed2k.Aich
open Bytes SplitTree List Option Prod

section Leaves
variable {sha1 : Bytes → Digest} {content : Bytes} {part : Nat}

theorem length_chunks {size : Nat} {data : Bytes} : (chunks size data).length = (data.length+size-1)/size := by
  simp [chunks]

theorem chunks_partBytes_length (positive : 0 < content.length) (inside : part < numParts content.length) :
    (chunks aichBlockSize (partBytes content part (numParts content.length))).length =
      blocksInPart content.length part (numParts content.length) := by
  rw [length_chunks,blocksInPart,if_neg (by omega)]
  congr 2
  have bounds := numParts_bounds positive
  unfold partBytes partDataSize
  split
  · next before =>
    rw [slice_length]
    · simp [Nat.succ_mul]
    · have whole : (part+1)*partSize ≤ (numParts content.length-1)*partSize := Nat.mul_le_mul_right _ (by omega)
      omega
  rw [length_drop]
  unfold numParts partSize at *
  split <;> omega

theorem drop_flatMap_range {α : Type*} {row : Nat → List α} {width count target : Nat} (inside : target < count)
    (before : ∀ i < target, (row i).length = width) :
    (((List.range count).flatMap row).drop (target*width)).take (row target).length = row target := by
  obtain ⟨more,rfl⟩ : ∃ more, count = target+(more+1) := ⟨count-target-1,by omega⟩
  have first : ((List.range target).flatMap row).length = target*width := by
    simp [map_congr_left fun i listed => before i (mem_range.1 listed)]
  rw [range_add,flatMap_append,← first,drop_left,range_succ_eq_map,map_cons,flatMap_cons,Nat.add_zero,
    take_left]

theorem buildFromData_whole (positive : 0 < content.length) : (AICHRecoveryHashSet.buildFromData sha1 content).Whole where
  positive := positive
  length := by
    change (hashLeavesFromReader sha1 content).length = leafCountForSize content.length
    unfold hashLeavesFromReader leafCountForSize
    rw [max_numParts positive,if_neg (by omega),length_flatMap]
    refine congrArg List.sum (map_congr_left fun part listed => ?_)
    simp [chunks_partBytes_length positive (mem_range.1 listed)]

theorem partLeaves_buildFromData (positive : 0 < content.length) (inside : part < numParts content.length) :
    (AICHRecoveryHashSet.buildFromData sha1 content).partLeaves part =
      (chunks aichBlockSize (partBytes content part (numParts content.length))).map (hashLeaf sha1) := by
  have shown := (@partLeaves_eq (.buildFromData sha1 content) part (buildFromData_whole positive) inside).1
  have cut := @drop_flatMap_range Digest
    (fun p => (chunks aichBlockSize (partBytes content p (numParts content.length))).map (hashLeaf sha1)) 53 (numParts content.length) part
    inside fun i before => by
      rw [length_map,chunks_partBytes_length positive (by omega)]
      exact blocksInPart_full (by omega)
  rw [length_map,chunks_partBytes_length positive inside] at cut
  rw [shown]
  change ((hashLeavesFromReader sha1 content).drop (part*53)).take (blocksInPart content.length part (numParts content.length)) = _
  rw [hashLeavesFromReader,max_numParts positive]
  exact cut

end Leaves

section Soundness
variable {sha1 : Bytes → Digest} {hs : AICHRecoveryHashSet} {part : Nat} {data : Bytes}

def Collisionless (sha1 : Bytes → Digest) (inputs : List Bytes) : Prop := ∀ a ∈ inputs, ∀ b ∈ inputs, sha1 a = sha1 b → a = b

def nodeInput (q : Digest × Digest) : Bytes := ofArray q.1++ofArray q.2

theorem nodeInput_injective : Function.Injective nodeInput := by
  rintro ⟨a,b⟩ ⟨c,d⟩ same
  have halves := append_inj same (by simp)
  have first := congrArg (array 160) halves.1
  have second := congrArg (array 160) halves.2
  rw [@array_ofArray 160 20 rfl,@array_ofArray 160 20 rfl] at first second
  exact Prod.ext first second

theorem injOn_nodes {nodes : List (Digest × Digest)} (distinct : Collisionless sha1 (nodes.map nodeInput)) :
    Set.InjOn (fun q : Digest × Digest => hashInternal sha1 q.1 q.2) {q | q ∈ nodes} := fun _ listed _ listed' same =>
  nodeInput_injective (distinct _ (List.mem_map_of_mem listed) _ (List.mem_map_of_mem listed') same)

/-- What is hashed to build the tree of one part and the one above. -/
def treePairs (sha1 : Bytes → Digest) (hs : AICHRecoveryHashSet) (part : Nat) : List (Digest × Digest) :=
  pairs (hashInternal sha1) (hashLeaf sha1 []) (computeAllPartHashes sha1 hs.leafHashes hs.fileSize (numParts hs.fileSize)) true++
    pairs (hashInternal sha1) (hashLeaf sha1 []) (hs.partLeaves part) (topLevelPathStructure (numParts hs.fileSize) part).1.2

def verifyPairs (sha1 : Bytes → Digest) (size part : Nat) (recovery : Bytes) : List (Digest × Digest) :=
  match claimedLeaves size part recovery with
  | none => []
  | some (leaves,lookup) =>
    pairs (hashInternal sha1) (hashLeaf sha1 []) leaves (topLevelPathStructure (numParts size) part).1.2++
      climbPairs (hashInternal sha1) lookup (topLevelPathStructure (numParts size) part).2
        (buildTreeRecursive sha1 leaves (topLevelPathStructure (numParts size) part).1.2)

theorem length_mapM {α β : Type} {f : α → Option β} {l : List α} {found : List β} (mapped : l.mapM f = some found) :
    found.length = l.length := by
  induction l generalizing found with
  | nil =>
    obtain rfl := some.inj mapped
    rfl
  | cons a rest ih =>
    rw [mapM_cons] at mapped
    obtain ⟨first,-,mapped⟩ := bind_eq_some_iff.1 mapped
    obtain ⟨more,later,mapped⟩ := bind_eq_some_iff.1 mapped
    obtain rfl := some.inj mapped
    exact congrArg Nat.succ (ih later)

section
variable {data : Bytes} {leaves : List Digest} {lookup : Nat → Option Digest} {part : Nat}

theorem claimedLeaves_length {size : Nat} (positive : 0 < size)
    (inside : part < numParts size) (claimed : claimedLeaves size part data = some (leaves,lookup)) :
    leaves.length = blocksInPart size part (numParts size) := by
  have blocks := blocksInPart_bounds inside
  unfold claimedLeaves at claimed
  rw [Nat.max_eq_left (numParts_bounds positive).1] at claimed
  split at claimed
  · obtain ⟨found,mapped,same⟩ := map_eq_some_iff.1 claimed
    obtain rfl : found = leaves := (mk.inj same).1
    rw [length_mapM mapped,leafIds,if_pos blocks.1,ids_length blocks.1]
  obtain ⟨-,claimed⟩ := ite_none_left_eq_some.1 claimed
  obtain ⟨counted,claimed⟩ := ite_none_left_eq_some.1 claimed
  obtain ⟨-,claimed⟩ := ite_none_left_eq_some.1 claimed
  rw [← (mk.inj (some.inj claimed)).1,length_map,length_range]
  exact not_not.1 counted

theorem verified_leaves (whole : hs.Whole) (inside : part < numParts hs.fileSize)
    (distinct : Collisionless sha1 ((treePairs sha1 hs part++verifyPairs sha1 hs.fileSize part data).map nodeInput))
    (claimed : claimedLeaves hs.fileSize part data = some (leaves,lookup))
    (verified : verifyPartLeaves sha1 leaves (hierarchicalRoot sha1 hs.leafHashes hs.fileSize) hs.fileSize part lookup = true) :
    leaves = hs.partLeaves part := by
  have injective := injOn_nodes distinct
  have length := claimedLeaves_length whole.positive inside claimed
  have blocks := blocksInPart_bounds inside
  have count := @computeAllPartHashes_length sha1 hs.leafHashes hs.fileSize (numParts hs.fileSize)
  have climbed := ((verifyPartLeaves_iff whole.positive).1 verified).2
  have received : ∀ q, q ∈ pairs (hashInternal sha1) (hashLeaf sha1 []) leaves (topLevelPathStructure (numParts hs.fileSize) part).1.2 ∨
      q ∈ climbPairs (hashInternal sha1) lookup (topLevelPathStructure (numParts hs.fileSize) part).2
        (buildTreeRecursive sha1 leaves (topLevelPathStructure (numParts hs.fileSize) part).1.2) →
      q ∈ treePairs sha1 hs part++verifyPairs sha1 hs.fileSize part data := by
    intro q listed
    unfold verifyPairs
    rw [claimed]
    exact mem_append_right _ (mem_append.2 listed)
  rw [hierarchicalRoot_eq whole] at climbed
  apply root_injective injective (length.trans (partLeaves_length whole inside).symm) (by omega)
  · intro q listed
    exact received q (.inl listed)
  · intro q listed
    exact mem_append_left _ (mem_append_right _ listed)
  · refine @climb_injective Digest part 1 true _ _ _ lookup _ injective _ _ (computeAllPartHashes_get whole inside)
      (fun q listed => mem_append_left _ (mem_append_left _ listed)) ?_ ?_
    · intro q listed
      rw [count] at listed
      exact received q (.inr listed)
    · rw [count]
      exact climbed

end

theorem readRecoveryData_true (positive : 0 < hs.fileSize)
    (taken : (hs.readRecoveryData sha1 data part).1 = true) : part < numParts hs.fileSize ∧ ∃ leaves lookup,
      claimedLeaves hs.fileSize part data = some (leaves,lookup) ∧
      verifyPartLeaves sha1 leaves hs.rootHash hs.fileSize part lookup = true := by
  have inside : part < numParts hs.fileSize := by
    by_contra outside
    rw [readRecoveryData_outside positive (Nat.le_of_not_lt outside)] at taken
    cases taken
  refine ⟨inside,?_⟩
  by_contra refused
  have unread : hs.readRecoveryData sha1 data part = (false,hs) := by
    unfold AICHRecoveryHashSet.readRecoveryData
    dsimp only
    split
    · rfl
    split
    · rfl
    · next leaves lookup claimed => rw [if_neg fun verified => refused ⟨leaves,lookup,claimed,verified⟩]
  rw [unread] at taken
  cases taken

theorem zipIdx_chunks {size : Nat} :
    (chunks size data).zipIdx = (List.range ((data.length+size-1)/size)).map fun i => (chunk size data i,i) := by
  apply ext_getElem?
  intro i
  rw [getElem?_zipIdx,chunks,getElem?_map,getElem?_map]
  by_cases inside : i < (data.length+size-1)/size
  · rw [getElem?_range inside,Nat.zero_add]
    rfl
  · rw [getElem?_eq_none (by rw [length_range]; omega)]
    rfl

theorem findCorruptBlocks_eq {partData : Bytes} {leaves : List Digest} {before : List Digest}
    (table : hs.leafHashes = before++leaves) (start : before.length = part*53)
    (count : leaves.length = (partData.length+aichBlockSize-1)/aichBlockSize) : hs.findCorruptBlocks sha1 part partData =
      (List.range leaves.length).filter fun i => some (hashLeaf sha1 (chunk aichBlockSize partData i)) ≠ leaves[i]? := by
  unfold AICHRecoveryHashSet.findCorruptBlocks
  rw [blocksPerFullPart_eq,zipIdx_chunks,← count,takeWhile_eq_self_iff.2,List.filter_map,List.map_map]
  · change List.map id _ = _
    rw [List.map_id]
    refine filter_congr fun i _ => ?_
    dsimp only [Function.comp_apply]
    rw [table,getElem?_append_right (by omega),start,Nat.add_sub_cancel_left]
  intro block listed
  obtain ⟨i,inside,rfl⟩ := List.mem_map.1 listed
  have bound := mem_range.1 inside
  rw [table,length_append]
  exact decide_eq_true (by dsimp only; omega)

end Soundness

theorem recovery_sound (sha1 : Bytes → Digest) (content partData recovery : Bytes) (part : Nat) (list : List Nat)
    (valid : 1 ≤ content.length ∧ content.length ≤ ed2kMaxFileSizeBytes)
    (length : partData.length = (partBytes content part (numParts content.length)).length)
    (blocks : Collisionless sha1 (chunks aichBlockSize (partBytes content part (numParts content.length))++chunks aichBlockSize partData))
    (nodes : Collisionless sha1 ((treePairs sha1 (.buildFromData sha1 content) part++
      verifyPairs sha1 content.length part recovery).map nodeInput))
    (returned : corruptBlocksFromAichRecovery sha1 (AICHRecoveryHashSet.buildFromData sha1 content).rootHash recovery part partData
      content.length = some list) :
    list = (List.range (blocksInPart content.length part (numParts content.length))).filter fun i =>
      chunk aichBlockSize partData i ≠ chunk aichBlockSize (partBytes content part (numParts content.length)) i := by
  obtain ⟨taken,found⟩ := ite_none_right_eq_some.1 returned
  obtain ⟨inside,leaves,lookup,claimed,verified⟩ :=
    @readRecoveryData_true sha1 (.new (AICHRecoveryHashSet.buildFromData sha1 content).rootHash content.length) part recovery valid.1 taken
  have own : leaves = (chunks aichBlockSize (partBytes content part (numParts content.length))).map (hashLeaf sha1) :=
    (verified_leaves (buildFromData_whole valid.1) inside nodes claimed verified).trans (partLeaves_buildFromData valid.1 inside)
  have count : leaves.length = blocksInPart content.length part (numParts content.length) :=
    claimedLeaves_length valid.1 inside claimed
  have fits : leaves.length = (partData.length+aichBlockSize-1)/aichBlockSize := by
    rw [own,length_map,length_chunks,length]
  have stored := congrArg snd (@readRecoveryData_verified sha1
    (.new (AICHRecoveryHashSet.buildFromData sha1 content).rootHash content.length) part leaves lookup recovery valid.1 inside claimed verified)
  rw [stored] at found
  rw [← some.inj found,@findCorruptBlocks_eq sha1 _ part partData leaves (List.replicate (part*53) 0) place_fresh
    (length_replicate ..) fits,count]
  refine filter_congr fun i listed => ?_
  have bound := mem_range.1 listed
  have leaf : leaves[i]? = some (sha1 (chunk aichBlockSize (partBytes content part (numParts content.length)) i)) := by
    rw [own,getElem?_map,chunks,getElem?_map,getElem?_range (by rw [← length]; omega)]
    rfl
  have held : chunk aichBlockSize partData i ∈ chunks aichBlockSize partData :=
    List.mem_map_of_mem (mem_range.2 (by omega))
  have genuine : chunk aichBlockSize (partBytes content part (numParts content.length)) i ∈
      chunks aichBlockSize (partBytes content part (numParts content.length)) :=
    List.mem_map_of_mem (mem_range.2 (by rw [← length]; omega))
  rw [leaf,decide_eq_decide]
  refine not_congr ⟨fun same => ?_,fun same => by rw [same]; rfl⟩
  exact blocks _ (mem_append_right _ held) _ (mem_append_left _ genuine) (some.inj same)

theorem recovery_sound_flat : ([0] : List Nat) = (List.range (blocksInPart 1 0 (numParts 1))).filter fun i =>
    chunk aichBlockSize [8] i ≠ chunk aichBlockSize (partBytes [7] 0 (numParts 1)) i := by
  have claimed : (claimedLeaves 1 0 ([1,0]++ofArray (7 : Digest))).map fst = some [7] := by decide +kernel
  have tree : treePairs (array 160) (.buildFromData (array 160) [7]) 0 = [] := by
    have whole : (AICHRecoveryHashSet.buildFromData (array 160) [7]).Whole := buildFromData_whole (by decide)
    have top := @computeAllPartHashes_length (array 160) (AICHRecoveryHashSet.buildFromData (array 160) [7]).leafHashes
      (AICHRecoveryHashSet.buildFromData (array 160) [7]).fileSize (numParts (AICHRecoveryHashSet.buildFromData (array 160) [7]).fileSize)
    have own := @partLeaves_length (.buildFromData (array 160) [7]) 0 whole (by decide +kernel)
    rw [show (AICHRecoveryHashSet.buildFromData (array 160) [7]).fileSize = 1 from rfl] at top own
    have parts : numParts 1 = 1 := by decide +kernel
    have blocks : blocksInPart 1 0 (numParts 1) = 1 := by decide +kernel
    unfold treePairs
    rw [show (AICHRecoveryHashSet.buildFromData (array 160) [7]).fileSize = 1 from rfl,pairs_small (top.trans parts).le,
      pairs_small (own.trans blocks).le,append_nil]
  have received : verifyPairs (array 160) 1 0 ([1,0]++ofArray (7 : Digest)) = [] := by
    unfold verifyPairs
    split
    · rfl
    next leaves lookup put =>
    rw [put] at claimed
    obtain rfl := some.inj claimed
    rw [show numParts 1 = 1 from rfl,topLevelPathStructure,path_small le_rfl,pairs_small le_rfl]
    rfl
  have nodes : treePairs (array 160) (.buildFromData (array 160) [7]) 0++
      verifyPairs (array 160) ([7] : Bytes).length 0 ([1,0]++ofArray (7 : Digest)) = [] := by
    rw [tree]
    exact received
  apply recovery_sound (array 160) [7] [8] ([1,0]++ofArray (7 : Digest)) 0 [0] (by decide +kernel) rfl
  · unfold Collisionless
    decide +kernel
  · rw [nodes]
    intro _ listed
    cases listed
  · decide +kernel

end Ember.Ed2k.Aich
