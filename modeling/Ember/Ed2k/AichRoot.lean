import Ember.Ed2k.AichSound

/-! The root of the two-level tree is that of one recursion over sizes: a node over more than one part splits between
parts, a node inside one between blocks, and either rounds by its side. -/
namespace Ember.Ed2k.Aich
open SplitTree List

section Sizes
variable (size : Nat) (isLeft : Bool)

def treeBase : Nat := if partSize < size then partSize else aichBlockSize

def treeBlocks : Nat := (size+treeBase size-1)/treeBase size

def leftSize : Nat := (treeBlocks size+if isLeft then 1 else 0)/2*treeBase size

theorem leftSize_bounds {size : Nat} (inner : ¬size ≤ treeBase size) (isLeft : Bool) : 0 < leftSize size isLeft ∧ leftSize size isLeft < size := by
  unfold leftSize treeBlocks treeBase partSize aichBlockSize at *
  cases isLeft <;> grind

end Sizes

def emuleRoot (sha1 : Bytes → Digest) (leaves : List Digest) (size : Nat) (isLeft : Bool) : Digest :=
  if size ≤ treeBase size then leaves.head?.getD (hashLeaf sha1 [])
  else hashInternal sha1
    (emuleRoot sha1 (leaves.take (leafCountForSize (leftSize size isLeft))) (leftSize size isLeft) true)
    (emuleRoot sha1 (leaves.drop (leafCountForSize (leftSize size isLeft))) (size-leftSize size isLeft) false)
termination_by size
decreasing_by
  all_goals
    have bounds := leftSize_bounds (by assumption) isLeft
    omega

variable {sha1 : Bytes → Digest} {size : Nat} {isLeft : Bool} {leaves : List Digest}

theorem leafCountForSize_closed (positive : 0 < size) :
    leafCountForSize size = size/partSize*53+(size%partSize+aichBlockSize-1)/aichBlockSize := by
  rw [leafCountForSize_eq positive]
  unfold blocksInPart partDataSize numParts partSize aichBlockSize
  split_ifs <;> omega

theorem leafCountForSize_part (positive : 0 < size) (small : size ≤ partSize) : leafCountForSize size = (size+aichBlockSize-1)/aichBlockSize := by
  rw [leafCountForSize_closed positive]
  obtain rfl | less := Nat.eq_or_lt_of_le small
  · rfl
  · rw [Nat.div_eq_of_lt less,Nat.mod_eq_of_lt less,Nat.zero_add]

theorem leaves_split (counted : leaves.length = leafCountForSize size) (inner : ¬size ≤ treeBase size) (isLeft : Bool) :
    (leaves.take (leafCountForSize (leftSize size isLeft))).length = leafCountForSize (leftSize size isLeft) ∧
      (leaves.drop (leafCountForSize (leftSize size isLeft))).length = leafCountForSize (size-leftSize size isLeft) := by
  obtain ⟨some,less⟩ := leftSize_bounds inner isLeft
  have whole : leafCountForSize size = leafCountForSize (leftSize size isLeft)+leafCountForSize (size-leftSize size isLeft) := by
    obtain ⟨k,left⟩ : ∃ k, leftSize size isLeft = k*treeBase size := ⟨_,rfl⟩
    rw [left] at some less ⊢
    rcases Nat.lt_or_ge partSize size with more | small
    · rw [treeBase,if_pos more] at some less ⊢
      rw [leafCountForSize_closed some,leafCountForSize_closed (Nat.sub_pos_of_lt less),leafCountForSize_closed (some.trans less)]
      unfold partSize aichBlockSize at *
      omega
    rw [treeBase,if_neg (Nat.not_lt.2 small)] at some less ⊢
    rw [leafCountForSize_part some (less.le.trans small),leafCountForSize_part (Nat.sub_pos_of_lt less) ((Nat.sub_le ..).trans small),
      leafCountForSize_part (some.trans less) small]
    unfold aichBlockSize at *
    omega
  rw [length_take,length_drop]
  omega

theorem emuleRoot_blocks (counted : leaves.length = leafCountForSize size) (positive : 0 < size) (small : size ≤ partSize) :
    emuleRoot sha1 leaves size isLeft = buildTreeRecursive sha1 leaves isLeft := by
  induction size using Nat.strong_induction_on generalizing leaves isLeft with
  | h size ih =>
    have base : treeBase size = aichBlockSize := if_neg (Nat.not_lt.2 small)
    rw [leafCountForSize_part positive small] at counted
    rw [emuleRoot,buildTreeRecursive]
    split
    next single =>
      rw [root,if_pos]
      unfold aichBlockSize at *
      omega
    next inner =>
    obtain ⟨some,less⟩ := leftSize_bounds inner isLeft
    obtain ⟨first,second⟩ := leaves_split (counted.trans (leafCountForSize_part positive small).symm) inner isLeft
    have cut : leafCountForSize (leftSize size isLeft) = leftCount leaves.length isLeft := by
      rw [counted,leafCountForSize_part some (less.le.trans small),leftSize,treeBlocks,base,leftCount]
      unfold aichBlockSize
      omega
    have many : 1 < leaves.length := by
      unfold aichBlockSize at *
      omega
    rw [root_split many,ih _ less first some (less.le.trans small),
      ih _ (by omega) second (by omega) (by omega),cut]
    rfl

theorem numParts_mul {k : Nat} : numParts (k*partSize) = k := by
  unfold numParts partSize
  omega

theorem numParts_sub {k : Nat} (less : k*partSize < size) : numParts (size-k*partSize) = numParts size-k := by
  unfold numParts partSize at *
  omega

theorem emuleRoot_parts {hashes : List Digest} (counted : leaves.length = leafCountForSize size) (positive : 0 < size)
    (length : hashes.length = numParts size) (each : ∀ i side, (sides (numParts size) isLeft)[i]? = some side →
      hashes[i]? = some (buildTreeRecursive sha1 ((leaves.drop (i*53)).take 53) side)) :
    emuleRoot sha1 leaves size isLeft = buildTreeRecursive sha1 hashes isLeft := by
  generalize parts : numParts size = count at length each
  induction count, isLeft using split_induction generalizing leaves size hashes with
  | small count isLeft few =>
    have bounds := numParts_bounds positive
    obtain rfl : count = 1 := by omega
    have small : size ≤ partSize := by
      rw [parts] at bounds
      exact bounds.2.2
    have short : leaves.length ≤ 53 := by
      rw [counted,leafCountForSize_part positive small]
      unfold partSize aichBlockSize at *
      omega
    have first := each 0 isLeft (by rw [sides]; rfl)
    obtain ⟨hash,rfl⟩ := length_eq_one_iff.1 length
    rw [drop_zero,take_of_length_le short] at first
    rw [emuleRoot_blocks counted positive small,buildTreeRecursive,buildTreeRecursive,root_single]
    exact (Option.some.inj first).symm
  | split count isLeft many ih =>
    have more : partSize < size := by
      have bounds := numParts_bounds positive
      unfold partSize at *
      omega
    have base : treeBase size = partSize := if_pos more
    have inner : ¬size ≤ treeBase size := by
      rw [base]
      exact Nat.not_le.2 more
    have left : leftSize size isLeft = leftCount count isLeft*partSize := by
      rw [leftSize,treeBlocks,base,← parts]
      rfl
    obtain ⟨some,less⟩ := leftSize_bounds inner isLeft
    obtain ⟨low,high⟩ := leaves_split counted inner isLeft
    have cut : leafCountForSize (leftSize size isLeft) = leftCount count isLeft*53 := by
      rw [leafCountForSize_closed some,left]
      unfold partSize aichBlockSize
      omega
    have many' : 1 < hashes.length := length ▸ many
    rw [emuleRoot,if_neg inner,cut,buildTreeRecursive,root_split many']
    rw [cut] at low high
    congr 1
    · refine ih true (cut ▸ low) some ?_ (length ▸ half_length many') fun i side listed => ?_
      · rw [left]
        exact numParts_mul
      have bound := (List.getElem?_eq_some_iff.1 listed).1
      have within : i < leftCount count isLeft := by
        rwa [sides_length] at bound
      have hash := each i side (by rw [sides_split many,getElem?_append_left bound]; exact listed)
      rw [drop_take,take_take,Nat.min_eq_left (by omega),← hash]
      exact getElem?_take_of_lt (length ▸ within)
    · refine ih false high (Nat.sub_pos_of_lt less) ?_ (length ▸ half_length many') fun i side listed => ?_
      · rw [left] at less ⊢
        rw [numParts_sub less,parts]
        rfl
      have past : (sides (halfCount count isLeft true) true).length = leftCount count isLeft := sides_length ..
      have hash := each (leftCount count isLeft+i) side (by
        rw [sides_split many,getElem?_append_right (by omega),past,Nat.add_sub_cancel_left]
        exact listed)
      rw [drop_drop,← Nat.add_mul,← hash,← length]
      exact getElem?_drop

theorem partLeaves_chunk {hs : AICHRecoveryHashSet} {part : Nat} : hs.partLeaves part = (hs.leafHashes.drop (part*53)).take 53 := by
  unfold AICHRecoveryHashSet.partLeaves
  rw [blocksPerFullPart_eq]
  split
  next none => simp [drop_of_length_le none]
  next => rw [take_eq_take_iff,length_drop]; omega

/-- The two levels of trees are one recursion over sizes. -/
theorem two_levels_one_recursion (sha1 : Bytes → Digest) (leaves : List Digest) (size : Nat) (positive : 0 < size)
    (counted : leaves.length = leafCountForSize size) :
    hierarchicalRoot sha1 leaves size = emuleRoot sha1 leaves size true ∧
      ∀ content : Bytes, content.length = size → (hashLeavesFromReader sha1 content).length = leafCountForSize size := by
  have whole : AICHRecoveryHashSet.Whole ⟨0,leaves,size⟩ := ⟨positive,counted⟩
  refine ⟨?_,?_⟩
  · refine (hierarchicalRoot_eq whole).trans (emuleRoot_parts counted positive (computeAllPartHashes_length ..) fun i side listed => ?_).symm
    have hash := @partHashesFrom_get sha1 _ whole _ 0 i side (by simp [sides_length]) listed
    rw [Nat.zero_add] at hash
    rwa [partLeaves_chunk] at hash
  · rintro content rfl
    exact (buildFromData_whole positive).length

theorem two_levels_one_recursion_pair : 0 < partSize+1 ∧ (List.replicate 54 (0 : Digest)).length = leafCountForSize (partSize+1) ∧
    hierarchicalRoot (fun _ => 1) (List.replicate 54 0) (partSize+1) = emuleRoot (fun _ => 1) (List.replicate 54 0) (partSize+1) true :=
  ⟨by decide,by decide,(two_levels_one_recursion (fun _ => 1) (List.replicate 54 0) (partSize+1) (by decide) (by decide)).1⟩

end Ember.Ed2k.Aich
