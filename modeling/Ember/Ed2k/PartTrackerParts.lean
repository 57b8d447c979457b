import Ember.Ed2k.PartTrackerGaps

/-! What the tracker says about parts and bytes against the bytes missing: the bisected and the
walked completeness of a part, its missing bytes, and the bytes present. -/
namespace Ember.Ed2k.PartTracker
open Ranges List Option
variable {t : PartTracker} {partIdx : Nat} {gaps : List Range} {gap : Range}

def partBytes (t : PartTracker) (partIdx : Nat) : Finset Nat := Finset.Ico (t.partRange partIdx).1 (t.partRange partIdx).2

theorem partRange_proper (sound : Sound t) (exists_part : partIdx < t.partCount) :
    (t.partRange partIdx).1 < (t.partRange partIdx).2 := by
  have count := sound.parts
  unfold trackedPartCount at count
  unfold partRange
  split at count
  · simp only [getD_some] at count
    omega
  split at count
  · simp only [getD_none] at count
    omega
  rw [getD_some] at count
  have inside : partIdx*partSize < t.fileSize := by
    rw [count] at exists_part
    have whole : (partIdx+1)*partSize ≤ t.fileSize+partSize-1 :=
      (Nat.le_div_iff_mul_le (by decide)).1 exists_part
    rw [Nat.add_mul] at whole
    omega
  have further : partIdx*partSize < (partIdx+1)*partSize := Nat.mul_lt_mul_of_pos_right (Nat.lt_succ_self _) (by decide)
  omega

theorem gapOverlapsFrom_firstGapReaching (apart : Apart t.gaps) {start stop : Nat} :
    t.gapOverlapsFrom (t.firstGapReaching start) stop =
      (t.gaps.dropWhile fun gap => gap.2 ≤ start).head?.any fun gap => gap.1 < stop := by
  unfold gapOverlapsFrom firstGapReaching
  rw [getElem?_partitionPoint apart.rising]

theorem isPartComplete_iff (sound : Sound t) :
    t.isPartComplete partIdx = true ↔ partIdx < t.partCount ∧ ∀ b ∈ t.partBytes partIdx, ¬ t.Missing b := by
  unfold isPartComplete
  by_cases beyond : t.partCount ≤ partIdx
  · rw [if_pos beyond]
    constructor
    · rintro ⟨⟩
    · rintro ⟨inside,_⟩
      omega
  have inside : partIdx < t.partCount := by omega
  have reached := reaches_iff sound.apart (partRange_proper sound inside)
  rw [if_neg beyond,gapOverlapsFrom_firstGapReaching sound.apart,Bool.not_eq_true',← Bool.not_eq_true,reached]
  simp only [partBytes,Finset.mem_Ico]
  push Not
  exact ⟨fun clear => ⟨inside,clear⟩,fun both => both.2⟩

theorem dropWhile_dropWhile {early late : Nat} (order : early ≤ late) :
    (gaps.dropWhile fun gap => gap.2 ≤ early).dropWhile (fun gap => gap.2 ≤ late) = gaps.dropWhile fun gap => gap.2 ≤ late := by
  induction gaps with
  | nil => rfl
  | cons gap rest ih =>
    by_cases passed : gap.2 ≤ early
    · rw [dropWhile_cons_of_pos (by simpa using passed),dropWhile_cons_of_pos (by simpa using passed.trans order),ih]
    · rw [dropWhile_cons_of_neg (by simpa using passed)]

theorem completedFrom_eq (sound : Sound t) {parts : List Nat} (ordered : parts.Pairwise (· < ·))
    (inside : ∀ p ∈ parts, p < t.partCount) {ahead : List Range}
    (same : ∀ p ∈ parts, (ahead.dropWhile fun gap => gap.2 ≤ (t.partRange p).1) =
      t.gaps.dropWhile fun gap => gap.2 ≤ (t.partRange p).1) :
    t.completedFrom parts ahead = parts.map t.isPartComplete := by
  induction parts generalizing ahead with
  | nil => rfl
  | cons p later ih =>
    have here := same p mem_cons_self
    have after := (pairwise_cons.1 ordered).1
    have first : (!(ahead.dropWhile fun gap => gap.2 ≤ (t.partRange p).1).head?.any fun gap => gap.1 < (t.partRange p).2) =
        t.isPartComplete p := by
      have standing := inside p mem_cons_self
      unfold isPartComplete
      rw [if_neg (by omega),gapOverlapsFrom_firstGapReaching sound.apart,here]
    have others : t.completedFrom later (ahead.dropWhile fun gap => gap.2 ≤ (t.partRange p).1) = later.map t.isPartComplete := by
      apply ih (pairwise_cons.1 ordered).2 fun q member => inside q (mem_cons_of_mem _ member)
      intro q member
      have order : (t.partRange p).1 ≤ (t.partRange q).1 := Nat.mul_le_mul_right _ (after q member).le
      rw [dropWhile_dropWhile order]
      exact same q (mem_cons_of_mem _ member)
    rw [map_cons,← first,← others]
    rfl

theorem overlap_far {length index bound : Nat} (positive : 0 < length)
    (elsewhere : index < gap.1/length ∨ (gap.2-1)/length < index) :
    overlap (index*length) (min ((index+1)*length) bound) gap = 0 := by
  unfold overlap
  rcases elsewhere with later | earlier
  · have starts : (index+1)*length ≤ gap.1 := (Nat.le_div_iff_mul_le positive).1 later
    omega
  · have ends : gap.2-1 < index*length := (Nat.div_lt_iff_lt_mul positive).1 earlier
    omega

theorem overlap_elsewhere (inside : partIdx < t.partCount)
    (elsewhere : ¬ (gap.1/partSize ≤ partIdx ∧ partIdx ≤ min ((gap.2-1)/partSize) (t.partCount-1))) :
    overlap (t.partRange partIdx).1 (t.partRange partIdx).2 gap = 0 := by
  unfold partRange
  generalize partSize_eq : partSize = length at elsewhere ⊢
  have positive : 0 < length := by
    rw [← partSize_eq]
    decide
  exact overlap_far positive (by omega)

theorem addGapBytes_foldl {result : List Nat} (inside : partIdx < t.partCount) :
    (gaps.foldl t.addGapBytes result)[partIdx]? =
      result[partIdx]?.map fun bytes => bytes+(gaps.map (overlap (t.partRange partIdx).1 (t.partRange partIdx).2)).sum := by
  induction gaps generalizing result with
  | nil => simp
  | cons gap rest ih =>
    rw [foldl_cons,ih,map_cons,sum_cons]
    unfold addGapBytes
    rw [getElem?_mapIdx,Option.map_map]
    congr 1
    funext bytes
    dsimp only [Function.comp]
    split
    · rw [Nat.add_assoc]
    · rename_i elsewhere
      simp [overlap_elsewhere inside elsewhere]

theorem partGapBytesVec_get (sound : Sound t) (inside : partIdx < t.partCount) :
    t.partGapBytesVec[partIdx]? = some ((t.partBytes partIdx).filter t.Missing).card := by
  unfold partGapBytesVec
  rw [addGapBytes_foldl inside,getElem?_replicate,if_pos inside,map_some,Nat.zero_add]
  congr 1
  exact (card_covered sound.apart).symm

theorem partGapBytesVec_length : t.partGapBytesVec.length = t.partCount := by
  have kept : ∀ gaps : List Range, ∀ result, (gaps.foldl t.addGapBytes result).length = result.length := by
    intro gaps
    induction gaps with
    | nil => exact fun _ => rfl
    | cons gap rest ih =>
      intro result
      rw [foldl_cons,ih]
      exact length_mapIdx
  rw [partGapBytesVec,kept,length_replicate]

theorem missing_card (sound : Sound t) :
    ((Finset.range t.fileSize).filter t.Missing).card = (t.gaps.map fun gap => gap.2-gap.1).sum := by
  rw [← Nat.Ico_zero_eq_range]
  apply (card_covered sound.apart).trans
  congr 1
  apply map_congr_left
  intro gap member
  have bound := sound.inside gap member
  unfold overlap
  omega

theorem completedBytes_eq (sound : Sound t) :
    t.completedBytes = ((Finset.range t.fileSize).filter fun b => ¬ t.Missing b).card := by
  have whole := Finset.card_filter_add_card_filter_not (s := Finset.range t.fileSize) t.Missing
  rw [Finset.card_range] at whole
  unfold completedBytes
  rw [← missing_card sound]
  omega

end Ember.Ed2k.PartTracker
