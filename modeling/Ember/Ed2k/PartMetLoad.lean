import Ember.Ed2k.PartMet
import Ember.Ed2k.PartTrackerParts

/-! Loading any byte string as a sidecar gives a tracker whose gap list is in order, and every run of
operations keeps it so. -/
namespace Ember.Ed2k
open Ranges List Option

theorem MetTags.gapAt_inside {tags : MetTags} {fileSize idx start : Nat} {gap : Range}
    (found : tags.gapAt fileSize idx start = some gap) : gap.1 < gap.2 ∧ gap.2 ≤ fileSize := by
  unfold MetTags.gapAt at found
  extract_lets stop bound at found
  rw [ite_none_right_eq_some,Option.some.injEq] at found
  obtain ⟨inside,rfl⟩ := found
  exact inside

theorem MetTags.gaps_normal (tags : MetTags) (fileSize : Nat) :
    Apart (tags.gaps fileSize) ∧ ∀ gap ∈ tags.gaps fileSize, gap.2 ≤ fileSize := by
  have inside : ∀ gap ∈ tags.gapStarts.entries.filterMap (fun entry => tags.gapAt fileSize entry.1 entry.2),
      gap.1 < gap.2 ∧ gap.2 ≤ fileSize := by
    intro gap member
    obtain ⟨entry,_,found⟩ := mem_filterMap.1 member
    exact gapAt_inside found
  exact ⟨apart_merge fun gap member => (inside gap member).1,
    merge_bounded (fun gap member => (inside gap member).1) fun gap member => (inside gap member).2⟩

namespace PartTracker
variable {t : PartTracker}

section
variable (sound : Sound t) {data : Bytes}
include sound

theorem Sound.regapped {gaps : List Range} (apart : Apart gaps) (inside : ∀ gap ∈ gaps, gap.2 ≤ t.fileSize) :
    Sound { t with gaps := gaps } := sound.shaped regapped_shaped apart inside

theorem Sound.whole (filled : 0 < t.fileSize) : Sound { t with gaps := [(0,t.fileSize)] } := by
  apply sound.regapped (Apart.single filled)
  intro gap member
  rw [mem_singleton.1 member]

theorem Sound.resetToIncomplete : Sound t.resetToIncomplete := by
  unfold PartTracker.resetToIncomplete
  split
  · exact sound.whole (by assumption)
  · exact sound.regapped Apart.nil (by simp)

theorem Sound.adoptTags {rawTagCount : Nat} {tags : MetTags} : Sound (t.adoptTags rawTagCount tags) := by
  unfold PartTracker.adoptTags
  extract_lets t' unknown opened
  have named : Sound t' := sound.aside ⟨rfl,rfl,rfl,rfl⟩ rfl
  split
  · rename_i refused
    exact (clearPartHashesAndVerified_edits unknown).sound (named.whole refused.2)
  split
  · rename_i refused
    exact named.whole refused.2
  split
  · rename_i refused
    exact named.whole refused.1
  split
  · exact named.regapped Apart.nil (by simp)
  have normal := tags.gaps_normal t'.fileSize
  have whole : Sound opened := named.regapped normal.1 normal.2
  split
  · exact whole
  · apply whole.reverified
    simp [whole.verified]

theorem Sound.loadTags {rest : Bytes} : Sound (t.loadTags rest).1 := by
  unfold PartTracker.loadTags
  split
  · exact sound
  · exact sound.adoptTags ..

theorem Sound.loadEmuleFormat {version : UInt8} : Sound (t.loadEmuleFormat data version).1 := by
  unfold PartTracker.loadEmuleFormat
  split
  · exact sound
  split
  · exact sound
  extract_lets hash t'
  split
  · exact sound.resetToIncomplete
  have named : Sound t' := by
    unfold t'
    split
    · exact sound.aside ⟨rfl,rfl,rfl,rfl⟩ rfl
    · exact sound
  split
  · exact named
  · exact named.resetToIncomplete
  · rename_i hashes _ _
    have listed : Sound { t' with partHashes := hashes } := named.aside ⟨rfl,rfl,rfl,rfl⟩ rfl
    exact listed.loadTags

theorem Sound.fillParts {bitmap : Bytes} : Sound (t.fillParts bitmap) := by
  unfold PartTracker.fillParts
  generalize List.range t.partCount = parts
  induction parts generalizing t with
  | nil => exact sound
  | cons i rest ih =>
    rw [foldl_cons]
    apply ih
    split
    · exact filled_edits.sound sound
    · exact sound

theorem Sound.loadLegacy (filled : 0 < t.fileSize) : Sound (t.loadLegacy data).1 := by
  unfold PartTracker.loadLegacy
  split
  · exact sound
  split
  · exact sound
  split
  · exact sound
  split
  · exact sound
  split
  · exact sound
  · exact (sound.whole filled).fillParts

theorem Sound.loadInner (filled : 0 < t.fileSize) (met : Option Bytes) : Sound (t.loadInner met).1 := by
  unfold PartTracker.loadInner
  split
  · exact sound
  split
  · exact sound
  dsimp only
  split
  · exact sound.loadEmuleFormat ..
  split
  · exact sound.loadLegacy filled
  · exact sound

theorem Sound.applyPendingInvalidations (pending : List Nat) : Sound (t.applyPendingInvalidations pending) := by
  have same : ∀ flags : List Bool, (pending.foldl (fun flags p => flags.set p false) flags).length = flags.length := by
    induction pending with
    | nil => exact fun _ => rfl
    | cons p rest ih =>
      intro flags
      simp [ih]
  exact sound.aside ⟨rfl,rfl,same _,rfl⟩ rfl

theorem Sound.load (filled : 0 < t.fileSize) {disk : Disk} : Sound (t.load disk) := by
  have read := sound.loadInner filled disk.met
  unfold PartTracker.load
  extract_lets outcome settled unreserved synced
  have reset : Sound settled := by
    unfold settled
    split
    · exact read.resetToIncomplete
    · exact read
  have idle : Sound unreserved := reset.aside ⟨rfl,rfl,rfl,rfl⟩ rfl
  have cut : Sound synced := by
    unfold synced
    split
    · exact (invalidateUnreadable_edits ..).sound idle
    · exact idle
  exact cut.applyPendingInvalidations _

end

end PartTracker

def ValidSize (fileSize : Nat) : Prop := 1 ≤ fileSize ∧ fileSize ≤ ed2kMaxFileSizeBytes

inductive Origin where
  | empty
  | loaded (expectedFileHash : Hash) (disk : Disk)

def Origin.tracker (fileSize : Nat) : Origin → PartTracker
  | .empty => .newEmpty fileSize
  | .loaded expectedFileHash disk => .newWithIdentity fileSize expectedFileHash disk

namespace PartTracker
variable {t : PartTracker}

/-- The gap list is in normal form, and what is read off it is what its bytes say. -/
structure Exact (t : PartTracker) : Prop where
  sorted : t.gaps.Pairwise fun gap later => gap.1 < later.1
  inside : ∀ gap ∈ t.gaps, gap.1 < gap.2 ∧ gap.2 ≤ t.fileSize
  separated : t.gaps.IsChain fun gap next => gap.2 < next.1
  complete : ∀ i, t.isPartComplete i = true ↔ i < t.partCount ∧ ∀ b ∈ t.partBytes i, ¬ t.Missing b
  walked : t.completedParts = (List.range t.partCount).map t.isPartComplete
  gapBytes : t.partGapBytesVec = (List.range t.partCount).map fun i => ((t.partBytes i).filter t.Missing).card
  present : t.completedBytes = ((Finset.range t.fileSize).filter fun b => ¬ t.Missing b).card

theorem Sound.exact (sound : Sound t) : Exact t where
  sorted := by
    apply sound.apart.spaced.imp_of_mem
    intro gap later first _ order
    exact (sound.apart.nonempty gap first).trans order
  inside := fun gap member => ⟨sound.apart.nonempty gap member,sound.inside gap member⟩
  separated := sound.apart.spaced.isChain
  complete := fun _ => isPartComplete_iff sound
  walked := completedFrom_eq sound pairwise_lt_range (fun _ member => mem_range.1 member) fun _ _ => rfl
  gapBytes := by
    apply ext_getElem?
    intro i
    by_cases inside : i < t.partCount
    · rw [partGapBytesVec_get sound inside,getElem?_map,getElem?_range inside,map_some]
    · rw [getElem?_eq_none (by rw [partGapBytesVec_length]; omega),
        getElem?_eq_none (by rw [length_map,length_range]; omega)]
  present := completedBytes_eq sound

theorem origin_sound {fileSize : Nat} (filled : 0 < fileSize) {origin : Origin} : Sound (origin.tracker fileSize) := by
  cases origin with
  | empty => exact newEmpty_sound
  | loaded expected disk =>
    rw [Origin.tracker,newWithIdentity]
    split
    · exact newEmpty_sound.load filled
    · exact newEmpty_sound

/-- From any sidecar, through any operations, the gap list stays in normal form. -/
theorem gap_list_exact (fileSize : Nat) (size : ValidSize fileSize) (origin : Origin) (ops : List TrackerOp) :
    Exact ((origin.tracker fileSize).run ops) :=
  (run_sound (origin_sound size.1)).exact

theorem gap_list_exact_refilled : ValidSize 100 ∧
    Exact ((Origin.empty.tracker 100).run [.fillRange 10 40,.invalidateRange 20 30,.markIncomplete 0,.commit 0 5]) :=
  ⟨⟨by decide,by decide⟩,gap_list_exact 100 ⟨by decide,by decide⟩ .empty _⟩

end PartTracker
end Ember.Ed2k
