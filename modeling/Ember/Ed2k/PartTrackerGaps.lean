import Ember.Ed2k.PartTracker

/-! The gap list under the tracker's operations. Every fill, reopening and coalescing leaves the gaps
in order, inside the file and apart. -/
namespace Ember.Ed2k.PartTracker
open Ranges List Option

def Missing (t : PartTracker) (b : Nat) : Prop := Covers t.gaps b

instance (t : PartTracker) (b : Nat) : Decidable (t.Missing b) := inferInstanceAs (Decidable (Covers t.gaps b))

structure Sound (t : PartTracker) : Prop where
  apart : Apart t.gaps
  inside : ∀ gap ∈ t.gaps, gap.2 ≤ t.fileSize
  parts : t.partCount = (trackedPartCount t.fileSize).getD 0
  verified : t.partVerified.length = t.partCount
  generations : t.partContentGeneration.length = t.partCount

structure Shaped (t after : PartTracker) : Prop where
  size : after.fileSize = t.fileSize
  count : after.partCount = t.partCount
  verified : after.partVerified.length = t.partVerified.length
  generations : after.partContentGeneration.length = t.partContentGeneration.length

variable {t after final : PartTracker} {start stop : Nat} {ranges more : List Range}

theorem Sound.shaped (sound : Sound t) (same : Shaped t after) (apart : Apart after.gaps)
    (inside : ∀ gap ∈ after.gaps, gap.2 ≤ t.fileSize) : Sound after where
  apart := apart
  inside := fun gap member => same.size ▸ inside gap member
  parts := by rw [same.count,same.size,sound.parts]
  verified := by rw [same.verified,same.count,sound.verified]
  generations := by rw [same.generations,same.count,sound.generations]

theorem Sound.aside (sound : Sound t) (same : Shaped t after) (gaps : after.gaps = t.gaps) : Sound after := by
  apply sound.shaped same
  · rw [gaps]
    exact sound.apart
  · rw [gaps]
    exact sound.inside

theorem regapped_shaped {gaps : List Range} : Shaped t { t with gaps := gaps } := ⟨rfl,rfl,rfl,rfl⟩

theorem Sound.reverified (sound : Sound t) (flags : List Bool) (same : flags.length = t.partVerified.length) :
    Sound { t with partVerified := flags } := sound.aside ⟨rfl,rfl,same,rfl⟩ rfl

section Edits

def filling (t : PartTracker) (start stop : Nat) : List Range :=
  if 0 < (t.gaps.map (overlap start stop)).sum then [(start,stop)] else []

/-- One change an operation makes to the tracker, and the bytes it changes. -/
inductive Edit (t : PartTracker) : List Range → PartTracker → Prop where
  | opened {start stop : Nat} (proper : start < stop) (inside : stop ≤ t.fileSize) :
      Edit t [(start,stop)] ({ t with gaps := join start stop t.gaps }.bumpContentGeneration start stop)
  | filled {start stop : Nat} (proper : start < stop) : Edit t (t.filling start stop) (t.fillGaps start stop)
  | withdrawn (flags : List Bool) (whole : Bool) (same : flags.length = t.partVerified.length)
      (lowered : ∀ p, flags[p]?.getD false = true → t.isPartVerified p = true) :
      Edit t [] { t with partVerified := flags, fileHashVerified := whole }
  | unhashed : Edit t [] { t with partHashes := [] }

inductive Edits (t : PartTracker) : List Range → PartTracker → Prop where
  | refl : Edits t [] t
  | tail {ranges more : List Range} {after final : PartTracker} (before : Edits t ranges after) (edit : Edit after more final) :
      Edits t (ranges++more) final

theorem Edits.trans (first : Edits t ranges after) (second : Edits after more final) : Edits t (ranges++more) final := by
  induction second with
  | refl =>
    rw [append_nil]
    exact first
  | tail _ edit ih =>
    rw [← append_assoc]
    exact ih.tail edit

theorem Edit.edits (edit : Edit t ranges after) : Edits t ranges after := Edits.refl.tail edit

theorem Edits.quiet (before : Edits t ranges after) (edit : Edit after [] final) : Edits t ranges final := by
  have both := before.tail edit
  rwa [append_nil] at both

structure Framed (t after : PartTracker) : Prop where
  shaped : Shaped t after
  reservations : after.writeReservations = t.writeReservations
  hash : after.fileHash = t.fileHash
  hashes : after.partHashes = t.partHashes ∨ after.partHashes = []
  lowered : ∀ p, after.isPartVerified p = true → t.isPartVerified p = true

theorem Framed.trans (first : Framed t after) (second : Framed after final) : Framed t final where
  shaped := ⟨second.shaped.size.trans first.shaped.size,second.shaped.count.trans first.shaped.count,
    second.shaped.verified.trans first.shaped.verified,second.shaped.generations.trans first.shaped.generations⟩
  reservations := second.reservations.trans first.reservations
  hash := second.hash.trans first.hash
  hashes := by
    rcases second.hashes with same | none
    · rw [same]
      exact first.hashes
    · exact .inr none
  lowered := fun p verified => first.lowered p (second.lowered p verified)

@[simp] theorem bumpContentGeneration_gaps : (t.bumpContentGeneration start stop).gaps = t.gaps := by
  unfold bumpContentGeneration
  split <;> rfl

theorem Framed.bumpContentGeneration {gaps : List Range} :
    Framed t ({ t with gaps := gaps }.bumpContentGeneration start stop) := by
  unfold PartTracker.bumpContentGeneration
  split
  · exact ⟨regapped_shaped,rfl,rfl,.inl rfl,fun _ verified => verified⟩
  · exact ⟨⟨rfl,rfl,rfl,length_mapIdx⟩,rfl,rfl,.inl rfl,fun _ verified => verified⟩

theorem fillGaps_gaps : (t.fillGaps start stop).gaps = cut start stop t.gaps := by
  unfold fillGaps
  split
  · simp
  · rfl

theorem Edit.framed (edit : Edit t ranges after) : Framed t after := by
  cases edit with
  | opened => exact .bumpContentGeneration ..
  | filled =>
    unfold fillGaps
    split
    · exact .bumpContentGeneration ..
    · exact ⟨regapped_shaped,rfl,rfl,.inl rfl,fun _ verified => verified⟩
  | withdrawn flags whole same lowered => exact ⟨⟨rfl,rfl,same,rfl⟩,rfl,rfl,.inl rfl,lowered⟩
  | unhashed => exact ⟨⟨rfl,rfl,rfl,rfl⟩,rfl,rfl,.inr rfl,fun _ verified => verified⟩

theorem Edits.framed (edits : Edits t ranges after) : Framed t after := by
  induction edits with
  | refl => exact ⟨⟨rfl,rfl,rfl,rfl⟩,rfl,rfl,.inl rfl,fun _ verified => verified⟩
  | tail _ edit ih => exact ih.trans edit.framed

theorem Edit.sound (edit : Edit t ranges after) (sound : Sound t) : Sound after := by
  have shaped := edit.framed.shaped
  cases edit with
  | opened proper inside =>
    apply sound.shaped shaped
    · rw [bumpContentGeneration_gaps]
      exact sound.apart.join proper
    · rw [bumpContentGeneration_gaps]
      exact join_bounded sound.apart proper sound.inside inside
  | filled proper =>
    apply sound.shaped shaped
    · rw [fillGaps_gaps]
      exact sound.apart.cut proper
    · rw [fillGaps_gaps]
      exact fun gap member => cut_bounded sound.apart.nonempty sound.inside member
  | withdrawn => exact sound.aside shaped rfl
  | unhashed => exact sound.aside shaped rfl

theorem Edits.sound (edits : Edits t ranges after) (sound : Sound t) : Sound after := by
  induction edits with
  | refl => exact sound
  | tail _ edit ih => exact edit.sound ih

end Edits

section Operations

def opening (t : PartTracker) (start stop : Nat) : List Range :=
  if min stop t.fileSize ≤ start then [] else [(start,min stop t.fileSize)]

theorem addGap_edits : Edits t (t.opening start stop) (t.addGap start stop) := by
  unfold addGap opening
  dsimp only
  split
  · exact .refl
  · exact (Edit.opened (by omega) (Nat.min_le_right ..)).edits

theorem invalidateRange_edits (t : PartTracker) (start stop : Nat) :
    Edits t (t.opening start stop) (t.invalidateRange start stop) := by
  unfold invalidateRange
  extract_lets stop' opened last
  have opening : Edits t (t.opening start stop) opened := by
    have clamped : t.opening start stop = t.opening start stop' := by
      unfold PartTracker.opening stop'
      simp
    rw [clamped]
    exact addGap_edits ..
  split
  · refine opening.quiet (.withdrawn _ _ length_mapIdx fun p verified => ?_)
    rw [getElem?_mapIdx] at verified
    unfold isPartVerified
    cases held : opened.partVerified[p]? with
    | none =>
      rw [held] at verified
      cases verified
    | some flag =>
      rw [held] at verified
      split at verified
      · cases verified
      · exact verified
  · exact opening

theorem invalidateUnreadable_edits (t : PartTracker) (readableLen : Nat) :
    Edits t (t.opening readableLen t.fileSize) (t.invalidateUnreadable readableLen) := by
  unfold invalidateUnreadable
  split
  · exact (invalidateRange_edits ..).quiet (.withdrawn _ false rfl fun _ verified => verified)
  have none : t.opening readableLen t.fileSize = [] := if_pos (by omega)
  rw [none]
  exact .refl

theorem markIncomplete_edits {partIdx : Nat} :
    Edits t (t.opening (t.partRange partIdx).1 (t.partRange partIdx).2) (t.markIncomplete partIdx) := by
  refine (addGap_edits ..).quiet (.withdrawn _ _ length_set fun p verified => ?_)
  rw [getElem?_set] at verified
  split at verified
  · split at verified <;> cases verified
  · exact verified

theorem lowered_ne {flags : List Bool} {p : Nat} : (flags.map fun _ => false)[p]?.getD false ≠ true := by
  rw [getElem?_map]
  cases flags[p]? <;> exact Bool.false_ne_true

theorem clearPartHashesAndVerified_edits (t : PartTracker) : Edits t [] t.clearPartHashesAndVerified := by
  have unflagged : Edit t [] { t with partVerified := t.partVerified.map fun _ => false, fileHashVerified := false } := by
    exact .withdrawn _ false (length_map ..) fun p verified => absurd verified lowered_ne
  exact unflagged.edits.quiet .unhashed

def coalesced : Nat → PartTracker → List Range
  | 0, _ => []
  | fuel+1, t =>
    if t.gaps.length ≤ maxGapEntries then []
    else match t.findSmallestCoalesceCandidate with
      | none => []
      | some i =>
        let filled := t.filledAfter i
        if filled.2 ≤ filled.1 then [] else filled :: coalesced fuel (t.invalidateRange filled.1 filled.2)

def reopen (t : PartTracker) (runs : List Range) : PartTracker := runs.foldl (fun t run => t.invalidateRange run.1 run.2) t

theorem coalesce_eq {fuel : Nat} {reopened : Nat} : coalesce fuel t reopened =
    (t.reopen (coalesced fuel t),reopened+((coalesced fuel t).map fun run => run.2-run.1).sum) := by
  induction fuel generalizing t reopened with
  | zero => rfl
  | succ fuel ih =>
    unfold coalesce coalesced
    split
    · rfl
    cases t.findSmallestCoalesceCandidate with
    | none => rfl
    | some i =>
      dsimp only
      split
      · rfl
      · rw [ih,Nat.add_assoc]
        rfl

def reopenings : PartTracker → List Range → List Range
  | _, [] => []
  | t, run :: runs => t.opening run.1 run.2++reopenings (t.invalidateRange run.1 run.2) runs

theorem reopen_edits (t : PartTracker) (runs : List Range) : Edits t (t.reopenings runs) (t.reopen runs) := by
  induction runs generalizing t with
  | nil => exact .refl
  | cons run runs ih => exact (invalidateRange_edits t run.1 run.2).trans (ih _)

def takenBack (t : PartTracker) (start stop : Nat) : List Range :=
  if stop ≤ start then [] else coalesced (t.fillGaps start stop).gaps.length (t.fillGaps start stop)

theorem fillRange_eq (proper : start < stop) : t.fillRange start stop =
    ((t.fillGaps start stop).reopen (t.takenBack start stop),
      (t.gaps.map (overlap start stop)).sum-((t.takenBack start stop).map fun run => run.2-run.1).sum) := by
  unfold fillRange takenBack
  rw [if_neg (by omega),if_neg (by omega)]
  simp [coalesce_eq]

def fillChanges (t : PartTracker) (start stop : Nat) : List Range :=
  if stop ≤ start then [] else t.filling start stop++(t.fillGaps start stop).reopenings (t.takenBack start stop)

theorem fillRange_edits (t : PartTracker) (start stop : Nat) :
    Edits t (t.fillChanges start stop) (t.fillRange start stop).1 := by
  unfold fillChanges
  split
  · rename_i empty
    unfold fillRange
    rw [if_pos empty]
    exact .refl
  have proper : start < stop := by omega
  rw [fillRange_eq proper]
  exact (Edit.filled proper).edits.trans (reopen_edits ..)

theorem filled_edits {range : Range} : Edits t (t.fillChanges range.1 range.2) (t.filled range) :=
  fillRange_edits t range.1 range.2

end Operations

section Steps

def TrackerOp.isAside : TrackerOp → Bool
  | .reserve .. | .commit .. | .release .. => false
  | _ => true

def changes (t : PartTracker) : TrackerOp → List Range
  | .fillRange start stop => t.fillChanges start stop
  | .markComplete partIdx => t.fillChanges (t.partRange partIdx).1 (t.partRange partIdx).2
  | .markIncomplete partIdx => t.opening (t.partRange partIdx).1 (t.partRange partIdx).2
  | .invalidateRange start stop => t.opening start stop
  | .invalidateUnreadable readableLen => t.opening readableLen t.fileSize
  | .commit start stop => (t.releaseWriteReservation start stop).fillChanges start stop
  | .reserve .. | .release .. | .clearPartHashesAndVerified => []

/-- An operation sets the reservations, then edits. -/
theorem step_edits (t : PartTracker) (op : TrackerOp) : ∃ held,
    (TrackerOp.isAside op = true → held = t.writeReservations) ∧
      Edits { t with writeReservations := held } (t.changes op) (t.step op) := by
  cases op with
  | fillRange start stop => exact ⟨_,fun _ => rfl,fillRange_edits t start stop⟩
  | markComplete partIdx => exact ⟨_,fun _ => rfl,filled_edits⟩
  | markIncomplete partIdx => exact ⟨_,fun _ => rfl,markIncomplete_edits⟩
  | invalidateRange start stop => exact ⟨_,fun _ => rfl,invalidateRange_edits t start stop⟩
  | invalidateUnreadable readableLen => exact ⟨_,fun _ => rfl,invalidateUnreadable_edits t readableLen⟩
  | reserve start stop => exact ⟨_,nofun,.refl⟩
  | commit start stop => exact ⟨_,nofun,fillRange_edits (t.releaseWriteReservation start stop) start stop⟩
  | release start stop => exact ⟨_,nofun,.refl⟩
  | clearPartHashesAndVerified => exact ⟨_,fun _ => rfl,clearPartHashesAndVerified_edits t⟩

theorem Sound.reserved (sound : Sound t) {held : List Range} : Sound { t with writeReservations := held } :=
  sound.aside ⟨rfl,rfl,rfl,rfl⟩ rfl

theorem step_sound (sound : Sound t) (op : TrackerOp) : Sound (t.step op) := by
  obtain ⟨held,_,edits⟩ := step_edits t op
  exact edits.sound sound.reserved

theorem run_sound (sound : Sound t) {ops : List TrackerOp} : Sound (t.run ops) := by
  induction ops generalizing t with
  | nil => exact sound
  | cons op ops ih => exact ih (step_sound sound op)

theorem newEmpty_sound {fileSize : Nat} {fileHash : Hash} : Sound (newEmpty fileSize fileHash) where
  apart := by
    unfold newEmpty
    split
    · exact Apart.single (by assumption)
    · exact Apart.nil
  inside := by
    unfold newEmpty
    intro gap member
    split at member
    · rw [mem_singleton.1 member]
    · cases member
  parts := rfl
  verified := length_replicate
  generations := length_replicate

end Steps

end Ember.Ed2k.PartTracker
