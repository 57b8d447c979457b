import Mathlib

/-! Sliding windows over the numbers a receiver has taken. The bitmap remembers the highest and
those less than a width below it; the numbers themselves are the specification. -/
namespace Ember
open List

structure ReplayWindow (width : Nat) where
  high : Nat := 0
  bits : BitVec width := 0
  deriving DecidableEq

namespace ReplayWindow

variable {width : Nat} {shift : Nat}

def precheck (w : ReplayWindow width) (n : Nat) : Bool :=
  if w.high < n then true
  else if width ≤ w.high-n then false
  else w.bits &&& (BitVec.ofNat width 1) <<< (w.high-n) == 0

def commit (w : ReplayWindow width) (n : Nat) : ReplayWindow width :=
  if w.high < n then { high := n,bits := (if width ≤ n-w.high then 0 else w.bits <<< (n-w.high)) ||| (BitVec.ofNat width 1) }
  else if w.high-n < width then { w with bits := w.bits ||| (BitVec.ofNat width 1) <<< (w.high-n) }
  else w

/-- Not taken before, and nothing taken lies a whole width above it. -/
def Fresh (width : Nat) (taken : List Nat) (n : Nat) : Prop := n ∉ taken ∧ ∀ m ∈ taken, m < n+width

instance (taken : List Nat) (n : Nat) : Decidable (Fresh width taken n) := inferInstanceAs (Decidable (_ ∧ _))

/-- The window remembers the numbers taken. Nothing taken is told apart from zero taken by its bit
alone, the highest number being zero in both cases. -/
structure Tracks (w : ReplayWindow width) (taken : List Nat) : Prop where
  below : ∀ n ∈ taken, n ≤ w.high
  top : w.high = 0 ∨ w.high ∈ taken
  bit : ∀ i < width, w.bits.getLsbD i = true ↔ i ≤ w.high ∧ w.high-i ∈ taken

theorem tracks_new : ({} : ReplayWindow width).Tracks [] where
  below := by simp
  top := .inl rfl
  bit := by simp

theorem getLsbD_mask (positive : 0 < width) {i : Nat} (inside : i < width) :
    ((BitVec.ofNat width 1) <<< shift).getLsbD i = decide (i = shift) := by
  by_cases same : i = shift
  · simp [same]
    omega
  have apart : i < shift ∨ i-shift ≠ 0 := by omega
  rcases apart with less | more
  · simp [less,same]
  · simp [more,same]

theorem mask_eq_zero (positive : 0 < width) {bits : BitVec width} (inside : shift < width) :
    bits &&& (BitVec.ofNat width 1) <<< shift = 0 ↔ bits.getLsbD shift = false := by
  constructor
  · intro empty
    have bit := congrArg (fun v => v.getLsbD shift) empty
    simpa [getLsbD_mask positive inside] using bit
  intro clear
  ext i bound
  rw [← BitVec.getLsbD_eq_getElem,BitVec.getLsbD_and,getLsbD_mask positive bound]
  by_cases same : i = shift
  · simp [same,clear]
  · simp [same]

section
variable {w : ReplayWindow width} {taken : List Nat} (tracks : w.Tracks taken) (positive : 0 < width) (n : Nat)
include tracks positive

theorem Tracks.precheck_iff : w.precheck n = true ↔ Fresh width taken n := by
  unfold precheck
  split
  · have fresh : Fresh width taken n := by
      constructor
      · intro member
        have := tracks.below n member
        omega
      intro m member
      have := tracks.below m member
      omega
    simp [fresh]
  · split
    · rename_i far
      -- the highest number is positive here, so it was taken
      have taken_high : w.high ∈ taken := tracks.top.resolve_left (by omega)
      have stale : ¬ Fresh width taken n := by
        intro fresh
        have := fresh.2 _ taken_high
        omega
      simp [stale]
    · have inside : w.high-n < width := by omega
      have bit := tracks.bit (w.high-n) inside
      rw [show w.high-(w.high-n) = n by omega] at bit
      rw [beq_iff_eq,mask_eq_zero positive inside,← Bool.not_eq_true,bit]
      constructor
      · intro unseen
        refine ⟨fun member => unseen ⟨by omega,member⟩,fun m member => ?_⟩
        have := tracks.below m member
        omega
      · intro fresh seen
        exact fresh.1 seen.2

theorem Tracks.commit : (w.commit n).Tracks (n :: taken) := by
  unfold ReplayWindow.commit
  split
  · rename_i above
    refine ⟨?_,.inr (mem_cons_self ..),?_⟩
    · intro m member
      rcases mem_cons.1 member with same | earlier
      · exact Nat.le_of_eq same
      · exact Nat.le_trans (tracks.below m earlier) (Nat.le_of_lt above)
    intro i inside
    -- the old bitmap moves up by the jump; what leaves it lies a width below the new highest
    have moved : (if width ≤ n-w.high then 0 else w.bits <<< (n-w.high)).getLsbD i = true ↔
        n-w.high ≤ i ∧ i ≤ n ∧ n-i ∈ taken := by
      split
      · simp
        omega
      rw [BitVec.getLsbD_shiftLeft]
      by_cases low : i < n-w.high
      · simp
        omega
      have old := tracks.bit (i-(n-w.high)) (by omega)
      rw [show w.high-(i-(n-w.high)) = n-i by omega] at old
      simp only [inside,low,decide_true,decide_false,Bool.not_false,Bool.true_and,old]
      constructor
      · rintro ⟨reach,member⟩
        exact ⟨by omega,by omega,member⟩
      · rintro ⟨_,reach,member⟩
        exact ⟨by omega,member⟩
    rw [BitVec.getLsbD_or,Bool.or_eq_true,moved,BitVec.getLsbD_one]
    simp only [positive,decide_true,Bool.true_and,decide_eq_true_eq,mem_cons]
    constructor
    · rintro (⟨_,reach,member⟩ | zero)
      · exact ⟨reach,.inr member⟩
      · exact ⟨by omega,.inl (by omega)⟩
    rintro ⟨reach,same | member⟩
    · exact .inr (by omega)
    · have := tracks.below _ member
      exact .inl ⟨by omega,reach,member⟩
  · have below : ∀ m ∈ n :: taken, m ≤ w.high := by
      intro m member
      rcases mem_cons.1 member with same | earlier
      · omega
      · exact tracks.below m earlier
    have top : w.high = 0 ∨ w.high ∈ n :: taken := tracks.top.imp_right (mem_cons_of_mem n)
    split
    · refine ⟨below,top,?_⟩
      intro i inside
      dsimp only
      rw [BitVec.getLsbD_or,Bool.or_eq_true,tracks.bit i inside,getLsbD_mask positive inside,decide_eq_true_eq,mem_cons]
      constructor
      · rintro (⟨reach,member⟩ | same)
        · exact ⟨reach,.inr member⟩
        · exact ⟨by omega,.inl (by omega)⟩
      rintro ⟨reach,same | member⟩
      · exact .inr (by omega)
      · exact .inl ⟨reach,member⟩
    · refine ⟨below,top,?_⟩
      intro i inside
      rw [tracks.bit i inside,mem_cons]
      constructor
      · rintro ⟨reach,member⟩
        exact ⟨reach,.inr member⟩
      rintro ⟨reach,same | member⟩
      · omega
      · exact ⟨reach,member⟩

end

end ReplayWindow
end Ember
