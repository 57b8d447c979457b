import Mathlib

/-! Lists in the order of distinct keys, and a front brought together without sorting the rest. -/
namespace Ember
open List

section Selection
variable {α β : Type} [LinearOrder β] {key : α → β} {xs ys : List α} {n : Nat}

/-- The `n` least stand in front, each side in any order. -/
structure Partitioned (key : α → β) (n : Nat) (xs ys : List α) : Prop where
  perm : ys.Perm xs
  least : ∀ a ∈ ys.take n, ∀ b ∈ ys.drop n, key a ≤ key b

structure Selection (key : α → β) where
  select : Nat → List α → List α
  partitioned : ∀ n xs, Partitioned key n xs (select n xs)

theorem insertionSort_eq_of_perm (distinct : (xs.map key).Nodup) (same : xs.Perm ys) (sorted : ys.Pairwise (key · ≤ key ·)) :
    xs.insertionSort (key · ≤ key ·) = ys := by
  refine Perm.eq_of_pairwise (fun a b first second le ge => ?_) (pairwise_insertionSort ..) sorted ((perm_insertionSort ..).trans same)
  exact inj_on_of_nodup_map distinct ((mem_insertionSort _).1 first) (same.mem_iff.2 second) (le_antisymm le ge)

theorem insertionSort_congr (distinct : (xs.map key).Nodup) (same : xs.Perm ys) :
    xs.insertionSort (key · ≤ key ·) = ys.insertionSort (key · ≤ key ·) :=
  insertionSort_eq_of_perm distinct (same.trans (perm_insertionSort ..).symm) (pairwise_insertionSort ..)

def Selection.bySort (key : α → β) : Selection key where
  select _ xs := xs.insertionSort (key · ≤ key ·)
  partitioned n xs := by
    refine ⟨perm_insertionSort ..,fun a front b back => ?_⟩
    have sorted : (xs.insertionSort (key · ≤ key ·)).Pairwise (key · ≤ key ·) := pairwise_insertionSort ..
    rw [← take_append_drop n (xs.insertionSort _),pairwise_append] at sorted
    exact sorted.2.2 a front b back

theorem Partitioned.sort_front (parts : Partitioned key n xs ys) (distinct : (xs.map key).Nodup) :
    (ys.take n).insertionSort (key · ≤ key ·) = (xs.insertionSort (key · ≤ key ·)).take n := by
  have whole : xs.insertionSort (key · ≤ key ·) =
      (ys.take n).insertionSort (key · ≤ key ·)++(ys.drop n).insertionSort (key · ≤ key ·) := by
    apply insertionSort_eq_of_perm distinct
    · refine parts.perm.symm.trans ?_
      nth_rewrite 1 [← take_append_drop n ys]
      exact ((perm_insertionSort ..).append (perm_insertionSort ..)).symm
    · refine pairwise_append.2 ⟨pairwise_insertionSort ..,pairwise_insertionSort ..,fun a front b back => ?_⟩
      exact parts.least a ((mem_insertionSort _).1 front) b ((mem_insertionSort _).1 back)
  by_cases enough : n ≤ ys.length
  · rw [whole,take_left' (by rw [length_insertionSort,length_take,Nat.min_eq_left enough])]
  · rw [take_of_length_le (by omega)] at whole ⊢
    rw [insertionSort_congr distinct parts.perm.symm,take_of_length_le (by rw [length_insertionSort]; omega)]

end Selection
end Ember
