import Mathlib

/-! Bisection of a list whose items satisfy a predicate up to some place and not beyond. -/
namespace Ember
open List
variable {α : Type}

/-- Halves a window of `size` places from `base` down to one. -/
def halve (p : α → Bool) (xs : List α) : Nat → Nat → Nat → Nat
  | 0, _, base => base
  | fuel+1, size, base =>
    if size ≤ 1 then base
    else halve p xs fuel (size-size/2) (if xs[base+size/2]?.any p then base+size/2 else base)

def partitionPoint (p : α → Bool) (xs : List α) : Nat :=
  let base := halve p xs xs.length xs.length 0
  base+if xs[base]?.any p then 1 else 0

/-- A place whose item compares equal, in a list that `cmp` sorts. -/
def binarySearchBy (cmp : α → Ordering) (xs : List α) : Option Nat :=
  let base := halve (fun x => cmp x != .gt) xs xs.length xs.length 0
  if xs[base]?.any fun x => cmp x == .eq then some base else none

variable {p : α → Bool} {xs : List α} {k : Nat}

theorem halve_near (parted : ∀ i, xs[i]?.any p = true ↔ i < k) (fuel size base : Nat) (enough : size ≤ fuel+1)
    (low : base = 0 ∨ base < k) (high : k ≤ base+size) :
    let found := halve p xs fuel size base
    (found = 0 ∨ found < k) ∧ k ≤ found+1 := by
  induction fuel generalizing size base with
  | zero => exact ⟨low,by dsimp only [halve]; omega⟩
  | succ fuel ih =>
    unfold halve
    by_cases small : size ≤ 1
    · rw [if_pos small]
      exact ⟨low,by omega⟩
    rw [if_neg small]
    by_cases past : base+size/2 < k
    · rw [if_pos ((parted _).2 past)]
      exact ih _ _ (by omega) (.inr past) (by omega)
    · rw [if_neg fun hit => past ((parted _).1 hit)]
      exact ih _ _ (by omega) low (by omega)

theorem partitionPoint_eq (parted : ∀ i, xs[i]?.any p = true ↔ i < k) : partitionPoint p xs = k := by
  have short : k ≤ xs.length := by
    by_contra long
    have beyond := (parted xs.length).2 (by omega)
    simp at beyond
  obtain ⟨low,high⟩ := halve_near parted xs.length xs.length 0 (by omega) (.inl rfl) (by omega)
  unfold partitionPoint
  dsimp only at low high ⊢
  by_cases inside : halve p xs xs.length xs.length 0 < k
  · rw [if_pos ((parted _).2 inside)]
    omega
  · rw [if_neg fun hit => inside ((parted _).1 hit)]
    omega

theorem parted_takeWhile (falling : xs.Pairwise fun a b => p b = true → p a = true) (i : Nat) :
    xs[i]?.any p = true ↔ i < (xs.takeWhile p).length := by
  induction xs generalizing i with
  | nil => simp
  | cons x rest ih =>
    have later := (pairwise_cons.1 falling).1
    cases holds : p x with
    | true =>
      rw [takeWhile_cons_of_pos holds]
      cases i with
      | zero => simp [holds]
      | succ i => simp [ih falling.of_cons i]
    | false =>
      have none : ∀ y ∈ x :: rest, p y = false := by
        intro y member
        rcases mem_cons.1 member with rfl | inside
        · exact holds
        · exact Bool.eq_false_iff.2 fun hit => Bool.false_ne_true (holds.symm.trans (later y inside hit))
      rw [takeWhile_cons_of_neg (by simp [holds]),length_nil,Option.any_eq_true]
      constructor
      · rintro ⟨y,found,hit⟩
        rw [none y (mem_of_getElem? found)] at hit
        cases hit
      · intro absurdity
        omega

theorem getElem?_partitionPoint (falling : xs.Pairwise fun a b => p b = true → p a = true) :
    xs[partitionPoint p xs]? = (xs.dropWhile p).head? := by
  rw [partitionPoint_eq (parted_takeWhile falling),head?_eq_getElem?]
  calc xs[(xs.takeWhile p).length]? = (xs.takeWhile p++xs.dropWhile p)[(xs.takeWhile p).length]? := by
        simp
    _ = (xs.dropWhile p)[0]? := by rw [getElem?_append_right (Nat.le_refl _),Nat.sub_self]

theorem pairwise_at {R : α → α → Prop} (related : xs.Pairwise R) {i j : Nat} {a b : α} (before : i < j)
    (first : xs[i]? = some a) (second : xs[j]? = some b) : R a b := by
  obtain ⟨inside,rfl⟩ := List.getElem?_eq_some_iff.1 first
  obtain ⟨inside',rfl⟩ := List.getElem?_eq_some_iff.1 second
  exact pairwise_iff_getElem.1 related i j inside inside' before

theorem isSome_binarySearchBy {cmp : α → Ordering}
    (sorted : xs.Pairwise fun a b => (cmp b ≠ .gt → cmp a ≠ .gt) ∧ (cmp b = .lt → cmp a = .lt)) :
    (binarySearchBy cmp xs).isSome ↔ ∃ x ∈ xs, cmp x = .eq := by
  have falling : xs.Pairwise fun a b => (cmp b != .gt) = true → (cmp a != .gt) = true := by
    apply sorted.imp
    intro a b order
    simpa using order.1
  have parted := parted_takeWhile falling
  generalize (xs.takeWhile fun x => cmp x != .gt).length = k at parted
  obtain ⟨low,high⟩ := halve_near parted xs.length xs.length 0 (by omega) (.inl rfl) (by
    by_contra long
    have beyond := (parted xs.length).2 (by omega)
    simp at beyond)
  unfold binarySearchBy
  generalize halve _ xs xs.length xs.length 0 = base at low high
  have found : (if xs[base]?.any (fun x => cmp x == .eq) then some base else none).isSome ↔
      ∃ x, xs[base]? = some x ∧ cmp x = .eq := by
    split
    next hit => simpa [Option.any_eq_true] using hit
    next miss => simpa [Option.any_eq_true] using miss
  rw [found]
  constructor
  · rintro ⟨x,at_base,equal⟩
    exact ⟨x,mem_of_getElem? at_base,equal⟩
  rintro ⟨x,member,equal⟩
  obtain ⟨i,at_i⟩ := getElem?_of_mem member
  have before : i < k := (parted i).1 (by simp [at_i,equal])
  -- the last item not above the one sought sits at `base`; were it below, so would be `x`
  rcases Nat.lt_or_ge i base with earlier | later
  · obtain ⟨y,at_base,above⟩ := (Option.any_eq_true ..).1 ((parted base).2 (by omega))
    have order := pairwise_at sorted earlier at_i at_base
    refine ⟨y,at_base,?_⟩
    cases compared : cmp y with
    | lt => simp [equal] at order; exact absurd compared order
    | eq => rfl
    | gt => simp [compared] at above
  · obtain rfl : i = base := by omega
    exact ⟨x,at_i,equal⟩

end Ember
