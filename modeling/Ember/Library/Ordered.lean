import Ember.Library.Table

/-! Tables walked in the order of their keys, and the extremes of a walk. A walk for a largest
element keeps the last one found, one for a smallest the first. -/
namespace Ember
open List AList

def lastMax {α β : Type} [LinearOrder β] (key : α → β) (items : List α) : Option α := items.reverse.argmax key

def firstMin {α β : Type} [LinearOrder β] (key : α → β) (items : List α) : Option α := items.argmin key

section Extremes
variable {α β : Type} [LinearOrder β] {key : α → β} {items : List α} {found : α}

theorem mem_of_lastMax (max : lastMax key items = some found) : found ∈ items :=
  mem_reverse.1 (argmax_mem max)

theorem mem_of_firstMin (min : firstMin key items = some found) : found ∈ items := argmin_mem min

@[simp] theorem lastMax_eq_none : lastMax key items = none ↔ items = [] := by
  simp [lastMax]

@[simp] theorem firstMin_eq_none : firstMin key items = none ↔ items = [] := argmin_eq_none

end Extremes

namespace Table

variable {κ ν : Type}
variable (p : κ → ν → Bool) (t : Table κ ν)

def size : Nat := t.entries.length

def bindings : List (κ × ν) := t.entries.map fun e => (e.1,e.2)

def inOrder (le : κ → κ → Prop) [DecidableRel le] (t : Table κ ν) : List (κ × ν) :=
  t.bindings.insertionSort (fun a b => le a.1 b.1)

def sizeWhere : Nat := total (fun k v => (p k v).toNat) t

theorem size_eq : t.size = t.sizeWhere fun _ _ => true := by simp [size,sizeWhere,total]

theorem sizeWhere_eq : t.sizeWhere p = (t.entries.filter fun e => p e.1 e.2).length := by
  rw [sizeWhere,total]
  induction t.entries with
  | nil => rfl
  | cons e rest ih => cases holds : p e.1 e.2 <;> simp [holds,ih,Nat.add_comm]

theorem length_filter_bindings : (t.bindings.filter fun b => p b.1 b.2).length = t.sizeWhere p := by
  rw [sizeWhere_eq,bindings,filter_map,length_map]
  rfl

theorem mem_bindings [DecidableEq κ] {t : Table κ ν} {k : κ} {v : ν} : (k,v) ∈ t.bindings ↔ t.lookup k = some v := by
  rw [bindings,mem_map]
  constructor
  · rintro ⟨⟨k',v'⟩,member,same⟩
    cases same
    exact (mem_dlookup_iff t.nodupKeys).2 member
  · intro bound
    exact ⟨⟨k,v⟩,(mem_dlookup_iff t.nodupKeys).1 bound,rfl⟩

section Walk
variable (le : κ → κ → Prop) [DecidableRel le]

theorem length_filter_inOrder (p : κ → ν → Bool) (t : Table κ ν) :
    ((t.inOrder le).filter fun b => p b.1 b.2).length = t.sizeWhere p := by
  rw [inOrder,((perm_insertionSort ..).filter _).length_eq,length_filter_bindings]

theorem length_inOrder {t : Table κ ν} : (t.inOrder le).length = t.size := by
  rw [inOrder,length_insertionSort,bindings,length_map,size]

variable [DecidableEq κ]

@[simp] theorem mem_inOrder {t : Table κ ν} {k : κ} {v : ν} : (k,v) ∈ t.inOrder le ↔ t.lookup k = some v := by
  rw [inOrder,(perm_insertionSort _ _).mem_iff,mem_bindings]

end Walk

section Sizes
variable [DecidableEq κ] (p : κ → ν → Bool) (t : Table κ ν) {k : κ} {v : ν}

theorem sizeWhere_erase (bound : t.lookup k = some v) : sizeWhere p (t.erase k)+(p k v).toNat = sizeWhere p t := by
  have split := total_erase (fun k v => (p k v).toNat) t k
  simpa [sizeWhere,weight,bound] using split

theorem size_erase (bound : t.lookup k = some v) : size (t.erase k)+1 = t.size := by
  rw [size_eq,size_eq]
  exact sizeWhere_erase _ t bound

theorem erase_of_lookup_none (absent : t.lookup k = none) : t.erase k = t := by
  apply AList.ext
  exact kerase_of_notMem_keys (dlookup_eq_none.1 absent)

theorem sizeWhere_erase_le : sizeWhere p (t.erase k) ≤ sizeWhere p t := by
  cases bound : t.lookup k with
  | none => rw [erase_of_lookup_none t bound]
  | some v =>
    have := sizeWhere_erase p t bound
    omega

theorem sizeWhere_insert : sizeWhere p (t.insert k v) = sizeWhere p (t.erase k)+(p k v).toNat :=
  total_insert (fun k v => (p k v).toNat) t k

theorem sizeWhere_insert_le : sizeWhere p (t.insert k v) ≤ sizeWhere p t+(p k v).toNat := by
  rw [sizeWhere_insert]
  exact Nat.add_le_add_right (sizeWhere_erase_le p t) _

theorem sizeWhere_insert_bound {v' : ν} (bound : t.lookup k = some v') (same : p k v = p k v') :
    sizeWhere p (t.insert k v) = sizeWhere p t := by
  rw [sizeWhere_insert,same,sizeWhere_erase p t bound]

theorem size_insert_bound {v' : ν} (bound : t.lookup k = some v') : size (t.insert k v) = t.size := by
  rw [size_eq,size_eq]
  exact sizeWhere_insert_bound _ t bound rfl

theorem size_insert_le : size (t.insert k v) ≤ t.size+1 := by
  rw [size_eq,size_eq]
  exact sizeWhere_insert_le _ t

omit [DecidableEq κ] in
theorem sizeWhere_retain {f : ν → Option ν} (kept : ∀ k v v', f v = some v' → p k v' = p k v) :
    sizeWhere p (retain f t) ≤ sizeWhere p t := by
  have split := total_retain f (fun k v => (p k v).toNat) (fun k v => if (f v).isSome then 0 else (p k v).toNat) t (by
    intro k v
    cases given : f v with
    | none => simp
    | some v' => simp [kept k v v' given])
  rw [sizeWhere,sizeWhere,← split]
  exact Nat.le_add_right ..

theorem exists_of_sizeWhere_pos (positive : 0 < sizeWhere p t) : ∃ k v, t.lookup k = some v ∧ p k v = true := by
  rw [sizeWhere_eq] at positive
  obtain ⟨⟨k,v⟩,member⟩ := exists_mem_of_length_pos positive
  rw [mem_filter] at member
  exact ⟨k,v,(mem_dlookup_iff t.nodupKeys).2 member.1,member.2⟩

end Sizes

def Within [DecidableEq κ] (t' t : Table κ ν) : Prop := ∀ ⦃k v⦄, t'.lookup k = some v → t.lookup k = some v

namespace Within
variable [DecidableEq κ] {t t' t'' : Table κ ν}

theorem refl : Within t t := fun _ _ bound => bound

theorem trans (first : Within t'' t') (second : Within t' t) : Within t'' t := fun _ _ bound => second (first bound)

theorem erase (t : Table κ ν) (k : κ) : Within (t.erase k) t := fun _ _ => lookup_of_erase t

theorem sweep {keep : ν → Prop} [DecidablePred keep] : Within (retain (fun v => if keep v then some v else none) t) t := by
  intro k v bound
  rw [lookup_retain] at bound
  obtain ⟨v',held,kept⟩ := Option.bind_eq_some_iff.1 bound
  obtain ⟨-,same⟩ := Option.ite_none_right_eq_some.1 kept
  rw [held,Option.some.inj same]

theorem insert (within : Within t' t) (k : κ) (v : ν) : Within (t'.insert k v) (t.insert k v) := by
  intro k' v' bound
  by_cases same : k' = k
  · subst same
    rwa [lookup_insert] at bound ⊢
  · rw [lookup_insert_ne same] at bound ⊢
    exact within bound

theorem sizeWhere_le (within : Within t' t) (p : κ → ν → Bool) : sizeWhere p t' ≤ sizeWhere p t := by
  apply total_mono
  intro k
  unfold weight
  cases bound : t'.lookup k with
  | none => exact Nat.zero_le _
  | some v => rw [within bound]

theorem size_le (within : Within t' t) : t'.size ≤ t.size := by
  rw [size_eq,size_eq]
  exact within.sizeWhere_le _

end Within
end Table
end Ember
