import Ember.Library.Table

/-! Indexes kept beside what they index. A counter and a multimap are stated against the list they
summarise, so that adding or dropping a member is one rule for each. What one shelf gives up or
takes is what all of them together do. -/
namespace Ember
open Option AList Function
open List hiding beq_eq_decide

section Replaced
variable {α : Type} [DecidableEq α]
variable {xs : List α} {x : α}

theorem replace_self : xs.replace x x = xs := by
  induction xs with
  | nil => rfl
  | cons z rest ih =>
    by_cases equal : x = z
    · subst equal
      simp
    · rw [replace_cons,beq_eq_false_iff_ne.2 equal,ih]

theorem map_replace {β : Type} {f : α → β} {y : α} (same : f y = f x) : (xs.replace x y).map f = xs.map f := by
  induction xs with
  | nil => rfl
  | cons z rest ih =>
    by_cases equal : z = x
    · subst equal
      simp [same]
    have other : (x == z) = false := by simpa using fun hit => equal hit.symm
    rw [replace_cons,other]
    simp [ih]

theorem replace_perm (y : α) (member : x ∈ xs) : (xs.replace x y).Perm (y :: xs.erase x) := by
  induction xs with
  | nil => cases member
  | cons z rest ih =>
    by_cases same : z = x
    · subst same
      simp
    have later : x ∈ rest := (mem_cons.1 member).resolve_left fun equal => same equal.symm
    have other : (x == z) = false := by simpa using fun equal => same equal.symm
    have other' : (z == x) = false := by simpa using same
    rw [replace_cons,other,erase_cons,other']
    exact ((ih later).cons z).trans (.swap y z _)

def eraseLast (xs : List α) (x : α) : List α := (xs.reverse.erase x).reverse

theorem eraseLast_perm (member : x ∈ xs) : xs.Perm (x :: eraseLast xs x) := by
  have found : x ∈ xs.reverse := mem_reverse.2 member
  have split : xs.Perm (x :: xs.reverse.erase x) := xs.reverse_perm.symm.trans (perm_cons_erase found)
  exact split.trans ((reverse_perm _).symm.cons x)

/-- `swap_remove` of the first occurrence: the last element takes its place. -/
def swapRemove (xs : List α) (x : α) : List α :=
  match xs.getLast? with
  | some last => if x ∈ xs then (xs.replace x last).dropLast else xs
  | none => xs

theorem swapRemove_perm (member : x ∈ xs) : xs.Perm (x :: swapRemove xs x) := by
  obtain ⟨front,last,rfl⟩ := (eq_nil_or_concat' xs).resolve_left fun empty => by
    rw [empty] at member; cases member
  have removed : swapRemove (front++[last]) x = ((front++[last]).replace x last).dropLast := by
    simp only [swapRemove,getLast?_append,getLast?_singleton,some_or,if_pos member]
  by_cases inside : x ∈ front
  · rw [removed,replace_append_left inside,dropLast_concat]
    calc (front++[last]).Perm (last :: front) := perm_append_singleton ..
      List.Perm _ (last :: x :: front.erase x) := (perm_cons_erase inside).cons _
      List.Perm _ (x :: last :: front.erase x) := .swap ..
      List.Perm _ (x :: front.replace x last) := ((replace_perm last inside).symm).cons _
  have same : x = last := by simpa [inside] using member
  subst same
  rw [removed,replace_append_right inside]
  simp

end Replaced
section Recounts
variable {κ ν : Type} [DecidableEq κ]

namespace Table

/-- Takes one from a counter and forgets it at zero. -/
def release (t : Table κ Nat) (k : κ) : Table κ Nat :=
  match t.lookup k with
  | some count => if count-1 = 0 then t.erase k else t.insert k (count-1)
  | none => t

def file (t : Table κ (List ν)) (k : κ) (v : ν) : Table κ (List ν) := t.insert k ((t.lookup k).getD []++[v])

/-- Takes a value from those a key lists and forgets a key that lists none. -/
def unfile [DecidableEq ν] (t : Table κ (List ν)) (k : κ) (v : ν) : Table κ (List ν) :=
  match t.lookup k with
  | some values =>
    let rest := swapRemove values v
    if rest = [] then t.erase k else t.insert k rest
  | none => t

end Table

theorem count_map {α : Type} {f : α → κ} {xs : List α} {k : κ} : (xs.map f).count k = xs.countP fun x => f x = k := by
  simp [List.count,comp_def,beq_eq_decide]

/-- Every counter is its key's number of occurrences, and none stands at zero. -/
def Recounts (t : Table κ Nat) (keys : List κ) : Prop :=
  ∀ k, t.lookup k = if keys.count k = 0 then none else some (keys.count k)

namespace Recounts

variable {t : Table κ Nat} {keys keys' : List κ} {k : κ}

theorem empty : Recounts (∅ : Table κ Nat) [] := fun _ => rfl

section
variable (counted : Recounts t keys)
include counted

theorem perm (same : keys.Perm keys') : Recounts t keys' := fun k => by
  rw [counted k,same.count_eq]

theorem count : t.count k = keys.count k := by
  rw [Table.count,counted k]
  by_cases none : keys.count k = 0 <;> simp [none]

theorem mem_iff : k ∈ t ↔ k ∈ keys := by
  rw [← lookup_isSome,counted k,← count_pos_iff]
  by_cases none : keys.count k = 0
  · simp [none]
  · simp [none,Nat.pos_of_ne_zero none]

theorem bump : Recounts (t.bump k) (k :: keys) := by
  intro k'
  rw [Table.bump,counted.count]
  by_cases same : k' = k
  · subst same
    simp
  · rw [lookup_insert_ne same,counted k',count_cons_of_ne (Ne.symm same)]

end

theorem release (counted : Recounts t (k :: keys)) : Recounts (t.release k) keys := by
  have bound : t.lookup k = some (keys.count k+1) := by simpa using counted k
  intro k'
  simp only [Table.release,bound,Nat.add_sub_cancel]
  by_cases same : k' = k
  · subst same
    by_cases last : keys.count k' = 0 <;> simp [last]
  have other := counted k'
  rw [count_cons_of_ne (Ne.symm same)] at other
  by_cases last : keys.count k = 0
  · rw [if_pos last,lookup_erase_ne same,other]
  · rw [if_neg last,lookup_insert_ne same,other]

theorem swap {k' : κ} (counted : Recounts t (k :: keys)) :
    Recounts (if k' ≠ k then (t.release k).bump k' else t) (k' :: keys) := by
  by_cases same : k' = k
  · rwa [if_neg (not_not.2 same),same]
  · rw [if_pos same]
    exact counted.release.bump

end Recounts

def AtMost (n : Nat) (keys : List κ) : Prop := ∀ k, keys.count k ≤ n

namespace AtMost

variable {n m : Nat} {keys keys' rest : List κ} {k k' : κ}

theorem perm (bounded : AtMost n keys) (same : keys.Perm keys') : AtMost n keys' := fun k => by
  rw [← same.count_eq]
  exact bounded k

theorem mono (bounded : AtMost n keys) (looser : n ≤ m) : AtMost m keys := fun k => (bounded k).trans looser

theorem sublist (bounded : AtMost n keys) (part : keys'.Sublist keys) : AtMost n keys' := fun k =>
  (part.count_le k).trans (bounded k)

theorem of_map {κ' : Type} [DecidableEq κ'] {f : κ → κ'} (injective : Function.Injective f)
    (bounded : AtMost n (keys.map f)) : AtMost n keys := fun k => by
  rw [← count_map_of_injective keys f injective k]
  exact bounded (f k)

theorem tail (bounded : AtMost n (k :: keys)) : AtMost n keys := bounded.sublist (sublist_cons_self ..)

theorem cons (bounded : AtMost n keys) (room : keys.count k < n) : AtMost n (k :: keys) := by
  intro k'
  by_cases same : k' = k
  · subst same
    rw [count_cons_self]
    exact room
  · rw [count_cons_of_ne (Ne.symm same)]
    exact bounded k'

theorem swap (bounded : AtMost n (k :: keys)) (room : k' = k ∨ (k :: keys).count k' < n) : AtMost n (k' :: keys) := by
  obtain rfl | room := room
  · exact bounded
  · exact bounded.tail.cons (lt_of_le_of_lt ((sublist_cons_self k keys).count_le k') room)

theorem freed (bounded : AtMost n (k :: keys)) (room : k' = k ∨ (k :: keys).count k' < n) : keys.count k' < n := by
  obtain rfl | room := room
  · have most := bounded k'
    rw [count_cons_self] at most
    exact most
  · exact lt_of_le_of_lt ((sublist_cons_self k keys).count_le k') room

end AtMost

def under (pairs : List (κ × ν)) (k : κ) : List ν := (pairs.filter fun pair => pair.1 = k).map Prod.snd

/-- Every key lists the values its pairs give it, in some order, and no key lists none. -/
def Groups (t : Table κ (List ν)) (pairs : List (κ × ν)) : Prop :=
  ∀ k, ((t.lookup k).getD []).Perm (under pairs k) ∧ t.lookup k ≠ some []

namespace Groups

variable {t : Table κ (List ν)} {pairs pairs' : List (κ × ν)} {k : κ} {v : ν}

theorem empty : Groups (∅ : Table κ (List ν)) [] := fun _ => ⟨.refl _,nofun⟩

theorem perm (grouped : Groups t pairs) (same : pairs.Perm pairs') : Groups t pairs' := fun k =>
  ⟨(grouped k).1.trans ((same.filter _).map _),(grouped k).2⟩

private theorem under_same : under ((k,v) :: pairs) k = v :: under pairs k := by simp [under]

private theorem under_other {k' : κ} (other : k' ≠ k) : under ((k,v) :: pairs) k' = under pairs k' := by
  simp [under,Ne.symm other]

theorem file (grouped : Groups t pairs) (k : κ) (v : ν) : Groups (t.file k v) ((k,v) :: pairs) := by
  intro k'
  rw [Table.file]
  by_cases same : k' = k
  · subst same
    rw [lookup_insert,under_same]
    refine ⟨?_,by simp⟩
    exact (perm_append_singleton ..).trans ((grouped k').1.cons v)
  · rw [lookup_insert_ne same,under_other same]
    exact grouped k'

theorem unfile [DecidableEq ν] (grouped : Groups t ((k,v) :: pairs)) : Groups (t.unfile k v) pairs := by
  have listed := (grouped k).1
  rw [under_same] at listed
  obtain ⟨values,found⟩ : ∃ values, t.lookup k = some values := by
    cases found : t.lookup k with
    | some values => exact ⟨values,rfl⟩
    | none => simp [found] at listed
  rw [found] at listed
  have rest : (swapRemove values v).Perm (under pairs k) :=
    ((swapRemove_perm (listed.mem_iff.2 mem_cons_self)).symm.trans listed).cons_inv
  intro k'
  simp only [Table.unfile,found]
  by_cases same : k' = k
  · subst same
    by_cases last : swapRemove values v = []
    · rw [if_pos last,lookup_erase]
      exact ⟨last ▸ rest,nofun⟩
    · rw [if_neg last,lookup_insert]
      exact ⟨rest,fun none => last (some.inj none)⟩
  · have other := grouped k'
    rw [under_other same] at other
    by_cases last : swapRemove values v = []
    · rwa [if_pos last,lookup_erase_ne same]
    · rwa [if_neg last,lookup_insert_ne same]

end Groups
end Recounts

section Shelves
variable {n : Nat} {α : Type}

variable {shelves : Fin n → List α} {i : Fin n} {xs : List α} {x : α}

def gather (shelves : Fin n → List α) : List α := (List.finRange n).flatMap shelves

theorem mem_gather : x ∈ gather shelves ↔ ∃ i, x ∈ shelves i := by
  simp [gather]

theorem gather_update (shelves : Fin n → List α) (i : Fin n) (xs : List α) :
    (gather (update shelves i xs)++shelves i).Perm (gather shelves++xs) := by
  have order : (List.finRange n).Perm (i :: (List.finRange n).erase i) := perm_cons_erase (mem_finRange i)
  have others : ((List.finRange n).erase i).flatMap (update shelves i xs) =
      ((List.finRange n).erase i).flatMap shelves := by
    refine flatMap_congr fun j member => ?_
    have other : j ≠ i := ((nodup_finRange n).mem_erase_iff.1 member).1
    rw [update_of_ne other]
  have before : (gather shelves).Perm (shelves i++((List.finRange n).erase i).flatMap shelves) := by
    simpa [gather] using order.flatMap_right shelves
  have after : (gather (update shelves i xs)).Perm (xs++((List.finRange n).erase i).flatMap shelves) := by
    have moved := order.flatMap_right (update shelves i xs)
    rwa [flatMap_cons,update_self,others] at moved
  calc (gather (update shelves i xs)++shelves i).Perm
        ((xs++((List.finRange n).erase i).flatMap shelves)++shelves i) := after.append_right _
    List.Perm _ (xs++(shelves i++((List.finRange n).erase i).flatMap shelves)) := by
        rw [append_assoc]; exact perm_append_comm.append_left _
    List.Perm _ (gather shelves++xs) := (before.symm.append_left _).trans perm_append_comm

theorem gather_add (added : xs.Perm (x :: shelves i)) : (gather (update shelves i xs)).Perm (x :: gather shelves) := by
  have moved := (gather_update shelves i xs).trans (added.append_left _)
  have front : (gather shelves++x :: shelves i).Perm ((x :: gather shelves)++shelves i) := perm_middle
  exact (perm_append_right_iff _).1 (moved.trans front)

theorem gather_remove
    (removed : (shelves i).Perm (x :: xs)) : (gather shelves).Perm (x :: gather (update shelves i xs)) := by
  have moved := ((removed.append_left _).symm.trans (gather_update shelves i xs)).symm
  have front : (gather (update shelves i xs)++x :: xs).Perm ((x :: gather (update shelves i xs))++xs) :=
    perm_middle
  exact (perm_append_right_iff _).1 (moved.trans front)

theorem gather_swap {rest : List α} {y : α} (before : (shelves i).Perm (x :: rest)) (after : xs.Perm (y :: rest)) :
    ∃ others, (gather shelves).Perm (x :: others) ∧ (gather (update shelves i xs)).Perm (y :: others) := by
  have removed := gather_remove before
  refine ⟨_,removed,?_⟩
  have added := @gather_add n α (update shelves i rest) i xs y (by rwa [update_self])
  rwa [update_idem] at added

theorem gather_sublist {shelves' : Fin n → List α} (part : ∀ i, (shelves' i).Sublist (shelves i)) :
    (gather shelves').Sublist (gather shelves) := by
  unfold gather
  induction List.finRange n with
  | nil => exact .slnil
  | cons i rest ih => exact (part i).append ih

theorem gather_subperm (part : xs.Subperm (shelves i)) :
    (gather (update shelves i xs)).Subperm (gather shelves) := by
  have moved : (gather (update shelves i xs)++shelves i).Subperm (gather shelves++shelves i) :=
    (gather_update shelves i xs).subperm.trans ((subperm_append_left _).2 part)
  exact (subperm_append_right _).1 moved

end Shelves
end Ember
