import Mathlib

/-! Members of a ring. From one of them the others stand in a row, from the one behind it round to the one before. -/
namespace Ember.Ring
open List
variable {α : Type*} {ring row row' first last : List α} {a b : α} {reach : Nat}

/-- The others of a ring in the order they follow `a`. -/
def Around (ring : List α) (a : α) (row : List α) : Prop := ring.IsRotated (a :: row)

def AtEnd (reach : Nat) (row : List α) (b : α) : Prop := b ∈ row.take reach ∨ b ∈ row.reverse.take reach

theorem around_split (split : ring = first++a :: last) : Around ring a (last++first) :=
  split ▸ isRotated_append

theorem Around.turn (around : Around ring a (first++b :: last)) : Around ring b (last++a :: first) :=
  around.trans (@isRotated_append _ (a :: first) (b :: last))

theorem Around.unique (distinct : ring.Nodup) (around : Around ring a row) (around' : Around ring a row') : row = row' := by
  obtain ⟨turns,rotated⟩ := around.symm.trans around'
  have nodup : (a :: row).Nodup := around.nodup_iff.1 distinct
  -- a rotation that leaves the head in place is a whole number of rounds
  have head : (a :: row)[turns % (a :: row).length]? = (a :: row)[0]? := by
    have moved := getElem?_rotate (l := a :: row) (n := turns) (Nat.succ_pos _)
    rw [rotated,Nat.zero_add] at moved
    exact moved.symm
  have inside : turns % (a :: row).length < (a :: row).length := Nat.mod_lt _ (Nat.succ_pos _)
  have whole := (getElem?_inj inside nodup).1 head
  rw [← rotate_mod,whole,rotate_zero] at rotated
  exact tail_eq_of_cons_eq rotated

theorem Around.mem (around : Around ring a row) : b ∈ ring ↔ b = a ∨ b ∈ row :=
  around.mem_iff.trans mem_cons

theorem mem_take_split (fresh : b ∉ first) : b ∈ (first++b :: last).take reach ↔ first.length < reach := by
  rw [take_append,mem_append]
  constructor
  · rintro (early | late)
    · exact absurd (mem_of_mem_take early) fresh
    by_contra short
    rw [Nat.sub_eq_zero_of_le (Nat.not_lt.1 short)] at late
    cases late
  intro long
  obtain ⟨more,is⟩ := Nat.exists_eq_add_of_lt long
  rw [is,show first.length+more+1-first.length = more+1 by omega]
  exact .inr mem_cons_self

/-- To stand at an end of a row is mutual: who follows a member by few is followed by it by few the other way round. -/
theorem atEnd_symm (distinct : ring.Nodup) (around : Around ring a row) (around' : Around ring b row') (other : b ∈ row) :
    AtEnd reach row b ↔ AtEnd reach row' a := by
  obtain ⟨first,last,rfl⟩ := append_of_mem other
  obtain rfl := around.turn.unique distinct around'
  have apart := around.nodup_iff.1 distinct
  have apart' := around'.nodup_iff.1 distinct
  simp only [nodup_cons,mem_append,mem_cons,not_or] at apart apart'
  unfold AtEnd
  rw [reverse_append,reverse_append,reverse_cons,reverse_cons,append_assoc,append_assoc,
    singleton_append,singleton_append,mem_take_split apart'.1.2.2,mem_take_split apart.1.2.2,
    mem_take_split (by simpa using apart'.1.1),mem_take_split (by simpa using apart.1.1),length_reverse,length_reverse]
  exact or_comm

/-- A ring in which everybody reaches the one behind is strongly connected. -/
theorem reaches_all {r : α → α → Prop} (next : ∀ ⦃a b row⦄, Around ring a (b :: row) → r a b) (here : a ∈ ring) (there : b ∈ ring) :
    Relation.ReflTransGen r a b := by
  have walk first : ∀ {a last}, Around ring a (first++b :: last) → Relation.ReflTransGen r a b := by
    induction first with
    | nil => exact fun around => .single (next around)
    | cons c first ih =>
      intro a last around
      have turned : Around ring c (first++b :: (last++[a])) := by simpa using @Around.turn _ ring [] _ a c around
      exact .head (next around) (ih turned)
  obtain ⟨first,last,split⟩ := append_of_mem here
  have around := around_split split
  rcases around.mem.1 there with rfl | other
  · exact .refl
  · obtain ⟨before,behind,row⟩ := append_of_mem other
    exact walk before (row ▸ around)

end Ember.Ring
