import Mathlib

/-! Finding one's place in a list that loses items anywhere and gains them at its end: the nearest
of the last items seen that is still there marks it. -/
namespace Ember.Cursor
open List
variable {α : Type} {l a b : List α} {x : α}

theorem sublist_split (kept : l.Sublist (a++x :: b)) (member : x ∈ l) (distinct : (a++x :: b).Nodup) :
    ∃ c d, l = c++x :: d ∧ c.Sublist a ∧ d.Sublist b := by
  obtain ⟨c,rest,rfl,early,late⟩ := sublist_append_iff.1 kept
  rw [nodup_append,nodup_cons] at distinct
  have behind : x ∈ rest := by
    rcases mem_append.1 member with before | behind
    · exact absurd rfl (distinct.2.2 x (early.subset before) x mem_cons_self)
    · exact behind
  cases late with
  | cons _ later => exact absurd (later.subset behind) distinct.2.1.1
  | cons_cons _ later => exact ⟨c,_,rfl,early,later⟩

theorem sublist_of_not_mem (kept : l.Sublist (a++[x])) (gone : x ∉ l) : l.Sublist a := by
  obtain ⟨c,rest,rfl,early,late⟩ := sublist_append_iff.1 kept
  cases late with
  | cons _ later =>
    rw [sublist_nil.1 later,append_nil]
    exact early
  | cons_cons _ later => exact absurd (mem_append_right _ mem_cons_self) gone

variable [BEq α] [LawfulBEq α]

theorem findSome_nearest (count stop : Nat) (passed seen kept rest : List α) (distinct : (passed++seen).Nodup)
    (left : kept.Sublist (passed++seen)) (gone : ∀ x ∈ seen.reverse.take count, x ∉ rest)
    (some_left : ∃ x ∈ seen.reverse.take count, x ∈ kept++rest) (room : kept.length ≤ stop) :
    0 < kept.length ∧ (seen.reverse.take count).findSome? (fun x => ((kept++rest).take stop).findIdx? (· == x)) =
      some (kept.length-1) := by
  induction count generalizing seen with
  | zero =>
    obtain ⟨x,member,_⟩ := some_left
    simp at member
  | succ count ih =>
    rcases seen.eq_nil_or_concat with rfl | ⟨before,x,rfl⟩
    · obtain ⟨x,member,_⟩ := some_left
      simp at member
    rw [concat_eq_append,reverse_append,reverse_singleton,singleton_append,
      take_succ_cons] at gone some_left ⊢
    rw [concat_eq_append,← append_assoc] at distinct left
    by_cases still : x ∈ kept
    · -- the nearest item is left: it is the last of `kept`
      obtain ⟨c,d,rfl,early,late⟩ := sublist_split left still distinct
      obtain rfl := sublist_nil.1 late
      have absent : ∀ y ∈ c, ¬ (y == x) = true := by
        intro y member same
        obtain rfl := beq_iff_eq.1 same
        exact (nodup_append.1 distinct).2.2 y (early.subset member) y mem_cons_self rfl
      have longer : (c++[x]).length = c.length+1 := length_append
      rw [longer] at room ⊢
      refine ⟨Nat.succ_pos _,?_⟩
      rw [findSome?_cons]
      have index : ((c++[x]++rest).take stop).findIdx? (· == x) = some c.length := by
        rw [findIdx?_eq_some_iff_getElem]
        refine ⟨by rw [length_take,length_append]; omega,?_,fun j earlier => ?_⟩
        · simp
        · simpa [earlier] using absent _ (getElem_mem earlier)
      rw [index,Nat.add_sub_cancel]
    · -- it is gone for good, so the search goes on with the one before it
      have nowhere : ((kept++rest).take stop).findIdx? (· == x) = none := by
        rw [findIdx?_eq_none_iff]
        intro y member
        have inside := mem_of_mem_take member
        rw [beq_eq_false_iff_ne]
        rintro rfl
        exact (mem_append.1 inside).elim still (gone y mem_cons_self)
      rw [findSome?_cons,nowhere]
      refine ih before ?_ (sublist_of_not_mem left still) (fun y member => gone y (mem_cons_of_mem _ member)) ?_
      · exact (nodup_append.1 distinct).1
      obtain ⟨y,member,inside⟩ := some_left
      rcases mem_cons.1 member with rfl | later
      · exact absurd inside fun inside => (mem_append.1 inside).elim still (gone y mem_cons_self)
      · exact ⟨y,later,inside⟩

end Ember.Cursor
