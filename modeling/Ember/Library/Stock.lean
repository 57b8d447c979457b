import Ember.Library.Ordered

/-! Stock on shelves. A table of lists is read as the multiset of all it holds, each item with its
shelf's key; a limit bounds what the items of each kind weigh. -/
namespace Ember
open AList Multiset Function Table

section Held
variable {α : Type} (p : α → Prop) [DecidablePred p] (w : α → Nat)

variable {m : Multiset α} {m' : Multiset α}

def held (m : Multiset α) : Nat := ((m.filter p).map w).sum

theorem held_cons (x : α) (m : Multiset α) : held p w (x ::ₘ m) = held p w m+if p x then w x else 0 := by
  by_cases kind : p x
  · rw [held,filter_cons_of_pos m kind,map_cons,sum_cons,if_pos kind,Nat.add_comm,held]
  · rw [held,filter_cons_of_neg m kind,if_neg kind,held,Nat.add_zero]

theorem held_add : held p w (m+m') = held p w m+held p w m' := by
  rw [held,filter_add,Multiset.map_add,sum_add]
  rfl

theorem held_mono (part : m ≤ m') : held p w m ≤ held p w m' := by
  obtain ⟨rest,rfl⟩ := Multiset.le_iff_exists_add.1 part
  rw [held_add]
  exact Nat.le_add_right ..

theorem held_one (m : Multiset α) : held p (fun _ => 1) m = (m.filter p).card := by simp [held]

theorem held_pos {x : α} (member : x ∈ m) (kind : p x) : w x ≤ held p w m := by
  obtain ⟨rest,rfl⟩ := exists_cons_of_mem member
  rw [held_cons,if_pos kind]
  exact Nat.le_add_left ..

theorem held_eq_zero (none : ∀ x ∈ m, ¬p x) : held p w m = 0 := by
  rw [held,filter_eq_nil.2 none]
  rfl

theorem held_imp {q : α → Prop} [DecidablePred q] (narrower : ∀ x ∈ m, p x → q x) : held p w m ≤ held q w m := by
  induction m using Multiset.induction_on with
  | empty => exact Nat.le_refl _
  | cons x m ih =>
    have rest := ih fun y member => narrower y (mem_cons_of_mem member)
    rw [held_cons,held_cons]
    by_cases own : p x
    · rw [if_pos own,if_pos (narrower x (mem_cons_self x m) own)]
      exact Nat.add_le_add_right rest _
    · rw [if_neg own]
      exact rest.trans (Nat.le_add_right ..)

end Held
section Limited
variable {α κ : Type} {kind : κ → α → Prop} [∀ k, DecidablePred (kind k)] {w : α → Nat} {limit : Nat} {m m' : Multiset α}

def Limited (kind : κ → α → Prop) [∀ k, DecidablePred (kind k)] (w : α → Nat) (limit : Nat) (m : Multiset α) : Prop :=
  ∀ k, held (kind k) w m ≤ limit

namespace Limited

theorem zero : Limited kind w limit 0 := fun _ => Nat.zero_le _

theorem mono (limited : Limited kind w limit m) (part : m' ≤ m) : Limited kind w limit m' := fun k =>
  (held_mono (kind k) w part).trans (limited k)

theorem cons {x : α} (limited : Limited kind w limit m) (room : ∀ k, kind k x → held (kind k) w m+w x ≤ limit) :
    Limited kind w limit (x ::ₘ m) := by
  intro k
  rw [held_cons]
  by_cases mine : kind k x
  · rw [if_pos mine]
    exact room k mine
  · rw [if_neg mine]
    exact limited k

end Limited
end Limited
section Shelved
variable {α κ : Type}

variable (q : α → Prop) (t : Table κ (List α))

variable (w : α → Nat) (t : Table κ (List α))

def stock : Multiset (κ × α) := t.total fun k items => ↑(items.map (Prod.mk k))

theorem map_snd_stock : (stock t).map Prod.snd = ↑t.values.flatten := by
  rw [stock,total,values]
  induction t.entries with
  | nil => rfl
  | cons e rest ih =>
    rw [List.map_cons,List.sum_cons,Multiset.map_add,ih]
    simp

theorem held_values [DecidablePred q] :
    held (fun x : κ × α => q x.2) (fun x => w x.2) (stock t) = ((t.values.flatten.filter q).map w).sum := by
  have items := congrArg (fun m => ((m.filter q).map w).sum) (map_snd_stock t)
  rw [filter_coe,filter_map,map_map] at items
  exact items

theorem count_values [DecidablePred q] :
    held (fun x : κ × α => q x.2) (fun _ => 1) (stock t) = (t.values.flatten.filter q).length := by
  rw [held_values q (fun _ => 1) t]
  generalize t.values.flatten.filter q = items
  simp

theorem sum_stock : ((stock t).map fun x => w x.2).sum = (t.values.map fun items => (items.map w).sum).sum := by
  rw [stock,total,values]
  induction t.entries with
  | nil => rfl
  | cons e rest ih =>
    rw [List.map_cons,List.sum_cons,Multiset.map_add,sum_add,ih]
    simp [comp_def]

variable [DecidableEq κ]

variable (t : Table κ (List α)) (k : κ) (q : α → Prop) (items : List α)

def shelf (t : Table κ (List α)) (k : κ) : List α := (t.lookup k).getD []

theorem weight_shelf :
    t.weight (fun k items => (↑(items.map (Prod.mk k)) : Multiset (κ × α))) k = ↑((shelf t k).map (Prod.mk k)) := by
  rw [weight,shelf]
  cases t.lookup k with
  | none => rfl
  | some items => rfl

theorem stock_insert : stock (t.insert k items)+↑((shelf t k).map (Prod.mk k)) = stock t+↑(items.map (Prod.mk k)) := by
  rw [stock,total_insert,stock,← total_erase _ t k,weight_shelf,add_right_comm]

theorem stock_erase : stock (t.erase k)+↑((shelf t k).map (Prod.mk k)) = stock t := by
  rw [stock,stock,← total_erase _ t k,weight_shelf]

theorem stock_erase_of_bare {t : Table κ (List α)} {k : κ} (bare : shelf t k = []) : stock (t.erase k) = stock t := by
  have same := stock_erase t k
  rwa [bare,List.map_nil,coe_nil,add_zero] at same

theorem shelf_insert_self : shelf (t.insert k items) k = items := by
  simp [shelf]

theorem mem_stock {t : Table κ (List α)} {x : κ × α} : x ∈ stock t ↔ x.2 ∈ shelf t x.1 := by
  obtain ⟨k,x⟩ := x
  have walked : ∀ entries : List (Σ _ : κ, List α),
      (k,x) ∈ (entries.map fun e => (↑(e.2.map (Prod.mk e.1)) : Multiset (κ × α))).sum ↔ ∃ e ∈ entries, e.1 = k ∧ x ∈ e.2 := by
    intro entries
    induction entries with
    | nil => simp
    | cons e rest ih =>
      rw [List.map_cons,List.sum_cons,mem_add,ih,List.exists_mem_cons_iff]
      exact or_congr_left (by simp [and_comm])
  rw [stock,total,walked,shelf]
  constructor
  · rintro ⟨⟨_,items⟩,listed,rfl,member⟩
    rwa [show t.lookup _ = some items from (List.mem_dlookup_iff t.nodupKeys).2 listed]
  intro member
  cases found : t.lookup k with
  | none => simp [found] at member
  | some items =>
    rw [found] at member
    exact ⟨⟨k,items⟩,(List.mem_dlookup_iff t.nodupKeys).1 found,rfl,member⟩

theorem stock_filter : (stock t).filter (fun x => x.1 = k) = ↑((shelf t k).map (Prod.mk k)) := by
  have own : Multiset.filter (fun x : κ × α => x.1 = k) ↑((shelf t k).map (Prod.mk k)) = ↑((shelf t k).map (Prod.mk k)) := by
    rw [filter_eq_self]
    intro x member
    obtain ⟨_,_,rfl⟩ := List.mem_map.1 (mem_coe.1 member)
    rfl
  have away : Multiset.filter (fun x => x.1 = k) (stock (t.erase k)) = 0 := by
    rw [filter_eq_nil]
    intro x member same
    rw [mem_stock,same,shelf,lookup_erase] at member
    cases member
  rw [← stock_erase t k,filter_add,away,zero_add,own]

theorem held_shelf [DecidablePred q] (w : κ × α → Nat) :
    held (fun x : κ × α => x.1 = k ∧ q x.2) w (stock t) = (((shelf t k).filter q).map fun x => w (k,x)).sum := by
  rw [held,← filter_filter,filter_comm,stock_filter,filter_coe,map_coe,List.filter_map,
    List.map_map]
  rfl

theorem count_shelf [DecidablePred q] :
    held (fun x : κ × α => x.1 = k ∧ q x.2) (fun _ => 1) (stock t) = ((shelf t k).filter q).length := by
  rw [held_shelf]
  simp

section Changes
variable {t : Table κ (List α)} {k : κ} {items gone : List α} {x : α}

theorem stock_removed (split : (shelf t k).Perm (items++gone)) : stock t = stock (t.insert k items)+↑(gone.map (Prod.mk k)) := by
  have moved := stock_insert t k items
  rw [coe_eq_coe.2 (split.map _),List.map_append,← coe_add,← add_assoc,add_right_comm] at moved
  exact (add_right_cancel moved).symm

theorem stock_added (more : items.Perm (x :: shelf t k)) : stock (t.insert k items) = (k,x) ::ₘ stock t := by
  have moved := stock_insert t k items
  rw [coe_eq_coe.2 (more.map _),List.map_cons,← cons_coe,add_cons,← cons_add] at moved
  exact add_right_cancel moved

theorem stock_swapped {old : α} {rest : List α} (before : (shelf t k).Perm (old :: rest)) (after : items.Perm (x :: rest)) :
    ∃ others, stock t = (k,old) ::ₘ others ∧ stock (t.insert k items) = (k,x) ::ₘ others := by
  refine ⟨stock (t.insert k rest),?_,?_⟩
  · rw [stock_removed (before.trans (List.perm_append_singleton old rest).symm),List.map_singleton,coe_singleton,
      Multiset.add_comm,singleton_add]
  have beyond : (t.insert k rest).insert k items = t.insert k items := insert_insert t
  rw [← beyond]
  exact stock_added (by rwa [shelf_insert_self])

end Changes

end Shelved
end Ember
