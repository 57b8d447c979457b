import Mathlib

/-! How much of a list fits a budget when it is taken from the front. -/
namespace Ember.Window

def fit (budget : Nat) : List Nat → Nat
  | [] => 0
  | cost :: rest => if cost ≤ budget then fit (budget-cost) rest+1 else 0

variable {budget cost : Nat} {costs : List Nat}

theorem fit_cons_of_le (fits : cost ≤ budget) : fit budget (cost :: costs) = fit (budget-cost) costs+1 :=
  if_pos fits

theorem fit_le_length (budget : Nat) (costs : List Nat) : fit budget costs ≤ costs.length := by
  induction costs generalizing budget with
  | nil => exact Nat.le_refl 0
  | cons cost rest ih =>
    unfold fit
    split
    · exact Nat.succ_le_succ (ih _)
    · exact Nat.zero_le _

end Ember.Window
