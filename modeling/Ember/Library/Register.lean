import Mathlib

/-! A register that keeps the highest value offered, whatever the order of the offers. -/
namespace Ember.Register
open List
variable {α β : Type} [LinearOrder β] (rank : α → β)

/-- One offer; among equals the later one is kept. -/
def settle : Option α → α → Option α
  | none, a => some a
  | some held, a => if rank held ≤ rank a then some a else some held

theorem settle_some {held a : α} : settle rank (some held) a = if rank held ≤ rank a then some a else some held := rfl

theorem settle_spec (held : Option α) (a : α) : ∃ best, settle rank held a = some best ∧
    (best = a ∨ held = some best) ∧ rank a ≤ rank best ∧ ∀ r, held = some r → rank r ≤ rank best := by
  cases held with
  | none => exact ⟨a,rfl,.inl rfl,le_rfl,by simp⟩
  | some r =>
    rw [settle_some]
    split
    · rename_i above
      exact ⟨a,rfl,.inl rfl,le_rfl,by simpa using above⟩
    · rename_i below
      exact ⟨r,rfl,.inr rfl,(lt_of_not_ge below).le,by simp⟩

theorem foldl_settle_spec (offers : List α) (held : Option α) (best : α)
    (kept : offers.foldl (settle rank) held = some best) :
    (best ∈ offers ∨ held = some best) ∧ (∀ a ∈ offers, rank a ≤ rank best) ∧
      ∀ r, held = some r → rank r ≤ rank best := by
  induction offers generalizing held with
  | nil => exact ⟨.inr kept,by simp,fun r same => by simp_all⟩
  | cons a rest ih =>
    obtain ⟨next,settled,origin,above,past⟩ := settle_spec rank held a
    rw [foldl_cons,settled] at kept
    obtain ⟨found,highest,beyond⟩ := ih (some next) kept
    have passed : rank next ≤ rank best := beyond next rfl
    refine ⟨?_,?_,fun r same => (past r same).trans passed⟩
    · rcases found with later | same
      · exact .inl (mem_cons_of_mem _ later)
      obtain rfl : next = best := Option.some.inj same
      rcases origin with rfl | before
      · exact .inl mem_cons_self
      · exact .inr before
    · intro b member
      rcases mem_cons.1 member with rfl | later
      · exact above.trans passed
      · exact highest b later

theorem foldl_settle_isSome (offers : List α) (a : α) (member : a ∈ offers) :
    ∃ best, offers.foldl (settle rank) none = some best := by
  have kept : ∀ (l : List α) r, ∃ best, l.foldl (settle rank) (some r) = some best := by
    intro l
    induction l with
    | nil => exact fun r => ⟨r,rfl⟩
    | cons b rest ih =>
      intro r
      obtain ⟨next,settled,_⟩ := settle_spec rank (some r) b
      rw [foldl_cons,settled]
      exact ih next
  cases offers with
  | nil => simp at member
  | cons b rest => exact kept rest b

theorem foldl_settle_congr {first second : List α} (same : ∀ a, a ∈ first ↔ a ∈ second)
    (distinct : ∀ a ∈ first, ∀ b ∈ first, rank a = rank b → a = b) :
    first.foldl (settle rank) none = second.foldl (settle rank) none := by
  cases offered : first with
  | nil =>
    have none : second = [] := eq_nil_iff_forall_not_mem.2 fun a member => by
      simpa [offered] using (same a).2 member
    rw [none]
  | cons head rest =>
    have member : head ∈ first := offered ▸ mem_cons_self
    rw [← offered]
    obtain ⟨one,kept⟩ := foldl_settle_isSome rank first head member
    obtain ⟨other,kept'⟩ := foldl_settle_isSome rank second head ((same head).1 member)
    obtain ⟨found,highest,_⟩ := foldl_settle_spec rank first none one kept
    obtain ⟨found',highest',_⟩ := foldl_settle_spec rank second none other kept'
    have inside : one ∈ first := found.resolve_right (by simp)
    have inside' : other ∈ first := (same other).2 (found'.resolve_right (by simp))
    have equal : rank one = rank other :=
      le_antisymm (highest' one ((same one).1 inside)) (highest other inside')
    rw [kept,kept',distinct one inside other inside' equal]

end Ember.Register
