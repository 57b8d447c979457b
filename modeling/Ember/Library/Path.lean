import Mathlib

/-! Runs of a system whose steps emit events. A path carries its events in order, and an invariant
may speak of all emitted so far. -/
namespace Ember
open List

variable {σ ε α : Type}

inductive Path (step : σ → List ε → σ → Prop) : σ → List ε → σ → Prop where
  | refl (s : σ) : Path step s [] s
  | tail {s t u : σ} {trace events : List ε} : Path step s trace t → step t events u → Path step s (trace++events) u

namespace Path

variable {step : σ → List ε → σ → Prop} {s t u : σ} {trace trace' events : List ε}
variable {f : σ × List ε → α → σ × List ε} {a : σ × List ε}

theorem single (taken : step s events t) : Path step s events t := by
  simpa using (Path.refl s).tail taken

theorem trans (first : Path step s trace t) (second : Path step t trace' u) : Path step s (trace++trace') u := by
  induction second with
  | refl => simpa using first
  | tail _ taken ih => rw [← append_assoc]; exact ih.tail taken

theorem keeps {P : List ε → σ → Prop} (kept : ∀ past s events t, P past s → step s events t → P (past++events) t)
    (path : Path step s trace t) (past : List ε) (holds : P past s) : P (past++trace) t := by
  induction path with
  | refl => simpa using holds
  | tail _ taken ih => rw [← append_assoc]; exact kept _ _ _ _ ih taken

theorem mono {step' : σ → List ε → σ → Prop} (weaker : ∀ s events t, step s events t → step' s events t)
    (path : Path step s trace t) : Path step' s trace t := by
  induction path with
  | refl => exact .refl _
  | tail _ taken ih => exact ih.tail (weaker _ _ _ taken)

/-- A loop state and its batch, reached by a path that emits what the batch gained. -/
def Emits (step : σ → List ε → σ → Prop) (a b : σ × List ε) : Prop :=
  ∃ events, b.2 = a.2++events ∧ Path step a.1 events b.1

theorem Emits.refl : Emits step a a := ⟨[],by simp,.refl _⟩

theorem Emits.trans {b c : σ × List ε} (first : Emits step a b) (second : Emits step b c) : Emits step a c := by
  obtain ⟨events,batch,path⟩ := first
  obtain ⟨events',batch',path'⟩ := second
  exact ⟨events++events',by rw [batch',batch,append_assoc],path.trans path'⟩

theorem Emits.foldl (each : ∀ a x, Emits step a (f a x))
    (xs : List α) (a : σ × List ε) : Emits step a (xs.foldl f a) := by
  induction xs generalizing a with
  | nil => exact .refl
  | cons x rest ih => exact (each a x).trans (ih _)

theorem foldl_idle (each : ∀ a x, f a x = a ∨ a.2.length < (f a x).2.length) (xs : List α) (a : σ × List ε) :
    xs.foldl f a = a ∧ (∀ x ∈ xs, f a x = a) ∨ a.2.length < (xs.foldl f a).2.length := by
  induction xs generalizing a with
  | nil => exact .inl ⟨rfl,nofun⟩
  | cons x rest ih =>
    rw [foldl_cons]
    obtain same | emitted := each a x
    · rw [same]
      refine (ih a).imp (fun ⟨idle,turns⟩ => ⟨idle,fun y member => ?_⟩) id
      obtain rfl | later := mem_cons.1 member
      · exact same
      · exact turns y later
    right
    obtain ⟨idle,-⟩ | more := ih (f a x)
    · rwa [idle]
    · exact Nat.lt_trans emitted more

end Path
end Ember
