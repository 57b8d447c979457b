import Ember.Transport.Tables

/-! What each way of making room takes away, and what it never touches. -/
namespace Ember.Transport
open Table List Option AList Prod

variable {A H T : Type} [LinearOrder A]

theorem length_slotsAt_insert {map : SessionMap A T} {slot : A × Key} {s : NoiseSession T} (held : map.lookup slot = some s) {s' : NoiseSession T}
    {addr : A} : (slotsAt (map.insert slot s') addr).length = (slotsAt map addr).length := by
  rw [length_slotsAt,length_slotsAt]
  exact sizeWhere_insert_bound (atAddr addr) map held rfl

/-! ### At one address -/

section Trim
variable {addr : A} {arriving : Key} {sessions : SessionMap A T} {s : NoiseSession T}

theorem trimSessionsAt_within : Within (trimSessionsAt addr arriving sessions) sessions := by
  fun_induction trimSessionsAt addr arriving sessions with
  | case1 sessions crowded victim found ih => exact ih.trans (.erase ..)
  | case2 sessions crowded found unproven => exact .erase ..
  | case3 sessions crowded found proven victim oldest ih => exact ih.trans (.erase ..)
  | case4 sessions crowded found proven oldest => exact .refl
  | case5 sessions room => exact .refl

theorem trimSessionsAt_arriving (held : sessions.lookup (addr,arriving) = some s) (proven : s.addrValidated = true) :
    (trimSessionsAt addr arriving sessions).lookup (addr,arriving) = some s := by
  fun_induction trimSessionsAt addr arriving sessions with
  | case1 sessions crowded victim found ih =>
    have other := (newestUnvalidated_spec found).2.2.1
    apply ih
    rwa [lookup_erase_ne fun same => other (congrArg snd same).symm]
  | case2 sessions crowded found unproven => simp [held,proven] at unproven
  | case3 sessions crowded found _ victim oldest ih =>
    have other := (leastRecentlyUsed_spec oldest).2.2
    apply ih
    rwa [lookup_erase_ne fun same => other (congrArg snd same).symm]
  | case4 sessions crowded found _ oldest => exact held
  | case5 sessions room => exact held

theorem trimSessionsAt_proven (held : sessions.lookup (addr,arriving) = some s) (unproven : s.addrValidated = false)
    {slot : A × Key} {s' : NoiseSession T} (kept : sessions.lookup slot = some s') (proven : s'.addrValidated = true) :
    (trimSessionsAt addr arriving sessions).lookup slot = some s' := by
  have apart : slot ≠ (addr,arriving) := by
    rintro rfl
    rw [held] at kept
    cases kept
    rw [unproven] at proven
    cases proven
  fun_induction trimSessionsAt addr arriving sessions with
  | case1 sessions crowded victim found ih =>
    obtain ⟨bound,-,other,weak⟩ := newestUnvalidated_spec found
    apply ih
    · rwa [lookup_erase_ne fun same => other (congrArg snd same).symm]
    rwa [lookup_erase_ne]
    rintro rfl
    rw [bound] at kept
    cases kept
    rw [weak] at proven
    cases proven
  | case2 sessions crowded found _ => rwa [lookup_erase_ne apart]
  | case3 sessions crowded found arrivingProven victim oldest ih => simp [held,unproven] at arrivingProven
  | case4 sessions crowded found _ oldest => exact kept
  | case5 sessions room => exact kept

theorem trimSessionsAt_bound (held : (sessions.lookup (addr,arriving)).isSome) (most : (slotsAt sessions addr).length ≤ maxSessionsPerAddr+1) :
    (slotsAt (trimSessionsAt addr arriving sessions) addr).length ≤ maxSessionsPerAddr := by
  obtain ⟨s,found⟩ := isSome_iff_exists.1 held
  have oneLess {slot : A × Key} {s : NoiseSession T} (place : slot.1 = addr) (bound : sessions.lookup slot = some s) :
      (slotsAt (sessions.erase slot) addr).length ≤ maxSessionsPerAddr := by
    subst place
    have := length_slotsAt_erase bound
    omega
  have settled {map : SessionMap A T} (few : (slotsAt map addr).length ≤ maxSessionsPerAddr) :
      (slotsAt (trimSessionsAt addr arriving map) addr).length ≤ maxSessionsPerAddr := by
    rw [trimSessionsAt,if_neg (Nat.not_lt.2 few)]
    exact few
  rw [trimSessionsAt]
  split
  · rename_i crowded
    split
    · rename_i victim unproven
      obtain ⟨bound,place,-⟩ := newestUnvalidated_spec unproven
      exact settled (oneLess place bound)
    split
    · exact oneLess rfl found
    split
    · rename_i victim oldest
      obtain ⟨bound,place,-⟩ := leastRecentlyUsed_spec oldest
      exact settled (oneLess place bound)
    rename_i nobody
    -- with the arrival taken out the address still holds somebody
    have rest : 0 < sizeWhere (atAddr addr) (sessions.erase (addr,arriving)) := by
      have taken := length_slotsAt_erase found
      rw [← length_slotsAt]
      simp only [maxSessionsPerAddr] at crowded taken
      omega
    obtain ⟨slot,s',bound,place⟩ := exists_of_sizeWhere_pos _ _ rest
    have other : slot ≠ (addr,arriving) := by
      rintro rfl
      rw [lookup_erase] at bound
      cases bound
    rw [lookup_erase_ne other] at bound
    have listed : (slot,s') ∈ (slotsAt sessions addr).filter fun b => b.1.2 != arriving := by
      rw [mem_filter]
      refine ⟨mem_slotsAt.2 ⟨bound,by simpa [atAddr] using place⟩,?_⟩
      rw [bne_iff_ne]
      intro same
      exact other (Prod.ext (by simpa [atAddr] using place) same)
    rw [leastRecentlyUsed,firstMin_eq_none] at nobody
    rw [nobody] at listed
    cases listed
  · omega

end Trim

/-! ### In a full table -/

section Evict
variable {rank : A → Nat} {sessions : SessionMap A T} {victim : (A × Key) × NoiseSession T}

theorem evictionVictim_held (found : evictionVictim rank sessions = some victim) :
    sessions.lookup victim.1 = some victim.2 := by
  rcases or_eq_some_iff.1 found with newest | ⟨-,oldest⟩
  · exact (mem_inOrder slotLe).1 (mem_filter.1 (mem_of_lastMax newest)).1
  · exact (mem_inOrder slotLe).1 (mem_of_firstMin oldest)

theorem evictionVictim_unproven {slot : A × Key} {s : NoiseSession T} (held : sessions.lookup slot = some s)
    (unproven : s.addrValidated = false) (found : evictionVictim rank sessions = some victim) : victim.2.addrValidated = false := by
  rcases or_eq_some_iff.1 found with newest | ⟨nobody,-⟩
  · have member := (mem_filter.1 (mem_of_lastMax newest)).2
    simpa using member
  rw [lastMax_eq_none] at nobody
  have member : (slot,s) ∈ (sessions.inOrder slotLe).filter fun b => !b.2.addrValidated := by
    rw [mem_filter,mem_inOrder]
    exact ⟨held,by simp [unproven]⟩
  rw [nobody] at member
  cases member

theorem evictionVictim_isSome (rank : A → Nat) (occupied : 0 < sessions.size) : (evictionVictim rank sessions).isSome := by
  rw [isSome_iff_ne_none]
  intro none
  obtain ⟨-,nobody⟩ := or_eq_none_iff.1 none
  rw [firstMin_eq_none] at nobody
  rw [← length_inOrder slotLe,nobody] at occupied
  cases occupied

theorem evictOneSession_within : Within (evictOneSession rank sessions) sessions := by
  unfold evictOneSession
  split
  · exact .erase ..
  · exact .refl

theorem evictOneSession_size (occupied : 0 < sessions.size) : (evictOneSession rank sessions).size+1 = sessions.size := by
  obtain ⟨victim,found⟩ := isSome_iff_exists.1 (evictionVictim_isSome rank occupied)
  rw [evictOneSession,found]
  exact size_erase sessions (evictionVictim_held found)

end Evict

theorem shedOldestStaged_within {staged : SessionMap A T} : Within (shedOldestStaged staged) staged := by
  unfold shedOldestStaged
  split
  · exact .erase ..
  · exact .refl

theorem makeRoom_within (rank : A → Nat) (sessions : SessionMap A T) (slot : A × Key) :
    Within (if (sessions.lookup slot).isNone ∧ maxSessions ≤ sessions.size then evictOneSession rank sessions else sessions) sessions := by
  split
  · exact evictOneSession_within ..
  · exact .refl

namespace EmberTransport
variable {env : Env A H T} {t : EmberTransport A H T}

theorem promote_within {slot : A × Key} {s : NoiseSession T} : Within (t.promote env slot s).sessions (t.sessions.insert slot s) :=
  (trimSessionsAt_within ..).trans ((makeRoom_within ..).insert slot s)

end EmberTransport
end Ember.Transport
