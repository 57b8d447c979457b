import Ember.Transport.Moves

/-! The caps on sessions, and whom an arrival can cost its place. -/
namespace Ember.Transport
open Table List Option AList

variable {A H T : Type} [LinearOrder A]

def enter (rank : A → Nat) (sessions : SessionMap A T) (slot : A × Key) (s : NoiseSession T) : SessionMap A T :=
  trimSessionsAt slot.1 slot.2
    ((if (sessions.lookup slot).isNone ∧ maxSessions ≤ sessions.size then evictOneSession rank sessions else sessions).insert slot s)

section Admit
variable {rank : A → Nat} {sessions : SessionMap A T}

theorem admit_size (few : sessions.size ≤ maxSessions) (slot : A × Key) (s : NoiseSession T) : (enter rank sessions slot s).size ≤ maxSessions := by
  apply Nat.le_trans (trimSessionsAt_within ..).size_le
  split
  · rename_i full
    have positive : 0 < sessions.size := Nat.lt_of_lt_of_le (by decide) full.2
    have evicted := @evictOneSession_size A T _ rank _ positive
    have grown := @size_insert_le _ _ _ (evictOneSession rank sessions) slot s
    omega
  rename_i roomy
  cases held : sessions.lookup slot with
  | none =>
    have grown := @size_insert_le _ _ _ sessions slot s
    have short : sessions.size < maxSessions := by
      by_contra full
      exact roomy ⟨by simp [held],Nat.not_lt.1 full⟩
    omega
  | some s' =>
    rw [size_insert_bound _ held]
    exact few

theorem admit_perAddr (few : ∀ addr, (slotsAt sessions addr).length ≤ maxSessionsPerAddr) (slot : A × Key) (s : NoiseSession T) (addr : A) :
    (slotsAt (enter rank sessions slot s) addr).length ≤ maxSessionsPerAddr := by
  have grown : sizeWhere (atAddr addr) (sessions.insert slot s) ≤ sizeWhere (atAddr addr) sessions+(atAddr addr slot s).toNat :=
    sizeWhere_insert_le ..
  have before := few addr
  rw [length_slotsAt] at before
  by_cases own : slot.1 = addr
  · subst own
    apply trimSessionsAt_bound
    · rw [lookup_insert]
      rfl
    have shrunk := ((makeRoom_within rank sessions slot).insert slot s).sizeWhere_le (atAddr slot.1)
    rw [length_slotsAt]
    have one := Bool.toNat_le (atAddr slot.1 slot s)
    omega
  · have kept : Within (enter rank sessions slot s) (sessions.insert slot s) :=
      (trimSessionsAt_within ..).trans ((makeRoom_within ..).insert slot s)
    have shrunk := kept.sizeWhere_le (atAddr addr)
    have elsewhere : (atAddr addr slot s).toNat = 0 := by simp [atAddr,own]
    rw [length_slotsAt]
    omega

theorem admit_proven {slot : A × Key} {s : NoiseSession T} (unproven : s.addrValidated = false)
    (room : (sessions.lookup slot).isSome ∨ sessions.size < maxSessions ∨
      ∃ slot' s', sessions.lookup slot' = some s' ∧ s'.addrValidated = false)
    {slot' : A × Key} {s' : NoiseSession T} (held : sessions.lookup slot' = some s') (proven : s'.addrValidated = true) (apart : slot' ≠ slot) :
    (enter rank sessions slot s).lookup slot' = some s' := by
  apply trimSessionsAt_proven (lookup_insert _) unproven _ proven
  rw [lookup_insert_ne apart]
  split
  · rename_i full
    obtain ⟨weakSlot,weak,present,weakUnproven⟩ : ∃ slot' s', sessions.lookup slot' = some s' ∧ s'.addrValidated = false := by
      rcases room with present | short | weak
      · rw [isNone_iff_eq_none.1 full.1] at present
        cases present
      · omega
      · exact weak
    unfold evictOneSession
    split
    · rename_i victim found
      rw [lookup_erase_ne]
      · exact held
      rintro rfl
      rw [evictionVictim_held found] at held
      cases held
      rw [evictionVictim_unproven present weakUnproven found] at proven
      cases proven
    · exact held
  · exact held

end Admit

namespace EmberTransport
variable (env : Env A H T) {now : Instant} {draw : Draw} (n : Nat) {staged : SessionMap A T} {s : NoiseSession T} {slot : A × Key}

theorem installSession_tables (t : EmberTransport A H T) (addr : A) (s : NoiseSession T) :
    ((t.sessions.lookup (addr,s.remoteNoisePub)).any (·.addrValidated) = true ∧ (t.installSession env addr s).1.sessions = t.sessions ∧
      (t.installSession env addr s).1.stagedSessions =
        (if maxStagedSessions ≤ t.stagedSessions.size ∧ (t.stagedSessions.lookup (addr,s.remoteNoisePub)).isNone then
          shedOldestStaged t.stagedSessions else t.stagedSessions).insert (addr,s.remoteNoisePub) s) ∨
    ((t.sessions.lookup (addr,s.remoteNoisePub)).any (·.addrValidated) = false ∧
      (t.installSession env addr s).1.sessions = enter env.saltedAddrRank t.sessions (addr,s.remoteNoisePub) s ∧
      (t.installSession env addr s).1.stagedSessions = t.stagedSessions.erase (addr,s.remoteNoisePub)) := by
  unfold installSession
  dsimp only
  split
  · rename_i proven
    exact .inl ⟨proven,rfl,rfl⟩
  · rename_i unproven
    exact .inr ⟨by simpa using unproven,rfl,rfl⟩

/-! ### The caps -/

structure Bounded (t : EmberTransport A H T) : Prop where
  sessions : t.sessions.size ≤ maxSessions
  perAddr : ∀ addr, (slotsAt t.sessions addr).length ≤ maxSessionsPerAddr
  staged : t.stagedSessions.size ≤ maxStagedSessions

theorem bounded_new : (new now draw : EmberTransport A H T).Bounded where
  sessions := Nat.zero_le _
  perAddr _ := Nat.zero_le _
  staged := Nat.zero_le _

theorem shedOldestStaged_size (occupied : 0 < staged.size) : (shedOldestStaged staged).size+1 = staged.size := by
  unfold shedOldestStaged
  split
  · rename_i found
    exact size_erase staged ((mem_inOrder slotLe).1 (mem_of_firstMin found))
  rename_i nobody
  rw [firstMin_eq_none] at nobody
  rw [← length_inOrder slotLe,nobody] at occupied
  cases occupied

theorem stage_size (few : staged.size ≤ maxStagedSessions) :
    size ((if maxStagedSessions ≤ staged.size ∧ (staged.lookup slot).isNone then shedOldestStaged staged else staged).insert slot s) ≤
      maxStagedSessions := by
  split
  · rename_i full
    have shed := shedOldestStaged_size (Nat.lt_of_lt_of_le (by decide) full.1)
    have grown := @size_insert_le _ _ _ (shedOldestStaged staged) slot s
    omega
  rename_i roomy
  cases held : staged.lookup slot with
  | none =>
    have grown := @size_insert_le _ _ _ staged slot s
    have short : staged.size < maxStagedSessions := by
      by_contra full
      exact roomy ⟨Nat.not_lt.1 full,by simp [held]⟩
    omega
  | some s' =>
    rw [size_insert_bound _ held]
    exact few

theorem Bounded.move {env : Env A H T} {t t' : EmberTransport A H T} (move : Move env t t') (bounded : t.Bounded) : t'.Bounded := by
  cases move with
  | shed sessions staged pending deferred live parked waiting held =>
    refine ⟨Nat.le_trans live.size_le bounded.sessions,fun addr => ?_,Nat.le_trans parked.size_le bounded.staged⟩
    have before := bounded.perAddr addr
    rw [length_slotsAt] at before ⊢
    exact Nat.le_trans (live.sizeWhere_le _) before
  | @touch slot s s' held same =>
    refine ⟨?_,fun addr => ?_,bounded.staged⟩
    · rw [size_insert_bound _ held]
      exact bounded.sessions
    rw [length_slotsAt_insert held]
    exact bounded.perAddr addr
  | install addr s =>
    rcases installSession_tables env t addr s with ⟨-,live,staged⟩ | ⟨-,live,staged⟩
    · refine ⟨live ▸ bounded.sessions,fun addr' => live ▸ bounded.perAddr addr',?_⟩
      rw [staged]
      exact stage_size bounded.staged ..
    refine ⟨?_,fun addr' => ?_,?_⟩
    · rw [live]
      exact admit_size bounded.sessions ..
    · rw [live]
      exact admit_perAddr bounded.perAddr ..
    · rw [staged]
      exact Nat.le_trans (Within.erase ..).size_le bounded.staged
  | @promote slot s s' held same =>
    refine ⟨?_,fun addr => ?_,?_⟩
    · exact @admit_size A T _ env.saltedAddrRank _ bounded.sessions slot s'
    · exact @admit_perAddr A T _ env.saltedAddrRank _ bounded.perAddr slot s' addr
    · exact Nat.le_trans (Within.erase ..).size_le bounded.staged
  | guard | send | flush | reread | queue | dial | dialXx | park | mint | hold => exact { bounded with }

theorem admit_victim {rank : A → Nat} {sessions : SessionMap A T} (absent : sessions.lookup slot = none)
    (full : maxSessions ≤ sessions.size) {victim : (A × Key) × NoiseSession T} (found : evictionVictim rank sessions = some victim) :
    (enter rank sessions slot s).lookup victim.1 = none := by
  have apart : victim.1 ≠ slot := by
    rintro rfl
    rw [evictionVictim_held found] at absent
    cases absent
  rw [eq_none_iff_forall_ne_some]
  intro s' survived
  have inserted := trimSessionsAt_within survived
  rw [lookup_insert_ne apart,if_pos ⟨by rw [absent]; rfl,full⟩,evictOneSession,found,lookup_erase] at inserted
  cases inserted

theorem installSession_sheds {t : EmberTransport A H T} {addr : A} {s : NoiseSession T}
    (absent : t.sessions.lookup (addr,s.remoteNoisePub) = none) (full : maxSessions ≤ t.sessions.size) :
    ∃ slot s', t.sessions.lookup slot = some s' ∧ (t.installSession env addr s).1.sessions.lookup slot = none := by
  obtain ⟨victim,found⟩ := isSome_iff_exists.1
    (evictionVictim_isSome env.saltedAddrRank (Nat.lt_of_lt_of_le (by decide) full))
  refine ⟨victim.1,victim.2,evictionVictim_held found,?_⟩
  rcases installSession_tables env t addr s with ⟨proven,-⟩ | ⟨-,live,-⟩
  · rw [absent] at proven
    cases proven
  · rw [live]
    exact admit_victim absent full found

/-- The caps hold after every run, and installing an unproven session keeps every proven one as it was
exactly when its slot is in the table already, the table is not full, or some session in it is unproven. -/
theorem proven_sessions_kept (env : Env A H T) :
    (∀ now draw calls, ((new now draw).run env calls).1.Bounded) ∧
      ∀ (t : EmberTransport A H T) (addr : A) (s : NoiseSession T), s.addrValidated = false →
        ((∀ slot s', t.sessions.lookup slot = some s' → s'.addrValidated = true →
            (t.installSession env addr s).1.sessions.lookup slot = some s') ↔
          (t.sessions.lookup (addr,s.remoteNoisePub)).isSome ∨ t.sessions.size < maxSessions ∨
            ∃ slot s', t.sessions.lookup slot = some s' ∧ s'.addrValidated = false) := by
  refine ⟨fun now draw calls => (run_moves calls).invariant Bounded.move bounded_new,?_⟩
  intro t addr s unproven
  constructor
  · intro kept
    by_contra crowded
    simp only [not_or,not_exists,not_and,Bool.not_eq_false,Bool.not_eq_true,isSome_eq_false_iff,isNone_iff_eq_none] at crowded
    obtain ⟨absent,full,proven⟩ := crowded
    obtain ⟨slot,s',held,shed⟩ := installSession_sheds env absent (Nat.not_lt.1 full)
    rw [kept slot s' held (proven slot s' held)] at shed
    cases shed
  · intro room slot s' held proven
    rcases installSession_tables env t addr s with ⟨-,live,-⟩ | ⟨weak,live,-⟩
    · rw [live]
      exact held
    rw [live]
    apply admit_proven unproven room held proven
    rintro rfl
    rw [held,any_some,proven] at weak
    cases weak

/-! ### A full table of proven sessions -/

def provenEverywhere : SessionMap Nat Nat where
  entries := (List.range n).map fun addr => ⟨(addr,7),(NoiseSession.new addr 7 7 true 0).validated⟩
  nodupKeys := by
    rw [List.NodupKeys,List.keys,List.map_map]
    exact Nodup.map (fun a b same => congrArg Prod.fst same) nodup_range

theorem provenEverywhere_size : (provenEverywhere n).size = n := by simp [size,provenEverywhere]

theorem provenEverywhere_lookup {n : Nat} {slot : Nat × Key} {s : NoiseSession Nat} (held : (provenEverywhere n).lookup slot = some s) :
    s.addrValidated = true ∧ slot.1 < n := by
  have member := mem_bindings.2 held
  obtain ⟨e,listed,same⟩ := List.mem_map.1 member
  obtain ⟨addr,inside,rfl⟩ := List.mem_map.1 listed
  cases same
  exact ⟨rfl,mem_range.1 inside⟩

theorem provenEverywhere_next (key : Key) : (provenEverywhere n).lookup (n,key) = none := by
  rw [eq_none_iff_forall_ne_some]
  intro s held
  exact Nat.lt_irrefl _ (provenEverywhere_lookup held).2

/-- An unproven session at another address takes the place of a proven one. -/
theorem proven_session_shed :
    ∃ slot s, (provenEverywhere maxSessions).lookup slot = some s ∧ s.addrValidated = true ∧
      (installSession plainEnv { guards := Guards.new 0 {},sessions := provenEverywhere maxSessions } maxSessions
        (NoiseSession.new maxSessions 8 8 true 0)).1.sessions.lookup slot = none := by
  obtain ⟨slot,s,held,shed⟩ := @installSession_sheds _ _ _ _ plainEnv
    { guards := Guards.new 0 {},sessions := provenEverywhere maxSessions } maxSessions (NoiseSession.new maxSessions 8 8 true 0)
    (provenEverywhere_next ..) (provenEverywhere_size maxSessions).ge
  exact ⟨slot,s,held,(provenEverywhere_lookup held).1,shed⟩

end EmberTransport
end Ember.Transport
