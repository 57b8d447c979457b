import Ember.Transport.Guards

/-! The tables of a transport and how each is kept in bounds: sessions proven reachable, sessions
staged behind a proven one, handshakes in flight and the payloads held back until their sender has
answered. -/
namespace Ember.Transport
open Bytes Table List

variable {A H T : Type} [LinearOrder A] {victim : (A × Key) × DeferredIkPayload} {addr : A} {s : NoiseSession T} {slot : A × Key}

abbrev SessionMap (A T : Type) := Table (A × Key) (NoiseSession T)

def slotLe (a b : A × Key) : Prop := a.1 < b.1 ∨ a.1 = b.1 ∧ a.2 ≤ b.2

instance slotLeDecidable : DecidableRel (α := A × Key) slotLe := fun _ _ => inferInstanceAs (Decidable (_ ∨ _))

def slotsAt (map : SessionMap A T) (addr : A) : List ((A × Key) × NoiseSession T) :=
  (map.inOrder slotLe).filter fun b => b.1.1 == addr

theorem mem_slotsAt {map : SessionMap A T} :
    (slot,s) ∈ slotsAt map addr ↔ map.lookup slot = some s ∧ slot.1 = addr := by
  simp [slotsAt]

def atAddr (addr : A) (slot : A × Key) (_ : NoiseSession T) : Bool := slot.1 == addr

theorem length_slotsAt {map : SessionMap A T} : (slotsAt map addr).length = sizeWhere (atAddr addr) map :=
  length_filter_inOrder slotLe (atAddr addr) map

theorem length_slotsAt_erase {map : SessionMap A T} (held : map.lookup slot = some s) :
    (slotsAt (map.erase slot) slot.1).length+1 = (slotsAt map slot.1).length := by
  have split := sizeWhere_erase (atAddr slot.1) map held
  rw [length_slotsAt,length_slotsAt,← split]
  simp [atAddr]

/-! ### Shedding sessions -/

def newestUnvalidated (sessions : SessionMap A T) (addr : A) (arriving : Key) : Option ((A × Key) × NoiseSession T) :=
  lastMax (fun b => b.2.established) ((slotsAt sessions addr).filter fun b => b.1.2 != arriving && !b.2.addrValidated)

def leastRecentlyUsed (sessions : SessionMap A T) (addr : A) (arriving : Key) : Option ((A × Key) × NoiseSession T) :=
  firstMin (fun b => b.2.lastActivity) ((slotsAt sessions addr).filter fun b => b.1.2 != arriving)

section
variable {sessions : SessionMap A T} {addr : A} {arriving : Key} {victim : (A × Key) × NoiseSession T}

theorem newestUnvalidated_spec (found : newestUnvalidated sessions addr arriving = some victim) :
    sessions.lookup victim.1 = some victim.2 ∧ victim.1.1 = addr ∧ victim.1.2 ≠ arriving ∧ victim.2.addrValidated = false := by
  have member := mem_of_lastMax found
  rw [mem_filter] at member
  have held := mem_slotsAt.1 member.1
  simp only [Bool.and_eq_true,bne_iff_ne,Bool.not_eq_true'] at member
  exact ⟨held.1,held.2,member.2.1,member.2.2⟩

theorem leastRecentlyUsed_spec (found : leastRecentlyUsed sessions addr arriving = some victim) :
    sessions.lookup victim.1 = some victim.2 ∧ victim.1.1 = addr ∧ victim.1.2 ≠ arriving := by
  have member := mem_of_firstMin found
  rw [mem_filter] at member
  have held := mem_slotsAt.1 member.1
  exact ⟨held.1,held.2,by simpa using member.2⟩

end

def trimSessionsAt (addr : A) (arriving : Key) (sessions : SessionMap A T) : SessionMap A T :=
  if maxSessionsPerAddr < (slotsAt sessions addr).length then
    match _unproven : newestUnvalidated sessions addr arriving with
    | some victim => trimSessionsAt addr arriving (sessions.erase victim.1)
    | none =>
      if !(sessions.lookup (addr,arriving)).any (·.addrValidated) then sessions.erase (addr,arriving)
      else
        match _oldest : leastRecentlyUsed sessions addr arriving with
        | some victim => trimSessionsAt addr arriving (sessions.erase victim.1)
        | none => sessions
  else sessions
termination_by (slotsAt sessions addr).length
decreasing_by
  · obtain ⟨held,place,-⟩ := newestUnvalidated_spec _unproven
    subst place
    have := length_slotsAt_erase held
    omega
  obtain ⟨held,place,-⟩ := leastRecentlyUsed_spec _oldest
  subst place
  have := length_slotsAt_erase held
  omega

/-- The session that makes room in a full table: the newest unproven one, or the least recently used
one when every session is proven. -/
def evictionVictim (rank : A → Nat) (sessions : SessionMap A T) : Option ((A × Key) × NoiseSession T) :=
  let walk := sessions.inOrder slotLe
  (lastMax (fun b => toLex (b.2.established,rank b.1.1)) (walk.filter fun b => !b.2.addrValidated)).or
    (firstMin (fun b => toLex (b.2.lastActivity,rank b.1.1)) walk)

def evictOneSession (rank : A → Nat) (sessions : SessionMap A T) : SessionMap A T :=
  match evictionVictim rank sessions with
  | some victim => sessions.erase victim.1
  | none => sessions

def shedOldestStaged (staged : SessionMap A T) : SessionMap A T :=
  match firstMin (fun b => b.2.established) (staged.inOrder slotLe) with
  | some oldest => staged.erase oldest.1
  | none => staged

/-! ### Shedding handshakes and deferred payloads -/

abbrev Pending (A H : Type) := Table A (PendingHandshake A H)

def evictOldestPending (pending : Pending A H) : Pending A H :=
  match firstMin (fun b => b.2.created) (bindings pending) with
  | some oldest => pending.erase oldest.1
  | none => pending

abbrev Deferred (A : Type) := Table (A × Key) DeferredIkPayload

def deferredAt (deferred : Deferred A) (addr : A) : List ((A × Key) × DeferredIkPayload) :=
  (bindings deferred).filter fun b => b.1.1 == addr

theorem length_deferredAt (deferred : Deferred A) (addr : A) :
    (deferredAt deferred addr).length = sizeWhere (fun slot _ => slot.1 == addr) deferred :=
  length_filter_bindings (fun (slot : A × Key) _ => slot.1 == addr) deferred

section
variable {deferred : Deferred A} {slot : A × Key} {d : DeferredIkPayload}

theorem mem_deferredAt : (slot,d) ∈ deferredAt deferred addr ↔ deferred.lookup slot = some d ∧ slot.1 = addr := by
  rw [deferredAt,mem_filter,mem_bindings,beq_iff_eq]

theorem length_deferredAt_erase (held : deferred.lookup slot = some d) :
    (deferredAt (deferred.erase slot) slot.1).length+1 = (deferredAt deferred slot.1).length := by
  have split := sizeWhere_erase (fun slot' _ => slot'.1 == slot.1) deferred held
  rw [length_deferredAt,length_deferredAt,← split]
  simp

end

def newestDeferred (deferred : Deferred A) (addr : A) (arriving : Key) : Option ((A × Key) × DeferredIkPayload) :=
  lastMax (fun b => b.2.stored) ((deferredAt deferred addr).filter fun b => b.1.2 != arriving)

theorem newestDeferred_spec {deferred : Deferred A} {arriving : Key}
    (found : newestDeferred deferred addr arriving = some victim) :
    deferred.lookup victim.1 = some victim.2 ∧ victim.1.1 = addr ∧ victim.1.2 ≠ arriving := by
  have member := mem_of_lastMax found
  rw [mem_filter] at member
  have held := mem_deferredAt.1 member.1
  exact ⟨held.1,held.2,by simpa using member.2⟩

def trimDeferredAt (addr : A) (arriving : Key) (deferred : Deferred A) : Deferred A :=
  if maxDeferredIkPayloadsPerAddr < (deferredAt deferred addr).length then
    match _newest : newestDeferred deferred addr arriving with
    | some victim => trimDeferredAt addr arriving (deferred.erase victim.1)
    | none => deferred
  else deferred
termination_by (deferredAt deferred addr).length
decreasing_by
  obtain ⟨held,place,-⟩ := newestDeferred_spec _newest
  subst place
  have := length_deferredAt_erase held
  omega

def heaviestDeferred (rank : A → Nat) (deferred : Deferred A) : Option ((A × Key) × DeferredIkPayload) :=
  (lastMax (fun addr => toLex ((deferredAt deferred addr).length,rank addr)) (((bindings deferred).map (·.1.1)).dedup)).bind fun addr =>
    lastMax (fun b => b.2.stored) (deferredAt deferred addr)

theorem heaviestDeferred_spec {rank : A → Nat} {deferred : Deferred A}
    (found : heaviestDeferred rank deferred = some victim) : deferred.lookup victim.1 = some victim.2 := by
  obtain ⟨addr,-,last⟩ := Option.bind_eq_some_iff.1 found
  exact (mem_deferredAt.1 (mem_of_lastMax last)).1

def trimDeferred (rank : A → Nat) (deferred : Deferred A) : Deferred A :=
  if maxDeferredIkPayloads < deferred.size then
    match _newest : heaviestDeferred rank deferred with
    | some victim => trimDeferred rank (deferred.erase victim.1)
    | none => deferred
  else deferred
termination_by deferred.size
decreasing_by
  have := size_erase deferred (heaviestDeferred_spec _newest)
  omega

def trimDeferredIk (rank : A → Nat) (addr : A) (arriving : Key) (deferred : Deferred A) : Deferred A :=
  trimDeferred rank (trimDeferredAt addr arriving deferred)

/-! ### The transport -/

structure EmberTransport (A H T : Type) where
  sessions : SessionMap A T := ∅
  stagedSessions : SessionMap A T := ∅
  pending : Pending A H := ∅
  deferredIk : Deferred A := ∅
  guards : Guards A
  /-- The process-wide counter new sessions take their generation from. -/
  nextGeneration : Nat := 1
  /-- Every plaintext encrypted so far, and what every answered initiation carried under its
  session's generation. The model reads neither. -/
  written : List (Written A) := []
  initiations : List (Nat × Bytes) := []

namespace EmberTransport

def new (now : Instant) (draw : Draw) : EmberTransport A H T := { guards := Guards.new now draw }

def installSession (env : Env A H T) (t : EmberTransport A H T) (addr : A) (session : NoiseSession T) : EmberTransport A H T × Bool :=
  let slot := (addr,session.remoteNoisePub)
  if (t.sessions.lookup slot).any (·.addrValidated) then
    let staged := if maxStagedSessions ≤ t.stagedSessions.size ∧ (t.stagedSessions.lookup slot).isNone then shedOldestStaged t.stagedSessions
      else t.stagedSessions
    ({ t with stagedSessions := staged.insert slot session },true)
  else
    let sessions := if (t.sessions.lookup slot).isNone ∧ maxSessions ≤ t.sessions.size then evictOneSession env.saltedAddrRank t.sessions
      else t.sessions
    let sessions := trimSessionsAt addr session.remoteNoisePub (sessions.insert slot session)
    ({ t with sessions,stagedSessions := t.stagedSessions.erase slot },(sessions.lookup slot).isSome)

/-- A staged session takes its slot once a frame decrypted under it. -/
def promote (env : Env A H T) (t : EmberTransport A H T) (slot : A × Key) (promoted : NoiseSession T) : EmberTransport A H T :=
  let sessions := if (t.sessions.lookup slot).isNone ∧ maxSessions ≤ t.sessions.size then evictOneSession env.saltedAddrRank t.sessions
    else t.sessions
  { t with
    sessions := trimSessionsAt slot.1 slot.2 (sessions.insert slot promoted)
    stagedSessions := t.stagedSessions.erase slot }

end EmberTransport
end Ember.Transport
