import Ember.Library.Table

/-! Reputation decays toward zero once an hour, while the node runs and for the time it was down. -/
namespace Ember.Reputation
open Table

def minReputation : Int := -1000
def maxReputation : Int := 1000
def decayInterval : Nat := 3600
def banDuration : Nat := 24*3600
def maxTracked : Nat := 10000

abbrev NodeId := BitVec 128
abbrev Ip := BitVec 32

/-- The record of a peer or of an address. `applied`, not in the source, counts the intervals of decay it has had. -/
structure Standing where
  score : Int
  penalty : Int
  lastInteraction : Nat
  bannedUntil : Option Nat
  applied : Nat
  deriving DecidableEq

/-- What is left of an overfull table; which records go, by how they stand at the time, is left open. -/
structure Eviction (κ : Type) [DecidableEq κ] where
  evict : Nat → Table κ Standing → Table κ Standing
  kept : ∀ {now t id r}, (evict now t).lookup id = some r → t.lookup id = some r

/-- `scaled` is a value times a power of the decay factor, truncated in floating point. -/
structure Env where
  scaled : Int → Nat → Int
  peers : Eviction NodeId
  ips : Eviction Ip

variable (env : Env) (now intervals : Nat)

def decayed (value : Int) : Int :=
  if intervals = 0 ∨ value = 0 then value
  else
    let scaled := env.scaled value (min intervals 10000)
    let stepped := if scaled = value then value-value.sign else scaled
    max minReputation (min maxReputation stepped)

def Standing.applyDecay (r : Standing) : Standing :=
  { r with
    score := decayed env intervals r.score
    penalty := decayed env intervals r.penalty
    applied := r.applied+intervals }

def Standing.normalized (r : Standing) : Standing :=
  let maxBan := min (2^64-1) (now+(banDuration+3600))
  { r with
    score := max minReputation (min maxReputation r.score)
    penalty := max minReputation (min 0 r.penalty)
    bannedUntil := r.bannedUntil.map (min maxBan) }

section
variable {κ : Type} [DecidableEq κ] (ev : Eviction κ) (t : Table κ Standing)

def evictStale : Table κ Standing := if t.keys.length ≤ maxTracked then t else ev.evict now t

/-- The records of a file set right, decayed for the time down, and cut to what is tracked. -/
def loadTable : Table κ Standing :=
  let loaded := retain (fun r => some (r.normalized now)) t
  evictStale now ev (if 0 < intervals then retain (fun r => some (r.applyDecay env intervals)) loaded else loaded)

end

def intervalsIn (elapsed : Nat) : Nat := elapsed/decayInterval%2^32

structure ReputationManager where
  peers : Table NodeId Standing
  ips : Table Ip Standing
  lastDecay : Nat

namespace ReputationManager
variable (m : ReputationManager)

def record : NodeId ⊕ Ip → Option Standing
  | .inl id => m.peers.lookup id
  | .inr ip => m.ips.lookup ip

def maybeDecay : ReputationManager :=
  let intervals := intervalsIn (now-m.lastDecay)
  if intervals = 0 then m
  else { peers := retain (fun r => some (r.applyDecay env intervals)) m.peers
         ips := retain (fun r => some (r.applyDecay env intervals)) m.ips
         lastDecay := min (2^64-1) (m.lastDecay+intervals*decayInterval) }

def loadChecked : ReputationManager :=
  let newestInteraction := (values m.peers++values m.ips).foldl (fun newest r => max newest r.lastInteraction) 0
  let lastDecay := if m.lastDecay ≤ now then m.lastDecay else min newestInteraction now
  let intervals := intervalsIn (now-lastDecay)
  { peers := loadTable env now intervals env.peers m.peers
    ips := loadTable env now intervals env.ips m.ips
    lastDecay := now }

inductive Call where
  | maybeDecay | restart

def perform : Call → ReputationManager
  | .maybeDecay => m.maybeDecay env now
  | .restart => m.loadChecked env now

/-- Calls at non-decreasing times, the restarts at times `whole` allows. -/
inductive Run (whole : Nat → Prop) : Nat → ReputationManager → Prop
  | start : Run whole m.lastDecay m
  | call (c : Call) {t now : Nat} {s : ReputationManager} (run : Run whole t s) (later : t ≤ now) (clock : now < 2^64)
      (fit : c = .restart → whole now) : Run whole now (s.perform env now c)

variable {env now intervals m} {s : ReputationManager} {t : Nat} {id : NodeId ⊕ Ip} {r' : Standing}

section
variable {κ : Type} [DecidableEq κ] {ev : Eviction κ} {t : Table κ Standing} {id : κ}

theorem lookup_every {f : Standing → Standing} (held : (retain (fun r => some (f r)) t).lookup id = some r') :
    ∃ r, t.lookup id = some r ∧ f r = r' := by
  rw [lookup_retain] at held
  simpa [Option.bind_eq_some_iff] using held

theorem lookup_evictStale (held : (evictStale now ev t).lookup id = some r') : t.lookup id = some r' := by
  unfold evictStale at held
  split at held
  · exact held
  · exact ev.kept held

theorem loadTable_applied (held : (loadTable env now intervals ev t).lookup id = some r') :
    ∃ r, t.lookup id = some r ∧ r'.applied = r.applied+intervals := by
  have kept := lookup_evictStale held
  split at kept
  · obtain ⟨r₁,loaded,rfl⟩ := lookup_every kept
    obtain ⟨r,start,rfl⟩ := lookup_every loaded
    exact ⟨r,start,rfl⟩
  · next none =>
    obtain ⟨r,start,rfl⟩ := lookup_every kept
    exact ⟨r,start,by rw [Nat.eq_zero_of_not_pos none]; rfl⟩

end

theorem perform_applied (known : m.lastDecay ≤ now) (c : Call) (held : (m.perform env now c).record id = some r') :
    ∃ r, m.record id = some r ∧ r'.applied = r.applied+intervalsIn (now-m.lastDecay) := by
  cases c with
  | maybeDecay =>
    simp only [perform,maybeDecay] at held
    split at held
    · next none => exact ⟨r',held,by rw [none]; rfl⟩
    all_goals cases id
    all_goals
      obtain ⟨r,start,rfl⟩ := lookup_every held
      exact ⟨r,start,rfl⟩
  | restart =>
    simp only [perform,loadChecked,if_pos known] at held
    cases id with
    | inl id => exact loadTable_applied held
    | inr ip => exact loadTable_applied held

/-- While restarts fall on whole hours, the hours ended are the hours applied, and the clock of the decay stands at the last. -/
theorem Run.aged (run : Run env m (fun now => decayInterval ∣ now-m.lastDecay) t s) (short : t-m.lastDecay < 2^32*decayInterval) :
    m.lastDecay ≤ t ∧ s.lastDecay = m.lastDecay+(t-m.lastDecay)/decayInterval*decayInterval ∧
    ∀ id r', s.record id = some r' → ∃ r, m.record id = some r ∧ r'.applied = r.applied+(t-m.lastDecay)/decayInterval := by
  induction run with
  | start => exact ⟨le_rfl,by simp,fun _ r' held => ⟨r',held,by simp⟩⟩
  | @call c t now s run later clock fit ih =>
    obtain ⟨past,last,aged⟩ := ih (by omega)
    have ended : (t-m.lastDecay)/decayInterval+intervalsIn (now-s.lastDecay) = (now-m.lastDecay)/decayInterval := by
      unfold intervalsIn decayInterval at *
      omega
    refine ⟨by omega,?_,fun id r' held => ?_⟩
    · cases c with
      | maybeDecay =>
        simp only [perform,maybeDecay]
        split
        · next none => rw [← ended,none,last,add_zero]
        · dsimp only
          unfold decayInterval at *
          omega
      | restart =>
        have whole := Nat.div_mul_cancel (fit rfl)
        change now = _
        omega
    · obtain ⟨r₁,held₁,more⟩ := perform_applied (by unfold decayInterval at *; omega) c held
      obtain ⟨r,start,same⟩ := aged id r₁ held₁
      exact ⟨r,start,by omega⟩

/-- The hourly contract of the decay: with restarts on whole hours only, a record has had as many intervals as hours have ended. -/
theorem decay_hourly (run : Run env m (fun now => decayInterval ∣ now-m.lastDecay) t s) (short : t-m.lastDecay < 2^32*decayInterval)
    {r : Standing} (before : m.record id = some r) (after : s.record id = some r') :
    r'.applied = r.applied+(t-m.lastDecay)/decayInterval := by
  obtain ⟨_,start,more⟩ := (run.aged short).2.2 id r' after
  rw [before] at start
  rw [more,Option.some.inj start]

def plain : Env := ⟨fun value _ => value,⟨fun _ t => t,fun held => held⟩,⟨fun _ t => t,fun held => held⟩⟩

def acquainted : ReputationManager := ⟨AList.insert 1 ⟨0,0,0,none,0⟩ ∅,∅,0⟩

theorem decay_hourly_restarted :
    ((acquainted.perform plain 7200 .restart).perform plain 11000 .maybeDecay).record (.inl 1) = some ⟨0,0,0,none,3⟩ ∧
    3 = 0+(11000-acquainted.lastDecay)/decayInterval := by
  have after : ((acquainted.perform plain 7200 .restart).perform plain 11000 .maybeDecay).record (.inl 1) = some ⟨0,0,0,none,3⟩ := by
    decide +kernel
  refine ⟨after,decay_hourly (.call .maybeDecay (.call .restart .start ?_ ?_ fun _ => ?_) ?_ ?_ nofun) ?_ rfl after⟩
  all_goals decide

/-- A restart drops the part of an hour not over yet: an hour on, nothing has decayed. -/
theorem restart_loses_remainder :
    Run plain acquainted (fun _ => True) 3600 ((acquainted.perform plain 1800 .restart).perform plain 3600 .maybeDecay) ∧
    ((acquainted.perform plain 1800 .restart).perform plain 3600 .maybeDecay).record (.inl 1) = some ⟨0,0,0,none,0⟩ ∧
    0+(3600-acquainted.lastDecay)/decayInterval = 1 := by
  refine ⟨.call .maybeDecay (.call .restart .start ?_ ?_ fun _ => trivial) ?_ ?_ nofun,by decide +kernel,rfl⟩
  all_goals decide

end ReputationManager
end Ember.Reputation
