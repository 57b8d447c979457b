import Ember.Dht.Contact
import Ember.Library.Index
import Ember.Transport.Session

/-! The addresses sent to lately. The log is capped; a deadline keeps track of what the cap pushes out while it still counts. -/
namespace Ember.Transport
open List Option AList Table Prod
open Ember.Dht (IpAddr)

def dialMemory : Nat := secs 600
def maxDialledAddrs : Nat := 4096

def toCanonical : IpAddr → IpAddr
  | .v6 ip => if ip.toNat/2^32 = 0xFFFF then .v4 (.ofNat 32 ip.toNat) else .v6 ip
  | ip => ip

structure DialLog where
  dialledAt : Table IpAddr Nat := ∅
  order : List IpAddr := []
  saturatedUntil : Option Nat := none

namespace DialLog
variable (log : DialLog) (now : Nat) (ip : IpAddr)

def makeRoom : List IpAddr → DialLog
  | [] => { log with order := [] }
  | oldest :: rest =>
    if log.dialledAt.size < maxDialledAddrs then { log with order := oldest :: rest }
    else
      match log.dialledAt.lookup oldest with
      | none => makeRoom rest
      | some evictedAt =>
        let forgottenUntil := evictedAt+dialMemory
        { dialledAt := log.dialledAt.erase oldest
          order := rest
          saturatedUntil := if now < forgottenUntil then some (log.saturatedUntil.elim forgottenUntil (max · forgottenUntil))
            else log.saturatedUntil }

def note : DialLog :=
  let ip := toCanonical ip
  if (log.dialledAt.lookup ip).isSome then { log with dialledAt := log.dialledAt.insert ip now }
  else
    let log := log.makeRoom now log.order
    { log with dialledAt := log.dialledAt.insert ip now, order := log.order++[ip] }

def recent : Bool := (log.dialledAt.lookup (toCanonical ip)).any fun dialled => now-dialled < dialMemory

def forgotALiveDial : Bool := log.saturatedUntil.any (now < ·)

def mayHaveDialled : Bool := log.forgotALiveDial now || log.recent now ip

def prune : DialLog :=
  let live := retain (fun dialled => if now-dialled < dialMemory then some dialled else none) log.dialledAt
  { dialledAt := live
    order := log.order.filter fun ip => (live.lookup ip).isSome
    saturatedUntil := log.saturatedUntil.filter (now < ·) }

end DialLog

inductive DialOp where
  | note (ip : IpAddr)
  | prune
  deriving DecidableEq

def DialOp.apply (log : DialLog) : Nat × DialOp → DialLog
  | (now,.note ip) => log.note now ip
  | (now,.prune) => log.prune now

namespace DialLog
variable {log : DialLog} {now t : Nat} {ip : IpAddr}

structure Queued (log : DialLog) : Prop where
  size_le : log.dialledAt.size ≤ maxDialledAddrs
  once : log.order.Nodup
  resident : ∀ ip, ip ∈ log.order ↔ (log.dialledAt.lookup ip).isSome = true

def Remembers (log : DialLog) (t : Nat) (ip : IpAddr) : Prop :=
  (∃ dialled, log.dialledAt.lookup (toCanonical ip) = some dialled ∧ t ≤ dialled) ∨
    ∃ deadline, log.saturatedUntil = some deadline ∧ t+dialMemory ≤ deadline

theorem Queued.makeRoom (queued : log.Queued) (now : Nat) : log.dialledAt.size < maxDialledAddrs ∧ log.makeRoom now log.order = log ∨
    ∃ oldest evictedAt, log.dialledAt.lookup oldest = some evictedAt ∧ log.order = oldest :: (log.makeRoom now log.order).order ∧
      (log.makeRoom now log.order).dialledAt = log.dialledAt.erase oldest ∧
      (log.makeRoom now log.order).saturatedUntil = if now < evictedAt+dialMemory then
        some (log.saturatedUntil.elim (evictedAt+dialMemory) (max · (evictedAt+dialMemory))) else log.saturatedUntil := by
  cases row : log.order with
  | nil =>
    have nothing : Within log.dialledAt ∅ := fun ip _ bound =>
      absurd ((queued.resident ip).2 (bound ▸ rfl)) (by simp [row])
    have none : log.dialledAt.size ≤ 0 := nothing.size_le
    exact .inl ⟨none.trans_lt (by decide),by rw [DialLog.makeRoom,← row]⟩
  | cons oldest rest =>
    rw [DialLog.makeRoom]
    split
    next room => exact .inl ⟨room,by rw [← row]⟩
    next =>
    obtain ⟨evictedAt,held⟩ := isSome_iff_exists.1 ((queued.resident oldest).1 (row ▸ mem_cons_self))
    rw [held]
    exact .inr ⟨oldest,evictedAt,held,rfl,rfl,rfl⟩

theorem Queued.enter (queued : log.Queued) (room : log.dialledAt.size < maxDialledAddrs) (absent : log.dialledAt.lookup ip = none) :
    Queued { log with dialledAt := log.dialledAt.insert ip now, order := log.order++[ip] } where
  size_le := (size_insert_le _).trans room
  once := by
    have fresh : ip ∉ log.order := fun member => by simpa [absent] using (queued.resident ip).1 member
    rw [nodup_append_comm]
    exact nodup_cons.2 ⟨fresh,queued.once⟩
  resident ip' := by
    rw [mem_append,queued.resident,lookup_insert_ite]
    split
    next same => simp [same]
    next other => simp [other]

theorem Queued.note (queued : log.Queued) : (log.note now ip).Queued := by
  unfold DialLog.note
  dsimp only
  split
  next held =>
    refine ⟨?_,queued.once,fun ip' => ?_⟩
    · obtain ⟨dialled,held⟩ := isSome_iff_exists.1 held
      exact (size_insert_bound _ held).trans_le queued.size_le
    rw [queued.resident,lookup_insert_ite]
    split
    next same => rw [same]; exact iff_of_true held rfl
    next => rfl
  next absent =>
    rw [not_isSome_iff_eq_none] at absent
    obtain ⟨room,same⟩ | ⟨oldest,evictedAt,held,row,left,-⟩ := queued.makeRoom now
    · rw [same]
      exact queued.enter room absent
    have distinct := queued.once
    rw [row,nodup_cons] at distinct
    have size := size_erase _ held
    have bound := queued.size_le
    refine Queued.enter ⟨?_,distinct.2,fun ip' => ?_⟩ ?_ ?_
    · rw [left]; omega
    · have resident := queued.resident ip'
      rw [row] at resident
      rw [left,lookup_erase_ite]
      split
      next same => simp [same,distinct.1]
      next other => rw [← resident]; simp [other]
    · rw [left]; omega
    · rw [left]
      exact (Within.erase ..).lookup_none absent

theorem Queued.prune (queued : log.Queued) : (log.prune now).Queued := by
  have within : Within (log.prune now).dialledAt log.dialledAt := Within.sweep
  refine ⟨within.size_le.trans queued.size_le,queued.once.filter _,fun ip => ?_⟩
  rw [DialLog.prune,mem_filter]
  refine and_iff_right_of_imp fun live => ?_
  obtain ⟨dialled,held⟩ := isSome_iff_exists.1 live
  exact (queued.resident ip).2 (within held ▸ rfl)

theorem Remembers.makeRoom (remembers : log.Remembers t ip) (queued : log.Queued) (live : now < t+dialMemory) :
    (log.makeRoom now log.order).Remembers t ip := by
  obtain ⟨-,same⟩ | ⟨oldest,evictedAt,gone,-,left,deadline'⟩ := queued.makeRoom now
  · rwa [same]
  unfold Remembers
  rw [left,deadline']
  obtain ⟨dialled,held,later⟩ | ⟨deadline,covers,later⟩ := remembers
  · obtain rfl | other := eq_or_ne (toCanonical ip) oldest
    · cases gone.symm.trans held
      rw [if_pos (by omega)]
      refine .inr ⟨_,rfl,?_⟩
      cases log.saturatedUntil with
      | none => exact Nat.add_le_add_right later _
      | some deadline => exact le_max_of_le_right (Nat.add_le_add_right later _)
    · exact .inl ⟨dialled,(lookup_erase_ne other).trans held,later⟩
  · rw [covers]
    split
    next => exact .inr ⟨_,rfl,le_max_of_le_left later⟩
    next => exact .inr ⟨deadline,rfl,later⟩

theorem Remembers.insert (remembers : log.Remembers t ip) (since : t ≤ now) {key : IpAddr} {order : List IpAddr} :
    Remembers { log with dialledAt := log.dialledAt.insert key now, order } t ip := by
  refine remembers.imp (fun ⟨dialled,held,later⟩ => ?_) id
  rw [lookup_insert_ite]
  split
  next => exact ⟨now,rfl,since⟩
  next => exact ⟨dialled,held,later⟩

theorem Remembers.note (remembers : log.Remembers t ip) (queued : log.Queued) (since : t ≤ now) (live : now < t+dialMemory) {ip' : IpAddr} :
    (log.note now ip').Remembers t ip := by
  unfold DialLog.note
  dsimp only
  split
  · exact remembers.insert since
  · exact (remembers.makeRoom queued live).insert since

theorem remembers_note : (log.note now ip).Remembers now ip := by
  unfold DialLog.note
  dsimp only
  split
  · exact .inl ⟨now,lookup_insert _,le_rfl⟩
  · exact .inl ⟨now,lookup_insert _,le_rfl⟩

theorem still_young {dialled : Nat} (later : t ≤ dialled) (live : now < t+dialMemory) : now-dialled < dialMemory := by
  have memory : 0 < dialMemory := by decide
  omega

theorem Remembers.prune (remembers : log.Remembers t ip) (live : now < t+dialMemory) : (log.prune now).Remembers t ip := by
  obtain ⟨dialled,held,later⟩ | ⟨deadline,covers,later⟩ := remembers
  · refine .inl ⟨dialled,?_,later⟩
    rw [DialLog.prune,lookup_retain,held]
    exact if_pos (still_young later live)
  have ahead : now < deadline := by omega
  refine .inr ⟨deadline,?_,later⟩
  rw [DialLog.prune,covers]
  exact if_pos (decide_eq_true ahead)

theorem Remembers.mayHaveDialled (remembers : log.Remembers t ip) (live : now < t+dialMemory) :
    log.recent now ip = true ∨ log.forgotALiveDial now = true := by
  refine remembers.imp (fun ⟨dialled,held,later⟩ => ?_) fun ⟨deadline,covers,later⟩ => ?_
  · rw [recent,held]
    exact decide_eq_true (still_young later live)
  have ahead : now < deadline := by omega
  rw [forgotALiveDial,covers]
  exact decide_eq_true ahead

theorem run_queued (ops : List (Nat × DialOp)) : Queued (ops.foldl DialOp.apply {}) := by
  induction ops using List.reverseRecOn with
  | nil => exact ⟨Nat.zero_le _,.nil,by simp⟩
  | append_singleton ops op ih =>
    rw [foldl_append]
    obtain ⟨now,ip | _⟩ := op
    · exact ih.note
    · exact ih.prune

theorem run_remembers {ops : List (Nat × DialOp)} (ordered : (ops.map fst).Pairwise (· ≤ ·))
    (noted : (t,.note ip) ∈ ops) (live : ∀ op ∈ ops, op.1 < t+dialMemory) : Remembers (ops.foldl DialOp.apply {}) t ip := by
  induction ops using List.reverseRecOn with
  | nil => cases noted
  | append_singleton ops op ih =>
    rw [foldl_append]
    rw [map_append,pairwise_append] at ordered
    obtain earlier | last := mem_append.1 noted
    · have before := ih ordered.1 earlier fun op member => live op (mem_append_left _ member)
      have since : t ≤ op.1 := ordered.2.2 t (mem_map_of_mem (f := fst) earlier) op.1 mem_cons_self
      have young := live op (mem_append_right _ mem_cons_self)
      obtain ⟨now,ip' | _⟩ := op
      · exact before.note (run_queued ops) since young
      · exact before.prune young
    · rw [← mem_singleton.1 last]
      exact remembers_note

/-- A dial is in the log as long as it counts, or the log says it has forgotten one that does. -/
theorem live_dial_remembered (ops : List (Nat × DialOp)) (ordered : (ops.map fst).Pairwise (· ≤ ·)) :
    let log := ops.foldl DialOp.apply {}
    (log.dialledAt.size ≤ maxDialledAddrs ∧ log.order.Nodup ∧ ∀ ip, ip ∈ log.order ↔ (log.dialledAt.lookup ip).isSome = true) ∧
      ∀ (ip : IpAddr) (t now), (t,.note ip) ∈ ops → (∀ op ∈ ops, op.1 ≤ now) → now-t < dialMemory →
        (log.recent now ip = true ∨ log.forgotALiveDial now = true) ∧ log.mayHaveDialled now ip = true := by
  have queued := run_queued ops
  refine ⟨⟨queued.size_le,queued.once,queued.resident⟩,fun ip t now noted later young => ?_⟩
  have live : now < t+dialMemory := by omega
  have remembers := run_remembers ordered noted fun op member => (later op member).trans_lt live
  have either := remembers.mayHaveDialled live
  refine ⟨either,?_⟩
  rw [mayHaveDialled,Bool.or_eq_true]
  exact either.symm

def crowd (n : Nat) : List (Nat × DialOp) := (range n).map fun i => (i,.note (.v4 (.ofNat 32 i)))

theorem crowd_ordered (n : Nat) : ((crowd n).map fst).Pairwise (· ≤ ·) := by
  rw [crowd,List.map_map]
  exact (pairwise_lt_range (n := n)).map _ fun _ _ => Nat.le_of_lt

/-- One address more than the log keeps. -/
theorem live_dial_remembered_crowded :
    let log := (crowd (maxDialledAddrs+1)).foldl DialOp.apply {}
    log.dialledAt.size ≤ maxDialledAddrs ∧ log.mayHaveDialled maxDialledAddrs (.v4 0) = true := by
  obtain ⟨⟨few,_⟩,held⟩ := live_dial_remembered _ (crowd_ordered (maxDialledAddrs+1))
  refine ⟨few,(held (.v4 0) 0 maxDialledAddrs ?_ (fun op member => ?_) (by decide)).2⟩
  · rw [crowd,List.mem_map]
    exact ⟨0,mem_range.2 (Nat.succ_pos _),rfl⟩
  · rw [crowd,List.mem_map] at member
    obtain ⟨i,low,rfl⟩ := member
    exact Nat.le_of_lt_succ (mem_range.1 low)

end DialLog
end Ember.Transport
