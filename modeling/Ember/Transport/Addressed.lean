import Ember.Transport.Moves

/-! Whom a payload can reach. What waits at an address was submitted for it, and what a session or a
handshake encrypts was submitted for its peer or for nobody in particular. -/
namespace Ember.Transport
open Table List AList

variable {A H T : Type} [LinearOrder A]

/-- The payload was submitted for the address and, if it names a recipient, for this one. -/
def Submission.For (m : Submission A) (addr : A) (key : Key) : Prop := m.peer = addr ∧ ∀ want, m.addressee = some want → want = key

namespace PendingHandshake

/-- What a handshake at an address holds: payloads submitted for the address and their recipients,
and an initiation to the identity its message names. -/
structure Addressed (p : PendingHandshake A H) (addr : A) : Prop where
  queued : ∀ q ∈ p.queued, q.payload.peer = addr ∧ q.payload.addressee = q.addressee
  dialled : ∀ m key, p.dialled = some (m,key) → m.peer = addr ∧ m.addressee = some key

omit [LinearOrder A] in
theorem Addressed.due {p : PendingHandshake A H} {addr : A} (addressed : p.Addressed addr) {m : Submission A} {key : Key}
    (waits : m ∈ retainAddressedTo p.queued key ∨ p.dialled = some (m,key)) : m.For addr key := by
  rcases waits with kept | first
  · rw [retainAddressedTo,mem_map] at kept
    obtain ⟨q,member,rfl⟩ := kept
    rw [mem_filter] at member
    obtain ⟨peer,addressee⟩ := addressed.queued q member.1
    refine ⟨peer,fun want named => ?_⟩
    have passes := member.2
    rw [QueuedPayload.addressedTo,← addressee,named,Option.all_some,beq_iff_eq] at passes
    exact passes
  · obtain ⟨peer,named⟩ := addressed.dialled m key first
    refine ⟨peer,fun want named' => ?_⟩
    rw [named] at named'
    exact (Option.some.inj named').symm

end PendingHandshake

namespace EmberTransport

structure Addressed (t : EmberTransport A H T) : Prop where
  live : ∀ slot s, t.sessions.lookup slot = some s → s.remoteNoisePub = slot.2
  staged : ∀ slot s, t.stagedSessions.lookup slot = some s → s.remoteNoisePub = slot.2
  pending : ∀ addr p, t.pending.lookup addr = some p → p.Addressed addr
  written : ∀ w ∈ t.written, w.submission.For w.addr w.recipient

theorem addressed_new (now : Instant) (draw : Draw) : (new now draw : EmberTransport A H T).Addressed where
  live _ _ held := nomatch held
  staged _ _ held := nomatch held
  pending _ _ found := nomatch found
  written _ member := nomatch member

theorem written_record {t : EmberTransport A H T} (addressed : t.Addressed) {addr : A} {key : Key} {ms : List (Submission A)}
    (due : ∀ m ∈ ms, m.For addr key) : ∀ w ∈ (t.record addr key ms).written, w.submission.For w.addr w.recipient := by
  intro w member
  rw [record,mem_append,mem_map] at member
  rcases member with before | ⟨m,listed,rfl⟩
  · exact addressed.written w before
  · exact due m listed

theorem pending_insert {pending base : Pending A H} (all : ∀ addr p, base.lookup addr = some p → p.Addressed addr) (kept : Within pending base)
    {addr : A} {p : PendingHandshake A H} (own : p.Addressed addr) :
    ∀ addr' p', (pending.insert addr p).lookup addr' = some p' → p'.Addressed addr' := by
  intro addr' p' found
  by_cases same : addr' = addr
  · subst same
    rw [lookup_insert] at found
    cases found
    exact own
  · rw [lookup_insert_ne same] at found
    exact all addr' p' (kept found)

theorem keyed_insert {sessions : SessionMap A T} (all : ∀ slot s, sessions.lookup slot = some s → s.remoteNoisePub = slot.2) {slot : A × Key}
    {s : NoiseSession T} (own : s.remoteNoisePub = slot.2) :
    ∀ slot' s', (sessions.insert slot s).lookup slot' = some s' → s'.remoteNoisePub = slot'.2 := by
  intro slot' s' found
  by_cases same : slot' = slot
  · subst same
    rw [lookup_insert] at found
    cases found
    exact own
  · rw [lookup_insert_ne same] at found
    exact all slot' s' found

theorem Addressed.move {env : Env A H T} {t t' : EmberTransport A H T} (move : Move env t t') (addressed : t.Addressed) : t'.Addressed := by
  cases move with
  | guard | mint | hold => exact { addressed with }
  | shed sessions stagedSessions pending deferredIk live staged waiting held =>
    exact ⟨fun slot s found => addressed.live slot s (live found),fun slot s found => addressed.staged slot s (staged found),
      fun addr p found => addressed.pending addr p (waiting found),addressed.written⟩
  | @touch slot s s' held same =>
    exact { addressed with live := keyed_insert addressed.live (same.trans (addressed.live slot s held)) }
  | @send slot s m held addr named =>
    refine { addressed with written := written_record addressed ?_ }
    intro m' member
    rw [mem_singleton] at member
    subst member
    refine ⟨rfl,fun want wanted => ?_⟩
    rw [addressed.live slot s held,named want wanted]
  | @flush addr p key ms found waiting =>
    exact { addressed with written := written_record addressed fun m member => (addressed.pending addr p found).due (waiting m member) }
  | @reread addr p p' found queued dialled =>
    have before := addressed.pending addr p found
    have own : p'.Addressed addr := ⟨queued ▸ before.queued,dialled ▸ before.dialled⟩
    exact { addressed with pending := pending_insert addressed.pending (.refl) own }
  | @queue p m found =>
    have before := addressed.pending m.peer p found
    have own : (p.withQueued (enqueue p.queued { addressee := m.addressee,payload := m })).Addressed m.peer := by
      constructor
      · intro q member
        rw [PendingHandshake.queued_withQueued,enqueue,mem_append,mem_singleton] at member
        rcases member with earlier | rfl
        · apply before.queued q
          split at earlier
          · exact mem_of_mem_tail earlier
          · exact earlier
        · exact ⟨rfl,rfl⟩
      · cases p <;> exact before.dialled
    exact { addressed with pending := pending_insert addressed.pending (.refl) own }
  | @dial key m state carried now pending named kept waited =>
    have own : (PendingHandshake.ikInitiator state m carried now key).Addressed m.peer := by
      constructor
      · intro q member
        obtain ⟨p,found,queued⟩ := waited q member
        exact (addressed.pending m.peer p found).queued q queued
      intro m' key' same
      cases same
      exact ⟨rfl,named⟩
    refine ⟨addressed.live,addressed.staged,pending_insert addressed.pending kept own,written_record addressed ?_⟩
    intro m' member
    rw [mem_singleton] at member
    subst member
    refine ⟨rfl,fun want wanted => ?_⟩
    rw [named] at wanted
    exact (Option.some.inj wanted).symm
  | dialXx m state now pending unnamed kept =>
    have own : (PendingHandshake.xxInitiatorMsg1 state [{ addressee := none,payload := m }] now 0 : PendingHandshake A H).Addressed m.peer := by
      constructor
      · intro q member
        rw [PendingHandshake.queued,mem_singleton] at member
        subst member
        exact ⟨rfl,unnamed⟩
      · intro m' key same
        cases same
    exact { addressed with pending := pending_insert addressed.pending kept own }
  | @park addr state now =>
    have own : (PendingHandshake.xxResponderMsg2 state [] now).Addressed addr :=
      ⟨fun q member => (nomatch member),fun m key same => nomatch same⟩
    exact { addressed with pending := pending_insert addressed.pending (.refl) own }
  | install addr s =>
    have fresh := @keyed_insert A T _ _ addressed.live (addr,s.remoteNoisePub) s rfl
    have parked := @keyed_insert A T _ _ addressed.staged (addr,s.remoteNoisePub) s rfl
    unfold installSession
    dsimp only
    split
    · refine { addressed with staged := fun slot s' found => parked slot s' (Within.insert ?_ _ _ found) }
      split
      · exact shedOldestStaged_within
      · exact .refl
    · exact { addressed with
        live := fun slot s' found => fresh slot s' ((trimSessionsAt_within ..).trans ((makeRoom_within ..).insert ..) found)
        staged := fun slot s' found => addressed.staged slot s' (Within.erase _ _ found) }
  | @promote slot s s' held same =>
    have fresh := keyed_insert addressed.live (same.trans (addressed.staged slot s held))
    exact { addressed with
      live := fun slot' s'' found => fresh slot' s'' (promote_within found)
      staged := fun slot' s'' found => addressed.staged slot' s'' (Within.erase _ _ found) }

/-- A payload submitted for an address and a recipient is only ever encrypted for that recipient, in
a packet to that address. -/
theorem sealed_to_addressee (env : Env A H T) (now : Instant) (draw : Draw) (calls : List (Call A)) :
    ∀ w ∈ ((new now draw).run env calls).1.written, ∀ key, w.submission.addressee = some key →
      w.recipient = key ∧ w.addr = w.submission.peer := by
  intro w member key named
  have addressed := (@run_moves A H T _ env _ calls).invariant Addressed.move (addressed_new now draw)
  obtain ⟨peer,wanted⟩ := addressed.written w member
  exact ⟨(wanted key named).symm,peer.symm⟩

def dialAndFlush : List (Call Nat) :=
  [.prepareOutgoing 9 (some 7) [1],.prepareOutgoing 9 (some 7) [2],.processIncoming (emberMagic++[pktIkResp,7]) 9].map
    fun request => { request,now := 1,draw := {} }

theorem sealed_to_addressee_flushed :
    let w : Written Nat := { addr := 9,recipient := 7,submission := { peer := 9,addressee := some 7,message := [2] } }
    w ∈ ((new 0 {}).run plainEnv dialAndFlush).1.written ∧ w.recipient = 7 ∧ w.addr = 9 :=
  ⟨by decide +kernel,sealed_to_addressee plainEnv 0 {} dialAndFlush _ (by decide +kernel) 7 rfl⟩

end EmberTransport
end Ember.Transport
