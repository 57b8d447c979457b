import Ember.Transport.Dispatch
import Ember.Transport.Shedding

/-! What a call can do to a transport, said once. Every call is a chain of moves, each changing one
table and naming what it took from the others. -/
namespace Ember.Transport
open Bytes Table List Option AList

variable {A H T : Type} [LinearOrder A]

namespace PendingHandshake

def dialled : PendingHandshake A H → Option (Submission A × Key)
  | ikInitiator _ firstMessage _ _ target => some (firstMessage,target)
  | _ => none

omit [LinearOrder A] in
@[simp] theorem queued_withQueued {p : PendingHandshake A H} {queued : List (QueuedPayload A)} : (p.withQueued queued).queued = queued := by
  cases p <;> rfl

end PendingHandshake

namespace NoiseSession

theorem sealPayload_spec {noise : Noise H T} {s s' : NoiseSession T} {message packet : Bytes}
    (done : s.sealPayload noise message = some (s',packet)) : ∃ n, s' = { s with sendNonce := n } := by
  obtain ⟨sealed,-,same⟩ := map_eq_some_iff.1 done
  cases same
  exact ⟨_,rfl⟩

omit [LinearOrder A] in
theorem sealAll_spec (noise : Noise H T) (s : NoiseSession T) (ms : List (Submission A)) :
    (∃ n, (s.sealAll noise ms).1 = { s with sendNonce := n }) ∧ ∀ m ∈ (s.sealAll noise ms).2.map Prod.fst, m ∈ ms := by
  induction ms generalizing s with
  | nil => exact ⟨⟨s.sendNonce,rfl⟩,by simp [sealAll]⟩
  | cons m rest ih =>
    unfold sealAll
    split
    · exact ⟨(ih s).1,fun m' member => mem_cons_of_mem _ ((ih s).2 m' member)⟩
    rename_i s' packet done
    obtain ⟨n,rfl⟩ := sealPayload_spec done
    obtain ⟨⟨n',same⟩,kept⟩ := ih { s with sendNonce := n }
    refine ⟨⟨n',same⟩,?_⟩
    intro m' member
    rw [map_cons,mem_cons] at member
    rw [mem_cons]
    exact member.imp_right (kept m')

end NoiseSession

/-! ### Moves -/

open EmberTransport

/-- One change of one table. What is written was waiting, or is sealed for the session it is sent
on; what is queued was submitted for the address or waited there. -/
inductive Move (env : Env A H T) (t : EmberTransport A H T) : EmberTransport A H T → Prop
  | guard (guards : Guards A) : Move env t { t with guards }
  | shed (sessions stagedSessions : SessionMap A T) (pending : Pending A H) (deferredIk : Deferred A) (live : Within sessions t.sessions)
      (staged : Within stagedSessions t.stagedSessions) (waiting : Within pending t.pending) (held : Within deferredIk t.deferredIk) :
      Move env t { t with sessions,stagedSessions,pending,deferredIk }
  | touch {slot : A × Key} {s : NoiseSession T} (s' : NoiseSession T) (held : t.sessions.lookup slot = some s)
      (same : s'.remoteNoisePub = s.remoteNoisePub) : Move env t { t with sessions := t.sessions.insert slot s' }
  | send {slot : A × Key} {s : NoiseSession T} (m : Submission A) (held : t.sessions.lookup slot = some s) (addr : slot.1 = m.peer)
      (named : ∀ key, m.addressee = some key → slot.2 = key) : Move env t (t.record m.peer s.remoteNoisePub [m])
  | flush {addr : A} {p : PendingHandshake A H} (key : Key) (ms : List (Submission A)) (found : t.pending.lookup addr = some p)
      (waiting : ∀ m ∈ ms, m ∈ retainAddressedTo p.queued key ∨ p.dialled = some (m,key)) : Move env t (t.record addr key ms)
  | reread {addr : A} {p : PendingHandshake A H} (p' : PendingHandshake A H) (found : t.pending.lookup addr = some p)
      (queued : p'.queued = p.queued) (dialled : p'.dialled = p.dialled) : Move env t { t with pending := t.pending.insert addr p' }
  | queue {p : PendingHandshake A H} (m : Submission A) (found : t.pending.lookup m.peer = some p) :
      Move env t { t with pending := t.pending.insert m.peer (p.withQueued (enqueue p.queued { addressee := m.addressee,payload := m })) }
  | dial {key : Key} (m : Submission A) (state : H) (carried : List (QueuedPayload A)) (now : Instant) (pending : Pending A H)
      (named : m.addressee = some key) (kept : Within pending t.pending)
      (waited : ∀ q ∈ carried, ∃ p, t.pending.lookup m.peer = some p ∧ q ∈ p.queued) :
      Move env t { t.record m.peer key [m] with pending := pending.insert m.peer (.ikInitiator state m carried now key) }
  | dialXx (m : Submission A) (state : H) (now : Instant) (pending : Pending A H) (unnamed : m.addressee = none) (kept : Within pending t.pending) :
      Move env t { t with pending := pending.insert m.peer (.xxInitiatorMsg1 state [{ addressee := none,payload := m }] now 0) }
  | park {addr : A} (state : H) (now : Instant) : Move env t { t with pending := t.pending.insert addr (.xxResponderMsg2 state [] now) }
  | mint : Move env t { t with nextGeneration := t.nextGeneration+1 }
  | hold (slot : A × Key) (payload : Bytes) (deferredIk : Deferred A)
      (origin : ∀ slot' d, deferredIk.lookup slot' = some d → t.deferredIk.lookup slot' = some d ∨
        slot' = slot ∧ d.generation = t.nextGeneration ∧ d.payload = payload) :
      Move env t { t with
        nextGeneration := t.nextGeneration+1,deferredIk,initiations := t.initiations++[(t.nextGeneration,payload)] }
  | install (addr : A) (s : NoiseSession T) : Move env t (t.installSession env addr s).1
  | promote {slot : A × Key} {s : NoiseSession T} (s' : NoiseSession T) (held : t.stagedSessions.lookup slot = some s)
      (same : s'.remoteNoisePub = s.remoteNoisePub) : Move env t (t.promote env slot s')

abbrev Moves (env : Env A H T) : EmberTransport A H T → EmberTransport A H T → Prop := Relation.ReflTransGen (Move env)

namespace Moves

variable {env : Env A H T} {t t' : EmberTransport A H T}

theorem one (move : Move env t t') : Moves env t t' := .single move

theorem invariant {P : EmberTransport A H T → Prop} (keeps : ∀ {t t'}, Move env t t' → P t → P t') (moves : Moves env t t')
    (holds : P t) : P t' := by
  induction moves with
  | refl => exact holds
  | tail _ move ih => exact keeps move ih

end Moves

namespace EmberTransport

variable (env : Env A H T) (t : EmberTransport A H T) (now : Instant) (draw : Draw) (source : A) (data : Bytes) {pending : Pending A H}
variable {deferred : Deferred A} {addr : A}

/-! ### Tables that only shrink -/

theorem evictOldestPending_within : Within (evictOldestPending pending) pending := by
  unfold evictOldestPending
  split
  · exact .erase ..
  · exact .refl

theorem trimDeferredAt_within {arriving : Key} : Within (trimDeferredAt addr arriving deferred) deferred := by
  fun_induction trimDeferredAt addr arriving deferred with
  | case1 deferred crowded victim newest ih => exact ih.trans (.erase ..)
  | case2 deferred crowded newest => exact .refl
  | case3 deferred room => exact .refl

theorem trimDeferred_within {rank : A → Nat} : Within (trimDeferred rank deferred) deferred := by
  fun_induction trimDeferred rank deferred with
  | case1 deferred crowded victim newest ih => exact ih.trans (.erase ..)
  | case2 deferred crowded newest => exact .refl
  | case3 deferred room => exact .refl

theorem shedPending (kept : Within pending t.pending) : Move env t { t with pending } :=
  .shed t.sessions t.stagedSessions pending t.deferredIk (.refl) (.refl) kept (.refl)

theorem shedDeferred {deferredIk : Deferred A} (kept : Within deferredIk t.deferredIk) : Move env t { t with deferredIk } :=
  .shed t.sessions t.stagedSessions t.pending deferredIk (.refl) (.refl) (.refl) kept

/-! ### Packets -/

variable {env t source} {slot : A × Key}
variable {key : Key} {payload : Bytes} {remoteNoisePub : Option Key} {s : NoiseSession T} {m : Submission A}

theorem erase_moves : Moves env t { t with pending := t.pending.erase source } := .one (shedPending env t (.erase ..))

theorem parkResponder_moves {state : H} : Moves env t { t with pending := t.parkResponder now source state } := by
  unfold parkResponder
  have room : Within (if maxPending ≤ t.pending.size then evictOldestPending t.pending else t.pending) t.pending := by
    split
    · exact evictOldestPending_within
    · exact .refl
  generalize (if maxPending ≤ t.pending.size then evictOldestPending t.pending else t.pending) = pending at room
  have shed : Move env t { t with pending } := shedPending env t room
  dsimp only
  split
  · rename_i found
    exact (Moves.one shed).tail (.reread _ found rfl rfl)
  · exact (Moves.one shed).tail (.park state now)

theorem guard_moves {guards : Guards A} : Moves env t { t with guards } := .one (.guard guards)

omit [LinearOrder A] in
theorem reader_spec {noise : Noise H T} {nonce : Nat} {ciphertext : Bytes} {walk : List ((A × Key) × NoiseSession T)}
    (found : reader noise nonce ciphertext walk = some (slot,s,payload)) :
    (slot,s) ∈ walk ∧ s.read noise nonce ciphertext = some payload := by
  obtain ⟨b,member,reads⟩ := exists_of_findSome?_eq_some found
  obtain ⟨payload',read,same⟩ := map_eq_some_iff.1 reads
  cases same
  exact ⟨member,read⟩

theorem deferPayload_origin {now : Instant} {draw : Draw}
    {d : DeferredIkPayload} (held : (deferPayload env deferred now draw source s payload).1.lookup slot = some d) :
    deferred.lookup slot = some d ∨ slot = (source,s.remoteNoisePub) ∧ d.generation = s.generation ∧ d.payload = payload := by
  have same : (deferPayload env deferred now draw source s payload).1 =
      if payload = [] then deferred.erase (source,s.remoteNoisePub)
      else trimDeferredIk env.saltedAddrRank source s.remoteNoisePub ((deferred.erase (source,s.remoteNoisePub)).insert (source,s.remoteNoisePub)
        { payload,remoteNoisePub := s.remoteNoisePub,stored := now,generation := s.generation }) := by
    unfold deferPayload
    split
    · rfl
    · split <;> rfl
  rw [same] at held
  split at held
  · exact .inl (Within.erase _ _ held)
  have inserted := (trimDeferred_within ..).trans (trimDeferredAt_within ..) held
  by_cases own : slot = (source,s.remoteNoisePub)
  · subst own
    rw [lookup_insert] at inserted
    cases inserted
    exact .inr ⟨rfl,rfl,rfl⟩
  · rw [lookup_insert_ne own] at inserted
    exact .inl (Within.erase _ _ inserted)

theorem crossedPayloads_due (member : m ∈ t.crossedPayloads source key) :
    ∃ p, t.pending.lookup source = some p ∧ (m ∈ retainAddressedTo p.queued key ∨ p.dialled = some (m,key)) := by
  unfold crossedPayloads at member
  split at member
  · rename_i state firstMessage queued created target found
    split at member
    · rename_i same
      subst same
      rw [mem_append] at member
      refine ⟨_,found,?_⟩
      rcases member with first | later
      · right
        split at first
        · cases first
        rw [mem_singleton] at first
        rw [first]
        rfl
      · exact .inl later
    · cases member
  · cases member

theorem crossed_moves {ms : List (Submission A)} (due : ∀ m ∈ ms, m ∈ t.crossedPayloads source key) :
    Moves env t (t.record source key ms) := by
  cases ms with
  | nil =>
    have same : t.record source key [] = t := by simp [record]
    rw [same]
  | cons m rest =>
    obtain ⟨p,found,-⟩ := crossedPayloads_due (due m (mem_cons_self ..))
    apply Moves.one
    apply Move.flush key _ found
    intro m' member
    obtain ⟨p',found',waits⟩ := crossedPayloads_due (due m' member)
    rw [found] at found'
    cases found'
    exact waits

section
variable (env : Env A H T) (t : EmberTransport A H T) (addr : A) (s : NoiseSession T)

theorem installSession_pending : (t.installSession env addr s).1.pending = t.pending := by
  unfold installSession
  dsimp only
  split <;> rfl

theorem installSession_frame :
    (t.installSession env addr s).1.deferredIk = t.deferredIk ∧ (t.installSession env addr s).1.initiations = t.initiations ∧
      (t.installSession env addr s).1.nextGeneration = t.nextGeneration := by
  unfold installSession
  dsimp only
  split <;> exact ⟨rfl,rfl,rfl⟩

end

theorem completeIkInit_moves {digest : BitVec 256} {answer : IkAnswer T} :
    Moves env t (t.completeIkInit env now draw source digest answer).1 := by
  let key := answer.remoteNoisePub
  let session := NoiseSession.new t.nextGeneration answer.transport key true now
  let flushed := session.sealAll env.noise (t.crossedPayloads source key)
  let held := deferPayload env t.deferredIk now draw source flushed.1 answer.payload
  obtain ⟨⟨n,fresh⟩,due⟩ := NoiseSession.sealAll_spec env.noise session (t.crossedPayloads source key)
  let written := t.record source key (flushed.2.map (·.1))
  have wrote : Moves env t written := crossed_moves due
  have kept : Move env written { written with
        nextGeneration := written.nextGeneration+1,deferredIk := held.1
        initiations := written.initiations++[(written.nextGeneration,answer.payload)] } := by
    apply Move.hold (source,key)
    intro slot d found
    have origin := deferPayload_origin found
    rwa [show flushed.1 = { session with sendNonce := n } from fresh] at origin
  have ready := (wrote.tail kept).tail (.guard (t.guards.rememberHandshakeResponse digest answer.response))
  have installed := ready.tail (.install source held.2.1)
  unfold completeIkInit
  dsimp only
  split
  · refine installed.tail (shedPending env _ ?_)
    rw [installSession_pending]
    split
    · exact .refl
    · exact .erase ..
  · exact (installed.tail (shedDeferred env _ (.erase ..))).tail (.guard _)

/-! ### What one packet does -/

def quiet : IncomingResult A → Bool
  | .message .. => false
  | .handshakeComplete _ _ _ payload => payload.isNone
  | _ => true

/-- Noise lets a handshake that has read its last message finish. -/
def Completes (noise : Noise H T) (data : Bytes) : PendingHandshake A H → Prop
  | .ikInitiator state .. => (noise.readMessage state data).2.isSome → (noise.intoTransport (noise.readMessage state data).1).isSome
  | .xxInitiatorMsg1 state .. => (noise.readMessage state data).2.isSome →
    ∀ message, ∃ h written, noise.writeMessage (noise.readMessage state data).1 message = .ok (h,written) ∧ (noise.intoTransport h).isSome
  | .xxResponderMsg2 state .. => (noise.readMessage state data).2.isSome → (noise.intoTransport (noise.readMessage state data).1).isSome

section
variable (env t source) (kind : UInt8)

/-- What a packet of some kind can do to a transport, and what it reads as. -/
inductive Handled : EmberTransport A H T × IncomingResult A → Prop
  | noted (guards : Guards A) {r : IncomingResult A} (silent : quiet r = true) : Handled ({ t with guards },r)
  | reread {p : PendingHandshake A H} (p' : PendingHandshake A H) {r : IncomingResult A} (found : t.pending.lookup source = some p)
      (queued : p'.queued = p.queued) (dialled : p'.dialled = p.dialled) (silent : quiet r = true) :
      Handled ({ t with pending := t.pending.insert source p' },r)
  | spoilt {p : PendingHandshake A H} {t' : EmberTransport A H T} (found : t.pending.lookup source = some p) (stuck : ¬Completes env.noise data p)
      (moves : Moves env t t') : Handled (t',.rejected)
  | nameless {state : H} {queued : List (QueuedPayload A)} {created : Instant} (is : kind = pktXxMsg3)
      (found : t.pending.lookup source = some (.xxResponderMsg2 state queued created)) (heard : (env.noise.readMessage state data).2.isSome)
      (unnamed : env.noise.extractRemoteStatic (env.noise.readMessage state data).1 = none) :
      Handled ({ t with pending := t.pending.erase source },.rejected)
  | parked {t' : EmberTransport A H T} (packets : List Bytes) (moves : Moves env t t') :
      Handled (t',.handshakeResponse source packets)
  | initiated {answer : IkAnswer T} (is : kind = pktIkInit) (answered : answerIk env draw data = some answer) (guards : Guards A) (digest : BitVec 256) :
      Handled ({ t with guards }.completeIkInit env now draw source digest answer)
  | established {t' : EmberTransport A H T} {key : Key} {packets : List Bytes} {payload : Option Bytes} (other : kind ≠ pktIkInit)
      (moves : Moves env t t') : Handled (t',.handshakeComplete source key packets payload)
  | heard {t' : EmberTransport A H T} {key remoteNoisePub : Key} {s : NoiseSession T} {payload : Bytes} (is : kind = pktTransport)
      (held : t.sessions.lookup (source,key) = some s ∨ t.stagedSessions.lookup (source,key) = some s)
      (opens : (env.noise.decrypt s.transport (littleEndian (data.take 8)) (data.drop 8)).isSome = true) (moves : Moves env t t')
      (kept : t'.deferredIk = t.deferredIk ∧ t'.initiations = t.initiations) :
      Handled (t',.message source remoteNoisePub payload s.generation)

variable {env t source kind} {draw}

theorem establish_handled (other : kind ≠ pktIkInit) {p : PendingHandshake A H} (found : t.pending.lookup source = some p)
    {inHandshake waiting : List (Submission A)} (due : ∀ m ∈ inHandshake++waiting, m ∈ retainAddressedTo p.queued key) {transport : T}
    {ikAuthenticated : Bool} {packets : List Bytes} {payload : Option Bytes} : Handled env t now draw source data kind
      (establish env { t with pending := t.pending.erase source } now source key transport ikAuthenticated inHandshake waiting packets payload) := by
  let session := (NoiseSession.new t.nextGeneration transport key ikAuthenticated now).validated
  let flushed := session.sealAll env.noise waiting
  let written := t.record source key (inHandshake++flushed.2.map (·.1))
  have wrote : Move env t written := by
    apply Move.flush key _ found
    intro m member
    apply Or.inl
    apply due
    rw [mem_append] at member ⊢
    exact member.imp_right ((NoiseSession.sealAll_spec env.noise session waiting).2 m)
  have dropped : Move env written { written with pending := written.pending.erase source } := shedPending env written (.erase ..)
  refine .established other (((Moves.one wrote).tail dropped).tail .mint |>.tail ?_)
  exact .install source flushed.1

theorem handleIkResp_handled (other : kind ≠ pktIkInit) : Handled env t now draw source data kind (t.handleIkResp env now source data) := by
  unfold handleIkResp
  split
  · rename_i state firstMessage queued created target found
    dsimp only
    split
    · exact .reread _ found rfl rfl rfl
    · exact .reread _ found rfl rfl rfl
    · rename_i heard _
      split
      · rename_i stuck
        exact .spoilt found (fun completes => by simp [Completes,heard,stuck] at completes) erase_moves
      · exact establish_handled now _ other found (fun m member => member) ..
  · exact .noted t.guards rfl

theorem handleXxCookie_handled : Handled env t now draw source data kind (t.handleXxCookie env now draw source data) := by
  unfold handleXxCookie
  split
  · exact .noted t.guards rfl
  split
  · rename_i state queued created spent found
    split
    · split
      · exact .noted t.guards rfl
      · exact .reread _ found rfl rfl rfl
    · exact .noted t.guards rfl
  · exact .noted t.guards rfl

theorem handleXxMsg1_handled : Handled env t now draw source data kind (t.handleXxMsg1 env now draw source data) := by
  unfold handleXxMsg1
  split
  · exact .noted t.guards rfl
  split
  · exact .noted t.guards rfl
  split
  split
  · exact .noted _ rfl
  split
  · exact .noted _ rfl
  · exact .noted _ rfl
  · split
    · exact .noted _ rfl
    split
    · exact .noted _ rfl
    · exact .parked _ ((parkResponder_moves now).tail (.guard _))

theorem handleXxMsg2_handled (other : kind ≠ pktIkInit) : Handled env t now draw source data kind (t.handleXxMsg2 env now source data) := by
  unfold handleXxMsg2
  split
  · rename_i state queued created retries found
    dsimp only
    split
    · exact .reread _ found rfl rfl rfl
    · exact .reread _ found rfl rfl rfl
    · rename_i key heard _
      have writes (completes : Completes env.noise data (.xxInitiatorMsg1 state queued created retries)) := completes (by rw [heard]; rfl)
      split
      · rename_i failed
        refine .spoilt found (fun completes => ?_) erase_moves
        obtain ⟨h,written,wrote,-⟩ := writes completes _
        rw [failed] at wrote
        cases wrote
      rename_i wrote
      split
      · -- the third message was written and is lost with the handshake
        rename_i stuck
        have lost : Move env t (t.record source key ((retainAddressedTo queued key).take 1)) :=
          .flush key _ found fun m member => .inl (mem_of_mem_take member)
        refine .spoilt found (fun completes => ?_) ((Moves.one lost).tail (shedPending env _ (.erase ..)))
        obtain ⟨h,written,wrote',finishes⟩ := writes completes _
        rw [wrote] at wrote'
        cases wrote'
        rw [stuck] at finishes
        cases finishes
      · refine establish_handled now _ other found ?_ ..
        intro m member
        rwa [take_append_drop] at member
  · exact .noted t.guards rfl

theorem handleXxMsg3_handled (is : kind = pktXxMsg3) : Handled env t now draw source data kind (t.handleXxMsg3 env now source data) := by
  unfold handleXxMsg3
  split
  · rename_i state queued created found
    dsimp only
    split
    · exact .reread _ found rfl rfl rfl
    rename_i payload heard
    split
    · rename_i unnamed
      exact .nameless is found (by rw [heard]; rfl) unnamed
    split
    · rename_i stuck
      exact .spoilt found (fun completes => by simp [Completes,heard,stuck] at completes) erase_moves
    · exact establish_handled now _ (by rw [is]; decide) found (fun m member => member) ..
  · exact .noted t.guards rfl

theorem handleTransport_handled (is : kind = pktTransport) : Handled env t now draw source data kind (t.handleTransport env now source data) := by
  have opens {s : NoiseSession T} {nonce : Nat} {ciphertext payload : Bytes} (reads : s.read env.noise nonce ciphertext = some payload) :
      (env.noise.decrypt s.transport nonce ciphertext).isSome = true := by
    obtain ⟨-,opened⟩ := ite_none_right_eq_some.1 reads
    rw [opened]
    rfl
  unfold handleTransport
  split
  · exact .noted t.guards rfl
  dsimp only
  split
  · rename_i found
    obtain ⟨listed,reads⟩ := reader_spec found
    obtain ⟨held,rfl⟩ := mem_slotsAt.1 listed
    exact .heard is (.inl held) (opens reads) (.one (.touch _ held rfl)) ⟨rfl,rfl⟩
  split
  · rename_i found
    obtain ⟨listed,reads⟩ := reader_spec found
    obtain ⟨held,rfl⟩ := mem_slotsAt.1 listed
    exact .heard is (.inr held) (opens reads) (.one (.promote _ held rfl)) ⟨rfl,rfl⟩
  · exact .noted t.guards rfl

theorem handleIkInit_handled (is : kind = pktIkInit) : Handled env t now draw source data kind (t.handleIkInit env now draw source data) := by
  unfold handleIkInit
  split
  · exact .noted t.guards rfl
  split
  · exact .noted _ rfl
  · exact .noted _ rfl
  · split
    · exact .noted _ rfl
    split
    · exact .noted _ rfl
    · rename_i answered
      exact .initiated is answered ..

theorem Handled.moves {out : EmberTransport A H T × IncomingResult A} (handled : Handled env t now draw source data kind out) : Moves env t out.1 := by
  cases handled with
  | noted guards => exact guard_moves
  | reread p' found queued dialled => exact .one (.reread p' found queued dialled)
  | spoilt _ _ moves | parked _ moves | established _ moves | heard _ _ _ moves => exact moves
  | nameless => exact erase_moves
  | initiated => exact guard_moves.trans (completeIkInit_moves ..)

end

theorem processIncoming_handled :
    Handled env t now draw source (data.drop headerLen) ((data.drop 2).headD 0) (t.processIncoming env now draw data source) := by
  unfold processIncoming
  split
  · exact .noted t.guards rfl
  split
  · exact .noted t.guards rfl
  split
  · exact .noted t.guards rfl
  dsimp only
  split
  · rename_i kind
    exact handleIkInit_handled now _ kind
  rename_i other
  split
  · exact handleIkResp_handled now _ other
  split
  · exact handleXxMsg1_handled ..
  split
  · exact handleXxMsg2_handled now _ other
  split
  · rename_i kind
    exact handleXxMsg3_handled now _ kind
  split
  · exact handleXxCookie_handled ..
  split
  · rename_i kind
    exact handleTransport_handled now _ kind
  · exact .noted t.guards rfl

theorem processIncoming_moves : Moves env t (t.processIncoming env now draw data source).1 :=
  (processIncoming_handled now draw data).moves

/-! ### Messages and the other calls -/

theorem outgoingSlot_spec {peer : A} (found : t.outgoingSlot peer remoteNoisePub = some slot) :
    slot.1 = peer ∧ ∀ key, remoteNoisePub = some key → slot.2 = key := by
  unfold outgoingSlot at found
  split at found
  · obtain ⟨-,same⟩ := ite_none_right_eq_some.1 found
    cases same
    exact ⟨rfl,fun key named => some.inj named⟩
  obtain ⟨b,best,same⟩ := map_eq_some_iff.1 found
  refine ⟨?_,fun key named => nomatch named⟩
  rw [← same]
  exact (mem_slotsAt.1 (argmax_mem best)).2

theorem queueOrStart_moves (kept : Within pending t.pending) {carried : List (QueuedPayload A)}
    (waited : ∀ q ∈ carried, ∃ p, t.pending.lookup m.peer = some p ∧ q ∈ p.queued) :
    Moves env t (queueOrStart env { t with pending } now draw m carried).1 := by
  have shed : Moves env t { t with pending } := .one (shedPending env t kept)
  unfold queueOrStart
  split
  · exact shed
  split
  · rename_i p found
    exact shed.tail (.queue m found)
  have room : Within (if maxPending ≤ pending.size then evictOldestPending pending else pending) t.pending := by
    split
    · exact evictOldestPending_within.trans kept
    · exact kept
  have same : (if maxPending ≤ pending.size then { t with pending := evictOldestPending pending } else { t with pending }) =
      { t with pending := if maxPending ≤ pending.size then evictOldestPending pending else pending } := by
    split <;> rfl
  rw [same]
  generalize (if maxPending ≤ pending.size then evictOldestPending pending else pending) = roomy at room
  have shed : Moves env t { t with pending := roomy } := .one (shedPending env t room)
  split
  · rename_i key named
    unfold startIkHandshake
    split
    · exact shed
    split
    · exact shed
    refine .one (.dial m _ _ now roomy named room ?_)
    intro q member
    exact waited q (mem_of_mem_drop member)
  · rename_i unnamed
    unfold startXxHandshake
    split
    · exact shed
    · exact .one (.dialXx m _ now roomy unnamed room)

theorem prepareOutgoing_moves {peer : A} {message : Bytes} :
    Moves env t (t.prepareOutgoing env now draw peer remoteNoisePub message).1 := by
  unfold prepareOutgoing
  split
  · exact .refl
  split
  · rename_i slot s found
    obtain ⟨slot',chosen,bound⟩ := bind_eq_some_iff.1 found
    obtain ⟨s',held,same⟩ := map_eq_some_iff.1 bound
    cases same
    obtain ⟨addr,named⟩ := outgoingSlot_spec chosen
    split
    · rename_i s' packet done
      obtain ⟨n,rfl⟩ := NoiseSession.sealPayload_spec done
      have sent : Move env t (t.record peer s.remoteNoisePub [{ peer,addressee := remoteNoisePub,message }]) :=
        .send { peer,addressee := remoteNoisePub,message } held addr named
      exact (Moves.one sent).tail (.touch _ held rfl)
    · exact .one (.shed _ t.stagedSessions t.pending t.deferredIk (.erase ..) (.refl) (.refl) (.refl))
  · split
    · rename_i queued stalled
      apply queueOrStart_moves now draw (.erase ..)
      intro q member
      unfold stalledInbound at stalled
      split at stalled
      · rename_i found
        obtain ⟨-,same⟩ := ite_none_right_eq_some.1 stalled
        cases same
        exact ⟨_,found,member⟩
      · cases stalled
    · exact queueOrStart_moves now draw (.refl) (fun q member => nomatch member)

theorem takeDeferredIk_moves {generation : Nat} : Moves env t (t.takeDeferredIk now source key generation).1 := by
  unfold takeDeferredIk
  dsimp only
  split
  · exact .refl
  split
  · exact .refl
  · exact .one (shedDeferred env t (.erase ..))

theorem consumeProbeAnswer_moves : Moves env t (t.consumeProbeAnswer source key payload).1 := by
  unfold consumeProbeAnswer
  dsimp only
  split
  · exact .refl
  rename_i s held
  split
  · exact .refl
  split
  · exact .one (.touch _ held rfl)
  · exact .refl

theorem surface_moves {outcome : DispatchOutcome} {item : Option Nat × Bytes} : Moves env t (surface env now draw source (t,outcome) item).1 := by
  unfold surface
  dsimp only
  split
  · exact .refl
  · exact prepareOutgoing_moves ..
  · exact .refl

theorem surfaceAll_moves (key : Key) (released : Option DeferredIkPayload) (payload : Bytes) (outcome : DispatchOutcome) :
    Moves env t (t.surfaceAll env now draw source key released payload outcome).1 := by
  unfold surfaceAll
  dsimp only
  have answered : Moves env t (t.consumeProbeAnswer source key payload).1 := consumeProbeAnswer_moves
  refine answered.trans ?_
  generalize (t.consumeProbeAnswer source key payload).1 = t'
  generalize (released.toList.map fun d => (some d.generation,d.payload))++_ = payloads
  induction payloads generalizing t' outcome with
  | nil => exact .refl
  | cons item rest ih =>
    exact (surface_moves now draw).trans (ih ..)

theorem dispatchIncoming_moves : Moves env t (t.dispatchIncoming env now draw data source).1 := by
  unfold dispatchIncoming
  split
  · exact .refl
  have processed := @processIncoming_moves A H T _ env t now draw source data
  split
  · rename_i result
    rw [result] at processed
    exact processed
  · rename_i result
    rw [result] at processed
    exact processed
  · rename_i result
    rw [result] at processed
    split
    · exact processed
    · exact processed.trans (surfaceAll_moves ..)
  · rename_i result
    rw [result] at processed
    exact (processed.trans (takeDeferredIk_moves ..)).trans (surfaceAll_moves ..)

theorem cleanup_moves : Moves env t (t.cleanup now) := by
  have swept : Move env t { t.cleanup now with guards := t.guards } := .shed _ _ _ _
    (.sweep) (.sweep)
    (.sweep) (.sweep)
  exact (Moves.one swept).tail (.guard _)

theorem abandonStalledHandshake_moves {begunBy : Instant} : Moves env t (t.abandonStalledHandshake addr key begunBy).1 := by
  unfold abandonStalledHandshake
  split
  · split
    · exact erase_moves
    · exact .refl
  · exact .refl

theorem removeSessionFor_moves : Moves env t (t.removeSessionFor now addr key) := by
  have removed : Move env t { t with
        sessions := t.sessions.erase (addr,key),stagedSessions := t.stagedSessions.erase (addr,key)
        deferredIk := t.deferredIk.erase (addr,key) } :=
    .shed _ _ t.pending _ (.erase ..) (.erase ..) (.refl) (.erase ..)
  exact (Moves.one removed).trans (abandonStalledHandshake_moves ..)

theorem step_moves {call : Call A} : Moves env t (t.step env call).1 := by
  unfold step
  split
  · exact prepareOutgoing_moves ..
  · exact processIncoming_moves ..
  · exact dispatchIncoming_moves ..
  · exact cleanup_moves ..
  · exact removeSessionFor_moves ..
  · exact abandonStalledHandshake_moves ..

theorem run_moves (calls : List (Call A)) : Moves env t (t.run env calls).1 := by
  induction calls generalizing t with
  | nil => exact .refl
  | cons call rest ih => exact step_moves.trans ih

end EmberTransport
end Ember.Transport
