import Ember.Transport.Handlers
import Ember.Transport.Shedding

/-! Delivery of sealed frames. A session takes each frame once and tolerates reordering within its
window, whether it holds its slot or is staged. -/
namespace Ember.Transport
open Bytes Table List Option AList Prod

variable {A H T : Type} [LinearOrder A]

structure Frame (A : Type) where
  source : A
  data : Bytes
  now : Instant

def nonceOf (data : Bytes) : Nat := littleEndian (data.take 8)

namespace NoiseSession

variable {data : Bytes} {noise : Noise H T} {s : NoiseSession T}

def authenticates (noise : Noise H T) (s : NoiseSession T) (data : Bytes) : Bool :=
  8 ≤ data.length && (noise.decrypt s.transport (nonceOf data) (data.drop 8)).isSome

theorem read_eq_none (whole : 8 ≤ data.length)
    (foreign : s.authenticates noise data = false) : s.read noise (nonceOf data) (data.drop 8) = none := by
  simp only [authenticates,whole,decide_true,Bool.true_and,isSome_eq_false_iff,isNone_iff_eq_none] at foreign
  simp [read,foreign]

theorem read_isSome (own : s.authenticates noise data = true) :
    (s.read noise (nonceOf data) (data.drop 8)).isSome = s.replayPrecheck (nonceOf data) := by
  have opens : (noise.decrypt s.transport (nonceOf data) (data.drop 8)).isSome = true := by
    simp only [authenticates,Bool.and_eq_true] at own
    exact own.2
  unfold read
  split
  · rename_i fresh
    rw [opens,fresh]
  · rename_i stale
    simpa using stale

end NoiseSession

namespace EmberTransport

section Reader
variable {noise : Noise H T} {nonce : Nat} {ciphertext : Bytes} {walk : List ((A × Key) × NoiseSession T)}

omit [LinearOrder A] in
theorem reader_eq_none (deaf : ∀ b ∈ walk, b.2.read noise nonce ciphertext = none) : reader noise nonce ciphertext walk = none := by
  rw [reader,findSome?_eq_none_iff]
  intro b member
  simp [deaf b member]

theorem reader_eq_some {b : (A × Key) × NoiseSession T} {payload : Bytes} (listed : b ∈ walk)
    (hears : b.2.read noise nonce ciphertext = some payload)
    (deaf : ∀ b' ∈ walk, b'.1 ≠ b.1 → b'.2.read noise nonce ciphertext = none) (sole : ∀ b' ∈ walk, b'.1 = b.1 → b' = b) :
    reader noise nonce ciphertext walk = some (b.1,b.2,payload) := by
  induction walk with
  | nil => cases listed
  | cons head rest ih =>
    rw [reader,findSome?_cons]
    by_cases same : head.1 = b.1
    · rw [sole head (mem_cons_self ..) same,hears]
      rfl
    rw [deaf head (mem_cons_self ..) same]
    have later : b ∈ rest := (mem_cons.1 listed).resolve_left fun equal => same (congrArg fst equal).symm
    exact ih later (fun b' member => deaf b' (mem_cons_of_mem _ member)) (fun b' member => sole b' (mem_cons_of_mem _ member))

end Reader

theorem slotsAt_sole {map : SessionMap A T} {addr : A} {b b' : (A × Key) × NoiseSession T} (listed : b ∈ slotsAt map addr)
    (listed' : b' ∈ slotsAt map addr) (same : b'.1 = b.1) : b' = b := by
  obtain ⟨slot,s⟩ := b
  cases same
  have bound := (mem_slotsAt.1 listed).1
  have bound' := (mem_slotsAt.1 listed').1
  rw [bound] at bound'
  cases bound'
  rfl

/-! ### Frames for one session -/

inductive Place where
  | live
  | staged
  deriving DecidableEq

def sessionAt (t : EmberTransport A H T) : Place → A × Key → Option (NoiseSession T)
  | .live,slot => t.sessions.lookup slot
  | .staged,slot => t.stagedSessions.lookup slot

/-- The session is held in one place, and frames not its own belong to no session of the transport. -/
structure Hears (env : Env A H T) (frames : List (Frame A)) (t : EmberTransport A H T) (place : Place) (slot : A × Key) (s : NoiseSession T) :
    Prop where
  held : t.sessionAt place slot = some s
  alone : ∀ place' slot' s', t.sessionAt place' slot' = some s' → (place',slot') ≠ (place,slot) →
    s'.generation ≠ s.generation ∧ ∀ f ∈ frames, s'.authenticates env.noise f.data = false

def delivers (generation : Nat) : IncomingResult A → Bool
  | .message _ _ _ g => g == generation
  | _ => false

def receive (env : Env A H T) (t : EmberTransport A H T) : List (Frame A) → List (IncomingResult A)
  | [] => []
  | f :: rest =>
    let next := t.handleTransport env f.now f.source f.data
    next.2 :: receive env next.1 rest

/-- The frames a receiver that remembers every nonce takes: genuine ones from the peer's address,
not taken before and not a whole window behind. -/
def deliveries (genuine : Bytes → Bool) (addr : A) (taken : List Nat) : List (Frame A) → List Bool
  | [] => []
  | f :: rest =>
    if f.source = addr ∧ genuine f.data = true ∧ ReplayWindow.Fresh replayWindowBits taken (nonceOf f.data) then
      true :: deliveries genuine addr (nonceOf f.data :: taken) rest
    else false :: deliveries genuine addr taken rest

section Step
variable {env : Env A H T} {t : EmberTransport A H T} {place : Place} {slot : A × Key} {s : NoiseSession T} {f : Frame A}
  {rest : List (Frame A)}

section
variable (hears : Hears env (f :: rest) t place slot s)
include hears

theorem Hears.tail : Hears env rest t place slot s where
  held := hears.held
  alone place' slot' s' found apart :=
    ⟨(hears.alone place' slot' s' found apart).1,
      fun f' member => (hears.alone place' slot' s' found apart).2 f' (mem_cons_of_mem _ member)⟩

theorem Hears.deaf
    (unread : f.source ≠ slot.1 ∨ s.authenticates env.noise f.data = false ∨ s.replayPrecheck (nonceOf f.data) = false) :
    t.handleTransport env f.now f.source f.data = (t,.rejected) := by
  unfold handleTransport
  split
  · rfl
  rename_i whole
  have whole : 8 ≤ f.data.length := Nat.not_lt.1 whole
  have silent place' (b : (A × Key) × NoiseSession T) (found : t.sessionAt place' b.1 = some b.2) (addr : b.1.1 = f.source) :
      b.2.read env.noise (nonceOf f.data) (f.data.drop 8) = none := by
    by_cases own : (place',b.1) = (place,slot)
    · cases own
      rw [hears.held] at found
      cases found
      rcases unread with elsewhere | foreign | stale
      · exact absurd addr.symm elsewhere
      · exact NoiseSession.read_eq_none whole foreign
      · rw [NoiseSession.read,stale]
        rfl
    · exact NoiseSession.read_eq_none whole ((hears.alone place' b.1 b.2 found own).2 f (mem_cons_self ..))
  have live : reader env.noise (nonceOf f.data) (f.data.drop 8) (slotsAt t.sessions f.source) = none := by
    apply reader_eq_none
    intro b member
    exact silent .live b (mem_slotsAt.1 member).1 (mem_slotsAt.1 member).2
  have staged : reader env.noise (nonceOf f.data) (f.data.drop 8) (slotsAt t.stagedSessions f.source) = none := by
    apply reader_eq_none
    intro b member
    exact silent .staged b (mem_slotsAt.1 member).1 (mem_slotsAt.1 member).2
  dsimp only [nonceOf] at live staged
  simp [live,staged]

theorem Hears.hear (addr : f.source = slot.1) (own : s.authenticates env.noise f.data = true)
    (fresh : s.replayPrecheck (nonceOf f.data) = true) :
    delivers s.generation (t.handleTransport env f.now f.source f.data).2 = true ∧
      Hears env rest (t.handleTransport env f.now f.source f.data).1 .live slot (s.heard (nonceOf f.data) f.now) := by
  have whole : 8 ≤ f.data.length := by
    simp only [NoiseSession.authenticates,Bool.and_eq_true,decide_eq_true_eq] at own
    exact own.1
  obtain ⟨payload,reads⟩ := isSome_iff_exists.1 ((NoiseSession.read_isSome own).trans fresh)
  have deaf place' (b : (A × Key) × NoiseSession T) found apart :
      b.2.read env.noise (nonceOf f.data) (f.data.drop 8) = none :=
    NoiseSession.read_eq_none whole ((hears.alone place' b.1 b.2 found apart).2 f (mem_cons_self ..))
  unfold handleTransport
  rw [if_neg (Nat.not_lt.2 whole)]
  cases place with
  | live =>
    have listed : (slot,s) ∈ slotsAt t.sessions f.source := mem_slotsAt.2 ⟨hears.held,addr.symm⟩
    have found : reader env.noise (nonceOf f.data) (f.data.drop 8) (slotsAt t.sessions f.source) = some (slot,s,payload) :=
      reader_eq_some listed reads
        (fun b member apart => deaf .live b (mem_slotsAt.1 member).1 fun same => apart (congrArg snd same))
        (fun b member same => slotsAt_sole listed member same)
    dsimp only [nonceOf] at found
    simp only [found]
    refine ⟨beq_self_eq_true _,lookup_insert _,?_⟩
    intro place' slot' s' bound apart
    have before : t.sessionAt place' slot' = some s' := by
      cases place' with
      | live => rwa [sessionAt,lookup_insert_ne fun same => apart (by rw [same])] at bound
      | staged => exact bound
    exact hears.tail.alone place' slot' s' before apart
  | staged =>
    have listed : (slot,s) ∈ slotsAt t.stagedSessions f.source := mem_slotsAt.2 ⟨hears.held,addr.symm⟩
    have passed : reader env.noise (nonceOf f.data) (f.data.drop 8) (slotsAt t.sessions f.source) = none := by
      apply reader_eq_none
      intro b member
      exact deaf .live b (mem_slotsAt.1 member).1 fun same => nomatch (congrArg fst same)
    have found : reader env.noise (nonceOf f.data) (f.data.drop 8) (slotsAt t.stagedSessions f.source) = some (slot,s,payload) :=
      reader_eq_some listed reads
        (fun b member apart => deaf .staged b (mem_slotsAt.1 member).1 fun same => apart (congrArg snd same))
        (fun b member same => slotsAt_sole listed member same)
    dsimp only [nonceOf] at passed found
    simp only [passed,found]
    refine ⟨beq_self_eq_true _,trimSessionsAt_arriving (lookup_insert _) rfl,?_⟩
    intro place' slot' s' bound apart
    -- another session was there before, as live or as staged as it is now
    have other : slot' ≠ slot := by
      rintro rfl
      cases place' with
      | live => exact apart rfl
      | staged =>
        rw [sessionAt,promote,lookup_erase] at bound
        cases bound
    have before : t.sessionAt place' slot' = some s' := by
      cases place' with
      | live =>
        have inserted := promote_within bound
        rwa [lookup_insert_ne other] at inserted
      | staged => rwa [sessionAt,promote,lookup_erase_ne other] at bound
    exact hears.tail.alone place' slot' s' before fun same => other (congrArg snd same)

end

end Step

variable {taken : List Nat}

theorem receive_deliveries {env : Env A H T} {t : EmberTransport A H T} {place : Place} {slot : A × Key} {s : NoiseSession T} {frames : List (Frame A)}
    (hears : Hears env frames t place slot s) (tracks : s.recv.Tracks taken) :
    (receive env t frames).map (delivers s.generation) = deliveries (s.authenticates env.noise) slot.1 taken frames := by
  induction frames generalizing t place s taken with
  | nil => rfl
  | cons f rest ih =>
    have positive : 0 < replayWindowBits := by decide
    have window := tracks.precheck_iff positive (nonceOf f.data)
    rw [receive,deliveries]
    split
    · rename_i accepted
      obtain ⟨addr,own,fresh⟩ := accepted
      obtain ⟨delivered,next⟩ := hears.hear addr own (window.2 fresh)
      rw [map_cons,delivered]
      have later := ih next (tracks.commit positive (nonceOf f.data))
      exact congrArg (List.cons true) later
    · rename_i refused
      have unread : f.source ≠ slot.1 ∨ s.authenticates env.noise f.data = false ∨ s.replayPrecheck (nonceOf f.data) = false := by
        rw [← window] at refused
        simp only [not_and_or,Bool.not_eq_true] at refused
        exact refused
      rw [hears.deaf unread]
      exact congrArg _ (ih hears.tail tracks)

theorem deliveries_forged {genuine : Bytes → Bool} {f : Frame A} (forged : genuine f.data = false) {addr : A}
    {before after : List (Frame A)} :
    (deliveries genuine addr taken (before++f :: after)).eraseIdx before.length = deliveries genuine addr taken (before++after) := by
  induction before generalizing taken with
  | nil => simp [deliveries,forged]
  | cons g rest ih =>
    simp only [cons_append,deliveries]
    split
    · simp [ih]
    · simp [ih]

/-- Over any frames in any order, a session that has taken none yet delivers exactly those that
authenticate under it, were not delivered before and are not a whole window behind one that was,
from wherever it is held. Leaving out a frame that does not authenticate changes no other decision. -/
theorem frames_delivered_once (env : Env A H T) (t : EmberTransport A H T) (place : Place) (slot : A × Key) (s : NoiseSession T)
    (frames : List (Frame A)) (hears : Hears env frames t place slot s) (unused : s.recv = {}) :
    (receive env t frames).map (delivers s.generation) = deliveries (s.authenticates env.noise) slot.1 [] frames ∧
      ∀ before f after, frames = before++f :: after → s.authenticates env.noise f.data = false →
        ((receive env t frames).map (delivers s.generation)).eraseIdx before.length =
          (receive env t (before++after)).map (delivers s.generation) := by
  have tracks : s.recv.Tracks [] := by
    rw [unused]
    exact ReplayWindow.tracks_new
  refine ⟨receive_deliveries hears tracks,?_⟩
  rintro before f after rfl forged
  have rest : Hears env (before++after) t place slot s := by
    refine ⟨hears.held,fun place' slot' s' found apart => ?_⟩
    obtain ⟨other,foreign⟩ := hears.alone place' slot' s' found apart
    exact ⟨other,fun f' member => foreign f' (by
      rw [mem_append] at member ⊢
      exact member.imp_right (mem_cons_of_mem _))⟩
  rw [receive_deliveries hears tracks,receive_deliveries rest tracks,deliveries_forged forged]

def restaged : EmberTransport Nat Nat Nat :=
  { guards := Guards.new 0 {}
    sessions := AList.insert (9,7) (NoiseSession.new 1 7 7 true 0).validated ∅
    stagedSessions := AList.insert (9,7) (NoiseSession.new 2 8 7 true 0) ∅ }

def shuffledFrames : List (Frame Nat) :=
  [(5,8),(5,8),(0,8),(6,3),(6,8),(70,8),(6,8)].map fun f => { source := 9,data := ofNatLittleEndian 8 f.1++[f.2],now := 1 }

theorem restaged_hears : Hears plainEnv shuffledFrames restaged .staged (9,7) (NoiseSession.new 2 8 7 true 0) where
  held := lookup_insert _
  alone := by
    intro place' slot' s' found apart
    cases place' with
    | live =>
      have same : slot' = (9,7) := by
        by_contra other
        dsimp only [sessionAt,restaged] at found
        rw [lookup_insert_ne other] at found
        cases found
      subst same
      cases found
      exact ⟨by decide,by decide +kernel⟩
    | staged =>
      have other : slot' ≠ (9,7) := fun same => apart (by rw [same])
      dsimp only [sessionAt,restaged] at found
      rw [lookup_insert_ne other] at found
      cases found

theorem frames_delivered_once_restaged :
    (receive plainEnv restaged shuffledFrames).map (delivers 2) = [true,false,true,false,true,true,false] :=
  (frames_delivered_once plainEnv restaged .staged (9,7) (NoiseSession.new 2 8 7 true 0) shuffledFrames restaged_hears rfl).1.trans
    (by decide +kernel)

end EmberTransport
end Ember.Transport
