import Ember.Transport.Handlers

/-! The calls a transport answers, and runs of them. -/
namespace Ember.Transport
open Bytes Table

variable {A H T : Type} [LinearOrder A]

structure DispatchOutcome where
  responses : List Bytes := []
  controls : List EmberControlMessage := []
  appPayloads : List Bytes := []
  remoteNoisePub : Option Key := none
  rejected : Bool := false
  /-- Every payload shown, with the generation it was held back for if it came out of an initiation.
  The caller sees the payloads only. -/
  surfaced : List (Option Nat × Bytes) := []

namespace EmberTransport
variable (env : Env A H T) (t : EmberTransport A H T) (now : Instant) (addr : A) (draw : Draw) (source : A) (remoteNoisePub : Key)

def takeDeferredIk (generation : Nat) : EmberTransport A H T × Option DeferredIkPayload :=
  let slot := (source,remoteNoisePub)
  match t.deferredIk.lookup slot with
  | none => (t,none)
  | some held =>
    if held.generation ≠ generation then (t,none)
    else
      ({ t with deferredIk := t.deferredIk.erase slot },
        if held.remoteNoisePub ≠ remoteNoisePub ∨ deferredIkPayloadTtl ≤ now-held.stored then none else some held)

def consumeProbeAnswer (payload : Bytes) : EmberTransport A H T × Bool :=
  let slot := (source,remoteNoisePub)
  match t.sessions.lookup slot with
  | none => (t,false)
  | some session =>
    match session.probeNonce with
    | none => (t,false)
    | some nonce =>
      if EmberControlMessage.decode payload = some (.pong nonce) then
        ({ t with sessions := t.sessions.insert slot { session with probeNonce := none } },true)
      else (t,false)

def surface (state : EmberTransport A H T × DispatchOutcome)
    (item : Option Nat × Bytes) : EmberTransport A H T × DispatchOutcome :=
  let (t,outcome) := state
  let outcome := { outcome with surfaced := outcome.surfaced++[item] }
  match EmberControlMessage.decode item.2 with
  | none => (t,{ outcome with appPayloads := outcome.appPayloads++[item.2] })
  | some (.ping nonce) =>
    let answered := t.prepareOutgoing env now draw source outcome.remoteNoisePub (EmberControlMessage.pong nonce).encode
    let responses := match answered.2 with
      | .ready packet => outcome.responses++[packet]
      | _ => outcome.responses
    (answered.1,{ outcome with responses,controls := outcome.controls++[.ping nonce] })
  | some message => (t,{ outcome with controls := outcome.controls++[message] })

def surfaceAll (key : Key)
    (released : Option DeferredIkPayload) (payload : Bytes) (outcome : DispatchOutcome) : EmberTransport A H T × DispatchOutcome :=
  let answered := t.consumeProbeAnswer source key payload
  let payloads := (released.toList.map fun d => (some d.generation,d.payload))++(if answered.2 then [] else [(none,payload)])
  payloads.foldl (surface env now draw source) (answered.1,outcome)

def dispatchIncoming (data : Bytes) (source : A) : EmberTransport A H T × DispatchOutcome :=
  if maxEmberDatagramBytes < data.length then (t,{ rejected := true })
  else
    match t.processIncoming env now draw data source with
    | (t,.rejected) => (t,{ rejected := true })
    | (t,.handshakeResponse _ packets) => (t,{ responses := packets })
    | (t,.handshakeComplete _ key packets payload) =>
      let outcome : DispatchOutcome := { responses := packets,remoteNoisePub := some key }
      match payload with
      | none => (t,outcome)
      | some payload => t.surfaceAll env now draw source key none payload outcome
    | (t,.message _ key payload generation) =>
      let taken := t.takeDeferredIk now source key generation
      taken.1.surfaceAll env now draw source key taken.2 payload { remoteNoisePub := some key }

def cleanup (t : EmberTransport A H T) (now : Instant) : EmberTransport A H T :=
  { t with
    sessions := retain (fun s => if now-s.lastInbound < sessionTimeout then some s else none) t.sessions
    stagedSessions := retain (fun s => if now-s.established < secs 30 then some s else none) t.stagedSessions
    pending := retain (fun p => if now-p.created < secs 30 then some p else none) t.pending
    deferredIk := retain (fun d => if now-d.stored < deferredIkPayloadTtl then some d else none) t.deferredIk
    guards := t.guards.cleanup now }

def abandonStalledHandshake (begunBy : Instant) : EmberTransport A H T × Bool :=
  match t.pending.lookup addr with
  | some (.ikInitiator _ _ _ created target) =>
    if target = remoteNoisePub ∧ created ≤ begunBy then ({ t with pending := t.pending.erase addr },true) else (t,false)
  | _ => (t,false)

def removeSessionFor : EmberTransport A H T :=
  let slot := (addr,remoteNoisePub)
  let t :=
    { t with
      sessions := t.sessions.erase slot
      stagedSessions := t.stagedSessions.erase slot
      deferredIk := t.deferredIk.erase slot }
  (t.abandonStalledHandshake addr remoteNoisePub now).1

end EmberTransport

/-! ### Runs -/

inductive Request (A : Type) where
  | prepareOutgoing (peer : A) (remoteNoisePub : Option Key) (message : Bytes)
  | processIncoming (data : Bytes) (source : A)
  | dispatchIncoming (data : Bytes) (source : A)
  | cleanup
  | removeSessionFor (addr : A) (remoteNoisePub : Key)
  | abandonStalledHandshake (addr : A) (remoteNoisePub : Key) (begunBy : Instant)

structure Call (A : Type) where
  request : Request A
  now : Instant
  draw : Draw

inductive Answer (A : Type) where
  | outgoing (result : OutgoingResult)
  | incoming (result : IncomingResult A)
  | dispatched (outcome : DispatchOutcome)
  | abandoned (stalled : Bool)
  | done

namespace EmberTransport

def step (env : Env A H T) (t : EmberTransport A H T) (call : Call A) : EmberTransport A H T × Answer A :=
  match call.request with
  | .prepareOutgoing peer key message => (t.prepareOutgoing env call.now call.draw peer key message).map id .outgoing
  | .processIncoming data source => (t.processIncoming env call.now call.draw data source).map id .incoming
  | .dispatchIncoming data source => (t.dispatchIncoming env call.now call.draw data source).map id .dispatched
  | .cleanup => (t.cleanup call.now,.done)
  | .removeSessionFor addr key => (t.removeSessionFor call.now addr key,.done)
  | .abandonStalledHandshake addr key begunBy => (t.abandonStalledHandshake addr key begunBy).map id .abandoned

def run (env : Env A H T) (t : EmberTransport A H T) : List (Call A) → EmberTransport A H T × List (Answer A)
  | [] => (t,[])
  | call :: rest =>
    let next := t.step env call
    let done := run env next.1 rest
    (done.1,next.2 :: done.2)

end EmberTransport
end Ember.Transport
