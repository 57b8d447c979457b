import Ember.Transport.Tables

/-! What a transport does with an outgoing message and with a packet of each kind. -/
namespace Ember.Transport
open Bytes Table

variable {A H T : Type} [LinearOrder A]

inductive IncomingResult (A : Type) where
  | message (source : A) (remoteNoisePub : Key) (payload : Bytes) (generation : Nat)
  | handshakeResponse (peer : A) (packets : List Bytes)
  | handshakeComplete (peer : A) (remoteNoisePub : Key) (packetsToSend : List Bytes) (decryptedPayload : Option Bytes)
  | rejected
  deriving DecidableEq

inductive OutgoingResult where
  | ready (packet : Bytes)
  | handshakeStarted (packet : Bytes)
  | queued
  | error (text : String)

namespace EmberTransport
variable (cookieOk : Bool) (guards : Guards A) (env : Env A H T) (t : EmberTransport A H T) (now : Instant) (draw : Draw)
  (peer : A) (remoteNoisePub : Option Key) (source : A) (data : Bytes)

def record (addr : A) (recipient : Key) (sent : List (Submission A)) : EmberTransport A H T :=
  { t with written := t.written++sent.map fun submission => { addr,recipient,submission } }

/-! ### Outgoing messages -/

/-- The slot an unnamed message goes out on: a proven session first, then the one used last. -/
def outgoingSlot : Option (A × Key) :=
  match remoteNoisePub with
  | some want => if (t.sessions.lookup (peer,want)).isSome then some (peer,want) else none
  | none => ((slotsAt t.sessions peer).argmax fun b => toLex (b.2.addrValidated,b.2.lastActivity)).map (·.1)

def startIkHandshake (remotePub : Key)
    (firstMessage : Submission A) (carried : List (QueuedPayload A)) : EmberTransport A H T × OutgoingResult :=
  match env.noise.ikInitiator remotePub draw.ephemeral with
  | .error e => (t,.error ("noise init: "++e))
  | .ok initiator =>
    match env.noise.writeMessage initiator firstMessage.message with
    | .error e => (t,.error ("noise write: "++e))
    | .ok (state,written) =>
      let queued := carried.drop (carried.length-maxQueuedPerHandshake)
      let t := t.record peer remotePub [firstMessage]
      ({ t with pending := t.pending.insert peer (.ikInitiator state firstMessage queued now remotePub) },
        .handshakeStarted (emberMagic++[pktIkInit]++written))

def buildXxMsg1 (cookie : Bytes) : Except String (H × Bytes) :=
  match env.noise.xxInitiator draw.ephemeral with
  | .error e => .error ("noise init: "++e)
  | .ok initiator =>
    match env.noise.writeMessage initiator cookie with
    | .error e => .error ("noise write: "++e)
    | .ok (state,written) => .ok (state,emberMagic++[pktXxMsg1]++written)

def startXxHandshake (firstMessage : Submission A) : EmberTransport A H T × OutgoingResult :=
  match buildXxMsg1 env draw [] with
  | .error e => (t,.error e)
  | .ok (state,packet) =>
    ({ t with pending := t.pending.insert peer (.xxInitiatorMsg1 state [{ addressee := none,payload := firstMessage }] now 0) },
      .handshakeStarted packet)

def stalledInbound : Option (List (QueuedPayload A)) :=
  match t.pending.lookup peer with
  | some (.xxResponderMsg2 _ queued created) => if remoteNoisePub.isSome ∧ xxResponderQueueGrace ≤ now-created then some queued else none
  | _ => none

def boundElsewhere : Bool :=
  match t.pending.lookup peer,remoteNoisePub with
  | some (.ikInitiator _ _ _ _ target),some want => target != want
  | _,_ => false

def enqueue (queued : List (QueuedPayload A)) (q : QueuedPayload A) : List (QueuedPayload A) :=
  (if maxQueuedPerHandshake ≤ queued.length then queued.tail else queued)++[q]

def queueOrStart (m : Submission A)
    (carried : List (QueuedPayload A)) : EmberTransport A H T × OutgoingResult :=
  if t.boundElsewhere m.peer m.addressee then (t,.error "handshake in flight for another identity at this address")
  else
    match t.pending.lookup m.peer with
    | some p =>
      ({ t with pending := t.pending.insert m.peer (p.withQueued (enqueue p.queued { addressee := m.addressee,payload := m })) },.queued)
    | none =>
      let t := if maxPending ≤ t.pending.size then { t with pending := evictOldestPending t.pending } else t
      match m.addressee with
      | some remotePub => t.startIkHandshake env now draw m.peer remotePub m carried
      | none => t.startXxHandshake env now draw m.peer m

def prepareOutgoing
    (message : Bytes) : EmberTransport A H T × OutgoingResult :=
  let m : Submission A := { peer,addressee := remoteNoisePub,message }
  if message = [] then (t,.error "empty message")
  else
    match (t.outgoingSlot peer remoteNoisePub).bind fun slot => (t.sessions.lookup slot).map (slot,·) with
    | some (slot,session) =>
      match NoiseSession.sealPayload env.noise { session with lastActivity := now } message with
      | some (session',packet) =>
        ({ t.record peer session.remoteNoisePub [m] with sessions := t.sessions.insert slot session' },.ready packet)
      | none => ({ t with sessions := t.sessions.erase (peer,session.remoteNoisePub) },.error "encrypt failed")
    | none =>
      match t.stalledInbound now peer remoteNoisePub with
      | some queued => { t with pending := t.pending.erase peer }.queueOrStart env now draw m queued
      | none => t.queueOrStart env now draw m []

/-! ### IK packets -/

def initiatorInFlight : Bool :=
  match t.pending.lookup source with
  | some (.ikInitiator _ _ _ _ target) => env.localNoisePub < target
  | some (.xxInitiatorMsg1 ..) => true
  | _ => false

structure IkAnswer (T : Type) where
  payload : Bytes
  response : Bytes
  remoteNoisePub : Key
  transport : T

/-- The responder's side of an IK handshake, which any failing step abandons. -/
def answerIk : Option (IkAnswer T) := do
  let responder ← (env.noise.ikResponder draw.ephemeral).toOption
  let heard := env.noise.readMessage responder data
  let payload ← heard.2
  let (responder,written) ← (env.noise.writeMessage heard.1 []).toOption
  let remoteNoisePub ← env.noise.extractRemoteStatic responder
  let transport ← env.noise.intoTransport responder
  return { payload,response := emberMagic++[pktIkResp]++written,remoteNoisePub,transport }

def crossedInitiator (remoteNoisePub : Key) : Option Bool :=
  match t.pending.lookup source with
  | some (.ikInitiator _ _ _ _ target) => some (target == remoteNoisePub)
  | _ => none

def awaitedResponder : Bool :=
  match t.pending.lookup source with
  | some (.xxResponderMsg2 _ _ created) => now-created < xxResponderQueueGrace
  | _ => false

/-- What a crossed dial has to say to the identity that answered it by dialling. -/
def crossedPayloads (remoteNoisePub : Key) : List (Submission A) :=
  match t.pending.lookup source with
  | some (.ikInitiator _ firstMessage queued _ target) =>
    if target = remoteNoisePub then
      (if firstMessage.message = [] then [] else [firstMessage])++retainAddressedTo queued remoteNoisePub
    else []
  | _ => []

/-- An initiation's payload is held back until its sender has answered a probe. -/
def deferPayload (deferred : Deferred A) (now : Instant) (draw : Draw) (source : A) (session : NoiseSession T)
    (payload : Bytes) : Deferred A × NoiseSession T × List Bytes :=
  let slot := (source,session.remoteNoisePub)
  if payload = [] then (deferred.erase slot,session,[])
  else
    let held := (deferred.erase slot).insert slot
      { payload,remoteNoisePub := session.remoteNoisePub,stored := now,generation := session.generation }
    let deferred := trimDeferredIk env.saltedAddrRank source session.remoteNoisePub held
    match session.sealPayload env.noise (EmberControlMessage.ping draw.probeNonce).encode with
    | some (session',packet) => (deferred,{ session' with probeNonce := some draw.probeNonce },[packet])
    | none => (deferred,session,[])

def completeIkInit (digest : BitVec 256)
    (answer : IkAnswer T) : EmberTransport A H T × IncomingResult A :=
  let key := answer.remoteNoisePub
  let session := NoiseSession.new t.nextGeneration answer.transport key true now
  let keepPending := t.crossedInitiator source key == some false || t.awaitedResponder now source
  let flushed := session.sealAll env.noise (t.crossedPayloads source key)
  let held := deferPayload env t.deferredIk now draw source flushed.1 answer.payload
  let t := t.record source key (flushed.2.map (·.1))
  let t :=
    { t with
      nextGeneration := t.nextGeneration+1
      guards := t.guards.rememberHandshakeResponse digest answer.response
      deferredIk := held.1
      initiations := t.initiations++[(t.nextGeneration,answer.payload)] }
  let installed := t.installSession env source held.2.1
  if installed.2 then
    ({ installed.1 with pending := if keepPending then t.pending else t.pending.erase source },
      .handshakeComplete source key (answer.response :: flushed.2.map (·.2)++held.2.2) none)
  else
    ({ installed.1 with
        deferredIk := installed.1.deferredIk.erase (source,key)
        guards := installed.1.guards.forgetHandshake digest },.rejected)

def handleIkInit : EmberTransport A H T × IncomingResult A :=
  if t.initiatorInFlight env source then (t,.rejected)
  else
    match t.guards.checkHandshakeReplay env now pktIkInit source data with
    | (guards,.seen (some packet)) => ({ t with guards },.handshakeResponse source [packet])
    | (guards,.seen none) => ({ t with guards },.rejected)
    | (guards,.fresh digest) =>
      match guards.takeHandshakeToken now with
      | (guards,false) => ({ t with guards := guards.forgetHandshake digest },.rejected)
      | (guards,true) =>
        match answerIk env draw data with
        | none => ({ t with guards },.rejected)
        | some answer => { t with guards }.completeIkInit env now draw source digest answer

/-- A handshake that has named its peer becomes a proven session at the peer's address. What waited
goes out, the first payload inside the handshake when it has room for one. -/
def establish (key : Key) (transport : T) (ikAuthenticated : Bool)
    (inHandshake waiting : List (Submission A)) (packets : List Bytes) (payload : Option Bytes) : EmberTransport A H T × IncomingResult A :=
  let session := (NoiseSession.new t.nextGeneration transport key ikAuthenticated now).validated
  let flushed := session.sealAll env.noise waiting
  let t := t.record source key (inHandshake++flushed.2.map (·.1))
  let installed := installSession env { t with nextGeneration := t.nextGeneration+1 } source flushed.1
  (installed.1,.handshakeComplete source key (packets++flushed.2.map (·.2)) payload)

def handleIkResp : EmberTransport A H T × IncomingResult A :=
  match t.pending.lookup source with
  | some (.ikInitiator state firstMessage queued created target) =>
    let heard := env.noise.readMessage state data
    let kept := { t with pending := t.pending.insert source (.ikInitiator heard.1 firstMessage queued created target) }
    match heard.2,env.noise.extractRemoteStatic heard.1 with
    | none,_ => (kept,.rejected)
    | some _,none => (kept,.rejected)
    | some _,some key =>
      -- from here on the handshake is consumed
      let t := { t with pending := t.pending.erase source }
      match env.noise.intoTransport heard.1 with
      | none => (t,.rejected)
      | some transport => t.establish env now source key transport true [] (retainAddressedTo queued key) [] none
  | _ => (t,.rejected)

/-! ### XX packets -/

def handleXxCookie : EmberTransport A H T × IncomingResult A :=
  if data.length ≠ xxCookieLen then (t,.rejected)
  else
    match t.pending.lookup source with
    | some (.xxInitiatorMsg1 _ queued _ spent) =>
      if spent < maxXxCookieRetries then
        match buildXxMsg1 env draw data with
        | .error _ => (t,.rejected)
        | .ok (state,packet) =>
          ({ t with pending := t.pending.insert source (.xxInitiatorMsg1 state queued now (min (spent+1) 255)) },
            .handshakeResponse source [packet])
      else (t,.rejected)
    | _ => (t,.rejected)

def answerXx : Option (H × Bytes) := do
  let responder ← (env.noise.xxResponder draw.ephemeral).toOption
  let heard := env.noise.readMessage responder data
  let _ ← heard.2
  let (responder,written) ← (env.noise.writeMessage heard.1 []).toOption
  return (responder,emberMagic++[pktXxMsg2]++written)

/-- The responder handshake of an address keeps the queue and age of the one it replaces. -/
def parkResponder (state : H) : Pending A H :=
  let pending := if maxPending ≤ t.pending.size then evictOldestPending t.pending else t.pending
  match pending.lookup source with
  | some (.xxResponderMsg2 _ queued created) => pending.insert source (.xxResponderMsg2 state queued created)
  | _ => pending.insert source (.xxResponderMsg2 state [] now)

def ownDialInFlight : Bool :=
  match t.pending.lookup source with
  | some (.ikInitiator ..) => true
  | some (.xxInitiatorMsg1 ..) => true
  | _ => false

def withinBudget : Guards A × Bool :=
  if cookieOk then (guards,true) else guards.xxMsg2BudgetAvailable now

def spendUnless : Guards A := if cookieOk then guards else guards.spendXxMsg2Budget

def handleXxMsg1 : EmberTransport A H T × IncomingResult A :=
  if t.ownDialInFlight source then (t,.rejected)
  else if data.length < xxMsg1EphemeralLen then (t,.rejected)
  else
    let (guards,cookieOk) := t.guards.xxCookieIsValid env now draw source (data.drop xxMsg1EphemeralLen)
    match withinBudget cookieOk guards now with
    | (guards,false) =>
      let (guards,packet) := guards.xxCookiePacket env now draw source
      ({ t with guards },.handshakeResponse source [packet])
    | (guards,true) =>
      match guards.checkHandshakeReplay env now pktXxMsg1 source data with
      | (guards,.seen (some packet)) => ({ t with guards := spendUnless cookieOk guards },.handshakeResponse source [packet])
      | (guards,.seen none) => ({ t with guards },.rejected)
      | (guards,.fresh digest) =>
        match guards.takeHandshakeToken now with
        | (guards,false) => ({ t with guards := guards.forgetHandshake digest },.rejected)
        | (guards,true) =>
          match answerXx env draw data with
          | none => ({ t with guards },.rejected)
          | some (state,packet) =>
            ({ t with
                pending := t.parkResponder now source state
                guards := spendUnless cookieOk (guards.rememberHandshakeResponse digest packet) },
              .handshakeResponse source [packet])

def handleXxMsg2 : EmberTransport A H T × IncomingResult A :=
  match t.pending.lookup source with
  | some (.xxInitiatorMsg1 state queued created retries) =>
    let heard := env.noise.readMessage state data
    let kept := { t with pending := t.pending.insert source (.xxInitiatorMsg1 heard.1 queued created retries) }
    match heard.2,env.noise.extractRemoteStatic heard.1 with
    | none,_ => (kept,.rejected)
    | some _,none => (kept,.rejected)
    | some _,some key =>
      let t := { t with pending := t.pending.erase source }
      let deliverable := retainAddressedTo queued key
      match env.noise.writeMessage heard.1 ((deliverable.head?.map (·.message)).getD []) with
      | .error _ => (t,.rejected)
      | .ok (state,written) =>
        -- the first payload is inside the third message by now, whatever becomes of the rest
        match env.noise.intoTransport state with
        | none => (t.record source key (deliverable.take 1),.rejected)
        | some transport =>
          t.establish env now source key transport false (deliverable.take 1) (deliverable.drop 1)
            [emberMagic++[pktXxMsg3]++written] none
  | _ => (t,.rejected)

def handleXxMsg3 : EmberTransport A H T × IncomingResult A :=
  match t.pending.lookup source with
  | some (.xxResponderMsg2 state queued created) =>
    let heard := env.noise.readMessage state data
    match heard.2 with
    | none => ({ t with pending := t.pending.insert source (.xxResponderMsg2 heard.1 queued created) },.rejected)
    | some payload =>
      -- consumed before the peer is named, unlike in the other two handlers
      let t := { t with pending := t.pending.erase source }
      match env.noise.extractRemoteStatic heard.1 with
      | none => (t,.rejected)
      | some key =>
        match env.noise.intoTransport heard.1 with
        | none => (t,.rejected)
        | some transport =>
          t.establish env now source key transport false [] (retainAddressedTo queued key) [] (if payload = [] then none else some payload)
  | _ => (t,.rejected)

/-! ### Transport packets -/

def reader (noise : Noise H T) (nonce : Nat) (ciphertext : Bytes) (walk : List ((A × Key) × NoiseSession T)) :
    Option ((A × Key) × NoiseSession T × Bytes) :=
  walk.findSome? fun b => (b.2.read noise nonce ciphertext).map fun payload => (b.1,b.2,payload)

def handleTransport : EmberTransport A H T × IncomingResult A :=
  if data.length < 8 then (t,.rejected)
  else
    let nonce := littleEndian (data.take 8)
    let ciphertext := data.drop 8
    match reader env.noise nonce ciphertext (slotsAt t.sessions source) with
    | some (slot,session,payload) =>
      ({ t with sessions := t.sessions.insert slot (session.heard nonce now) },
        .message source session.remoteNoisePub payload session.generation)
    | none =>
      match reader env.noise nonce ciphertext (slotsAt t.stagedSessions source) with
      | some (slot,session,payload) =>
        (t.promote env slot (session.heard nonce now),.message source session.remoteNoisePub payload session.generation)
      | none => (t,.rejected)

def processIncoming (source : A) : EmberTransport A H T × IncomingResult A :=
  if maxEmberDatagramBytes < data.length then (t,.rejected)
  else if data.length < headerLen then (t,.rejected)
  else if data.take 2 ≠ emberMagic then (t,.rejected)
  else
    let pktType := (data.drop 2).headD 0
    let payload := data.drop headerLen
    if pktType = pktIkInit then t.handleIkInit env now draw source payload
    else if pktType = pktIkResp then t.handleIkResp env now source payload
    else if pktType = pktXxMsg1 then t.handleXxMsg1 env now draw source payload
    else if pktType = pktXxMsg2 then t.handleXxMsg2 env now source payload
    else if pktType = pktXxMsg3 then t.handleXxMsg3 env now source payload
    else if pktType = pktXxCookie then t.handleXxCookie env now draw source payload
    else if pktType = pktTransport then t.handleTransport env now source payload
    else (t,.rejected)

end EmberTransport
end Ember.Transport
