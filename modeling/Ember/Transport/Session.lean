import Ember.Library.Bytes
import Ember.Library.Ordered
import Ember.Library.ReplayWindow

/-! Encrypted sessions and the handshakes that lead to them. The Noise library is a parameter: a
handshake state, a transport state and what calls on them return. Socket addresses are only
compared, so any ordered type stands for them. -/
namespace Ember.Transport
open Bytes Table

abbrev Key := BitVec 256

/-- A reading of the monotonic clock, in nanoseconds. -/
abbrev Instant := Nat

def secs (n : Nat) : Nat := n*1000000000

def emberMagic : Bytes := [0xEB,0x3E]
def pktIkInit : UInt8 := 0x01
def pktIkResp : UInt8 := 0x02
def pktXxMsg1 : UInt8 := 0x03
def pktXxMsg2 : UInt8 := 0x04
def pktXxMsg3 : UInt8 := 0x05
def pktXxCookie : UInt8 := 0x06
def pktTransport : UInt8 := 0x10
def headerLen : Nat := 3

def sessionTimeout : Nat := secs 900
def maxSessions : Nat := 4096
def maxStagedSessions : Nat := 256
def xxResponderQueueGrace : Nat := secs 3
def maxQueuedPerHandshake : Nat := 64
def maxSessionsPerAddr : Nat := 4
def maxXxCookieRetries : Nat := 2
def maxPending : Nat := 512
def replayWindowBits : Nat := 64
def maxDeferredIkPayloadsPerAddr : Nat := 3
def maxDeferredIkPayloads : Nat := 4096
def deferredIkPayloadTtl : Nat := secs 30
def maxEmberDatagramBytes : Nat := 4096

/-! ### Control messages -/

inductive EmberControlMessage where
  | ping (nonce : UInt64)
  | pong (nonce : UInt64)
  | exchangeRequest
  | exchangeData (payload : Bytes)
  deriving DecidableEq

namespace EmberControlMessage

def controlVersion : UInt8 := 0xC1
def controlKindPing : UInt8 := 1
def controlKindPong : UInt8 := 2
def controlKindExchangeRequest : UInt8 := 3
def controlKindExchangeData : UInt8 := 4

def encode : EmberControlMessage → Bytes
  | ping nonce => [controlVersion,controlKindPing]++ofNatLittleEndian 8 nonce.toNat
  | pong nonce => [controlVersion,controlKindPong]++ofNatLittleEndian 8 nonce.toNat
  | exchangeRequest => [controlVersion,controlKindExchangeRequest]
  | exchangeData payload => [controlVersion,controlKindExchangeData]++payload

def decode : Bytes → Option EmberControlMessage
  | version :: kind :: rest =>
    if version ≠ controlVersion then none
    else if kind = controlKindPing ∨ kind = controlKindPong then
      if rest.length ≠ 8 then none
      else
        let nonce := UInt64.ofNat (littleEndian rest)
        some (if kind = controlKindPing then ping nonce else pong nonce)
    else if kind = controlKindExchangeRequest then if rest.length ≠ 0 then none else some exchangeRequest
    else if kind = controlKindExchangeData then some (exchangeData rest)
    else none
  | _ => none

end EmberControlMessage

/-! ### The Noise library and the other primitives -/

structure Noise (H T : Type) where
  ikInitiator : Key → Nat → Except String H
  ikResponder : Nat → Except String H
  xxInitiator : Nat → Except String H
  xxResponder : Nat → Except String H
  writeMessage : H → Bytes → Except String (H × Bytes)
  /-- A read that fails may leave the handshake state changed. -/
  readMessage : H → Bytes → H × Option Bytes
  extractRemoteStatic : H → Option Key
  intoTransport : H → Option T
  encrypt : T → Nat → Bytes → Option Bytes
  decrypt : T → Nat → Bytes → Option Bytes

structure Env (A H T : Type) where
  noise : Noise H T
  localNoisePub : Key
  handshakeDigest : UInt8 → Bytes → BitVec 256
  xxCookieFor : BitVec 256 → A → Bytes
  saltedAddrRank : A → Nat

structure Draw where
  ephemeral : Nat := 0
  probeNonce : UInt64 := 0
  secret : BitVec 256 := 0
  prevSecret : BitVec 256 := 0

/-- The library without its cryptography, to run the model on: a handshake message names its
sender by one byte, a frame the key it is sealed under, and zero is no usable static key. -/
def plainNoise : Noise Nat Nat where
  ikInitiator key _ := .ok key.toNat
  ikResponder _ := .ok 0
  xxInitiator _ := .ok 0
  xxResponder _ := .ok 0
  writeMessage h message := .ok (h,message)
  readMessage h
    | [] => (h,none)
    | sender :: payload => (sender.toNat,some payload)
  extractRemoteStatic h := if h = 0 then none else some (BitVec.ofNat 256 h)
  intoTransport h := some h
  encrypt key _ message := some (UInt8.ofNat key :: message)
  decrypt key _
    | [] => none
    | sealer :: message => if sealer.toNat = key then some message else none

def plainEnv : Env Nat Nat Nat where
  noise := plainNoise
  localNoisePub := 0
  handshakeDigest kind data := BitVec.ofNat 256 (littleEndian (kind :: data))
  xxCookieFor _ _ := List.replicate 16 0
  saltedAddrRank addr := addr

/-! ### Sessions -/

structure NoiseSession (T : Type) where
  transport : T
  remoteNoisePub : Key
  lastActivity : Instant
  lastInbound : Instant
  established : Instant
  ikAuthenticated : Bool
  addrValidated : Bool := false
  probeNonce : Option UInt64 := none
  sendNonce : Nat := 0
  /-- `recv_high` and `recv_window`. -/
  recv : ReplayWindow replayWindowBits := {}
  generation : Nat
  deriving DecidableEq

namespace NoiseSession

variable {H T : Type}
variable (noise : Noise H T) (s : NoiseSession T) (nonce : Nat)

def new (generation : Nat) (transport : T) (remoteNoisePub : Key) (ikAuthenticated : Bool) (now : Instant) : NoiseSession T :=
  { transport,remoteNoisePub,lastActivity := now,lastInbound := now,established := now,ikAuthenticated,generation }

def validated : NoiseSession T := { s with addrValidated := true }

def sealPayload (message : Bytes) : Option (NoiseSession T × Bytes) :=
  (noise.encrypt s.transport s.sendNonce message).map fun sealed =>
    ({ s with sendNonce := (s.sendNonce+1)%2^64 },emberMagic++[pktTransport]++ofNatLittleEndian 8 s.sendNonce++sealed)

def replayPrecheck : Bool := s.recv.precheck nonce

def replayCommit : NoiseSession T := { s with recv := s.recv.commit nonce }

/-- What a frame reads as under this session, when it is neither replayed nor forged. -/
def read (ciphertext : Bytes) : Option Bytes :=
  if s.replayPrecheck nonce then noise.decrypt s.transport nonce ciphertext else none

def heard (now : Instant) : NoiseSession T :=
  { s.replayCommit nonce with lastActivity := now,lastInbound := now,addrValidated := true }

end NoiseSession

/-! ### Payloads waiting for a session -/

/-- The arguments of one `prepare_outgoing` call, and a payload that only the record of what was
written reads. -/
structure Submission (A : Type) where
  peer : A
  addressee : Option Key
  message : Bytes
  deriving DecidableEq

structure QueuedPayload (A : Type) where
  addressee : Option Key
  payload : Submission A

namespace QueuedPayload

variable {A : Type}

def bytes (q : QueuedPayload A) : Bytes := q.payload.message

def addressedTo (q : QueuedPayload A) (remoteNoisePub : Key) : Bool := q.addressee.all (· == remoteNoisePub)

end QueuedPayload

def retainAddressedTo {A : Type} (queued : List (QueuedPayload A)) (remoteNoisePub : Key) : List (Submission A) :=
  (queued.filter (·.addressedTo remoteNoisePub)).map (·.payload)

inductive PendingHandshake (A H : Type) where
  | ikInitiator (state : H) (firstMessage : Submission A) (queued : List (QueuedPayload A)) (created : Instant) (remoteNoisePub : Key)
  | xxInitiatorMsg1 (state : H) (queued : List (QueuedPayload A)) (created : Instant) (cookieRetries : Nat)
  | xxResponderMsg2 (state : H) (queued : List (QueuedPayload A)) (created : Instant)

namespace PendingHandshake

variable {A H : Type}

def created : PendingHandshake A H → Instant
  | ikInitiator _ _ _ created _ => created
  | xxInitiatorMsg1 _ _ created _ => created
  | xxResponderMsg2 _ _ created => created

def queued : PendingHandshake A H → List (QueuedPayload A)
  | ikInitiator _ _ queued _ _ => queued
  | xxInitiatorMsg1 _ queued _ _ => queued
  | xxResponderMsg2 _ queued _ => queued

def withQueued (p : PendingHandshake A H) (queued : List (QueuedPayload A)) : PendingHandshake A H :=
  match p with
  | ikInitiator state firstMessage _ created remoteNoisePub => ikInitiator state firstMessage queued created remoteNoisePub
  | xxInitiatorMsg1 state _ created cookieRetries => xxInitiatorMsg1 state queued created cookieRetries
  | xxResponderMsg2 state _ created => xxResponderMsg2 state queued created

end PendingHandshake

structure DeferredIkPayload where
  payload : Bytes
  remoteNoisePub : Key
  stored : Instant
  generation : Nat

/-- One plaintext encrypted: where the packet goes, the static key it can be read under and the call
that submitted it. -/
structure Written (A : Type) where
  addr : A
  recipient : Key
  submission : Submission A
  deriving DecidableEq

def NoiseSession.sealAll {A H T : Type} (noise : Noise H T) (s : NoiseSession T) :
    List (Submission A) → NoiseSession T × List (Submission A × Bytes)
  | [] => (s,[])
  | m :: rest =>
    match s.sealPayload noise m.message with
    | none => s.sealAll noise rest
    | some (s',packet) =>
      let done := s'.sealAll noise rest
      (done.1,(m,packet) :: done.2)

end Ember.Transport
