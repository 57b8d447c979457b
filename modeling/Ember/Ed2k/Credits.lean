import Ember.Library.Bytes
import Ember.Library.Table

/-! Credits by user hash (`ed2k/credits.rs`): what a peer sent and got, the SecIdent key bound to its hash, and whether
it has answered a challenge. -/
namespace Ember.Ed2k

abbrev UserHash := BitVec 128
abbrev EmberHash := BitVec 128
abbrev Ip := BitVec 32

def maxCreditRecords : Nat := 50000
def maxBoundEmberHashes : Nat := 4096
def maxIdentityLen : Nat := 64
def maxPublicKeyLen : Nat := 4096

inductive IdentState where
  | unknown | verified | failed | badGuy | needed
  deriving DecidableEq

namespace IdentState

def toU8 : IdentState → UInt8
  | unknown => 0
  | verified => 1
  | failed => 2
  | badGuy => 3
  | needed => 4

def fromU8 (v : UInt8) : IdentState :=
  if v = 1 then verified else if v = 2 then failed else if v = 3 then badGuy else if v = 4 then needed else unknown

@[simp] theorem fromU8_toU8 (state : IdentState) : fromU8 state.toU8 = state := by
  cases state <;> decide

end IdentState

def truncateIdentity (value : Bytes) : Bytes :=
  let starts (i : Nat) : Bool := (value[i]?).all fun byte => byte &&& 0xC0 ≠ 0x80
  if value.length ≤ maxIdentityLen then value
  else value.take (((List.range (maxIdentityLen+1)).reverse.find? starts).getD 0)

structure CreditRecord where
  userHash : UserHash
  uploaded : Nat
  downloaded : Nat
  lastSeen : Int
  publicKey : Bytes
  identState : IdentState
  identIp : Ip
  emberHash : Option EmberHash
  cryptoVerifiedOnce : Bool
  peerName : Bytes
  clientSoftware : Bytes
  seenIp : Ip
  provenEmberHash : Option EmberHash
  keyProven : Bool
  deriving DecidableEq

namespace CreditRecord
variable (now : Int) (r : CreditRecord)

def new (userHash : UserHash) (now : Int) : CreditRecord where
  userHash := userHash
  uploaded := 0
  downloaded := 0
  lastSeen := now
  publicKey := []
  identState := .unknown
  identIp := 0
  emberHash := none
  cryptoVerifiedOnce := false
  peerName := []
  clientSoftware := []
  seenIp := 0
  provenEmberHash := none
  keyProven := false

def persistedPublicKey : Bytes := if r.keyProven then r.publicKey else []

def isDisposable : Bool :=
  r.uploaded == 0 && r.downloaded == 0 && !r.cryptoVerifiedOnce && r.emberHash.isNone && r.provenEmberHash.isNone

def bindKey (key : Bytes) (r : CreditRecord) : CreditRecord :=
  if r.publicKey = key then if r.identState = .unknown then { r with identState := .needed } else r
  else if r.keyProven then r
  else { r with publicKey := key, identState := .needed }

def resetUnanchored : CreditRecord :=
  if !r.cryptoVerifiedOnce ∧ (0 < r.uploaded ∨ 0 < r.downloaded) then { r with uploaded := 1, downloaded := 1 } else r

def setState (state : IdentState) (r : CreditRecord) : CreditRecord :=
  let r := if state = .verified then
      let r := r.resetUnanchored
      { r with cryptoVerifiedOnce := true, keyProven := r.keyProven || !r.publicKey.isEmpty }
    else r
  let r := if state = .failed ∧ !r.keyProven then { r with publicKey := [] } else r
  { r with identState := state }

def pin (ip : Ip) (r : CreditRecord) : CreditRecord :=
  if r.identState = .verified ∧ ip ≠ 0 then { r with identIp := ip } else r

def introduce (peerName clientSoftware : Bytes) (seenIp : Option Ip) (r : CreditRecord) : CreditRecord :=
  { r with
    peerName := if peerName = [] then r.peerName else truncateIdentity peerName
    clientSoftware := if clientSoftware = [] then r.clientSoftware else truncateIdentity clientSoftware
    seenIp := seenIp.getD r.seenIp }

/-- What a loader makes of a record: an unanchored key is dropped, a future `last_seen` pulled back. -/
def adopted : CreditRecord :=
  let publicKey := if r.cryptoVerifiedOnce then r.publicKey else []
  { r with
    lastSeen := min r.lastSeen now
    publicKey
    keyProven := !publicKey.isEmpty
    identState := if publicKey = [] ∧ (r.identState = .needed ∨ r.identState = .failed) then .unknown else r.identState }

end CreditRecord

abbrev Credits := Table UserHash CreditRecord

/-- The order the maps are walked in, and the record the `last_seen` indexes offer for eviction, whenever one is held. -/
structure Eviction where
  walk : ∀ {α : Type}, List α → List α
  perm : ∀ {α : Type} (l : List α), (walk l).Perm l
  victim : Credits → Option UserHash
  held : ∀ credits hash, victim credits = some hash → hash ∈ credits
  found : ∀ credits hash, hash ∈ credits → (victim credits).isSome = true

structure CreditManager where
  credits : Credits
  boundEmberHashes : Table UserHash (EmberHash × Ip)
  cryptoAvailable : Bool
  cryptoUnreadable : Bool

namespace CreditManager
variable (ev : Eviction) (now : Int) (m : CreditManager) (incoming : UserHash) (hash : UserHash)
  (write : CreditRecord → CreditRecord) (currentIp : Ip) (bytes : Nat) (emberHash : EmberHash)

def new (cryptoAvailable cryptoUnreadable : Bool) : CreditManager := ⟨∅,∅,cryptoAvailable,cryptoUnreadable⟩

/-- The record that gives way to a new one, if the map is full. -/
def evicted : Option UserHash :=
  if incoming ∈ m.credits ∨ m.credits.keys.length < maxCreditRecords then none else ev.victim m.credits

def makeRoomForCredit : CreditManager :=
  match m.evicted ev incoming with
  | none => m
  | some victim => { m with credits := m.credits.erase victim }

def update : CreditManager :=
  let m := m.makeRoomForCredit ev hash
  let record := (m.credits.lookup hash).getD (.new hash now)
  { m with credits := m.credits.insert hash (write { record with lastSeen := now }) }

def getCurrentIdentState : IdentState :=
  match m.credits.lookup hash with
  | some record =>
    if record.identState = .verified ∧ currentIp ≠ 0 ∧ record.identIp ≠ currentIp then .badGuy else record.identState
  | none => .unknown

def creditAccepted : Bool :=
  if m.cryptoUnreadable then false
  else
    let state := m.getCurrentIdentState hash currentIp
    if m.cryptoAvailable then !(state = .failed || state = .badGuy || state = .needed) else !(state = .failed || state = .badGuy)

def addUploaded : CreditManager × Bool :=
  if m.creditAccepted hash currentIp then
    (m.update ev now hash fun r => { r with uploaded := saturatingAdd r.uploaded bytes },true)
  else (m,false)

def addDownloaded : CreditManager × Bool :=
  if m.creditAccepted hash currentIp then
    (m.update ev now hash fun r => { r with downloaded := saturatingAdd r.downloaded bytes },true)
  else (m,false)

def setPublicKey (key : Bytes) : CreditManager × Bool :=
  if key = [] ∨ maxPublicKeyLen < key.length then (m,false)
  else
    let refused := (m.credits.lookup hash).any fun r => r.publicKey ≠ key && r.keyProven
    (m.update ev now hash (CreditRecord.bindKey key),!refused)

def setIdentState (state : IdentState) : CreditManager :=
  m.update ev now hash (CreditRecord.setState state)

def amend : CreditManager :=
  match m.credits.lookup hash with
  | none => m
  | some record => { m with credits := m.credits.insert hash (write record) }

def promoteProvenEmber : CreditManager :=
  match m.boundEmberHashes.lookup hash with
  | none => m
  | some (emberHash,boundIp) =>
    m.amend hash fun r =>
      if r.identState = .verified ∧ r.identIp ≠ 0 ∧ r.identIp = boundIp then { r with provenEmberHash := some emberHash } else r

def checkIdentityIp : CreditManager :=
  (m.update ev now hash (CreditRecord.pin currentIp)).promoteProvenEmber hash

/-- `verify_signature`, where the signature is the work of whoever holds a key. -/
def verifySignature (signer : Option Bytes) : Bool :=
  match m.credits.lookup hash with
  | some record => !record.publicKey.isEmpty && signer = some record.publicKey
  | none => false

/-- `handle_secident_signature` from the check on, which runs under one lock. -/
def handleSecidentSignature (ip : Ip) (signer : Option Bytes) : CreditManager × Bool :=
  if m.verifySignature hash signer then ((m.setIdentState ev now hash .verified).checkIdentityIp ev now hash ip,true)
  else if (m.credits.lookup hash).all fun record => record.identState = .needed then
    (m.setIdentState ev now hash .failed,false)
  else (m,false)

def noteClientIdentity (peerIp : Option Ip)
    (peerName clientSoftware : Bytes) : CreditManager :=
  let seenIp := peerIp.filter fun ip => ip ≠ 0
  if hash = 0 ∨ peerName = [] ∧ clientSoftware = [] ∧ seenIp = none then m
  else m.update ev now hash (CreditRecord.introduce peerName clientSoftware seenIp)

def setEmberHash : CreditManager :=
  if hash = 0 ∨ emberHash = 0 then m
  else
    { m with boundEmberHashes := m.boundEmberHashes.erase hash }.update ev now hash fun r => { r with emberHash := some emberHash }

def claimEmberHash
    (replaceable : EmberHash → Bool) : CreditManager × Bool :=
  if hash = 0 ∨ emberHash = 0 then (m,false)
  else if ((m.credits.lookup hash).bind CreditRecord.emberHash).any fun bound => bound ≠ emberHash && !replaceable bound then
    (m,false)
  else (m.setEmberHash ev now hash emberHash,true)

def noteBoundEmberHash (peerIp : Ip) : CreditManager :=
  if hash = 0 ∨ emberHash = 0 then m
  else
    let bound := if hash ∉ m.boundEmberHashes ∧ maxBoundEmberHashes ≤ m.boundEmberHashes.keys.length then
        match (ev.walk m.boundEmberHashes.keys).head? with
        | some victim => m.boundEmberHashes.erase victim
        | none => m.boundEmberHashes
      else m.boundEmberHashes
    { m with boundEmberHashes := bound.insert hash (emberHash,peerIp) }.promoteProvenEmber hash

def noteSessionProvenEmber : CreditManager :=
  if hash = 0 ∨ emberHash = 0 then m
  else m.amend hash fun r => if r.identState = .verified then { r with provenEmberHash := some emberHash } else r

def cleanupStale (maxAgeDays : Int) : CreditManager :=
  let keep (r : CreditRecord) : Option CreditRecord :=
    let lastSeen := min r.lastSeen now
    if now-maxAgeDays*86400 < lastSeen then some { r with lastSeen } else none
  { m with credits := Table.retain keep m.credits }

/-- Whether a stored record ranks no higher than the one that would go for it. -/
def yields (record victim : CreditRecord) : Bool :=
  record.isDisposable && !victim.isDisposable || record.isDisposable == victim.isDisposable && record.lastSeen ≤ victim.lastSeen

def insertLoadedCredit (record : CreditRecord) : CreditManager :=
  let record := record.adopted now
  let hash := record.userHash
  match m.evicted ev hash with
  | none => { m with credits := m.credits.insert hash record }
  | some victim =>
    if (m.credits.lookup victim).any (yields record) then m
    else { m with credits := (m.credits.erase victim).insert hash record }

end CreditManager
end Ember.Ed2k
