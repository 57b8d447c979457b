import Ember.Ed2k.Credits
import Ember.Library.Reader
import Ember.Library.Utf8

/-! The `clients.met` cache: a record array, the hashes whose credits are anchored to a proven key, then names. -/
namespace Ember.Ed2k
open Bytes Reader

def clientsMetMagic : Nat := 0xE3B20001
def clientsMetVersion : UInt8 := 4
def clientsMetAnchorMagic : Nat := 0xE3B20003
def clientsMetIdentityMagic : Nat := 0xE3B20004
def maxClientsMetLen : Nat := 50*1024*1024

def writeEmberTrailer : Option EmberHash → Bytes
  | some emberHash => [1]++ofArray emberHash
  | none => [0]

namespace CreditRecord
variable (r : CreditRecord)

def write : Bytes :=
  ofArray r.userHash++(ofNatLittleEndian 8 r.uploaded++(ofNatLittleEndian 8 r.downloaded++(ofI64 r.lastSeen++
    (ofNatLittleEndian 4 r.identIp.toNat++([r.identState.toU8]++(ofNatLittleEndian 2 r.persistedPublicKey.length++
      (r.persistedPublicKey++writeEmberTrailer r.emberHash)))))))

def writeIdentity : Bytes :=
  let name := truncateIdentity r.peerName
  let software := truncateIdentity r.clientSoftware
  ofArray r.userHash++(ofNatLittleEndian 1 name.length++(name++(ofNatLittleEndian 1 software.length++software)))

def isCached : Bool := 0 < r.uploaded || 0 < r.downloaded || r.emberHash.isSome

end CreditRecord

namespace CreditManager
variable (ev : Eviction) (m : CreditManager) (records : List CreditRecord)

def cached : List CreditRecord := (ev.walk (Table.values m.credits)).filter CreditRecord.isCached

def writeAnchors : Bytes :=
  let anchored := records.filter CreditRecord.cryptoVerifiedOnce
  ofNatLittleEndian 4 clientsMetAnchorMagic++(ofNatLittleEndian 4 anchored.length++anchored.flatMap fun r => ofArray r.userHash)

def writeIdentities : Bytes :=
  let named := records.filter fun r => r.peerName ≠ [] || r.clientSoftware ≠ []
  ofNatLittleEndian 4 clientsMetIdentityMagic++(ofNatLittleEndian 4 named.length++named.flatMap CreditRecord.writeIdentity)

def serialize : Bytes :=
  let records := m.cached ev
  ofNatLittleEndian 4 clientsMetMagic++([clientsMetVersion]++(ofNatLittleEndian 4 records.length++
    (records.flatMap CreditRecord.write++(writeAnchors records++writeIdentities records))))

end CreditManager

def readIdent (versioned : Bool) : Reader Unit (Ip × IdentState) :=
  if versioned then do
    let ip ← little () 4
    let state ← byte ()
    return (BitVec.ofNat 32 ip,.fromU8 state)
  else return (0,.unknown)

def readKey : Reader Unit Bytes := do
  let len ← little () 2
  if maxPublicKeyLen < len then fail () else exact () len

def readEmberTrailer (present : Bool) : Reader Unit (Option EmberHash) :=
  if present then do
    let has ← byte ()
    if has = 1 then do
      let hash ← exact () 16
      return some (array 128 hash)
    else return none
  else return none

/-- One record. Identification is per session, so a stored proof comes back as a need for one; it still backs up the
anchor. -/
def readCreditRecord (versioned emberTrailer : Bool) : Reader Unit CreditRecord := do
  let hash ← exact () 16
  let uploaded ← little () 8
  let downloaded ← little () 8
  let lastSeen ← exact () 8
  let ident ← readIdent versioned
  let publicKey ← readKey
  let emberHash ← readEmberTrailer emberTrailer
  return {
    userHash := array 128 hash
    uploaded, downloaded, publicKey, emberHash
    lastSeen := i64 lastSeen
    identState := if ident.2 = .verified ∨ ident.2 = .failed then .needed else ident.2
    identIp := ident.1
    cryptoVerifiedOnce := ident.2 = .verified
    peerName := []
    clientSoftware := []
    seenIp := 0
    provenEmberHash := none
    keyProven := false }

def readAnchorSection : Reader Unit (List UserHash) := do
  let magic ← little () 4
  let count ← little () 4
  if magic ≠ clientsMetAnchorMagic then fail () else do
    let body ← exact () (count*16)
    return (List.range count).map fun i => array 128 (slice body (i*16) (i*16+16))

def readIdentityString : Reader Unit Bytes := do
  let len ← byte ()
  let text ← exact () len.toNat
  return Utf8.lossy text

def readIdentity : Reader Unit (UserHash × Bytes × Bytes) := do
  let hash ← exact () 16
  let peerName ← readIdentityString
  let clientSoftware ← readIdentityString
  return (array 128 hash,peerName,clientSoftware)

def readIdentitySection (data : Bytes) : List (UserHash × Bytes × Bytes) :=
  match (do let magic ← little () 4; let count ← little () 4; return (magic,count) : Reader Unit (Nat × Nat)) data with
  | .ok ((magic,count),rest) =>
    if magic ≠ clientsMetIdentityMagic then [] else (upTo readIdentity (min count maxCreditRecords) rest).1
  | .error _ => []

def named : List CreditRecord → UserHash × Bytes × Bytes → List CreditRecord
  | [], _ => []
  | r :: rest, identity =>
    if r.userHash = identity.1 ∧ identity.1 ∉ rest.map CreditRecord.userHash then
      { r with peerName := identity.2.1, clientSoftware := identity.2.2 } :: rest
    else r :: named rest identity

def CreditRecord.anchoredBy (anchored : List UserHash) (r : CreditRecord) : CreditRecord :=
  { r with cryptoVerifiedOnce := r.cryptoVerifiedOnce || r.userHash ∈ anchored }

/-- What the sections behind a whole record array add to it. -/
def withSections (anchors identities : Bool) (records : List CreditRecord) (data : Bytes) : List CreditRecord :=
  if anchors then
    match readAnchorSection data with
    | .error _ => records
    | .ok (anchored,rest) =>
      let records := records.map (CreditRecord.anchoredBy anchored)
      if identities then (readIdentitySection rest).foldl named records else records
  else records

def readClientsMet (data : Bytes) : List CreditRecord :=
  let versioned := littleEndian (data.take 4) = clientsMetMagic
  let version := (data[4]?).getD 0
  if data.length < 4 ∨ versioned ∧ data.length < 9 then []
  else
    let header := if versioned then 9 else 4
    let count := littleEndian (slice data (header-4) header)
    let expected := min count maxCreditRecords
    let read := upTo (readCreditRecord versioned (versioned ∧ 2 ≤ version)) expected (data.drop header)
    if read.1.length = expected then withSections (versioned ∧ 3 ≤ version) (versioned ∧ 4 ≤ version) read.1 read.2 else read.1

structure EmuleCredit where
  userHash : UserHash
  uploaded : Nat
  downloaded : Nat
  lastSeen : Int
  publicKey : Bytes

def looksLikeEmule (data : Bytes) : Bool :=
  match data.head? with
  | some first =>
    let recordLen := if first = 0x12 then 16+4*5+2+1+80 else 16+4*5+2
    (first = 0x12 || first = 0x11) && 5 ≤ data.length && littleEndian (slice data 1 5)*recordLen = data.length-5
  | none => false

def EmuleCredit.record (now : Int) (c : EmuleCredit) : CreditRecord :=
  { CreditRecord.new c.userHash now with
    uploaded := c.uploaded
    downloaded := c.downloaded
    lastSeen := c.lastSeen
    publicKey := c.publicKey
    identState := if c.publicKey = [] then .unknown else .needed
    cryptoVerifiedOnce := c.publicKey ≠ [] }

namespace CreditManager

/-- `load_from_file` on the bytes of the file; `parseEmule` reads eMule's format, if it can. -/
def loadFromFile (parseEmule : Bytes → List EmuleCredit) (ev : Eviction) (now : Int) (m : CreditManager) (data : Bytes) :
    CreditManager :=
  if maxClientsMetLen < data.length then m
  else
    let records := if 4 ≤ data.length ∧ looksLikeEmule data then (parseEmule data).map (EmuleCredit.record now) else readClientsMet data
    records.foldl (insertLoadedCredit ev now) m

end CreditManager
end Ember.Ed2k
