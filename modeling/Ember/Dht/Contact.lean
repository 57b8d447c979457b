import Ember.Dht.Record

/-! Contacts: where a node is reached, the keys it answers under, whether a peer's word is enough to
dial it, and its block. -/
namespace Ember.Dht

def kBucketSize : Nat := 20

inductive IpAddr where
  | v4 (ip : Ipv4Addr)
  | v6 (ip : BitVec 128)
  deriving DecidableEq

namespace Ipv4Addr
variable (ip : Ipv4Addr)

def octet (i : Nat) : Nat := ip.toNat/256^(3-i)%256

def isLoopback : Bool := octet ip 0 == 127

def isPrivate : Bool :=
  octet ip 0 == 10 || octet ip 0 == 172 && 16 ≤ octet ip 1 && octet ip 1 ≤ 31 ||
    octet ip 0 == 192 && octet ip 1 == 168

def isLinkLocal : Bool := octet ip 0 == 169 && octet ip 1 == 254
def isUnspecified : Bool := ip == 0
def isBroadcast : Bool := ip.toNat == 2^32-1
def isMulticast : Bool := 224 ≤ octet ip 0 && octet ip 0 ≤ 239
def isThisNetwork : Bool := octet ip 0 == 0
def isReservedFuture : Bool := 240 ≤ octet ip 0
def isSharedAddress : Bool := octet ip 0 == 100 && octet ip 1/64 == 1

def isDocumentation : Bool :=
  octet ip 0 == 192 && octet ip 1 == 0 && octet ip 2 == 2 ||
    octet ip 0 == 198 && octet ip 1 == 51 && octet ip 2 == 100 ||
    octet ip 0 == 203 && octet ip 1 == 0 && octet ip 2 == 113

def isBenchmarking : Bool := octet ip 0 == 198 && octet ip 1/2 == 9
def isProtocolAssignment : Bool := octet ip 0 == 192 && octet ip 1 == 0 && octet ip 2 == 0
def is6to4RelayAnycast : Bool := octet ip 0 == 192 && octet ip 1 == 88 && octet ip 2 == 99

def isSpecialUse : Bool :=
  isLoopback ip || isPrivate ip || isLinkLocal ip || isUnspecified ip || isBroadcast ip || isMulticast ip ||
    isThisNetwork ip || isReservedFuture ip || isSharedAddress ip || isDocumentation ip || isBenchmarking ip ||
    isProtocolAssignment ip || is6to4RelayAnycast ip

def isLanOrCgnat : Bool := isPrivate ip || isLinkLocal ip || isSharedAddress ip

def isBogus : Bool := isSpecialUse ip && !isLanOrCgnat ip

end Ipv4Addr

structure EmberContact where
  nodeId : EmberNodeId
  ip : IpAddr
  port : Nat
  lastSeen : Int := 0
  noisePub : BitVec 256 := 0
  ed25519Pub : BitVec 256 := 0
  failedQueries : Nat := 0
  deriving DecidableEq

namespace EmberContact
variable (contact : EmberContact)

def addr : IpAddr × Nat := (contact.ip,contact.port)

def isVerified : Bool := 0 < contact.lastSeen

def isDialable : Bool :=
  match contact.ip with
  | .v4 ip => contact.port != 0 && !Ipv4Addr.isBogus ip
  | .v6 _ => false

def subnetKey : Nat :=
  match contact.ip with
  | .v4 ip => ip.toNat/256*256
  | .v6 ip => ip.toNat/2^80

end EmberContact

theorem nodeId_lawful : LawfulBEq EmberNodeId := inferInstance

end Ember.Dht
