import Ember.Transport.Session

/-! What decides whether a handshake packet is answered: the memory of those seen lately, the retry
cookies and the two token buckets. -/
namespace Ember.Transport
open Bytes Table

def handshakeReplayTtl : Nat := secs 30
def maxReplayDigests : Nat := 8192
def xxMsg1EphemeralLen : Nat := 32
def xxCookieLen : Nat := 16
def xxCookieRotation : Nat := secs 15
def xxUnvalidatedMsg2PerSec : Nat := 16
def xxUnvalidatedMsg2Burst : Nat := 64
def ikHandshakePerSec : Nat := 64
def ikHandshakeBurst : Nat := 256

structure RecentHandshake (A : Type) where
  seenAt : Instant
  source : A
  response : Option Bytes

inductive HandshakeReplay where
  | fresh (digest : BitVec 256)
  | seen (response : Option Bytes)

structure Guards (A : Type) where
  recentHandshakes : Table (BitVec 256) (RecentHandshake A) := ∅
  recentHandshakeOrder : List (BitVec 256 × Instant) := []
  cookieSecret : BitVec 256
  prevCookieSecret : BitVec 256
  cookieRotatedAt : Instant
  xxMsg2Tokens : Nat := xxUnvalidatedMsg2Burst
  xxMsg2RefilledAt : Instant
  ikTokens : Nat := ikHandshakeBurst
  ikRefilledAt : Instant

namespace Guards

variable {A H T : Type} [DecidableEq A]
variable (env : Env A H T) (g : Guards A) (now : Instant) (draw : Draw) (source : A) (digest : BitVec 256)

def new : Guards A :=
  { cookieSecret := draw.secret,prevCookieSecret := draw.prevSecret,cookieRotatedAt := now,
    xxMsg2RefilledAt := now,ikRefilledAt := now }

def earned (rate : Nat) (refilledAt now : Instant) : Nat := (now-refilledAt)/1000000*rate/1000

def takeHandshakeToken : Guards A × Bool :=
  let earned := earned ikHandshakePerSec g.ikRefilledAt now
  let g := if 0 < earned then { g with ikTokens := min (g.ikTokens+earned) ikHandshakeBurst,ikRefilledAt := now } else g
  if g.ikTokens = 0 then (g,false) else ({ g with ikTokens := g.ikTokens-1 },true)

def refillXxMsg2Budget : Guards A :=
  let earned := earned xxUnvalidatedMsg2PerSec g.xxMsg2RefilledAt now
  if earned = 0 then g
  else { g with xxMsg2Tokens := min (g.xxMsg2Tokens+earned) xxUnvalidatedMsg2Burst,xxMsg2RefilledAt := now }

def xxMsg2BudgetAvailable : Guards A × Bool :=
  let g := g.refillXxMsg2Budget now
  (g,0 < g.xxMsg2Tokens)

def spendXxMsg2Budget : Guards A := { g with xxMsg2Tokens := g.xxMsg2Tokens-1 }

def rotateCookieSecretIfDue : Guards A :=
  let elapsed := now-g.cookieRotatedAt
  if elapsed < xxCookieRotation then g
  else
    { g with
      prevCookieSecret := if elapsed < xxCookieRotation*2 then g.cookieSecret else draw.prevSecret
      cookieSecret := draw.secret
      cookieRotatedAt := now }

def xxCookiePacket : Guards A × Bytes :=
  let g := g.rotateCookieSecretIfDue now draw
  (g,emberMagic++[pktXxCookie]++env.xxCookieFor g.cookieSecret source)

def xxCookieIsValid (cookie : Bytes) : Guards A × Bool :=
  if cookie.length ≠ xxCookieLen then (g,false)
  else
    let g := g.rotateCookieSecretIfDue now draw
    (g,[g.cookieSecret,g.prevCookieSecret].any fun secret => env.xxCookieFor secret source == cookie)

/-- Makes room for one more digest, oldest first. A row whose digest was seen again since names a
later sighting and is only dropped. -/
def evictDigests : List (BitVec 256 × Instant) → Table (BitVec 256) (RecentHandshake A) →
    List (BitVec 256 × Instant) × Table (BitVec 256) (RecentHandshake A)
  | [],recent => ([],recent)
  | (key,queuedAt) :: rest,recent =>
    if maxReplayDigests ≤ recent.size then
      evictDigests rest (if (recent.lookup key).any (·.seenAt == queuedAt) then recent.erase key else recent)
    else ((key,queuedAt) :: rest,recent)

def remembered : Option (RecentHandshake A) :=
  (g.recentHandshakes.lookup digest).filter fun entry => now-entry.seenAt < handshakeReplayTtl

def checkHandshakeReplay (pktType : UInt8) (source : A) (data : Bytes) : Guards A × HandshakeReplay :=
  let digest := env.handshakeDigest pktType data
  match g.remembered now digest with
  | some entry => (g,.seen (if entry.source = source then entry.response else none))
  | none =>
    let kept := evictDigests g.recentHandshakeOrder g.recentHandshakes
    ({ g with
        recentHandshakes := kept.2.insert digest { seenAt := now,source,response := none }
        recentHandshakeOrder := kept.1++[(digest,now)] },.fresh digest)

def rememberHandshakeResponse (response : Bytes) : Guards A :=
  match g.recentHandshakes.lookup digest with
  | some entry => { g with recentHandshakes := g.recentHandshakes.insert digest { entry with response := some response } }
  | none => g

def forgetHandshake : Guards A := { g with recentHandshakes := g.recentHandshakes.erase digest }

def cleanup : Guards A :=
  let live := retain (fun entry => if now-entry.seenAt < handshakeReplayTtl then some entry else none) g.recentHandshakes
  { g with
    recentHandshakes := live
    recentHandshakeOrder := g.recentHandshakeOrder.filter fun queued => (live.lookup queued.1).any (·.seenAt == queued.2) }

end Guards
end Ember.Transport
