import Ember.Dht.Contact
import Ember.Library.Bisect
import Ember.Library.Table

/-! The address filter: rows of blocked addresses in order, and the checks that search them. -/
namespace Ember.Kad
open Ember.Dht

/-- Both ends of a row are blocked. -/
structure IpRange where
  start : Ipv4Addr
  stop : Ipv4Addr
  description : String
  accessLevel : Nat := 0
  hits : UInt64 := 0
  deriving DecidableEq

namespace IpRange

def addHits (self : IpRange) (n : UInt64) : IpRange := { self with hits := self.hits+n }

end IpRange

def saturatingSucc (x : Ipv4Addr) : Ipv4Addr := if x.toNat = 2^32-1 then x else x+1

/-- The sort is stable, as `sort_by_key` is. -/
def sortByStart (rows : List IpRange) : List IpRange := rows.insertionSort fun a b => a.start ≤ b.start

def widen (last range : IpRange) : IpRange :=
  { last with
    stop := if last.stop < range.stop then range.stop else last.stop
    description := if last.description.isEmpty && !range.description.isEmpty then range.description else last.description
    hits := last.hits+range.hits }

def mergeFrom (last : IpRange) : List IpRange → List IpRange
  | [] => [last]
  | range :: rest =>
    if range.start ≤ saturatingSucc last.stop then mergeFrom (widen last range) rest
    else last :: mergeFrom range rest

def mergeOverlapping : List IpRange → List IpRange
  | [] => []
  | first :: rest => mergeFrom first rest

def compareRange (ip start stop : Ipv4Addr) : Ordering :=
  if ip < start then .gt else if stop < ip then .lt else .eq

def isDefaultBootstrapIp (ip : Ipv4Addr) : Bool :=
  [Ipv4Addr.octet ip 0,Ipv4Addr.octet ip 1,Ipv4Addr.octet ip 2,Ipv4Addr.octet ip 3] ∈
    [[212,63,206,35],[82,141,38,69],[212,63,206,36],[94,23,196,180],[95,217,44,50]]

/-- One number of a dotted address: at most three digits, no zero ahead of others. -/
def parseOctet (digits : List Char) : Option Nat :=
  if digits.length = 0 ∨ 3 < digits.length ∨ digits.any (!·.isDigit) ∨ 1 < digits.length ∧ digits.head? = some '0' then none
  else
    let value := digits.foldl (fun n c => n*10+(c.toNat- '0'.toNat)) 0
    if value ≤ 255 then some value else none

def parseIpv4 (text : String) : Option Ipv4Addr :=
  match (text.toList.splitOn '.').mapM parseOctet with
  | some [a,b,c,d] => some (BitVec.ofNat 32 (((a*256+b)*256+c)*256+d))
  | _ => none

structure IpFilter where
  blockedRanges : List IpRange := []
  permitRanges : List IpRange := []
  enabled : Bool
  blockPrivate : Bool
  rangesReady : Bool
  loadedFromDisk : Bool := false
  totalRangeHits : UInt64 := 0
  totalSpecialHits : UInt64 := 0

structure IpFilterSnapshot where
  ranges : List (Ipv4Addr × Ipv4Addr)
  rangeHits : List UInt64
  enabled : Bool
  blockPrivate : Bool
  rangesReady : Bool
  hitCounter : UInt64 := 0
  specialHitCounter : UInt64 := 0

namespace IpFilter
variable (self : IpFilter) (ip : Ipv4Addr) (start stop : Ipv4Addr)

def new (enabled blockPrivate : Bool) : IpFilter := { enabled, blockPrivate, rangesReady := !enabled }

def markRangesReady : IpFilter := { self with rangesReady := true }

def markRangesNotReady : IpFilter := { self with rangesReady := false }

def setEnabled (enabled : Bool) : IpFilter := { self with enabled, rangesReady := !enabled }

def setBlockPrivate (blockPrivate : Bool) : IpFilter := { self with blockPrivate }

def savedHits : Table (Ipv4Addr × Ipv4Addr) UInt64 :=
  (self.blockedRanges.filter (0 < ·.hits)).foldl (fun saved r => saved.insert (r.start,r.stop) r.hits) ∅

def restoreHits (saved : Table (Ipv4Addr × Ipv4Addr) UInt64) (r : IpRange) : IpRange :=
  { r with hits := (saved.lookup (r.start,r.stop)).getD r.hits }

def commitRanges (newRanges : List IpRange) : IpFilter × Nat :=
  let rows := (mergeOverlapping (sortByStart newRanges)).map (restoreHits self.savedHits)
  ({ self with blockedRanges := rows, rangesReady := true, loadedFromDisk := true },rows.length)

def replacePermitRanges (permits : List IpRange) : IpFilter :=
  { self with permitRanges := sortByStart permits }

def mergeRangesFrom (self other : IpFilter) : IpFilter :=
  { self with
    blockedRanges :=
      if other.blockedRanges.isEmpty then self.blockedRanges
      else mergeOverlapping (sortByStart (self.blockedRanges++other.blockedRanges))
    permitRanges :=
      if other.permitRanges.isEmpty then self.permitRanges
      else (sortByStart (self.permitRanges++other.permitRanges)).destutter fun a b => ¬ (a.start = b.start ∧ a.stop = b.stop) }

def addRange (description : String) : IpFilter × Bool :=
  if stop < start then (self,false)
  else
    let rows := sortByStart (self.blockedRanges++[({ start, stop, description } : IpRange)])
    ({ self with blockedRanges := mergeOverlapping rows },true)

def removeRange (startIp endIp : String) : IpFilter × Bool :=
  match parseIpv4 startIp with
  | none => (self,false)
  | some s =>
    match parseIpv4 endIp with
    | none => (self,false)
    | some e =>
      let rows := self.blockedRanges.filter fun r => r.start ≠ s ∨ r.stop ≠ e
      ({ self with blockedRanges := rows },rows.length < self.blockedRanges.length)

def outside (range : IpRange) : List IpRange :=
  if range.stop < start ∨ stop < range.start then [range]
  else
    (if range.start < start then [{ range with stop := start-1 }] else [])++
      if stop < range.stop then [{ range with start := stop+1 }] else []

def removeRangesWithin : IpFilter × Bool :=
  if stop < start then (self,false)
  else
    ({ self with blockedRanges := self.blockedRanges.flatMap (outside start stop) },
      self.blockedRanges.any fun r => !(r.stop < start || stop < r.start))

def specialHit : IpFilter := { self with totalSpecialHits := self.totalSpecialHits+1 }

def rangeHit : IpFilter := { self with totalRangeHits := self.totalRangeHits+1 }

def checkRanges : IpFilter × Bool :=
  match binarySearchBy (fun r : IpRange => compareRange ip r.start r.stop) self.blockedRanges with
  | some idx => ({ self with blockedRanges := self.blockedRanges.modify idx (·.addHits 1) }.rangeHit,true)
  | none => (self,false)

def isBlocked : IpFilter × Bool :=
  if ip.isBogus then (self.specialHit,true)
  else if self.blockPrivate && ip.isLanOrCgnat then (self.specialHit,true)
  else if self.enabled && !self.rangesReady then (self.rangeHit,true)
  else if self.enabled then self.checkRanges ip
  else (self,false)

/-- The counters are atomic, so the shared check counts alike. -/
def isBlockedReadonly : IpFilter × Bool := self.isBlocked ip

def isBlockedReadonlyForKad : IpFilter × Bool :=
  if ip.isBogus then (self.specialHit,true)
  else if self.blockPrivate && ip.isLanOrCgnat then (self.specialHit,true)
  else if self.enabled && !self.rangesReady then (self,!isDefaultBootstrapIp ip)
  else if self.enabled && self.rangesReady then self.checkRanges ip
  else (self,false)

def createSharedSnapshot : IpFilterSnapshot where
  ranges := self.blockedRanges.map fun r => (r.start,r.stop)
  rangeHits := List.replicate self.blockedRanges.length 0
  enabled := self.enabled
  blockPrivate := self.blockPrivate
  rangesReady := self.rangesReady

end IpFilter

namespace IpFilterSnapshot
variable (self : IpFilterSnapshot) (ip : Ipv4Addr)

def specialHit : IpFilterSnapshot := { self with specialHitCounter := self.specialHitCounter+1 }

def rangeHit : IpFilterSnapshot := { self with hitCounter := self.hitCounter+1 }

def recordRangeHit (idx : Nat) : IpFilterSnapshot :=
  { self with rangeHits := self.rangeHits.modify idx (·+1) }.rangeHit

def checkRanges : IpFilterSnapshot × Bool :=
  match binarySearchBy (fun r : Ipv4Addr × Ipv4Addr => compareRange ip r.1 r.2) self.ranges with
  | some idx => (self.recordRangeHit idx,true)
  | none => (self,false)

def isBlocked : IpFilterSnapshot × Bool :=
  if ip.isBogus then (self.specialHit,true)
  else if self.blockPrivate && ip.isLanOrCgnat then (self.specialHit,true)
  else if self.enabled && !self.rangesReady then (self.rangeHit,true)
  else if self.enabled then self.checkRanges ip
  else (self,false)

def isBlockedForKad : IpFilterSnapshot × Bool :=
  if ip.isBogus then (self.specialHit,true)
  else if self.blockPrivate && ip.isLanOrCgnat then (self.specialHit,true)
  else if self.enabled && !self.rangesReady then (self,!isDefaultBootstrapIp ip)
  else if self.enabled && self.rangesReady then self.checkRanges ip
  else (self,false)

end IpFilterSnapshot

end Ember.Kad
