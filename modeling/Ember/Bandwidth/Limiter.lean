import Ember.Library.Bytes
import Ember.Library.Path

/-! The bandwidth limiter (`bandwidth/limiter.rs`), one atomic access at a time. A caller is where its code stands before its
next access, and so is the refill task. -/
namespace Ember.Bandwidth

def maxConfiguredSpeedBps : Nat := 100*1024*1024*1024
def priorityUploadPercent : Nat := 80
def priorityReserveDivisor : Nat := 4

def priorityReserveCap (maxUpload : Nat) : Nat :=
  max (saturatingMul maxUpload priorityUploadPercent/100/priorityReserveDivisor) 1

inductive Side where
  | upload | download
  deriving DecidableEq

inductive Pool where
  | upload | priority | download
  deriving DecidableEq

def Side.pool : Side → Pool
  | .upload => .upload
  | .download => .download

structure BandwidthLimiter where
  maxUploadRate : Nat
  maxDownloadRate : Nat
  uploadTokens : Nat
  downloadTokens : Nat
  priorityTokens : Nat
  priorityUploads : Nat
  uploadRefillRem : Nat
  downloadRefillRem : Nat
  uploadDebt : Nat
  totalUploaded : Nat
  totalDownloaded : Nat
  smoothedUpload : Nat
  refillAlive : Bool

namespace BandwidthLimiter
variable (lim : BandwidthLimiter)

def new (maxUpload maxDownload : Nat) : BandwidthLimiter where
  maxUploadRate := maxUpload
  maxDownloadRate := maxDownload
  uploadTokens := maxUpload
  downloadTokens := maxDownload
  priorityTokens := 0
  priorityUploads := 0
  uploadRefillRem := 0
  downloadRefillRem := 0
  uploadDebt := 0
  totalUploaded := 0
  totalDownloaded := 0
  smoothedUpload := 0
  refillAlive := true

def rate : Side → Nat
  | .upload => lim.maxUploadRate
  | .download => lim.maxDownloadRate

def tokens : Pool → Nat
  | .upload => lim.uploadTokens
  | .priority => lim.priorityTokens
  | .download => lim.downloadTokens

def setTokens (n : Nat) : Pool → BandwidthLimiter
  | .upload => { lim with uploadTokens := n }
  | .priority => { lim with priorityTokens := n }
  | .download => { lim with downloadTokens := n }

def addTotal (bytes : Nat) : Side → BandwidthLimiter
  | .upload => { lim with totalUploaded := (lim.totalUploaded+bytes)%2^64 }
  | .download => { lim with totalDownloaded := (lim.totalDownloaded+bytes)%2^64 }

end BandwidthLimiter

inductive Event where
  | took (pool : Pool) (bytes : Nat)
  | began (fraction : Nat)
  | repaid (bytes : Nat)
  | clipped
  deriving DecidableEq

inductive Answer where
  | granted (ok : Bool)
  | took (bytes : Nat)
  | unit

/-- Who called `try_take_upload`: somebody outside, or `yield_then_take_upload`. -/
inductive TryFrame where
  | outside
  | yielding (remaining : Nat)

inductive Frame where
  | drain (side : Side) (bytes remaining : Nat)
  | reserve (bytes remaining max : Nat)
  | shared (bytes remaining took : Nat)
  | tryTake (back : TryFrame)
  | charge (owed max : Nat)

/-- A caller before its next atomic access. -/
inductive Caller where
  | returned (answer : Answer)
  | count (side : Side) (bytes : Nat) (answer : Answer)
  | takeLoad (pool : Pool) (max floor : Nat) (back : Frame)
  | takeExchange (pool : Pool) (max floor current : Nat) (back : Frame)
  | acquireRate (side : Side) (bytes : Nat)
  | drainRate (side : Side) (bytes remaining : Nat)
  | drainAlive (side : Side) (bytes remaining : Nat)
  | priorityRate (bytes remaining : Nat)
  | priorityAlive (bytes remaining : Nat)
  | tryRate (maxBytes : Nat) (back : TryFrame)
  | tryCount (took : Nat) (back : TryFrame)
  | yieldRate (remaining : Nat)
  | yieldAlive (remaining cap : Nat)
  | yieldTokens (remaining cap : Nat)
  | yieldSpeed (remaining cap tokens : Nat)
  | chargeCount (bytes : Nat)
  | chargeRate (bytes : Nat)
  | chargeDebt (owed max : Nat)

variable (weak : Bool) (lim : BandwidthLimiter) (pool : Pool) (side : Side) (bytes remaining : Nat)

def acquire (bytes : Nat) : Caller := .acquireRate side bytes

def drainTokens : Caller :=
  if 0 < remaining then .drainRate side bytes remaining else .count side bytes (.granted true)

def takeTokens (max : Nat) (back : Frame) : Caller := .takeLoad pool max 0 back

def takeTokensAbove (max floor : Nat) (back : Frame) : Caller := .takeLoad pool max floor back

def acquirePriorityUpload : Caller :=
  if 0 < remaining then .priorityRate bytes remaining else .count .upload bytes (.granted true)

def prioritySpent (bytes remaining took : Nat) : Caller :=
  if took = 0 then .priorityAlive bytes (remaining-took) else acquirePriorityUpload bytes (remaining-took)

def yieldThenTakeUpload (remaining : Nat) : Caller :=
  if 0 < remaining then .yieldRate remaining else .returned .unit

def TryFrame.resume (took : Nat) : TryFrame → Caller
  | .outside => .returned (.took took)
  | .yielding remaining => yieldThenTakeUpload (if took = 0 then remaining else remaining-took)

def tryTakeUpload (maxBytes : Nat) (back : TryFrame) : Caller :=
  if maxBytes = 0 then back.resume 0 else .tryRate maxBytes back

def chargeUpload (bytes : Nat) : Caller :=
  if bytes = 0 then .returned .unit else .chargeCount bytes

def Frame.resume (took : Nat) : Frame → Caller
  | .drain side bytes remaining =>
    if took = 0 then .drainAlive side bytes (remaining-took) else drainTokens side bytes (remaining-took)
  | .reserve bytes remaining max =>
    if took < remaining then takeTokensAbove .upload (remaining-took) (Nat.max (max/2) 1) (.shared bytes remaining took)
    else prioritySpent bytes remaining took
  | .shared bytes remaining reserved => prioritySpent bytes remaining (reserved+took)
  | .tryTake back => if took = 0 then back.resume 0 else .tryCount took back
  | .charge owed max => if 0 < owed-took then .chargeDebt (owed-took) max else .returned .unit

/-- The next atomic access of a caller. A `compare_exchange_weak` may fail for no reason, which `weak` says; parked callers
wake by their timeout, so to wait is to go on later. -/
def Caller.step : Caller → Caller × BandwidthLimiter × List Event
  | .returned answer => (.returned answer,lim,[])
  | .count side bytes answer => (.returned answer,lim.addTotal bytes side,[])
  | .takeLoad pool max floor back =>
    (if min max (lim.tokens pool-floor) = 0 then back.resume 0 else .takeExchange pool max floor (lim.tokens pool) back,lim,[])
  | .takeExchange pool max floor current back =>
    let take := min max (current-floor)
    if weak = true ∨ lim.tokens pool ≠ current then (.takeLoad pool max floor back,lim,[])
    else (back.resume take,lim.setTokens (current-take) pool,[.took pool take])
  | .acquireRate side bytes =>
    (if lim.rate side = 0 then .count side bytes (.granted true) else drainTokens side bytes bytes,lim,[])
  | .drainRate side bytes remaining =>
    (if lim.rate side = 0 then .count side bytes (.granted true)
      else takeTokens side.pool remaining (.drain side bytes remaining),lim,[])
  | .drainAlive side bytes remaining =>
    (if lim.refillAlive then drainTokens side bytes remaining else .returned (.granted false),lim,[])
  | .priorityRate bytes remaining =>
    (if lim.maxUploadRate = 0 then .count .upload bytes (.granted true)
      else takeTokens .priority remaining (.reserve bytes remaining lim.maxUploadRate),lim,[])
  | .priorityAlive bytes remaining =>
    (if lim.refillAlive then acquirePriorityUpload bytes remaining else .returned (.granted false),lim,[])
  | .tryRate maxBytes back =>
    (if lim.maxUploadRate = 0 then .tryCount maxBytes back else takeTokens .upload maxBytes (.tryTake back),lim,[])
  | .tryCount took back => (back.resume took,lim.addTotal took .upload,[])
  | .yieldRate remaining =>
    (if lim.maxUploadRate = 0 then .count .upload remaining .unit else .yieldAlive remaining lim.maxUploadRate,lim,[])
  | .yieldAlive remaining cap =>
    (if lim.refillAlive then .yieldTokens remaining cap else .count .upload remaining .unit,lim,[])
  | .yieldTokens remaining cap => (.yieldSpeed remaining cap lim.uploadTokens,lim,[])
  | .yieldSpeed remaining cap tokens =>
    let budget := if 0 < lim.smoothedUpload then tokens-max (cap/4) 1 else tokens
    (tryTakeUpload (min remaining budget) (.yielding remaining),lim,[])
  | .chargeCount bytes => (.chargeRate bytes,lim.addTotal bytes .upload,[])
  | .chargeRate bytes =>
    (if lim.maxUploadRate = 0 then .returned .unit else takeTokens .upload bytes (.charge bytes lim.maxUploadRate),lim,[])
  | .chargeDebt owed max =>
    (.returned .unit,
      { lim with uploadDebt := min (saturatingAdd lim.uploadDebt owed) (saturatingMul max 2) },[])

structure Tick where
  fraction : Nat
  divisor : Nat
  maxUp : Nat
  maxDown : Nat

inductive Refill where
  | idle
  | rateUp (fraction divisor : Nat)
  | rateDown (fraction divisor maxUp : Nat)
  | rem (tick : Tick)
  | storeRem (tick : Tick) (numer : Nat)
  | debt (tick : Tick) (add : Nat)
  | handles (tick : Tick) (add : Nat)
  | held (tick : Tick) (add : Nat)
  | reserve (tick : Tick) (add reserved : Nat)
  | handBack (tick : Tick) (add : Nat)
  | load (tick : Tick) (add : Nat)
  | exchange (tick : Tick) (add current : Nat)
  | clearRem (tick : Tick)
  | clearDebt (tick : Tick)
  | downRem (tick : Tick)
  | downStoreRem (tick : Tick) (numer : Nat)
  | downLoad (tick : Tick) (add : Nat)
  | downExchange (tick : Tick) (add current : Nat)
  | downClearRem (tick : Tick)

def refillTokensIncremental (fraction divisor : Nat) : Refill :=
  if divisor = 0 then .idle else .rateUp fraction divisor

def Tick.download (tick : Tick) : Refill :=
  if 0 < tick.maxDown then .downRem tick else .downClearRem tick

def Refill.step : Refill → Refill × BandwidthLimiter × List Event
  | .idle => (.idle,lim,[])
  | .rateUp fraction divisor => (.rateDown fraction divisor lim.maxUploadRate,lim,[])
  | .rateDown fraction divisor maxUp =>
    let tick : Tick := ⟨fraction,divisor,maxUp,lim.maxDownloadRate⟩
    (if 0 < maxUp then .rem tick else .clearRem tick,lim,[])
  | .rem tick => (.storeRem tick (saturatingAdd (saturatingMul tick.maxUp tick.fraction) lim.uploadRefillRem),lim,[])
  | .storeRem tick numer => (.debt tick (numer/tick.divisor),{ lim with uploadRefillRem := numer%tick.divisor },[])
  | .debt tick add =>
    if 0 < lim.uploadDebt then
      (.handles tick (add-min lim.uploadDebt add),{ lim with uploadDebt := lim.uploadDebt-min lim.uploadDebt add },
        [.repaid (min lim.uploadDebt add)])
    else (.handles tick add,lim,[])
  | .handles tick add => (if 0 < lim.priorityUploads then .held tick add else .handBack tick add,lim,[])
  | .held tick add =>
    let room := priorityReserveCap tick.maxUp-lim.priorityTokens
    (.reserve tick add (min (saturatingMul add priorityUploadPercent/100) room),lim,[])
  | .reserve tick add reserved =>
    (.load tick (add-reserved),{ lim with priorityTokens := (lim.priorityTokens+reserved)%2^64 },[])
  | .handBack tick add => (.load tick (saturatingAdd add lim.priorityTokens),{ lim with priorityTokens := 0 },[])
  | .load tick add => (.exchange tick add lim.uploadTokens,lim,[])
  | .exchange tick add current =>
    let cap := saturatingMul tick.maxUp 2
    if weak = true ∨ lim.uploadTokens ≠ current then (.load tick add,lim,[])
    else (tick.download,{ lim with uploadTokens := min (saturatingAdd current add) cap },
      if cap < saturatingAdd current add then [.clipped] else [])
  | .clearRem tick => (.clearDebt tick,{ lim with uploadRefillRem := 0 },[])
  | .clearDebt tick => (tick.download,{ lim with uploadDebt := 0 },[])
  | .downRem tick =>
    (.downStoreRem tick (saturatingAdd (saturatingMul tick.maxDown tick.fraction) lim.downloadRefillRem),lim,[])
  | .downStoreRem tick numer => (.downLoad tick (numer/tick.divisor),{ lim with downloadRefillRem := numer%tick.divisor },[])
  | .downLoad tick add => (.downExchange tick add lim.downloadTokens,lim,[])
  | .downExchange tick add current =>
    if weak = true ∨ lim.downloadTokens ≠ current then (.downLoad tick add,lim,[])
    else (.idle,{ lim with downloadTokens := min (saturatingAdd current add) (saturatingMul tick.maxDown 2) },[])
  | .downClearRem _ => (.idle,{ lim with downloadRefillRem := 0 },[])

def refillDivisor : Nat := 1000

structure System where
  limiter : BandwidthLimiter
  refill : Refill
  callers : List Caller

/-- The calls that spend upload allowance, and `acquire_download`. -/
inductive Call where
  | acquire (side : Side) (bytes : Nat)
  | priority (bytes : Nat)
  | tryTake (maxBytes : Nat)
  | yieldThenTake (bytes : Nat)
  | charge (bytes : Nat)

def Call.enter : Call → Caller
  | .acquire side bytes => Bandwidth.acquire side bytes
  | .priority bytes => acquirePriorityUpload bytes bytes
  | .tryTake maxBytes => tryTakeUpload maxBytes .outside
  | .yieldThenTake bytes => yieldThenTakeUpload bytes
  | .charge bytes => chargeUpload bytes

/-- One atomic access of somebody. Handles, the displayed speed and the refill task come and go. -/
inductive System.Step (s : System) : List Event → System → Prop
  | call (c : Call) : Step s [] { s with callers := s.callers++[c.enter] }
  | caller (weak : Bool) {i : Nat} {c : Caller} (turn : s.callers[i]? = some c) :
      Step s (c.step weak s.limiter).2.2
        { s with limiter := (c.step weak s.limiter).2.1, callers := s.callers.set i (c.step weak s.limiter).1 }
  | tick (fraction : Nat) (ready : s.refill = .idle) :
      Step s [.began fraction] { s with refill := refillTokensIncremental fraction refillDivisor }
  | refill (weak : Bool) :
      Step s (s.refill.step weak s.limiter).2.2
        { s with limiter := (s.refill.step weak s.limiter).2.1, refill := (s.refill.step weak s.limiter).1 }
  | priorityUploads (n : Nat) : Step s [] { s with limiter := { s.limiter with priorityUploads := n } }
  | updateSpeeds (speed : Nat) : Step s [] { s with limiter := { s.limiter with smoothedUpload := speed } }
  | refillAlive (alive : Bool) : Step s [] { s with limiter := { s.limiter with refillAlive := alive } }

abbrev System.Run := Path System.Step

def Event.taken : Event → Nat
  | .took .upload bytes | .took .priority bytes => bytes
  | _ => 0

def Event.elapsed : Event → Nat
  | .began fraction => fraction
  | _ => 0

def Event.paid : Event → Nat
  | .repaid bytes => bytes
  | _ => 0

def taken (trace : List Event) : Nat := (trace.map Event.taken).sum

def elapsed (trace : List Event) : Nat := (trace.map Event.elapsed).sum

def repaid (trace : List Event) : Nat := (trace.map Event.paid).sum

end Ember.Bandwidth
