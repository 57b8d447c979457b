import Ember.Bandwidth.Limiter

/-! The upload account: whatever the interleaving, what was taken and what the buckets hold came out of the time the
refills began with. -/
namespace Ember.Bandwidth
open List

variable (tick : Tick) {M : Nat} {lim : BandwidthLimiter}

def Refill.hand : Refill → Nat
  | .debt _ add | .handles _ add | .held _ add | .reserve _ add _ | .handBack _ add | .load _ add | .exchange _ add _ => add
  | _ => 0

def Refill.due : Refill → Nat
  | .rateUp fraction _ | .rateDown fraction _ _ => fraction
  | .rem tick | .storeRem tick _ => tick.fraction
  | _ => 0

structure Tick.Of (M : Nat) (tick : Tick) : Prop where
  maxUp : tick.maxUp = M
  divisor : tick.divisor = refillDivisor

/-- What the refill's locals say of the limiter, whoever steps in between. -/
def Refill.Settled (M : Nat) (lim : BandwidthLimiter) : Refill → Prop
  | .rateUp _ divisor => divisor = refillDivisor
  | .rateDown _ divisor maxUp => divisor = refillDivisor ∧ maxUp = M
  | .rem tick | .debt tick _ | .handles tick _ | .held tick _ | .handBack tick _ | .load tick _ | .exchange tick _ _ => tick.Of M
  | .storeRem tick numer =>
    tick.Of M ∧ numer = saturatingAdd (saturatingMul M tick.fraction) lim.uploadRefillRem
  | .reserve tick add reserved =>
    tick.Of M ∧ reserved ≤ add ∧ (reserved = 0 ∨ lim.priorityTokens+reserved ≤ priorityReserveCap M)
  | .clearRem _ | .clearDebt _ => False
  | _ => True

/-- So much in hand that the bucket's cap must clip it, whatever debt and reserve still get. -/
def Refill.Overfull : Refill → Prop
  | .debt _ add => 8*maxConfiguredSpeedBps ≤ add
  | .handles _ add | .held _ add | .reserve _ add _ | .handBack _ add => 6*maxConfiguredSpeedBps ≤ add
  | .load _ add | .exchange _ add _ => 5*maxConfiguredSpeedBps ≤ add
  | _ => False

/-- Sums along a run: bytes taken, milliseconds begun, debt paid, whether a refill was clipped. -/
structure Sums where
  taken : Nat
  elapsed : Nat
  repaid : Nat
  clipped : Prop

def issued (M : Nat) (sums : Sums) (lim : BandwidthLimiter) (refill : Refill) : Nat :=
  refillDivisor*(sums.taken+lim.uploadTokens+lim.priorityTokens+refill.hand+sums.repaid)+lim.uploadRefillRem+M*refill.due

def allowance (M : Nat) (start : BandwidthLimiter) (sums : Sums) : Nat :=
  refillDivisor*(start.uploadTokens+start.priorityTokens)+start.uploadRefillRem+M*sums.elapsed

structure Books (M : Nat) (start : BandwidthLimiter) (sums : Sums) (lim : BandwidthLimiter) (refill : Refill) : Prop where
  rate : lim.maxUploadRate = M
  debt : lim.uploadDebt ≤ 2*maxConfiguredSpeedBps
  rem : lim.uploadRefillRem < refillDivisor
  settled : refill.Settled M lim
  upload : lim.uploadTokens ≤ max start.uploadTokens (2*M)
  priority : lim.priorityTokens ≤ max start.priorityTokens (priorityReserveCap M)
  bounded : issued M sums lim refill ≤ allowance M start sums
  exact : sums.clipped ∨ refill.Overfull ∨ issued M sums lim refill = allowance M start sums

structure BandwidthLimiter.SameUpload (lim lim' : BandwidthLimiter) : Prop where
  rate : lim'.maxUploadRate = lim.maxUploadRate
  debt : lim'.uploadDebt = lim.uploadDebt
  rem : lim'.uploadRefillRem = lim.uploadRefillRem
  upload : lim'.uploadTokens = lim.uploadTokens
  priority : lim'.priorityTokens = lim.priorityTokens

theorem Refill.Settled.mono {lim' : BandwidthLimiter} {refill : Refill} (settled : refill.Settled M lim)
    (rem : lim'.uploadRefillRem = lim.uploadRefillRem) (priority : lim'.priorityTokens ≤ lim.priorityTokens) :
    refill.Settled M lim' := by
  cases refill with
  | storeRem tick numer => exact ⟨settled.1,by rw [rem]; exact settled.2⟩
  | reserve tick add reserved =>
    obtain ⟨ofM,part,room⟩ := settled
    exact ⟨ofM,part,room.imp_right fun fits => by omega⟩
  | _ => exact settled

theorem saturatingMul_two (le : M ≤ maxConfiguredSpeedBps) : saturatingMul M 2 = 2*M := by
  simp only [saturatingMul,maxConfiguredSpeedBps] at *
  omega

theorem priorityReserveCap_le (pos : 1 ≤ M) : priorityReserveCap M ≤ M := by
  simp only [priorityReserveCap,saturatingMul,priorityUploadPercent,priorityReserveDivisor]
  omega

theorem share_le (add : Nat) : saturatingMul add priorityUploadPercent/100 ≤ add := by
  simp only [saturatingMul,priorityUploadPercent]
  omega

theorem Tick.settled_download : tick.download.Settled M lim := by
  unfold Tick.download
  split <;> trivial

theorem Tick.hand_download : tick.download.hand = 0 := by
  unfold Tick.download
  split <;> rfl

theorem Tick.due_download : tick.download.due = 0 := by
  unfold Tick.download
  split <;> rfl

namespace Books
variable {M : Nat} {start lim lim' : BandwidthLimiter} {sums : Sums} {refill refill' : Refill} {tick : Tick} {add : Nat}

section
variable (books : Books M start sums lim refill)
include books

theorem advance (same : lim.SameUpload lim') (settled : refill'.Settled M lim')
    (hand : refill'.hand = refill.hand) (due : refill'.due = refill.due) (beyond : refill.Overfull → refill'.Overfull) :
    Books M start sums lim' refill' := by
  have equal : issued M sums lim' refill' = issued M sums lim refill := by
    simp only [issued,same.upload,same.priority,same.rem,hand,due]
  refine ⟨same.rate.trans books.rate,?_,?_,settled,?_,?_,?_,?_⟩
  · rw [same.debt]; exact books.debt
  · rw [same.rem]; exact books.rem
  · rw [same.upload]; exact books.upload
  · rw [same.priority]; exact books.priority
  · rw [equal]; exact books.bounded
  · rw [equal]; exact books.exact.imp_right (Or.imp_left beyond)

theorem took {pool : Pool} {n : Nat} (le : n ≤ lim.tokens pool) :
    Books M start { sums with taken := sums.taken+(Event.took pool n).taken } (lim.setTokens (lim.tokens pool-n) pool) refill := by
  cases pool with
  | download => exact books.advance ⟨rfl,rfl,rfl,rfl,rfl⟩ (books.settled.mono rfl le_rfl) rfl rfl id
  | upload =>
    have equal : issued M { sums with taken := sums.taken+n } { lim with uploadTokens := lim.uploadTokens-n } refill =
        issued M sums lim refill := by
      simp only [issued,BandwidthLimiter.tokens] at *
      congr 3
      omega
    refine ⟨books.rate,books.debt,books.rem,books.settled.mono rfl le_rfl,?_,books.priority,?_,?_⟩
    · exact (Nat.sub_le ..).trans books.upload
    · exact equal.trans_le books.bounded
    · exact books.exact.imp_right (Or.imp_right equal.trans)
  | priority =>
    have equal : issued M { sums with taken := sums.taken+n } { lim with priorityTokens := lim.priorityTokens-n } refill =
        issued M sums lim refill := by
      simp only [issued,BandwidthLimiter.tokens] at *
      congr 3
      omega
    refine ⟨books.rate,books.debt,books.rem,books.settled.mono rfl (Nat.sub_le ..),books.upload,?_,?_,?_⟩
    · exact (Nat.sub_le ..).trans books.priority
    · exact equal.trans_le books.bounded
    · exact books.exact.imp_right (Or.imp_right equal.trans)

theorem owes {debt : Nat} (le : debt ≤ 2*maxConfiguredSpeedBps) :
    Books M start sums { lim with uploadDebt := debt } refill :=
  { books with debt := le, settled := books.settled.mono rfl le_rfl }

end

theorem storeRem {numer : Nat} (books : Books M start sums lim (.storeRem tick numer)) :
    Books M start sums { lim with uploadRefillRem := numer%tick.divisor } (.debt tick (numer/tick.divisor)) := by
  obtain ⟨⟨maxUp,divisor⟩,value⟩ := books.settled
  have bounded := books.bounded
  rw [divisor]
  refine ⟨books.rate,books.debt,Nat.mod_lt _ (by decide),⟨maxUp,divisor⟩,books.upload,books.priority,?_,?_⟩
  · simp only [issued,Refill.hand,Refill.due,refillDivisor,saturatingAdd,saturatingMul] at *
    omega
  obtain clipped | beyond | equal := books.exact
  · exact .inl clipped
  · cases beyond
  · refine .inr ?_
    simp only [issued,Refill.hand,Refill.due,Refill.Overfull,refillDivisor,saturatingAdd,saturatingMul,
      maxConfiguredSpeedBps] at *
    omega

theorem repays (books : Books M start sums lim (.debt tick add)) :
    Books M start { sums with repaid := sums.repaid+min lim.uploadDebt add }
      { lim with uploadDebt := lim.uploadDebt-min lim.uploadDebt add } (.handles tick (add-min lim.uploadDebt add)) := by
  have equal : issued M { sums with repaid := sums.repaid+min lim.uploadDebt add }
      { lim with uploadDebt := lim.uploadDebt-min lim.uploadDebt add } (.handles tick (add-min lim.uploadDebt add)) =
      issued M sums lim (.debt tick add) := by
    simp only [issued,Refill.hand,Refill.due]
    congr 3
    omega
  refine { books with debt := (Nat.sub_le ..).trans books.debt, bounded := ?_, exact := ?_ }
  · exact equal.trans_le books.bounded
  refine books.exact.imp_right (Or.imp (fun beyond => ?_) equal.trans)
  have debt := books.debt
  simp only [Refill.Overfull] at *
  omega

theorem reserves {reserved : Nat} (books : Books M start sums lim (.reserve tick add reserved))
    (pos : 1 ≤ M) (le : M ≤ maxConfiguredSpeedBps) (word : start.priorityTokens < 2^64) :
    Books M start sums { lim with priorityTokens := (lim.priorityTokens+reserved)%2^64 } (.load tick (add-reserved)) := by
  obtain ⟨ofM,part,room⟩ := books.settled
  have cap := priorityReserveCap_le pos
  have small : maxConfiguredSpeedBps < 2^64 := by decide
  have priority := books.priority
  have sum : (lim.priorityTokens+reserved)%2^64 = lim.priorityTokens+reserved := Nat.mod_eq_of_lt (by omega)
  have equal : issued M sums { lim with priorityTokens := lim.priorityTokens+reserved } (.load tick (add-reserved)) =
      issued M sums lim (.reserve tick add reserved) := by
    simp only [issued,Refill.hand,Refill.due]
    congr 3
    omega
  rw [sum]
  refine ⟨books.rate,books.debt,books.rem,ofM,books.upload,?_,equal.trans_le books.bounded,?_⟩
  · change lim.priorityTokens+reserved ≤ _
    omega
  refine books.exact.imp_right (Or.imp (fun beyond => ?_) equal.trans)
  simp only [Refill.Overfull] at *
  omega

theorem handsBack (books : Books M start sums lim (.handBack tick add)) :
    Books M start sums { lim with priorityTokens := 0 } (.load tick (saturatingAdd add lim.priorityTokens)) := by
  have bounded := books.bounded
  refine { books with priority := Nat.zero_le _, bounded := ?_, exact := ?_ }
  · simp only [issued,Refill.hand,Refill.due,refillDivisor,saturatingAdd] at *
    omega
  refine books.exact.imp_right fun exact => ?_
  simp only [issued,Refill.hand,Refill.due,Refill.Overfull,refillDivisor,saturatingAdd,maxConfiguredSpeedBps] at *
  omega

theorem lands (books : Books M start sums lim (.exchange tick add lim.uploadTokens))
    (le : M ≤ maxConfiguredSpeedBps) :
    Books M start { sums with clipped := sums.clipped ∨ saturatingMul tick.maxUp 2 < saturatingAdd lim.uploadTokens add }
      { lim with uploadTokens := min (saturatingAdd lim.uploadTokens add) (saturatingMul tick.maxUp 2) } tick.download := by
  have ofM : tick.Of M := books.settled
  have bounded := books.bounded
  rw [ofM.maxUp,saturatingMul_two le]
  have before : issued M sums lim (.exchange tick add lim.uploadTokens) =
      refillDivisor*(sums.taken+lim.uploadTokens+lim.priorityTokens+add+sums.repaid)+lim.uploadRefillRem := rfl
  have sum : saturatingAdd lim.uploadTokens add = min (lim.uploadTokens+add) (2^64-1) := rfl
  refine ⟨books.rate,books.debt,books.rem,tick.settled_download,?_,books.priority,?_,?_⟩
  · exact (Nat.min_le_right ..).trans (Nat.le_max_right ..)
  · simp only [issued,allowance,tick.hand_download,tick.due_download,refillDivisor] at *
    omega
  · by_cases beyond : 2*M < saturatingAdd lim.uploadTokens add
    · exact .inl (.inr beyond)
    refine books.exact.imp .inl fun exact => .inr ?_
    simp only [issued,allowance,tick.hand_download,tick.due_download,Refill.Overfull,refillDivisor,maxConfiguredSpeedBps] at *
    omega

end Books

def Frame.Settled (M : Nat) : Frame → Prop
  | .charge _ max => max = M
  | _ => True

def Caller.Settled (M : Nat) : Caller → Prop
  | .takeLoad _ _ _ back | .takeExchange _ _ _ _ back => back.Settled M
  | .chargeDebt _ max => max = M
  | _ => True

/-- What one access of a caller does to the upload account. -/
inductive Touch (M : Nat) (lim : BandwidthLimiter) : List Event → BandwidthLimiter → Prop
  | quiet {lim' : BandwidthLimiter} (same : lim.SameUpload lim') : Touch M lim [] lim'
  | took (pool : Pool) (n : Nat) (le : n ≤ lim.tokens pool) :
      Touch M lim [.took pool n] (lim.setTokens (lim.tokens pool-n) pool)
  | owes (debt : Nat) (le : debt ≤ saturatingMul M 2) : Touch M lim [] { lim with uploadDebt := debt }

section Callers
variable {M : Nat} {lim : BandwidthLimiter} {c : Caller} {remaining bytes took : Nat} {weak : Bool}

theorem BandwidthLimiter.SameUpload.refl (lim : BandwidthLimiter) : lim.SameUpload lim := ⟨rfl,rfl,rfl,rfl,rfl⟩

theorem BandwidthLimiter.sameUpload_addTotal (bytes : Nat) (side : Side) : lim.SameUpload (lim.addTotal bytes side) := by
  cases side <;> exact ⟨rfl,rfl,rfl,rfl,rfl⟩

theorem Caller.Settled.ite {p : Prop} [Decidable p] {a b : Caller} (left : a.Settled M) (right : b.Settled M) :
    (if p then a else b).Settled M := by
  split
  · exact left
  · exact right

theorem settled_drainTokens {side : Side} : (drainTokens side bytes remaining).Settled M :=
  .ite trivial trivial

theorem settled_acquirePriorityUpload : (acquirePriorityUpload bytes remaining).Settled M :=
  .ite trivial trivial

theorem settled_prioritySpent : (prioritySpent bytes remaining took).Settled M :=
  .ite trivial settled_acquirePriorityUpload

theorem settled_yieldThenTakeUpload : (yieldThenTakeUpload remaining).Settled M :=
  .ite trivial trivial

theorem TryFrame.settled_resume (back : TryFrame) : (back.resume took).Settled M := by
  cases back with
  | outside => trivial
  | yielding remaining => exact settled_yieldThenTakeUpload

theorem settled_tryTakeUpload {maxBytes : Nat} {back : TryFrame} : (tryTakeUpload maxBytes back).Settled M :=
  .ite back.settled_resume trivial

theorem Call.settled_enter (call : Call) : call.enter.Settled M := by
  cases call with
  | acquire side bytes => trivial
  | priority bytes => exact settled_acquirePriorityUpload
  | tryTake maxBytes => exact settled_tryTakeUpload
  | yieldThenTake bytes => exact settled_yieldThenTakeUpload
  | charge bytes => exact .ite trivial trivial

theorem Frame.Settled.resume {back : Frame} (settled : back.Settled M) : (back.resume took).Settled M := by
  cases back with
  | drain side bytes remaining => exact .ite trivial settled_drainTokens
  | reserve bytes remaining max => exact .ite trivial settled_prioritySpent
  | shared bytes remaining reserved => exact settled_prioritySpent
  | tryTake back => exact .ite back.settled_resume trivial
  | charge owed max => exact .ite settled trivial

theorem Caller.Settled.step (settled : c.Settled M) (rate : lim.maxUploadRate = M) : (c.step weak lim).1.Settled M := by
  cases c with
  | takeLoad pool max floor back => exact .ite (Frame.Settled.resume settled) settled
  | takeExchange pool max floor current back =>
    dsimp only [Caller.step]
    split
    · exact settled
    · exact Frame.Settled.resume settled
  | acquireRate side bytes => exact .ite trivial settled_drainTokens
  | drainAlive side bytes remaining => exact .ite settled_drainTokens trivial
  | priorityAlive bytes remaining => exact .ite settled_acquirePriorityUpload trivial
  | tryCount took back => exact back.settled_resume
  | yieldSpeed remaining cap tokens => exact settled_tryTakeUpload
  | chargeRate bytes => exact .ite trivial rate
  | drainRate | priorityRate | tryRate | yieldRate | yieldAlive => exact .ite trivial trivial
  | returned | count | yieldTokens | chargeCount | chargeDebt => trivial

theorem Caller.Settled.touch (settled : c.Settled M) : Touch M lim (c.step weak lim).2.2 (c.step weak lim).2.1 := by
  cases c with
  | count side bytes => exact .quiet (BandwidthLimiter.sameUpload_addTotal bytes side)
  | tryCount bytes | chargeCount bytes => exact .quiet (BandwidthLimiter.sameUpload_addTotal bytes .upload)
  | takeExchange pool max floor current back =>
    dsimp only [Caller.step]
    split
    · exact .quiet (.refl lim)
    next landed =>
    obtain rfl : lim.tokens pool = current := by simpa using (not_or.mp landed).2
    exact .took pool _ ((Nat.min_le_right ..).trans (Nat.sub_le ..))
  | chargeDebt owed max =>
    obtain rfl : max = M := settled
    exact .owes _ (Nat.min_le_right ..)
  | _ => exact .quiet (.refl lim)

end Callers

def Sums.add (sums : Sums) (events : List Event) : Sums where
  taken := sums.taken+Bandwidth.taken events
  elapsed := sums.elapsed+Bandwidth.elapsed events
  repaid := sums.repaid+Bandwidth.repaid events
  clipped := sums.clipped ∨ .clipped ∈ events

def sumsOf (trace : List Event) : Sums := ⟨taken trace,elapsed trace,repaid trace,.clipped ∈ trace⟩

@[simp] theorem Sums.add_nil (sums : Sums) : sums.add [] = sums := by
  simp [Sums.add,Bandwidth.taken,Bandwidth.elapsed,Bandwidth.repaid]

theorem Sums.add_clipped {p : Prop} [Decidable p] (sums : Sums) :
    sums.add (if p then [.clipped] else []) = { sums with clipped := sums.clipped ∨ p } := by
  split
  · next beyond => simp [Sums.add,Bandwidth.taken,Bandwidth.elapsed,Bandwidth.repaid,Event.taken,Event.elapsed,Event.paid,beyond]
  · next fits => simp [fits]

theorem sumsOf_append {past events : List Event} : sumsOf (past++events) = (sumsOf past).add events := by
  simp [sumsOf,Sums.add,taken,elapsed,repaid]

namespace Books
variable {M : Nat} {start lim lim' : BandwidthLimiter} {sums : Sums} {refill : Refill}

theorem touch {events : List Event} (books : Books M start sums lim refill) (le : M ≤ maxConfiguredSpeedBps)
    (touch : Touch M lim events lim') : Books M start (sums.add events) lim' refill := by
  cases touch with
  | quiet same =>
    rw [Sums.add_nil]
    exact books.advance same (books.settled.mono same.rem same.priority.le) rfl rfl id
  | took pool n fits =>
    have next := books.took fits
    simpa [Sums.add,taken,elapsed,repaid,Event.elapsed,Event.paid] using next
  | owes debt capped =>
    rw [saturatingMul_two le] at capped
    rw [Sums.add_nil]
    exact books.owes (capped.trans (Nat.mul_le_mul_left 2 le))

theorem began (books : Books M start sums lim .idle) {fraction : Nat} :
    Books M start (sums.add [.began fraction]) lim (refillTokensIncremental fraction refillDivisor) := by
  have bounded := books.bounded
  have grown : allowance M start (sums.add [.began fraction]) = allowance M start sums+M*fraction := by
    simp only [allowance,Sums.add]
    rw [Nat.mul_add M]
    exact (Nat.add_assoc ..).symm
  have begun : issued M (sums.add [.began fraction]) lim (.rateUp fraction refillDivisor) = issued M sums lim .idle+M*fraction :=
    rfl
  refine { books with settled := rfl, bounded := ?_, exact := ?_ }
  · exact begun.trans_le ((Nat.add_le_add_right bounded _).trans_eq grown.symm)
  obtain clipped | beyond | equal := books.exact
  · exact .inl (.inl clipped)
  · cases beyond
  · exact .inr (.inr (begun.trans (by rw [equal,grown])))

theorem refill_step (books : Books M start sums lim refill) (pos : 1 ≤ M) (le : M ≤ maxConfiguredSpeedBps)
    (word : start.priorityTokens < 2^64) {weak : Bool} :
    Books M start (sums.add (refill.step weak lim).2.2) (refill.step weak lim).2.1 (refill.step weak lim).1 := by
  have same := BandwidthLimiter.SameUpload.refl lim
  have settled := books.settled
  cases refill with
  | idle => simpa [Refill.step] using books
  | rateUp fraction divisor =>
    dsimp only [Refill.step]
    rw [Sums.add_nil]
    exact books.advance same ⟨settled,books.rate⟩ rfl rfl id
  | rateDown fraction divisor maxUp =>
    obtain ⟨divisor,rfl⟩ := settled
    dsimp only [Refill.step]
    rw [if_pos (show 0 < maxUp from pos),Sums.add_nil]
    exact books.advance same ⟨rfl,divisor⟩ rfl rfl id
  | rem tick =>
    have ofM : tick.Of M := settled
    simp only [Refill.step,Sums.add_nil,ofM.maxUp]
    exact books.advance same ⟨ofM,rfl⟩ rfl rfl id
  | storeRem tick numer => simpa [Refill.step] using books.storeRem
  | debt tick add =>
    dsimp only [Refill.step]
    split
    · simpa [Sums.add,taken,elapsed,repaid,Event.taken,Event.elapsed,Event.paid] using books.repays
    · rw [Sums.add_nil]
      exact books.advance same settled rfl rfl fun beyond => (Nat.mul_le_mul_right _ (by decide)).trans beyond
  | handles tick add =>
    dsimp only [Refill.step]
    rw [Sums.add_nil]
    split <;> exact books.advance same settled rfl rfl id
  | held tick add =>
    have ofM : tick.Of M := settled
    have share := share_le add
    simp only [Refill.step,Sums.add_nil,ofM.maxUp]
    exact books.advance same ⟨ofM,by omega,by omega⟩ rfl rfl id
  | reserve tick add reserved => simpa [Refill.step] using books.reserves pos le word
  | handBack tick add => simpa [Refill.step] using books.handsBack
  | load tick add =>
    dsimp only [Refill.step]
    rw [Sums.add_nil]
    exact books.advance same settled rfl rfl id
  | exchange tick add current =>
    dsimp only [Refill.step]
    split
    · rw [Sums.add_nil]
      exact books.advance same settled rfl rfl id
    next landed =>
    obtain rfl : lim.uploadTokens = current := by simpa using (not_or.mp landed).2
    rw [Sums.add_clipped]
    exact books.lands le
  | clearRem tick | clearDebt tick => cases settled
  | downExchange tick add current =>
    dsimp only [Refill.step]
    split <;>
    · rw [Sums.add_nil]
      exact books.advance ⟨rfl,rfl,rfl,rfl,rfl⟩ trivial rfl rfl id
  | downRem tick | downStoreRem tick numer | downLoad tick add | downClearRem tick =>
    dsimp only [Refill.step]
    rw [Sums.add_nil]
    exact books.advance ⟨rfl,rfl,rfl,rfl,rfl⟩ trivial rfl rfl id

end Books

namespace System

/-- A limiter with nobody inside, its remainder and debt as its own code leaves them. -/
structure Start (M : Nat) (s : System) : Prop where
  rate : s.limiter.maxUploadRate = M
  refill : s.refill = .idle
  callers : s.callers = []
  rem : s.limiter.uploadRefillRem < refillDivisor
  debt : s.limiter.uploadDebt ≤ 2*maxConfiguredSpeedBps
  word : s.limiter.priorityTokens < 2^64

/-- The books balance, and every caller bills at the cap. -/
structure Balanced (M : Nat) (start : BandwidthLimiter) (trace : List Event) (s : System) : Prop where
  books : Books M start (sumsOf trace) s.limiter s.refill
  callers : ∀ c ∈ s.callers, c.Settled M

variable {M : Nat} {start s t : System} {trace events : List Event}

theorem Start.balanced (ready : Start M s) : Balanced M s.limiter [] s := by
  have none : issued M (sumsOf []) s.limiter .idle = allowance M s.limiter (sumsOf []) := by
    simp [issued,allowance,sumsOf,taken,elapsed,repaid,Refill.hand,Refill.due]
  refine ⟨?_,by simp [ready.callers]⟩
  rw [ready.refill]
  exact ⟨ready.rate,ready.debt,ready.rem,trivial,Nat.le_max_left ..,Nat.le_max_left ..,none.le,.inr (.inr none)⟩

theorem Balanced.step (pos : 1 ≤ M) (le : M ≤ maxConfiguredSpeedBps) (word : lim.priorityTokens < 2^64)
    (held : Balanced M lim trace s) (step : Step s events t) : Balanced M lim (trace++events) t := by
  have books := held.books
  have quiet {lim' : BandwidthLimiter} same : Books M lim (sumsOf trace) lim' s.refill :=
    books.advance same (books.settled.mono same.rem same.priority.le) rfl rfl id
  constructor
  · rw [sumsOf_append]
    cases step with
    | call => simpa using books
    | caller weak turn => exact books.touch le ((held.callers _ (mem_of_getElem? turn)).touch)
    | tick fraction ready =>
      rw [ready] at books
      exact books.began
    | refill weak => exact books.refill_step pos le word
    | priorityUploads | updateSpeeds | refillAlive =>
      rw [Sums.add_nil]
      exact quiet ⟨rfl,rfl,rfl,rfl,rfl⟩
  · cases step with
    | call entered =>
      intro c member
      obtain old | new := mem_append.mp member
      · exact held.callers c old
      · rw [mem_singleton.mp new]
        exact entered.settled_enter
    | caller weak turn =>
      intro c member
      obtain old | rfl := mem_or_eq_of_mem_set member
      · exact held.callers c old
      · exact (held.callers _ (mem_of_getElem? turn)).step books.rate
    | _ => exact held.callers

theorem Run.balanced (pos : 1 ≤ M) (le : M ≤ maxConfiguredSpeedBps) (ready : Start M start) (run : Run start trace s) :
    Balanced M start.limiter trace s := by
  have kept := run.keeps (fun _ _ _ _ held step => Balanced.step pos le ready.word held step) [] ready.balanced
  simpa using kept

/-- Whatever interleaves, no more is taken and held than there was and the refills' time gave, and with no refill under way
and none clipped exactly that, but for the debt repaid. Neither bucket passes its cap. -/
theorem upload_cap_kept (pos : 1 ≤ M) (le : M ≤ maxConfiguredSpeedBps) (ready : Start M start) (run : Run start trace s) :
    taken trace+s.limiter.uploadTokens+s.limiter.priorityTokens ≤
        start.limiter.uploadTokens+start.limiter.priorityTokens+(start.limiter.uploadRefillRem+M*elapsed trace)/1000 ∧
      (s.refill = .idle → .clipped ∉ trace → taken trace+s.limiter.uploadTokens+s.limiter.priorityTokens+repaid trace =
          start.limiter.uploadTokens+start.limiter.priorityTokens+(start.limiter.uploadRefillRem+M*elapsed trace)/1000) ∧
      s.limiter.uploadTokens ≤ max start.limiter.uploadTokens (2*M) ∧
      s.limiter.priorityTokens ≤ max start.limiter.priorityTokens (priorityReserveCap M) := by
  have books := (Run.balanced pos le ready run).books
  have bounded := books.bounded
  refine ⟨?_,fun atRest unclipped => ?_,books.upload,books.priority⟩
  · simp only [issued,allowance,sumsOf,refillDivisor] at bounded
    omega
  obtain clipped | beyond | equal := books.exact
  · exact absurd clipped unclipped
  · rw [atRest] at beyond
    cases beyond
  · have rem := books.rem
    rw [atRest] at equal
    simp only [issued,allowance,sumsOf,refillDivisor,Refill.hand,Refill.due] at equal rem
    omega

/-- A step named so that a run can be played. -/
inductive Turn where
  | enter (call : Call)
  | caller (i : Nat)
  | tick (fraction : Nat)
  | refill
  | handles (n : Nat)

def Turn.play (s : System) : Turn → Option (List Event × System)
  | .enter call => some ([],{ s with callers := s.callers++[call.enter] })
  | .caller i => s.callers[i]?.map fun c => ((c.step false s.limiter).2.2,
      { s with limiter := (c.step false s.limiter).2.1, callers := s.callers.set i (c.step false s.limiter).1 })
  | .tick fraction => match s.refill with
    | .idle => some ([.began fraction],{ s with refill := refillTokensIncremental fraction refillDivisor })
    | _ => none
  | .refill => some ((s.refill.step false s.limiter).2.2,
      { s with limiter := (s.refill.step false s.limiter).2.1, refill := (s.refill.step false s.limiter).1 })
  | .handles n => some ([],{ s with limiter := { s.limiter with priorityUploads := n } })

theorem Turn.step {turn : Turn} (played : turn.play s = some (events,t)) : s.Step events t := by
  cases turn with
  | enter call =>
    cases played
    exact .call call
  | caller i =>
    obtain ⟨c,turn,same⟩ := Option.map_eq_some_iff.1 played
    cases same
    exact .caller false turn
  | tick fraction =>
    dsimp only [play] at played
    split at played
    next ready =>
      cases played
      exact .tick fraction ready
    next => cases played
  | refill =>
    cases played
    exact .refill false
  | handles n =>
    cases played
    exact .priorityUploads n

def play (allow : System → System → Bool) : System → List Turn → Option (List Event × System)
  | s,[] => some ([],s)
  | s,turn :: rest => (turn.play s).bind fun next =>
    if allow s next.2 then (play allow next.2 rest).map fun last => (next.1++last.1,last.2) else none

theorem play_path {allow : System → System → Bool} {turns : List Turn} (played : play allow s turns = some (trace,t)) :
    Path (fun s events t => s.Step events t ∧ allow s t = true) s trace t := by
  induction turns generalizing s trace with
  | nil =>
    cases played
    exact .refl _
  | cons turn rest ih =>
    obtain ⟨⟨events,u⟩,first,played⟩ := Option.bind_eq_some_iff.1 played
    obtain ⟨allowed,played⟩ := Option.ite_none_right_eq_some.1 played
    obtain ⟨⟨trace',t'⟩,later,same⟩ := Option.map_eq_some_iff.1 played
    cases same
    exact (Path.single ⟨Turn.step first,allowed⟩).trans (ih later)

/-- A charge over the bucket leaves a debt; a second pays it off and fills the reserve a slot then draws on. -/
def owing : List Turn :=
  .enter (.charge 1500) :: .handles 1 :: .enter (.priority 200) :: List.replicate 5 (.caller 0)++.tick 1000 :: List.replicate 12 .refill++
    List.replicate 8 (.caller 1)

theorem owing_plays : (play (fun _ _ => true) ⟨.new 1000 0,.idle,[]⟩ owing).isSome = true := by decide +kernel

theorem upload_cap_kept_owing : ∃ trace s, Run ⟨.new 1000 0,.idle,[]⟩ trace s ∧ taken trace = 1200 ∧ repaid trace = 500 ∧
    taken trace+s.limiter.uploadTokens+s.limiter.priorityTokens+repaid trace = 1000+0+(0+1000*elapsed trace)/1000 := by
  have ready : Start 1000 ⟨.new 1000 0,.idle,[]⟩ := ⟨rfl,rfl,rfl,by decide,by decide,by decide⟩
  have run : Run _ _ _ := (play_path (Option.some_get owing_plays).symm).mono fun _ _ _ step => step.1
  have kept := upload_cap_kept (by decide) (by decide) ready run
  exact ⟨_,_,run,by decide +kernel,by decide +kernel,kept.2.1 (by rfl) (by decide +kernel)⟩

end System
end Ember.Bandwidth
