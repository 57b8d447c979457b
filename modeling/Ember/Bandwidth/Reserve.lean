import Ember.Bandwidth.Ledger

/-! The share of the bucket that relay traffic leaves to the upload slots. A caller of `yield_then_take_upload` takes
what an earlier reading allowed it, so the share is safe only while nobody takes in between. -/
namespace Ember.Bandwidth
open List

def Caller.spends : Caller → Bool
  | .yieldSpeed _ _ _ | .tryRate _ _ | .takeLoad _ _ _ _ | .takeExchange _ _ _ _ _ => true
  | _ => false

/-- A step while slots upload, the refill task lives and nobody but relay traffic spends. -/
structure System.RelayStep (s : System) (events : List Event) (t : System) : Prop where
  step : s.Step events t
  speed : 0 < t.limiter.smoothedUpload
  alive : t.limiter.refillAlive = true
  calls : t.callers.length = s.callers.length ∨ ∃ bytes, t.callers = s.callers++[yieldThenTakeUpload bytes]

/-- No two callers stand between their reading of the bucket and their take. -/
def System.ApartStep (s : System) (events : List Event) (t : System) : Prop :=
  s.RelayStep events t ∧ s.callers.countP Caller.spends ≤ 1

def slotReserve (M : Nat) : Nat := max (M/4) 1

/-- A caller of `yield_then_take_upload` that means to take no more than leaves the share alone. -/
def Caller.Covered (M tokens : Nat) : Caller → Prop
  | .yieldAlive _ cap | .yieldTokens _ cap => cap = M
  | .yieldSpeed _ cap read => cap = M ∧ read ≤ tokens
  | .tryRate bytes (.yielding _) | .takeLoad .upload bytes 0 (.tryTake (.yielding _))
  | .takeExchange .upload bytes 0 _ (.tryTake (.yielding _)) => bytes+slotReserve M ≤ tokens
  | .yieldRate _ | .tryCount _ (.yielding _) | .count .upload _ .unit | .returned .unit => True
  | _ => False

namespace Caller.Covered
variable {M tokens tokens' : Nat} {c : Caller} {lim : BandwidthLimiter}

theorem mono (covered : c.Covered M tokens) (more : tokens ≤ tokens' ∨ c.spends = false) : c.Covered M tokens' := by
  unfold Covered at covered
  split at covered
  case h_3 => exact ⟨covered.1,covered.2.trans (more.resolve_right nofun)⟩
  case h_4 | h_5 | h_6 => exact le_trans covered (more.resolve_right nofun)
  case h_11 => cases covered
  all_goals exact covered

theorem yielding {remaining : Nat} : (yieldThenTakeUpload remaining).Covered M tokens := by
  unfold yieldThenTakeUpload
  split <;> trivial

theorem step (covered : c.Covered M lim.uploadTokens) (rate : lim.maxUploadRate = M) (speed : 0 < lim.smoothedUpload) {weak : Bool} :
    let next := c.step weak lim
    next.1.Covered M next.2.1.uploadTokens ∧ (lim.uploadTokens ≤ next.2.1.uploadTokens ∨
      (c.spends = true ∧ next.1.spends = false) ∧ slotReserve M ≤ next.2.1.uploadTokens) := by
  unfold Covered at covered
  split at covered
  case h_1 | h_4 | h_5 | h_7 =>
    refine ⟨?_,.inl le_rfl⟩
    dsimp only [Caller.step]
    split <;> first | exact covered | exact rate | exact yielding | trivial
  case h_2 => exact ⟨⟨covered,le_rfl⟩,.inl le_rfl⟩
  case h_3 remaining cap read =>
    obtain ⟨rfl,read⟩ := covered
    refine ⟨?_,.inl le_rfl⟩
    dsimp only [Caller.step,tryTakeUpload]
    rw [if_pos speed]
    split
    · exact yielding
    · change _+max (cap/4) 1 ≤ _
      omega
  case h_6 bytes current remaining =>
    by_cases failed : weak = true ∨ lim.tokens .upload ≠ current
    · rw [Caller.step,if_pos failed]
      exact ⟨covered,.inl le_rfl⟩
    obtain rfl : lim.tokens .upload = current := by simpa using (not_or.mp failed).2
    have take : min bytes (lim.tokens .upload-0) = bytes := Nat.min_eq_left (le_of_add_le_left covered)
    rw [Caller.step,if_neg failed,take]
    dsimp only [Frame.resume]
    split
    next none => exact ⟨yielding,.inl (by rw [none]; exact le_rfl)⟩
    next some => exact ⟨trivial,.inr ⟨⟨rfl,rfl⟩,Nat.le_sub_of_add_le' covered⟩⟩
  case h_8 => exact ⟨yielding,.inl le_rfl⟩
  case h_9 | h_10 => exact ⟨trivial,.inl le_rfl⟩
  case h_11 => cases covered

end Caller.Covered

namespace System
variable {M : Nat} {start s t : System} {trace trace' events : List Event} {lim : BandwidthLimiter}

theorem refill_tokens {refill : Refill} (settled : refill.Settled M lim) (le : M ≤ maxConfiguredSpeedBps)
    (capped : lim.uploadTokens ≤ 2*M) (weak : Bool) : lim.uploadTokens ≤ (refill.step weak lim).2.1.uploadTokens := by
  cases refill with
  | exchange tick add current =>
    have ofM : tick.Of M := settled
    have small : 2*maxConfiguredSpeedBps < 2^64 := by decide
    dsimp only [Refill.step]
    rw [ofM.maxUp,saturatingMul_two le]
    split
    · exact le_rfl
    next landed =>
    dsimp only [saturatingAdd]
    omega
  | debt | downExchange =>
    dsimp only [Refill.step]
    split <;> exact le_rfl
  | _ => exact le_rfl

structure Guarded (M : Nat) (start : BandwidthLimiter) (trace : List Event) (s : System) : Prop where
  balanced : Balanced M start trace s
  speed : 0 < s.limiter.smoothedUpload
  covered : ∀ c ∈ s.callers, c.Covered M s.limiter.uploadTokens

theorem Guarded.step (pos : 1 ≤ M) (le : M ≤ maxConfiguredSpeedBps) (word : lim.priorityTokens < 2^64)
    (capped : lim.uploadTokens ≤ 2*M) (guarded : Guarded M lim trace s) (step : ApartStep s events t) :
    Guarded M lim (trace++events) t ∧ (slotReserve M ≤ s.limiter.uploadTokens → slotReserve M ≤ t.limiter.uploadTokens) := by
  obtain ⟨⟨step,speed,-,calls⟩,apart⟩ := step
  have balanced := guarded.balanced.step pos le word step
  have books := guarded.balanced.books
  have covered := guarded.covered
  cases step with
  | call call =>
    refine ⟨⟨balanced,speed,fun c member => ?_⟩,id⟩
    obtain same | ⟨bytes,entered⟩ := calls
    · simp at same
    obtain old | new := mem_append.1 (entered ▸ member)
    · exact covered c old
    · exact mem_singleton.1 new ▸ .yielding
  | @caller weak i c turn =>
    obtain ⟨own,kept⟩ := (covered c (mem_of_getElem? turn)).step books.rate guarded.speed
    refine ⟨⟨balanced,speed,fun c' member => ?_⟩,fun reached => kept.elim reached.trans fun took => took.2⟩
    obtain old | rfl := mem_or_eq_of_mem_set member
    · refine (covered c' old).mono (kept.imp id fun took => ?_)
      obtain ⟨inside,found⟩ := List.getElem?_eq_some_iff.1 turn
      have others : (s.callers.set i (c.step weak s.limiter).1).countP Caller.spends = 0 := by
        rw [countP_set inside,found,if_pos took.1.1,if_neg (by simp [took.1.2])]
        exact Nat.sub_eq_zero_of_le apart
      simpa using countP_eq_zero.1 others c' member
    · exact own
  | tick | priorityUploads | updateSpeeds | refillAlive => exact ⟨⟨balanced,speed,covered⟩,id⟩
  | refill weak =>
    have more := refill_tokens books.settled le (books.upload.trans (by omega)) weak
    exact ⟨⟨balanced,speed,fun c member => (covered c member).mono (.inl more)⟩,fun reached => reached.trans more⟩

/-- Relay traffic leaves the slots their share once it is there, if only one caller at a time holds a budget. -/
theorem relay_leaves_reserve (pos : 1 ≤ M) (le : M ≤ maxConfiguredSpeedBps) (ready : Start M start)
    (capped : start.limiter.uploadTokens ≤ 2*M) (speed : 0 < start.limiter.smoothedUpload) (first : Path ApartStep start trace s)
    (reached : max (M/4) 1 ≤ s.limiter.uploadTokens) (next : Path ApartStep s trace' t) : max (M/4) 1 ≤ t.limiter.uploadTokens := by
  have begun : Guarded M start.limiter [] start := ⟨ready.balanced,speed,by simp [ready.callers]⟩
  have guarded := first.keeps (P := Guarded M start.limiter)
    (fun _ _ _ _ held step => (Guarded.step pos le ready.word capped held step).1) [] begun
  have both := next.keeps (P := fun past s => Guarded M start.limiter past s ∧ slotReserve M ≤ s.limiter.uploadTokens)
    (fun _ _ _ _ held step => (Guarded.step pos le ready.word capped held.1 step).imp id fun kept => kept held.2) _ ⟨guarded,reached⟩
  exact both.2

/-- A limiter of eight bytes a second with uploads under way, and relay callers of so many bytes each. -/
def relayed (callers bytes : Nat) : System :=
  ⟨{ BandwidthLimiter.new 8 0 with smoothedUpload := 1 },.idle,.replicate callers (yieldThenTakeUpload bytes)⟩

theorem ready_relayed : Start 8 (relayed 0 6) := ⟨rfl,rfl,rfl,by decide,by decide,by decide⟩

theorem call_relayed {callers bytes : Nat} : RelayStep (relayed callers bytes) [] (relayed (callers+1) bytes) := by
  have more : (relayed (callers+1) bytes).callers = (relayed callers bytes).callers++[yieldThenTakeUpload bytes] := replicate_succ'
  refine ⟨?_,Nat.one_pos,rfl,.inr ⟨bytes,more⟩⟩
  have entered := Step.call (s := relayed callers bytes) (.yieldThenTake bytes)
  rwa [Call.enter,← more] at entered

def relaying (crowd : Nat) (s t : System) : Bool :=
  0 < t.limiter.smoothedUpload && t.limiter.refillAlive && t.callers.length == s.callers.length && s.callers.countP Caller.spends ≤ crowd

theorem relayed_path {crowd : Nat} {turns : List Turn} (plays : (play (relaying crowd) s turns).isSome = true) :
    Path (fun s events t => RelayStep s events t ∧ s.callers.countP Caller.spends ≤ crowd) s
      ((play (relaying crowd) s turns).get plays).1 ((play (relaying crowd) s turns).get plays).2 := by
  refine (play_path (Option.some_get plays).symm).mono fun s events t step => ?_
  obtain ⟨step,calm⟩ := step
  simp only [relaying,Bool.and_eq_true,decide_eq_true_eq,beq_iff_eq] at calm
  exact ⟨⟨step,calm.1.1.1,calm.1.1.2,.inl calm.1.2⟩,calm.2⟩

/-- Two callers of three bytes each, one after the other. -/
def inTurn : List Turn := List.replicate 8 (.caller 0)++List.replicate 8 (.caller 1)

theorem inTurn_plays : (play (relaying 1) (relayed 2 3) inTurn).isSome = true := by decide +kernel

theorem relay_leaves_reserve_in_turn :
    ∃ trace t, Path ApartStep (relayed 0 3) trace t ∧ taken trace = 6 ∧ max (8/4) 1 ≤ t.limiter.uploadTokens := by
  have first : ApartStep (relayed 0 3) [] (relayed 1 3) := ⟨call_relayed,by decide⟩
  have second : ApartStep (relayed 1 3) [] (relayed 2 3) := ⟨call_relayed,by decide⟩
  have path := ((Path.single first).trans (.single second)).trans (relayed_path inTurn_plays)
  exact ⟨_,_,path,by decide +kernel,
    relay_leaves_reserve (by decide) (by decide) ready_relayed (by decide) (by decide) (.refl _) (by decide) path⟩

/-- Two callers of six bytes read the full bucket, and then both take. -/
def crossing : List Turn := [0,0,0,0,1,1,1,1,0,0,0,1,1,1].map .caller

theorem crossing_plays : (play (relaying 2) (relayed 2 6) crossing).isSome = true := by decide +kernel

theorem relay_spends_reserve : ∃ trace t, Start 8 (relayed 0 6) ∧ (relayed 0 6).limiter.uploadTokens ≤ 2*8 ∧
    0 < (relayed 0 6).limiter.smoothedUpload ∧ max (8/4) 1 ≤ (relayed 0 6).limiter.uploadTokens ∧
    Path RelayStep (relayed 0 6) trace t ∧ t.limiter.uploadTokens < max (8/4) 1 := by
  have path := (relayed_path crossing_plays).mono fun _ _ _ step => step.1
  exact ⟨_,_,ready_relayed,by decide,by decide,by decide,
    ((Path.single call_relayed).trans (.single call_relayed)).trans path,by decide +kernel⟩

end System
end Ember.Bandwidth
