import Ember.Transport.Moves

/-! Payloads inside initiations. One is shown at most once, and only by a packet that decrypted
under the session its own initiation set up. -/
namespace Ember.Transport
open Bytes Table List Prod

variable {A H T : Type} [LinearOrder A]

namespace EmberTransport

/-! ### What is held back -/

/-- Every deferred payload came out of the initiation its generation names. -/
structure Traced (t : EmberTransport A H T) : Prop where
  named : ∀ slot d, t.deferredIk.lookup slot = some d → (d.generation,d.payload) ∈ t.initiations
  below : ∀ i ∈ t.initiations, i.1 < t.nextGeneration
  distinct : (t.initiations.map fst).Nodup
  sole : ∀ slot d slot' d', t.deferredIk.lookup slot = some d → t.deferredIk.lookup slot' = some d' → d.generation = d'.generation → slot = slot'

theorem traced_new {now : Instant} {draw : Draw} : (new now draw : EmberTransport A H T).Traced where
  named _ _ held := nomatch held
  below _ member := nomatch member
  distinct := nodup_nil
  sole _ _ _ _ held := nomatch held

variable {t t' : EmberTransport A H T} {env : Env A H T}

theorem Traced.move (move : Move env t t') (traced : t.Traced) : t'.Traced := by
  cases move with
  | guard | touch | send | flush | reread | queue | dial | dialXx | park | promote =>
    exact { traced with }
  | mint => exact { traced with below := fun i member => Nat.lt_succ_of_lt (traced.below i member) }
  | shed sessions stagedSessions pending deferredIk live staged waiting held =>
    exact { traced with
      named := fun slot d found => traced.named slot d (held found)
      sole := fun slot d slot' d' found found' => traced.sole slot d slot' d' (held found) (held found') }
  | install addr s =>
    obtain ⟨deferred,initiations,next⟩ := installSession_frame env t addr s
    exact ⟨deferred ▸ initiations ▸ traced.named,next ▸ initiations ▸ traced.below,initiations ▸ traced.distinct,deferred ▸ traced.sole⟩
  | hold slot payload deferredIk origin =>
    have older slot' d (found : t.deferredIk.lookup slot' = some d) : d.generation < t.nextGeneration :=
      traced.below _ (traced.named slot' d found)
    refine ⟨?_,?_,?_,?_⟩
    · intro slot' d found
      rw [mem_append,mem_singleton]
      rcases origin slot' d found with before | ⟨-,generation,same⟩
      · exact .inl (traced.named slot' d before)
      · exact .inr (Prod.ext generation same)
    · intro i member
      rw [mem_append,mem_singleton] at member
      rcases member with before | rfl
      · exact Nat.lt_succ_of_lt (traced.below i before)
      · exact Nat.lt_succ_self _
    · rw [map_append,map_singleton,nodup_append]
      refine ⟨traced.distinct,nodup_singleton _,?_⟩
      intro g member g' fresh
      rw [mem_singleton] at fresh
      subst fresh
      obtain ⟨i,listed,rfl⟩ := mem_map.1 member
      exact Nat.ne_of_lt (traced.below i listed)
    · intro slot₁ d₁ slot₂ d₂ found₁ found₂ same
      rcases origin slot₁ d₁ found₁ with before₁ | ⟨rfl,generation₁,-⟩
      · rcases origin slot₂ d₂ found₂ with before₂ | ⟨rfl,generation₂,-⟩
        · exact traced.sole slot₁ d₁ slot₂ d₂ before₁ before₂ same
        · exact absurd (same.trans generation₂) (Nat.ne_of_lt (older slot₁ d₁ before₁))
      rcases origin slot₂ d₂ found₂ with before₂ | ⟨rfl,-⟩
      · exact absurd (same.symm.trans generation₁) (Nat.ne_of_lt (older slot₂ d₂ before₂))
      · rfl

/-- The initiation of this generation has nothing held back, now or later. -/
def Spent (g : Nat) (t : EmberTransport A H T) : Prop :=
  g < t.nextGeneration ∧ ∀ slot d, t.deferredIk.lookup slot = some d → d.generation ≠ g

theorem Spent.move {g : Nat} (move : Move env t t') (spent : Spent g t) : Spent g t' := by
  cases move with
  | guard | touch | send | flush | reread | queue | dial | dialXx | park | promote => exact spent
  | mint => exact ⟨Nat.lt_succ_of_lt spent.1,spent.2⟩
  | shed sessions stagedSessions pending deferredIk live staged waiting held => exact ⟨spent.1,fun slot d found => spent.2 slot d (held found)⟩
  | install addr s =>
    obtain ⟨deferred,-,next⟩ := installSession_frame env t addr s
    rw [Spent,deferred,next]
    exact spent
  | hold slot payload deferredIk origin =>
    refine ⟨Nat.lt_succ_of_lt spent.1,?_⟩
    intro slot' d found
    rcases origin slot' d found with before | ⟨-,generation,-⟩
    · exact spent.2 slot' d before
    · rw [generation]
      exact Nat.ne_of_gt spent.1

/-! ### What a packet reads as -/

/-- A session of this generation, live or staged at the address, decrypts the packet. -/
def DecryptsUnder (env : Env A H T) (t : EmberTransport A H T) (source : A) (data : Bytes) (g : Nat) : Prop :=
  ∃ key s, (t.sessions.lookup (source,key) = some s ∨ t.stagedSessions.lookup (source,key) = some s) ∧ s.generation = g ∧
    ((data.drop 2).headD 0 = pktTransport ∧
      (env.noise.decrypt s.transport (littleEndian ((data.drop headerLen).take 8)) ((data.drop headerLen).drop 8)).isSome = true)

section Results
variable {env : Env A H T} {t : EmberTransport A H T} (now : Instant) (draw : Draw) (source : A) (data : Bytes)

theorem completeIkInit_quiet (digest : BitVec 256) (answer : IkAnswer T) :
    quiet (t.completeIkInit env now draw source digest answer).2 = true := by
  unfold completeIkInit
  dsimp only
  split <;> rfl

theorem processIncoming_message {key : Key} {payload : Bytes} {g : Nat} {source' : A}
    (delivered : t.processIncoming env now draw data source = (t',.message source' key payload g)) :
    DecryptsUnder env t source data g ∧ t'.deferredIk = t.deferredIk ∧ t'.initiations = t.initiations := by
  have handled := @processIncoming_handled A H T _ env t now draw source data
  generalize t.processIncoming env now draw data source = out at handled delivered
  cases handled with
  | noted _ silent | reread _ _ _ _ silent =>
    cases delivered
    cases silent
  | spoilt | nameless | parked | established => cases delivered
  | @initiated answer _ _ guards digest =>
    have silent := @completeIkInit_quiet A H T _ env { t with guards } now draw source digest answer
    rw [delivered] at silent
    cases silent
  | heard is held opens _ kept =>
    cases delivered
    exact ⟨⟨_,_,held,rfl,is,opens⟩,kept⟩

theorem processIncoming_ikInit (kind : (data.drop 2).headD 0 = pktIkInit) : quiet (t.processIncoming env now draw data source).2 = true := by
  have handled := @processIncoming_handled A H T _ env t now draw source data
  generalize t.processIncoming env now draw data source = out at handled
  cases handled with
  | noted _ silent | reread _ _ _ _ silent => exact silent
  | spoilt | nameless | parked => rfl
  | initiated => exact completeIkInit_quiet ..
  | established other => exact absurd kind other
  | heard is =>
    rw [kind] at is
    cases is

end Results

/-! ### What the caller is shown -/

/-- The caller sees what surfaced: control messages, and the rest. -/
structure Shown (o : DispatchOutcome) : Prop where
  controls : o.controls = o.surfaced.filterMap fun item => EmberControlMessage.decode item.2
  appPayloads : o.appPayloads = (o.surfaced.map (·.2)).filter fun payload => (EmberControlMessage.decode payload).isNone

section Surface
variable (env : Env A H T) (now : Instant) (draw : Draw) (source : A)
variable {state : EmberTransport A H T × DispatchOutcome} {item : Option Nat × Bytes}

theorem surface_surfaced : (surface env now draw source state item).2.surfaced = state.2.surfaced++[item] := by
  unfold surface
  dsimp only
  split <;> rfl

theorem surface_shown (shown : Shown state.2) : Shown (surface env now draw source state item).2 := by
  unfold surface
  dsimp only
  split
  · rename_i plain
    exact ⟨by simp [shown.controls,plain],by simp [shown.appPayloads,plain]⟩
  · rename_i nonce ping
    exact ⟨by simp [shown.controls,ping],by simp [shown.appPayloads,ping]⟩
  · rename_i message _ control
    exact ⟨by simp [shown.controls,control],by simp [shown.appPayloads,control]⟩

theorem surfaces_spec (items : List (Option Nat × Bytes)) (state : EmberTransport A H T × DispatchOutcome) (shown : Shown state.2) :
    (items.foldl (surface env now draw source) state).2.surfaced = state.2.surfaced++items ∧
      Shown (items.foldl (surface env now draw source) state).2 := by
  induction items generalizing state with
  | nil => exact ⟨(append_nil _).symm,shown⟩
  | cons item rest ih =>
    rw [foldl_cons]
    obtain ⟨surfaced,shown'⟩ := ih _ (surface_shown env now draw source shown)
    refine ⟨?_,shown'⟩
    rw [surfaced,surface_surfaced,append_assoc,singleton_append]

theorem surfaceAll_spec (t : EmberTransport A H T) (key : Key) (released : Option DeferredIkPayload) (payload : Bytes) {outcome : DispatchOutcome}
    (shown : Shown outcome) (nothing : outcome.surfaced = []) :
    (∃ own : List Bytes, (t.surfaceAll env now draw source key released payload outcome).2.surfaced =
      (released.toList.map fun d => (some d.generation,d.payload))++own.map fun payload => (none,payload)) ∧
      Shown (t.surfaceAll env now draw source key released payload outcome).2 := by
  unfold surfaceAll
  obtain ⟨surfaced,shown'⟩ := surfaces_spec env now draw source
    ((released.toList.map fun d => (some d.generation,d.payload))++(if (t.consumeProbeAnswer source key payload).2 then [] else [(none,payload)]))
    ((t.consumeProbeAnswer source key payload).1,outcome) shown
  refine ⟨⟨if (t.consumeProbeAnswer source key payload).2 then [] else [payload],?_⟩,shown'⟩
  rw [surfaced,nothing]
  split <;> rfl

end Surface

def released (o : DispatchOutcome) : List Nat := o.surfaced.filterMap fst

theorem released_own {own : List Bytes} : (own.map fun payload => ((none : Option Nat),payload)).filterMap fst = [] := by
  induction own with
  | nil => rfl
  | cons payload rest ih => simp

theorem takeDeferredIk_spec (t : EmberTransport A H T) (now : Instant) (source : A) (key : Key) (g : Nat) :
    (t.takeDeferredIk now source key g).2 = none ∨
      ∃ d, t.deferredIk.lookup (source,key) = some d ∧ d.generation = g ∧
        t.takeDeferredIk now source key g = ({ t with deferredIk := t.deferredIk.erase (source,key) },some d) := by
  unfold takeDeferredIk
  dsimp only
  split
  · exact .inl rfl
  rename_i d held
  split
  · exact .inl rfl
  rename_i matching
  split
  · exact .inl rfl
  · exact .inr ⟨d,held,Decidable.not_not.1 matching,rfl⟩

theorem dispatchIncoming_released (env : Env A H T) (now : Instant) (draw : Draw) (data : Bytes) (source : A)
    (traced : t.Traced) : Shown (t.dispatchIncoming env now draw data source).2 ∧
      (released (t.dispatchIncoming env now draw data source).2 = [] ∨
        ∃ slot d, t.deferredIk.lookup slot = some d ∧ released (t.dispatchIncoming env now draw data source).2 = [d.generation] ∧
          (∀ payload, (some d.generation,payload) ∈ (t.dispatchIncoming env now draw data source).2.surfaced → payload = d.payload) ∧
          DecryptsUnder env t source data d.generation ∧ Spent d.generation (t.dispatchIncoming env now draw data source).1) := by
  have empty {o : DispatchOutcome} (surfaced : o.surfaced = []) (controls : o.controls = []) (appPayloads : o.appPayloads = []) :
      Shown o ∧ released o = [] := by
    refine ⟨⟨?_,?_⟩,?_⟩
    · rw [controls,surfaced,filterMap_nil]
    · rw [appPayloads,surfaced,map_nil,filter_nil]
    · rw [released,surfaced,filterMap_nil]
  unfold dispatchIncoming
  split
  · exact (empty rfl rfl rfl).imp_right .inl
  split
  · exact (empty rfl rfl rfl).imp_right .inl
  · exact (empty rfl rfl rfl).imp_right .inl
  · split
    · exact (empty rfl rfl rfl).imp_right .inl
    rename_i t' _ key packets _ payload _
    have first : Shown { responses := packets,remoteNoisePub := some key } := ⟨rfl,rfl⟩
    obtain ⟨⟨own,surfaced⟩,shown⟩ := surfaceAll_spec env now draw source t' key none payload first rfl
    refine ⟨shown,.inl ?_⟩
    rw [released,surfaced]
    exact released_own
  · rename_i t' source' key payload g delivered
    obtain ⟨opens,deferred,initiations⟩ := processIncoming_message now draw source data delivered
    have first : Shown { remoteNoisePub := some key } := ⟨rfl,rfl⟩
    obtain ⟨⟨own,surfaced⟩,shown⟩ := surfaceAll_spec env now draw source (t'.takeDeferredIk now source key g).1 key
      (t'.takeDeferredIk now source key g).2 payload first rfl
    refine ⟨shown,?_⟩
    rcases takeDeferredIk_spec t' now source key g with nothing | ⟨d,held,rfl,taken⟩
    · left
      rw [released,surfaced,nothing]
      exact released_own
    right
    rw [taken] at surfaced ⊢
    have traced' : t'.Traced := by
      have moves := @processIncoming_moves A H T _ env t now draw source data
      rw [delivered] at moves
      exact moves.invariant Traced.move traced
    refine ⟨(source,key),d,deferred ▸ held,?_,?_,opens,?_⟩
    · rw [released,surfaced,filterMap_append,released_own]
      rfl
    · intro payload' member
      rw [surfaced,mem_append] at member
      rcases member with first | later
      · simpa using first
      · obtain ⟨_,_,same⟩ := mem_map.1 later
        cases same
    · -- no other entry carries the generation, and none will
      have gone : Spent d.generation { t' with deferredIk := t'.deferredIk.erase (source,key) } := by
        refine ⟨traced'.below _ (traced'.named _ d held),?_⟩
        intro slot d' found same
        have before := Within.erase _ _ found
        have here := traced'.sole slot d' (source,key) d before held same
        subst here
        rw [AList.lookup_erase] at found
        cases found
      exact (surfaceAll_moves now draw key (some d) payload _).invariant Spent.move gone

/-! ### Runs -/

def Answer.released : Answer A → List Nat
  | .dispatched o => EmberTransport.released o
  | _ => []

section
variable {t : EmberTransport A H T} {env : Env A H T}

theorem step_released (env : Env A H T) (traced : t.Traced) (call : Call A) : Answer.released (t.step env call).2 = [] ∨
      ∃ slot d, t.deferredIk.lookup slot = some d ∧ Answer.released (t.step env call).2 = [d.generation] ∧
        Spent d.generation (t.step env call).1 := by
  unfold step
  split
  · exact .inl rfl
  · exact .inl rfl
  · rename_i data source _
    obtain ⟨-,shows⟩ := dispatchIncoming_released env call.now call.draw data source traced
    refine shows.imp_right ?_
    rintro ⟨slot,d,held,only,-,-,spent⟩
    exact ⟨slot,d,held,only,spent⟩
  · exact .inl rfl
  · exact .inl rfl
  · exact .inl rfl

theorem run_released (traced : t.Traced) {calls : List (Call A)} :
    ((t.run env calls).2.flatMap Answer.released).Nodup ∧ ∀ g, Spent g t → g ∉ (t.run env calls).2.flatMap Answer.released := by
  induction calls generalizing t with
  | nil => exact ⟨nodup_nil,fun _ _ => not_mem_nil⟩
  | cons call rest ih =>
    obtain ⟨distinct,kept⟩ := ih (step_moves.invariant Traced.move traced)
    rw [run,flatMap_cons]
    have later g spent : g ∉ ((t.step env call).1.run env rest).2.flatMap Answer.released :=
      kept g (step_moves.invariant Spent.move spent)
    rcases step_released env traced call with nothing | ⟨slot,d,held,only,spent⟩
    · rw [nothing]
      exact ⟨distinct,later⟩
    rw [only,singleton_append,nodup_cons]
    refine ⟨⟨kept _ spent,distinct⟩,?_⟩
    intro g gone member
    rcases mem_cons.1 member with same | after
    · exact gone.2 slot d held same.symm
    · exact later g gone after

theorem dispatchIncoming_quiet {now : Instant} {draw : Draw} {data : Bytes} {source : A}
    (silent : quiet (t.processIncoming env now draw data source).2 = true) : (t.dispatchIncoming env now draw data source).2.surfaced = [] := by
  unfold dispatchIncoming
  split
  · rfl
  split
  · rfl
  · rfl
  · rename_i delivered
    rw [delivered] at silent
    split
    · rfl
    · cases silent
  · rename_i delivered
    rw [delivered] at silent
    cases silent

end

/-- What an initiation carried is shown to the caller at most once, never by the initiation itself,
and only by a packet that decrypts under the generation the initiation gave its session. The list of
initiations has one entry for each processed afresh. -/
theorem initiation_shown_once (env : Env A H T) (now : Instant) (draw : Draw) (calls : List (Call A)) :
    (((new now draw).run env calls).1.initiations.map fst).Nodup ∧
      (((new now draw).run env calls).2.flatMap Answer.released).Nodup ∧
      ∀ before call after data source, calls = before++call :: after → call.request = .dispatchIncoming data source →
        let t := ((new now draw).run env before).1
        let o := (t.dispatchIncoming env call.now call.draw data source).2
        Shown o ∧ ((data.drop 2).headD 0 = pktIkInit → o.surfaced = []) ∧
          ∀ g payload, (some g,payload) ∈ o.surfaced → (g,payload) ∈ t.initiations ∧ DecryptsUnder env t source data g := by
  have tracedAt calls : ((new now draw).run env calls).1.Traced := (run_moves calls).invariant Traced.move traced_new
  refine ⟨(tracedAt calls).distinct,(run_released traced_new).1,?_⟩
  intro before call after data source _ _ t o
  have traced := tracedAt before
  obtain ⟨shown,shows⟩ := dispatchIncoming_released env call.now call.draw data source traced
  refine ⟨shown,fun kind => dispatchIncoming_quiet (processIncoming_ikInit _ _ _ _ kind),?_⟩
  intro g payload member
  have listed : g ∈ released o := mem_filterMap.2 ⟨(some g,payload),member,rfl⟩
  rcases shows with nothing | ⟨slot,d,held,only,own,opens,-⟩
  · rw [nothing] at listed
    cases listed
  rw [only,mem_singleton] at listed
  subst listed
  rw [own payload member]
  exact ⟨traced.named slot d held,opens⟩

def initiateAndProve : List (Call Nat) :=
  [emberMagic++[pktIkInit,7,1,2],emberMagic++[pktIkInit,7,1,2],emberMagic++[pktTransport]++ofNatLittleEndian 8 0++[7,5],
    emberMagic++[pktTransport]++ofNatLittleEndian 8 1++[7,5]].map fun data => { request := .dispatchIncoming data 9,now := 1,draw := {} }

theorem initiation_shown_once_proven :
    let t := ((new 0 {}).run plainEnv (initiateAndProve.take 2)).1
    (some 1,[1,2]) ∈ (t.dispatchIncoming plainEnv 1 {} (emberMagic++[pktTransport]++ofNatLittleEndian 8 0++[7,5]) 9).2.surfaced ∧
      (1,[1,2]) ∈ t.initiations :=
  ⟨by decide +kernel,
    (((initiation_shown_once plainEnv 0 {} initiateAndProve).2.2 (initiateAndProve.take 2) _ _ _ 9 rfl rfl).2.2 1 [1,2] (by decide +kernel)).1⟩

end EmberTransport
end Ember.Transport
