import Ember.Transport.Capacity

/-! What a rejected packet costs. Most rejections change nothing but the books on handshakes seen
and budgets spent; two come too late in their handler. -/
namespace Ember.Transport
open Bytes Table Option AList

variable {A H T : Type} [LinearOrder A] {sessions : SessionMap A T} {s : NoiseSession T}

/-! ### An arrival that is refused -/

namespace EmberTransport

/-! ### A payload held back -/

section Defer
variable {deferred : Deferred A} {rank : A → Nat}

end Defer

section Defer
variable (env : Env A H T) (now : Instant) (draw : Draw) (source : A) (s : NoiseSession T) (payload : Bytes)

end Defer

/-! ### What nobody may lose -/

section Handlers
variable {env : Env A H T} {t : EmberTransport A H T} {now : Instant} {draw : Draw} {source : A} {data : Bytes} {claimant : A × Key → Prop}
variable {answer : IkAnswer T} {digest : BitVec 256}

end Handlers

/-! ### Rejected packets -/

def Framed (kind : UInt8) (data : Bytes) : Prop :=
  data.length ≤ maxEmberDatagramBytes ∧ headerLen ≤ data.length ∧ data.take 2 = emberMagic ∧ (data.drop 2).headD 0 = kind

section
variable (env : Env A H T) (t : EmberTransport A H T) (now : Instant) (draw : Draw) (data : Bytes) (source : A)

/-- A third XX message that authenticates under a static key nobody may use. -/
def Nameless : Prop :=
  Framed pktXxMsg3 data ∧ ∃ state queued created, t.pending.lookup source = some (.xxResponderMsg2 state queued created) ∧
    (env.noise.readMessage state (data.drop headerLen)).2.isSome ∧
    env.noise.extractRemoteStatic (env.noise.readMessage state (data.drop headerLen)).1 = none

variable {env t now draw data source}

theorem Nameless.dropped (nameless : Nameless env t data source) :
    t.processIncoming env now draw data source = ({ t with pending := t.pending.erase source },.rejected) := by
  obtain ⟨⟨short,long,magic,kind⟩,state,queued,created,found,heard,unnamed⟩ := nameless
  obtain ⟨payload,read⟩ := isSome_iff_exists.1 heard
  rw [processIncoming,if_neg (Nat.not_lt.2 short),if_neg (Nat.not_lt.2 long),if_neg (not_not.2 magic),kind]
  change t.handleXxMsg3 env now source (data.drop headerLen) = _
  rw [handleXxMsg3,found]
  dsimp only
  rw [read,unnamed]

end

end EmberTransport
end Ember.Transport
