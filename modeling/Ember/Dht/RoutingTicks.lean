import Ember.Dht.RoutingRun

/-! The diversity quotas over whole runs, and the maintenance tick over and over. A pass that
tightens reads four fifths of the verified residents, one that relaxes five fourths of the verified
contacts held, and a tick never adds to those: a tier given up is not taken up again. -/
namespace Ember.Dht.RoutingTable
open List

variable {scale tier : NetworkScale} {t : RoutingTable} {clock : Nat → Int}

/-- The residents keep the quotas of the tier enforced: those of the loosest tier always, those of a
tier tightened to until a later pass relaxes it. -/
theorem quotas_hold (localId : EmberNodeId) (blockPrivateIps : Bool) (ops : List RoutingOp) :
    let t := (new localId blockPrivateIps).run ops
    Within t.enforcedScale t ∧ Within .bootstrap t ∧
      ∀ tier later, t.enforcedScale < tier → t.enforceScaleQuotas.1.enforcedScale = tier →
        (∀ n, tier ≤ (t.enforceScaleQuotas.1.run (later.take n)).enforcedScale) →
          Within tier (t.enforceScaleQuotas.1.run later) := by
  intro t
  have intact : Intact t := reached_intact localId blockPrivateIps ops
  refine ⟨intact.within,intact.within.mono (by cases t.enforcedScale <;> decide),?_⟩
  intro tier later _ _ unrelaxed
  have after : Intact (t.enforceScaleQuotas.1.run later) := (run_intact (enforceScaleQuotas_sound intact)).1
  have order := unrelaxed later.length
  rw [take_length] at order
  exact after.within.mono order

def peer (j : Nat) : EmberContact where
  nodeId := BitVec.ofNat 128 (j+1)
  ip := .v4 (BitVec.ofNat 32 (0x08080808+256*j))
  port := 4672
  lastSeen := 1
  noisePub := 7

def thirteenPeers : List RoutingOp := (range 13).map fun j => .addContact 1 (peer j)

theorem quotas_hold_of_thirteen :
    let t := (new 0 true).run thirteenPeers
    t.enforcedScale < .small ∧ Within .small (t.enforceScaleQuotas.1.run [.addContact 2 (peer 13)]) := by
  have loose : ((new 0 true).run thirteenPeers).enforcedScale = .bootstrap := by decide +kernel
  have tight : ((new 0 true).run thirteenPeers).enforceScaleQuotas.1.enforcedScale = .small := by decide +kernel
  refine ⟨by rw [loose]; decide,(quotas_hold 0 true thirteenPeers).2.2 .small _ (by rw [loose]; decide) tight ?_⟩
  intro n
  cases n with
  | zero => rw [take_zero,run,foldl_nil,tight]
  | succ n =>
    rw [take_succ_cons,take_nil]
    decide +kernel

def tick (now : Int) (t : RoutingTable) : RoutingTable := (t.enforceScaleQuotas.1.promoteCachedContacts now).1

def ticks (clock : Nat → Int) (t : RoutingTable) : Nat → RoutingTable
  | 0 => t
  | n+1 => (ticks clock t n).tick (clock n)

def RaisesTo (t : RoutingTable) (tier : NetworkScale) : Prop :=
  t.enforcedScale < tier ∧ t.enforceScaleQuotas.1.enforcedScale = tier

def Demotes (t : RoutingTable) : Prop := ∃ i, (t.enforceScaleQuotas.1.buckets i).contacts ≠ (t.buckets i).contacts

instance (t : RoutingTable) : Decidable (Demotes t) := inferInstanceAs (Decidable (∃ _, _))

theorem Sound.verified_le (sound : Sound scale t) : t.verifiedLen ≤ t.verifiedHeld := by
  rw [verifiedLen,sound.verified]
  exact (gather_sublist fun _ => sublist_append_left ..).countP_le

theorem Sound.target_le (sound : Sound scale t) : t.targetScale ≤ .fromContacts (t.verifiedHeld*5/4) := by
  have fewer := sound.verified_le
  exact NetworkScale.fromContacts_mono (by omega)

theorem tick_intact (now : Int) (intact : Intact t) :
    Intact (t.tick now) ∧ (t.tick now).enforcedScale = t.enforceScaleQuotas.1.enforcedScale ∧
      (t.tick now).verifiedHeld ≤ t.verifiedHeld := by
  have enforced : Intact t.enforceScaleQuotas.1 := enforceScaleQuotas_sound intact
  have promoted := promoteCachedContacts_rearranged now enforced le_rfl
  rw [tick]
  exact ⟨promoted.intact.1,promoted.enforced,(promoted.held.trans (enforce_held intact)).countP_le _⟩

theorem ticks_intact (clock : Nat → Int) (intact : Intact t) (n : Nat) : Intact (ticks clock t n) := by
  induction n with
  | zero => exact intact
  | succ n ih => exact (tick_intact (clock n) ih).1

def Spent (tier : NetworkScale) (t : RoutingTable) : Prop :=
  tier ≤ t.enforcedScale ∨ .fromContacts (t.verifiedHeld*5/4) < tier

theorem Spent.tick (spent : Spent tier t) {now : Int} (intact : Intact t) : Spent tier (t.tick now) := by
  obtain ⟨-,enforced,fewer⟩ := tick_intact now intact
  have lower : NetworkScale.fromContacts ((t.tick now).verifiedHeld*5/4) ≤ .fromContacts (t.verifiedHeld*5/4) :=
    NetworkScale.fromContacts_mono (by omega)
  obtain reached | few := spent
  · rcases le_or_gt t.targetScale t.relaxedScale with quiet | raised
    · -- The pass keeps the tier or gives it up because too few are held.
      rcases le_or_gt tier t.relaxedScale with kept | given
      · left
        rwa [enforced,enforce_relaxed quiet]
      · right
        exact lower.trans_lt ((min_lt_iff.1 given).resolve_right (not_lt.2 reached))
    · left
      rw [enforced,(enforce_readmits intact raised).2.1]
      have enough := Sound.target_le intact
      exact reached.trans (le_of_not_gt fun above => not_lt.2 (le_min enough above.le) raised)
  · right
    exact lower.trans_lt few

theorem Spent.ticks (spent : Spent tier t) (clock : Nat → Int) (intact : Intact t) (n : Nat) :
    Spent tier (ticks clock t n) := by
  induction n with
  | zero => exact spent
  | succ n ih => exact ih.tick (ticks_intact clock intact n)

theorem RaisesTo.target (raises : RaisesTo t tier) (intact : Intact t) :
    t.relaxedScale < t.targetScale ∧ t.targetScale = tier := by
  obtain ⟨above,reached⟩ := raises
  rcases le_or_gt t.targetScale t.relaxedScale with quiet | raised
  · rw [enforce_relaxed quiet] at reached
    exact absurd (reached ▸ relaxedScale_le t) (not_le.2 above)
  · exact ⟨raised,(enforce_readmits intact raised).2.1.symm.trans reached⟩

theorem RaisesTo.spent (raises : RaisesTo t tier) (now : Int) (intact : Intact t) : Spent tier (t.tick now) := by
  left
  rw [(tick_intact now intact).2.1,raises.2]

theorem Spent.not_raises (spent : Spent tier t) (intact : Intact t) : ¬RaisesTo t tier := by
  intro raises
  obtain reached | few := spent
  · exact absurd reached (not_le.2 raises.1)
  have enough := Sound.target_le intact
  rw [(raises.target intact).2] at enough
  exact absurd few (not_lt.2 enough)

theorem ticks_add (clock : Nat → Int) (t : RoutingTable) (m n : Nat) :
    ticks clock t (m+n) = ticks (fun k => clock (m+k)) (ticks clock t m) n := by
  induction n with
  | zero => rfl
  | succ n ih => rw [← Nat.add_assoc,ticks,ih,ticks]

theorem raised_once (intact : Intact t) {m n : Nat} (later : m < n)
    (raises : RaisesTo (ticks clock t m) tier) : ¬RaisesTo (ticks clock t n) tier := by
  obtain ⟨k,rfl⟩ := Nat.exists_eq_add_of_lt later
  have middle := ticks_intact clock intact m
  have spent := (raises.spent (clock m) middle).ticks (fun k => clock (m+1+k)) (tick_intact (clock m) middle).1 k
  rw [show m+k+1 = m+1+k by omega,ticks_add]
  exact spent.not_raises (ticks_intact _ (ticks_intact clock intact (m+1)) k)

theorem Demotes.raises (demotes : Demotes t) (intact : Intact t) :
    RaisesTo t t.targetScale ∧ t.targetScale ∈ ({.small,.established} : Finset NetworkScale) := by
  rcases le_or_gt t.targetScale t.relaxedScale with quiet | raised
  · obtain ⟨i,moved⟩ := demotes
    rw [enforce_relaxed quiet] at moved
    exact absurd rfl moved
  have above : t.enforcedScale < t.targetScale :=
    (min_lt_iff.1 raised).resolve_left (not_lt.2 (Sound.target_le intact))
  refine ⟨⟨above,(enforce_readmits intact raised).2.1⟩,?_⟩
  cases target : t.targetScale with
  | bootstrap =>
    rw [target] at above
    cases scale : t.enforcedScale <;> rw [scale] at above <;> exact absurd above (by decide)
  | small => decide
  | established => decide

theorem targets_injective (intact : Intact t) :
    Set.InjOn (fun k => (ticks clock t k).targetScale) {k | Demotes (ticks clock t k)} := by
  intro m first n second same
  have raises := (first.raises (ticks_intact clock intact m)).1
  have raises' := (second.raises (ticks_intact clock intact n)).1
  rw [show (ticks clock t m).targetScale = (ticks clock t n).targetScale from same] at raises
  rcases Nat.lt_trichotomy m n with before | equal | after
  · exact absurd raises' (raised_once intact before raises)
  · exact equal
  · exact absurd raises (raised_once intact after raises')

/-- However long the maintenance runs on an undisturbed table, each tier is tightened to at most once, at
most two passes demote anything, and from some tick on none does. -/
theorem enforcement_settles (localId : EmberNodeId) (blockPrivateIps : Bool) (ops : List RoutingOp) (clock : Nat → Int) :
    let t := (new localId blockPrivateIps).run ops
    (∀ m n tier, m < n → RaisesTo (ticks clock t m) tier → ¬RaisesTo (ticks clock t n) tier) ∧
      (∀ n, ((Finset.range n).filter fun k => Demotes (ticks clock t k)).card ≤ 2) ∧
      ∃ n, ∀ k, n ≤ k → ¬Demotes (ticks clock t k) := by
  intro t
  have intact : Intact t := reached_intact localId blockPrivateIps ops
  have raised k (demotes : Demotes (ticks clock t k)) :
      (ticks clock t k).targetScale ∈ ({.small,.established} : Finset NetworkScale) :=
    (demotes.raises (ticks_intact clock intact k)).2
  refine ⟨fun m n tier later raises => raised_once intact later raises,fun n => ?_,?_⟩
  · refine Finset.card_le_card_of_injOn (fun k => (ticks clock t k).targetScale) (t := {.small,.established}) ?_ ?_
    · intro k member
      exact raised k (Finset.mem_filter.1 member).2
    · exact (targets_injective intact).mono fun k member => (Finset.mem_filter.1 member).2
  have finite : {k | Demotes (ticks clock t k)}.Finite :=
    Set.Finite.of_injOn (fun k demotes => Finset.mem_coe.2 (raised k demotes)) (targets_injective intact)
      ({.small,.established} : Finset NetworkScale).finite_toSet
  obtain ⟨bound,above⟩ := finite.bddAbove
  exact ⟨bound+1,fun k later demotes => absurd (above demotes) (by omega)⟩

theorem enforcement_settles_of_thirteen :
    let t := (new 0 true).run thirteenPeers
    RaisesTo (ticks (fun _ => 2) t 0) .small ∧ ¬RaisesTo (ticks (fun _ => 2) t 1) .small := by
  have loose : ((new 0 true).run thirteenPeers).enforcedScale = .bootstrap := by decide +kernel
  have tight : ((new 0 true).run thirteenPeers).enforceScaleQuotas.1.enforcedScale = .small := by decide +kernel
  have raises : RaisesTo (ticks (fun _ => 2) ((new 0 true).run thirteenPeers) 0) .small := by
    rw [ticks]
    exact ⟨by rw [loose]; decide,tight⟩
  exact ⟨raises,(enforcement_settles 0 true thirteenPeers fun _ => 2).1 0 1 .small Nat.zero_lt_one raises⟩

end Ember.Dht.RoutingTable
