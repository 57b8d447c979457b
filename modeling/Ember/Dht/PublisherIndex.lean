import Ember.Library.Table
import Ember.Dht.Record

/-! What each publisher holds across the store, as running counters, and how many have reached their
share. `Tracks` says the counters are those of a ledger, which a charge adds to and a discharge
takes from. -/
namespace Ember.Dht
open Table AList

def maxKeys : Nat := 50000
def maxStoreBytes : Nat := 48*1024*1024
def maxKeysPerPublisher : Nat := maxKeys/8
def maxBytesPerPublisher : Nat := maxStoreBytes/8
def maxKeysPerPublisherUnfiltered : Nat := maxKeys/2
def maxBytesPerPublisherUnfiltered : Nat := maxStoreBytes/2
def feedsPerIdentity : Nat := 8
def maxFeedHeadsPerPublisher : Nat := 64

@[ext] structure PublisherLoad where
  keys : Nat
  bytes : Nat
  feedHeads : Nat
  deriving DecidableEq

namespace PublisherLoad

instance : Zero PublisherLoad := ⟨⟨0,0,0⟩⟩
instance : Add PublisherLoad := ⟨fun a b => ⟨a.keys+b.keys,a.bytes+b.bytes,a.feedHeads+b.feedHeads⟩⟩
instance : Sub PublisherLoad := ⟨fun a b => ⟨a.keys-b.keys,a.bytes-b.bytes,a.feedHeads-b.feedHeads⟩⟩
variable (a b : PublisherLoad)

@[simp] theorem keys_zero : (0 : PublisherLoad).keys = 0 := rfl
@[simp] theorem bytes_zero : (0 : PublisherLoad).bytes = 0 := rfl
@[simp] theorem feedHeads_zero : (0 : PublisherLoad).feedHeads = 0 := rfl
@[simp] theorem keys_add : (a+b).keys = a.keys+b.keys := rfl
@[simp] theorem bytes_add : (a+b).bytes = a.bytes+b.bytes := rfl
@[simp] theorem feedHeads_add : (a+b).feedHeads = a.feedHeads+b.feedHeads := rfl

instance : AddCommMonoid PublisherLoad where
  add_assoc a b c := by ext <;> simp [Nat.add_assoc]
  zero_add a := by ext <;> simp
  add_zero a := by ext <;> simp
  add_comm a b := by ext <;> simp [Nat.add_comm]
  nsmul := nsmulRec

def entry (bytes : Nat) (slot feedHead : Bool) : PublisherLoad := ⟨slot.toNat,bytes,feedHead.toNat⟩

def spent (load : PublisherLoad) : Bool := load.keys == 0 && load.bytes == 0

def covers (load part : PublisherLoad) : Bool :=
  part.keys ≤ load.keys && part.bytes ≤ load.bytes && part.feedHeads ≤ load.feedHeads

theorem add_sub_cancel {a b : PublisherLoad} : a+b-b = a := by
  ext
  · exact Nat.add_sub_cancel a.keys b.keys
  · exact Nat.add_sub_cancel a.bytes b.bytes
  · exact Nat.add_sub_cancel a.feedHeads b.feedHeads

theorem covers_add : covers (a+b) b = true := by simp [covers]

theorem spent_add_of_bytes (positive : 0 < b.bytes) : spent (a+b) = false := by
  simp only [spent,bytes_add,Bool.and_eq_false_iff,beq_eq_false_iff_ne]
  omega

end PublisherLoad

structure PublisherIndex where
  load : Table PublisherKey PublisherLoad
  overShare : Nat
  keyShare : Nat
  byteShare : Nat
  localKey : Option PublisherKey
  noCrowdingVictim : Bool
  /-- Ghost: some `saturating_sub` of this index went below zero. -/
  saturated : Bool

namespace PublisherIndex
variable (index : PublisherIndex) (keyShare byteShare : Nat) (publisher : PublisherKey) (bytes : Nat)

def new : PublisherIndex where
  load := ∅
  overShare := 0
  keyShare := keyShare
  byteShare := byteShare
  localKey := none
  noCrowdingVictim := false
  saturated := false

def reaches (load : PublisherLoad) : Bool :=
  index.localKey != some publisher && (index.keyShare ≤ load.keys || index.byteShare ≤ load.bytes)

def isOverShare : Bool :=
  (index.load.lookup publisher).any (index.reaches publisher)

def anyoneOverShare : Bool := 0 < index.overShare

def feedHeadsFull : Bool :=
  index.localKey != some publisher &&
    (index.load.lookup publisher).any (fun load => maxFeedHeadsPerPublisher ≤ load.feedHeads)

def charge (firstUnderKey feedHead : Bool) : PublisherIndex :=
  let before := (index.load.lookup publisher).getD 0
  let load := before+.entry bytes firstUnderKey feedHead
  let crossed := index.reaches publisher load && !index.reaches publisher before
  { index with
    noCrowdingVictim := false
    load := index.load.insert publisher load
    overShare := index.overShare+crossed.toNat }

def discharge (lastUnderKey feedHead : Bool) : PublisherIndex :=
  match index.load.lookup publisher with
  | none => { index with noCrowdingVictim := false }
  | some before =>
    let part := PublisherLoad.entry bytes lastUnderKey feedHead
    let load := before-part
    let crossed := index.reaches publisher before && !index.reaches publisher load
    { index with
      noCrowdingVictim := false
      load := if load.spent then index.load.erase publisher else index.load.insert publisher load
      overShare := index.overShare-crossed.toNat
      saturated := index.saturated || !before.covers part || decide (index.overShare < crossed.toNat) }

def recount : PublisherIndex :=
  { index with overShare := (index.load.entries.filter fun e => index.reaches e.1 e.2).length }

def setLocal : PublisherIndex :=
  { index with localKey := some publisher }.recount

def setShares : PublisherIndex :=
  { index with
    noCrowdingVictim := false, keyShare := keyShare, byteShare := byteShare }.recount

def crowd : Nat :=
  total (fun publisher load => (index.reaches publisher load).toNat) index.load

/-- The counters are those of `ledger`, and no subtraction has lost anything. -/
structure Tracks (index : PublisherIndex) (ledger : PublisherKey → PublisherLoad) : Prop where
  load : ∀ p, index.load.lookup p = if (ledger p).spent then none else some (ledger p)
  overShare : index.overShare = index.crowd
  keyShare : 0 < index.keyShare
  byteShare : 0 < index.byteShare
  exact : index.saturated = false

variable {index : PublisherIndex} {ledger : PublisherKey → PublisherLoad}

section
variable (tracks : Tracks index ledger) (p : PublisherKey)
include tracks

private theorem reaches_of_spent (load : PublisherLoad) (spent : load.spent) : index.reaches p load = false := by
  simp only [PublisherLoad.spent,Bool.and_eq_true,beq_iff_eq] at spent
  have keys := tracks.keyShare
  have bytes := tracks.byteShare
  simp [reaches,spent,Nat.pos_iff_ne_zero.1 keys,Nat.pos_iff_ne_zero.1 bytes]

private theorem weight_reaches : weight (fun q load => (index.reaches q load).toNat) index.load p =
      (index.reaches p (ledger p)).toNat := by
  unfold weight
  rw [tracks.load p]
  by_cases spent : (ledger p).spent
  · rw [if_pos spent,reaches_of_spent tracks p _ spent]
    rfl
  · rw [if_neg spent]
    rfl

private theorem overShare_split :
    index.overShare = total (fun q load => (index.reaches q load).toNat) (index.load.erase p) +
      (index.reaches p (ledger p)).toNat := by
  rw [← weight_reaches tracks p,total_erase]
  exact tracks.overShare

end

private theorem reaches_mono (p : PublisherKey) (load part : PublisherLoad)
    (reached : index.reaches p load) : index.reaches p (load+part) := by
  simp only [reaches,Bool.and_eq_true,Bool.or_eq_true,decide_eq_true_eq] at reached ⊢
  refine ⟨reached.1,reached.2.imp ?_ ?_⟩
  · exact fun keys => Nat.le_add_right_of_le keys
  · exact fun bytes => Nat.le_add_right_of_le bytes

theorem tracks_charge (tracks : Tracks index ledger) (p : PublisherKey) (bytes : Nat)
    (first head : Bool) (settled : (ledger p).spent → ledger p = 0) (positive : 0 < bytes) :
    Tracks (index.charge p bytes first head) (ledger+Pi.single p (.entry bytes first head)) := by
  have before : (index.load.lookup p).getD 0 = ledger p := by
    rw [tracks.load p]
    by_cases spent : (ledger p).spent
    · rw [settled spent]
      rfl
    · simp [spent]
  refine { tracks with load := fun q => ?_, overShare := ?_ }
  · by_cases same : q = p
    · subst same
      have kept := PublisherLoad.spent_add_of_bytes (ledger q) (.entry bytes first head) positive
      simp [charge,before,kept]
    · simp [charge,tracks.load q,same]
  have split := overShare_split tracks p
  have grown : index.reaches p (ledger p) → _ := reaches_mono p (ledger p) (.entry bytes first head)
  have counted : (index.charge p bytes first head).crowd =
      total (fun q load => (index.reaches q load).toNat) (index.load.erase p) +
        (index.reaches p (ledger p+.entry bytes first head)).toNat := by
    simp only [charge,before]
    exact total_insert ..
  rw [counted]
  simp only [charge,before,split]
  cases was : index.reaches p (ledger p)
  · simp
  · simp [grown was]

theorem tracks_discharge {p : PublisherKey} {bytes : Nat} {last head : Bool}
    (tracks : Tracks index (ledger+Pi.single p (.entry bytes last head))) (positive : 0 < bytes) :
    Tracks (index.discharge p bytes last head) ledger := by
  have held : index.load.lookup p = some (ledger p+.entry bytes last head) := by
    have kept := PublisherLoad.spent_add_of_bytes (ledger p) (.entry bytes last head) positive
    simp [tracks.load p,kept]
  have split := overShare_split tracks p
  rw [Pi.add_apply,Pi.single_eq_same] at split
  have grown : index.reaches p (ledger p) → _ := reaches_mono p (ledger p) (.entry bytes last head)
  have unfolded : index.discharge p bytes last head = { index with
      noCrowdingVictim := false
      load := if (ledger p).spent then index.load.erase p else index.load.insert p (ledger p)
      overShare := total (fun q load => (index.reaches q load).toNat) (index.load.erase p) +
        (index.reaches p (ledger p)).toNat
      saturated := false } := by
    simp only [discharge,held,PublisherLoad.add_sub_cancel,PublisherLoad.covers_add,tracks.exact,split]
    cases after : index.reaches p (ledger p)
    · cases index.reaches p (ledger p+.entry bytes last head) <;> simp
    · simp [grown after]
  rw [unfolded]
  refine ⟨fun q => ?_,?_,tracks.keyShare,tracks.byteShare,rfl⟩
  · by_cases same : q = p
    · subst same
      by_cases spent : (ledger q).spent <;> simp [spent]
    have other : index.load.lookup q = if (ledger q).spent then none else some (ledger q) := by
      simpa [same] using tracks.load q
    by_cases spent : (ledger p).spent
    · simp [spent,lookup_erase_ne same,other]
    · simp [spent,lookup_insert_ne same,other]
  · by_cases spent : (ledger p).spent
    · simp only [spent]
      rw [reaches_of_spent tracks p _ spent]
      rfl
    · simp only [spent]
      exact (total_insert ..).symm

theorem recount_overShare (index : PublisherIndex) : index.recount.overShare = index.crowd := by
  simp only [recount,crowd,total]
  induction index.load.entries with
  | nil => rfl
  | cons e rest ih =>
    cases reached : index.reaches e.1 e.2 <;> simp [reached,ih,Nat.add_comm]

theorem tracks_setShares (tracks : Tracks index ledger) (keyShare byteShare : Nat)
    (keys : 0 < keyShare) (bytes : 0 < byteShare) : Tracks (index.setShares keyShare byteShare) ledger :=
  ⟨tracks.load,recount_overShare _,keys,bytes,tracks.exact⟩

end PublisherIndex
end Ember.Dht
