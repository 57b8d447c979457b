import Ember.Ed2k.PartMetLoad

/-! Sub-ranges workers hold while they write. Whatever the interleaving, no two outstanding ones
share a byte, and a grant is exactly the missing bytes of its range that nobody holds. -/
namespace Ember.Ed2k
open Ranges List Option Prod

namespace PartTracker
variable {t : PartTracker} {start stop : Nat}

section Unblocked
variable {blocked : List Range} {cursor x : Nat} {r : Range}

theorem unblocked_inside (member : r ∈ unblocked stop cursor blocked) : cursor ≤ r.1 ∧ r.1 < r.2 ∧ r.2 ≤ stop := by
  induction blocked generalizing cursor with
  | nil =>
    unfold unblocked at member
    split at member
    · rw [mem_singleton.1 member]
      exact ⟨le_rfl,by assumption,le_rfl⟩
    · cases member
  | cons block rest ih =>
    unfold unblocked at member
    split at member
    · exact ih member
    rcases mem_append.1 member with before | later
    · split at before
      · rw [mem_singleton.1 before]
        omega
      · cases before
    split at later
    · cases later
    · have inside := ih later
      omega

theorem covers_unblocked (ordered : blocked.Pairwise fun r s => r.2 ≤ s.1) (nonempty : ∀ r ∈ blocked, r.1 < r.2) :
    Covers (unblocked stop cursor blocked) x ↔ (cursor ≤ x ∧ x < stop) ∧ ¬ Covers blocked x := by
  induction blocked generalizing cursor with
  | nil =>
    unfold unblocked
    split
    · simp
    · simp only [covers_nil,false_iff]
      omega
  | cons block rest ih =>
    have filled := nonempty block mem_cons_self
    have later : ∀ cursor, Covers (unblocked stop cursor rest) x ↔ (cursor ≤ x ∧ x < stop) ∧ ¬ Covers rest x := fun _ =>
      ih ordered.of_cons fun r member => nonempty r (mem_cons_of_mem _ member)
    have beyond : Covers rest x → block.2 ≤ x := by
      rintro ⟨r,member,low,_⟩
      exact ((pairwise_cons.1 ordered).1 r member).trans low
    unfold unblocked
    rw [covers_cons,not_or]
    split
    · rw [later]
      constructor
      · rintro ⟨inside,free⟩
        exact ⟨inside,by omega,free⟩
      · rintro ⟨inside,_,free⟩
        exact ⟨inside,free⟩
    · rename_i meeting
      -- the run up to the block, and the run after it with the cursor past the block
      have before : Covers (if cursor < block.1 then [(cursor,block.1)] else []) x ↔ cursor ≤ x ∧ x < block.1 := by
        split
        · simp
        · simp only [covers_nil,false_iff]
          omega
      have after : Covers (if stop ≤ block.2 then [] else unblocked stop block.2 rest) x ↔
          (block.2 ≤ x ∧ x < stop) ∧ ¬ Covers rest x := by
        split
        · simp only [covers_nil,false_iff]
          omega
        · exact later _
      rw [covers_append,before,after]
      constructor
      · rintro (early | ⟨late,free⟩)
        · exact ⟨by omega,by omega,fun covered => by have := beyond covered; omega⟩
        · exact ⟨by omega,by omega,free⟩
      rintro ⟨inside,outside,free⟩
      rcases Nat.lt_or_ge x block.1 with early | late
      · exact .inl ⟨inside.1,early⟩
      · exact .inr ⟨by omega,free⟩

theorem unblocked_ordered (nonempty : ∀ r ∈ blocked, r.1 < r.2) : (unblocked stop cursor blocked).Pairwise fun r s => r.2 ≤ s.1 := by
  induction blocked generalizing cursor with
  | nil =>
    unfold unblocked
    split
    · exact pairwise_singleton ..
    · exact .nil
  | cons block rest ih =>
    have filled := nonempty block mem_cons_self
    have later : ∀ cursor, (unblocked stop cursor rest).Pairwise fun r s => r.2 ≤ s.1 := fun _ =>
      ih fun r member => nonempty r (mem_cons_of_mem _ member)
    unfold unblocked
    split
    · exact later _
    refine pairwise_append.2 ⟨?_,?_,?_⟩
    · split
      · exact pairwise_singleton ..
      · exact .nil
    · split
      · exact .nil
      · exact later _
    · intro r before s after
      split at before
      · rw [mem_singleton.1 before]
        split at after
        · cases after
        have inside := unblocked_inside after
        omega
      · cases before

end Unblocked

section Grant

theorem blockedIn_perm :
    (t.blockedIn start stop).Perm (t.writeReservations.filter fun held => held.1 < stop && start < held.2) :=
  perm_insertionSort ..

theorem blockedIn_ordered (exclusive : Exclusive t.writeReservations) :
    (t.blockedIn start stop).Pairwise (fun r s => r.2 ≤ s.1) ∧ ∀ r ∈ t.blockedIn start stop, r.1 < r.2 := by
  have met : Exclusive (t.blockedIn start stop) := (exclusive.sublist filter_sublist).perm blockedIn_perm.symm
  have sorted : (t.blockedIn start stop).Pairwise fun r s => r.1 < s.1 ∨ r.1 = s.1 ∧ r.2 ≤ s.2 := by
    have total : Std.Total fun r s : Range => r.1 < s.1 ∨ r.1 = s.1 ∧ r.2 ≤ s.2 := ⟨fun r s => by omega⟩
    have transitive : IsTrans Range fun r s => r.1 < s.1 ∨ r.1 = s.1 ∧ r.2 ≤ s.2 := ⟨fun r s t _ _ => by omega⟩
    exact pairwise_insertionSort ..
  refine ⟨?_,met.nonempty⟩
  apply (sorted.and met.separate).imp_of_mem
  rintro r s first second ⟨order,apart⟩
  have filled' := met.nonempty s second
  unfold Separate at apart
  omega

theorem covers_blockedIn {x : Nat} (inside : start ≤ x ∧ x < stop) :
    Covers (t.blockedIn start stop) x ↔ Covers t.writeReservations x := by
  rw [covers_perm blockedIn_perm]
  constructor
  · rintro ⟨r,member,covered⟩
    exact ⟨r,(mem_filter.1 member).1,covered⟩
  rintro ⟨r,member,covered⟩
  have meets : (r.1 < stop && start < r.2) = true := by
    simp only [Bool.and_eq_true,decide_eq_true_eq]
    omega
  exact ⟨r,mem_filter.2 ⟨member,meets⟩,covered⟩

theorem fillableSubranges_eq : t.fillableSubranges start stop = clip start stop t.gaps := by
  unfold fillableSubranges
  split
  · symm
    apply eq_nil_iff_forall_not_mem.2
    intro r member
    obtain ⟨gap,_,_,proper⟩ := mem_clip.1 member
    omega
  · rfl

theorem covers_grantable (exclusive : Exclusive t.writeReservations) {b : Nat} :
    Covers (t.grantable start stop) b ↔ (start ≤ b ∧ b < stop) ∧ t.Missing b ∧ ¬ Covers t.writeReservations b := by
  have ordered := @blockedIn_ordered t start stop exclusive
  have sweep : ∀ runs : List Range, Covers (runs.flatMap fun run => unblocked run.2 run.1 (t.blockedIn start stop)) b ↔
      Covers runs b ∧ ¬ Covers (t.blockedIn start stop) b := by
    intro runs
    induction runs with
    | nil => simp
    | cons run rest ih =>
      rw [flatMap_cons,covers_append,covers_unblocked ordered.1 ordered.2,ih,covers_cons,or_and_right]
  unfold grantable
  rw [sweep,fillableSubranges_eq,covers_clip]
  constructor
  · rintro ⟨⟨missing,inside⟩,free⟩
    exact ⟨inside,missing,fun held => free ((covers_blockedIn inside).2 held)⟩
  · rintro ⟨inside,missing,free⟩
    exact ⟨⟨missing,inside⟩,fun held => free ((covers_blockedIn inside).1 held)⟩

theorem grantable_exclusive (apart : Apart t.gaps) (exclusive : Exclusive t.writeReservations) : Exclusive (t.grantable start stop) := by
  have runs : Apart (clip start stop t.gaps) := apart.clip
  have nonempty := (@blockedIn_ordered t start stop exclusive).2
  constructor
  · intro r member
    obtain ⟨run,_,piece⟩ := mem_flatMap.1 member
    exact (unblocked_inside piece).2.1
  unfold grantable
  rw [fillableSubranges_eq]
  refine pairwise_flatMap.2 ⟨fun run _ => (unblocked_ordered nonempty).imp fun order => .inl order,?_⟩
  apply runs.spaced.imp
  intro run next order r piece s piece'
  have first := unblocked_inside piece
  have second := unblocked_inside piece'
  left
  omega

def granted (t : PartTracker) (start stop : Nat) : List Range := (t.reserveWriteSubranges start stop).2

theorem granted_sublist : (t.granted start stop).Sublist (t.grantable start stop) := take_sublist ..

theorem reserved_eq : (t.reserveWriteSubranges start stop).1.writeReservations = t.writeReservations++t.granted start stop := rfl

theorem covers_granted {b : Nat} (exclusive : Exclusive t.writeReservations) (covered : Covers (t.granted start stop) b) :
    (start ≤ b ∧ b < stop) ∧ t.Missing b ∧ ¬ Covers t.writeReservations b := by
  obtain ⟨r,member,inside⟩ := covered
  exact (covers_grantable exclusive).1 ⟨r,granted_sublist.subset member,inside⟩

theorem reserve_exclusive (apart : Apart t.gaps) (exclusive : Exclusive t.writeReservations) :
    Exclusive (t.reserveWriteSubranges start stop).1.writeReservations := by
  apply exclusive.append ((grantable_exclusive apart exclusive).sublist granted_sublist)
  rintro b ⟨held,covered⟩
  exact (covers_granted exclusive covered).2.2 held

def Untruncated (t : PartTracker) (start stop : Nat) : Prop := (t.grantable start stop).length ≤ t.room

end Grant

section Kept

theorem step_reservations {op : TrackerOp} (aside : TrackerOp.isAside op = true) :
    (t.step op).writeReservations = t.writeReservations := by
  obtain ⟨held,same,edits⟩ := step_edits t op
  exact edits.framed.reservations.trans (same aside)

theorem origin_reservations {fileSize : Nat} {origin : Origin} : (origin.tracker fileSize).writeReservations = [] := by
  cases origin with
  | empty => rfl
  | loaded expected disk =>
    unfold Origin.tracker newWithIdentity
    dsimp only
    split
    · unfold load
      cases disk.partLength with
      | none => rfl
      | some length => exact (invalidateUnreadable_edits _ length).framed.reservations
    · rfl

end Kept
end PartTracker

structure Site (W : Type*) where
  tracker : PartTracker
  held : List (W × Range) := []

inductive Turn (W : Type*) where
  | reserve (worker : W) (start stop : Nat)
  | commit (worker : W) (range : Range)
  | release (worker : W) (range : Range)
  | aside (op : TrackerOp)

namespace Site
open PartTracker
variable {W : Type*} {s after : Site W} {worker : W} {range : Range}

section Turns
variable [DecidableEq W]

/-- A worker hands back only what it holds. -/
def turn (s : Site W) : Turn W → Option (Site W)
  | .reserve worker start stop =>
    let reserved := s.tracker.reserveWriteSubranges start stop
    some ⟨reserved.1,s.held++reserved.2.map (worker,·)⟩
  | .commit worker range =>
    if (worker,range) ∈ s.held then
      some ⟨(s.tracker.commitWriteReservation range.1 range.2).1,s.held.erase (worker,range)⟩
    else none
  | .release worker range =>
    if (worker,range) ∈ s.held then
      some ⟨s.tracker.releaseWriteReservation range.1 range.2,s.held.erase (worker,range)⟩
    else none
  | .aside op => if TrackerOp.isAside op then some ⟨s.tracker.step op,s.held⟩ else none

def run (s : Site W) (turns : List (Turn W)) : Option (Site W) := turns.foldlM turn s

end Turns

structure Safe (s : Site W) : Prop where
  sound : Sound s.tracker
  exclusive : Exclusive s.tracker.writeReservations
  listed : s.tracker.writeReservations.Perm (s.held.map snd)

theorem released_perm [DecidableEq W] (listed : s.tracker.writeReservations.Perm (s.held.map snd))
    (own : (worker,range) ∈ s.held) :
    (s.tracker.releaseWriteReservation range.1 range.2).writeReservations.Perm ((s.held.erase (worker,range)).map snd) := by
  have member : range ∈ s.tracker.writeReservations := listed.mem_iff.2 (List.mem_map_of_mem own)
  have removed : s.tracker.writeReservations.Perm
      (range :: (s.tracker.releaseWriteReservation range.1 range.2).writeReservations) := swapRemove_perm member
  have erased := (perm_cons_erase own).map snd
  exact (removed.symm.trans (listed.trans erased)).cons_inv

theorem Safe.release [DecidableEq W] (safe : Safe s) (own : (worker,range) ∈ s.held) :
    Safe ⟨s.tracker.releaseWriteReservation range.1 range.2,s.held.erase (worker,range)⟩ where
  sound := safe.sound.reserved
  exclusive := by
    have fewer := (erase_sublist (a := (worker,range)) (l := s.held)).map snd
    exact ((safe.exclusive.perm safe.listed).sublist fewer).perm (released_perm safe.listed own).symm
  listed := released_perm safe.listed own

theorem Safe.reserve (safe : Safe s) {start stop : Nat} :
    Safe ⟨(s.tracker.reserveWriteSubranges start stop).1,s.held++(s.tracker.granted start stop).map (worker,·)⟩ where
  sound := step_sound safe.sound (.reserve start stop)
  exclusive := reserve_exclusive safe.sound.apart safe.exclusive
  listed := by
    rw [reserved_eq,map_append]
    apply safe.listed.append
    simp

theorem Safe.turn [DecidableEq W] (safe : Safe s) {turn : Turn W} (taken : s.turn turn = some after) : Safe after := by
  cases turn with
  | reserve worker start stop =>
    cases taken
    exact safe.reserve
  | commit worker range =>
    obtain ⟨own,done⟩ := ite_none_right_eq_some.1 taken
    cases done
    have released := safe.release own
    have filling := fillRange_edits (s.tracker.releaseWriteReservation range.1 range.2) range.1 range.2
    -- committing is releasing, then filling, which leaves the reservations alone
    refine ⟨filling.sound released.sound,?_,?_⟩
    · exact (congrArg Exclusive filling.framed.reservations).mpr released.exclusive
    · exact (congrArg (List.Perm · _) filling.framed.reservations).mpr released.listed
  | release worker range =>
    obtain ⟨own,done⟩ := ite_none_right_eq_some.1 taken
    cases done
    exact safe.release own
  | aside op =>
    obtain ⟨aside,done⟩ := ite_none_right_eq_some.1 taken
    cases done
    have kept := step_reservations (t := s.tracker) aside
    exact ⟨step_sound safe.sound op,(congrArg Exclusive kept).mpr safe.exclusive,
      (congrArg (List.Perm · _) kept).mpr safe.listed⟩

theorem Safe.run [DecidableEq W] (safe : Safe s) {turns : List (Turn W)} (taken : s.run turns = some after) : Safe after := by
  induction turns generalizing s with
  | nil =>
    cases taken
    exact safe
  | cons turn turns ih =>
    obtain ⟨next,first,rest⟩ := bind_eq_some_iff.1 taken
    exact ih (safe.turn first) rest

theorem Safe.holder (safe : Safe s) {entry other : W × Range} (held : entry ∈ s.held) (held' : other ∈ s.held) {b : Nat}
    (inside : entry.2.1 ≤ b ∧ b < entry.2.2) (inside' : other.2.1 ≤ b ∧ b < other.2.2) : entry = other := by
  have apart := pairwise_map.1 (safe.exclusive.perm safe.listed).separate
  by_contra different
  have symmetric : Std.Symm fun e e' : W × Range => Separate e.2 e'.2 := ⟨fun _ _ => Separate.symm⟩
  have separate := apart.forall held held' different
  unfold Separate at separate
  omega

end Site

namespace PartTracker

structure Grants (t : PartTracker) (start stop : Nat) (granted : List Range) : Prop where
  inside : ∀ r ∈ granted, start ≤ r.1 ∧ r.1 < r.2 ∧ r.2 ≤ stop
  missing : ∀ b, Covers granted b → t.Missing b
  free : ∀ b, Covers granted b → ¬ Covers t.writeReservations b
  unfinished : ∀ i b, t.isPartComplete i = true → Covers granted b → b ∉ t.partBytes i
  every : t.Untruncated start stop → ∀ b, start ≤ b → b < stop → t.Missing b → ¬ Covers t.writeReservations b → Covers granted b

variable {t : PartTracker} {start stop : Nat}

theorem granted_inside {r : Range} (member : r ∈ t.granted start stop) : start ≤ r.1 ∧ r.1 < r.2 ∧ r.2 ≤ stop := by
  obtain ⟨run,candidate,piece⟩ := mem_flatMap.1 (granted_sublist.subset member)
  rw [fillableSubranges_eq] at candidate
  obtain ⟨gap,_,clipped,_⟩ := mem_clip.1 candidate
  have within := unblocked_inside piece
  subst clipped
  omega

theorem Sound.grants (sound : Sound t) (exclusive : Exclusive t.writeReservations) :
    Grants t start stop (t.reserveWriteSubranges start stop).2 where
  inside := fun _ => granted_inside
  missing := fun _ covered => (covers_granted exclusive covered).2.1
  free := fun _ covered => (covers_granted exclusive covered).2.2
  unfinished := by
    intro i b complete covered own
    exact ((isPartComplete_iff sound).1 complete).2 b own (covers_granted exclusive covered).2.1
  every := by
    intro whole b low high missing unheld
    have all := (covers_grantable exclusive).2 ⟨⟨low,high⟩,missing,unheld⟩
    rw [← take_of_length_le whole] at all
    exact all

end PartTracker

namespace Site
open PartTracker
variable {W : Type*} [DecidableEq W]

/-- Whatever the workers do in whatever order, their reservations stay apart. -/
theorem reservations_exclusive (fileSize : Nat) (size : ValidSize fileSize) (origin : Origin) (turns : List (Turn W))
    (s : Site W) (reached : Site.run ⟨origin.tracker fileSize,[]⟩ turns = some s) :
    (∀ r ∈ s.tracker.writeReservations, r.1 < r.2) ∧
    s.tracker.writeReservations.Pairwise (fun r r' => ∀ b, ¬ ((r.1 ≤ b ∧ b < r.2) ∧ r'.1 ≤ b ∧ b < r'.2)) ∧
    s.tracker.writeReservations.Perm (s.held.map snd) ∧
    (∀ start stop, Grants s.tracker start stop (s.tracker.reserveWriteSubranges start stop).2) ∧
    (∀ entry ∈ s.held, ∀ other ∈ s.held, ∀ b, entry.2.1 ≤ b ∧ b < entry.2.2 → other.2.1 ≤ b ∧ b < other.2.2 → entry = other) := by
  have start : Safe (⟨origin.tracker fileSize,[]⟩ : Site W) := by
    refine ⟨origin_sound size.1,?_,?_⟩
    · rw [origin_reservations]
      exact .nil
    · rw [origin_reservations]
      exact .nil
  have safe := start.run reached
  refine ⟨safe.exclusive.nonempty,?_,safe.listed,fun _ _ => safe.sound.grants safe.exclusive,?_⟩
  · apply safe.exclusive.separate.imp
    intro r r' apart b both
    unfold Separate at apart
    omega
  · intro entry held other held' b inside inside'
    exact safe.holder held held' inside inside'

def contended : List (Turn Nat) :=
  [.reserve 0 10 40,.reserve 1 0 60,.commit 0 (10,40),.aside (.invalidateRange 20 30),.reserve 2 0 100,.release 1 (0,10)]

theorem reservations_exclusive_contended : ∃ s : Site Nat, Site.run ⟨Origin.empty.tracker 100,[]⟩ contended = some s ∧
      s.held = [(1,(40,60)),(2,(20,30)),(2,(60,100))] ∧ s.tracker.writeReservations.Perm (s.held.map snd) := by
  obtain ⟨s,reached⟩ : ∃ s, Site.run ⟨Origin.empty.tracker 100,[]⟩ contended = some s :=
    isSome_iff_exists.1 (by decide +kernel)
  have ended : (Site.run ⟨Origin.empty.tracker 100,[]⟩ contended).map held = some [(1,(40,60)),(2,(20,30)),(2,(60,100))] := by
    decide +kernel
  rw [reached] at ended
  exact ⟨s,reached,some.inj ended,
    (reservations_exclusive 100 ⟨by decide,by decide⟩ .empty contended s reached).2.2.1⟩

end Site
end Ember.Ed2k
