import Ember.Kad.StoreRun

/-! What an eviction buys. A publish sheds others' records only for an entry its own allowance admits,
one for each of its evictions; the entry is stored exactly if the records its pass picks make room for it. -/
namespace Ember.Kad
open Item Multiset

namespace Batch
open DhtStore
variable {p : Packet} {b : Batch} {entry : PublishEntry}

/-- Well formed, and inside the allowances of its publisher. -/
def Admissible (p : Packet) (entry : PublishEntry) (b : Batch) : Prop :=
  keywordEntryHasMinContent entry.tags = true ∧ (normalizeAndSizeTags entry.tags).isSome = true ∧
    b.overAllowance p entry.id (sizeOfTags entry.tags) = false

theorem slot_of_gone {m gone : Multiset Item} {x y : Item} (distinct : Limited InSlot one 1 (m+gone)) (went : x ∈ gone) (stays : y ∈ m) :
    y.slot ≠ x.slot := by
  intro same
  have most := distinct x.slot
  have first : 1 ≤ held (InSlot x.slot) one gone := held_pos (InSlot x.slot) one went ⟨rfl,rfl,rfl⟩
  have second : 1 ≤ held (InSlot x.slot) one m := held_pos (InSlot x.slot) one stays (same ▸ ⟨rfl,rfl,rfl⟩)
  rw [held_add] at most
  omega

section
variable {gone : Multiset Item} {mid : DhtStore} (sound : b.Sound p) (evicted : Evicted b.store gone mid)
include sound evicted

end

theorem offer_cases (p : Packet) (b : Batch) (entry : PublishEntry) : ¬b.Admissible p entry ∧ b.offer p entry = b ∨
    b.Admissible p entry ∧ b.offer p entry = (b.makeRoom p entry.id (sizeOfTags entry.tags)).enter p (p.stored entry) := by
  unfold Batch.offer Admissible
  cases content : keywordEntryHasMinContent entry.tags with
  | false => exact .inl ⟨fun whole => Bool.false_ne_true whole.1,rfl⟩
  | true =>
    cases sized : normalizeAndSizeTags entry.tags with
    | none => exact .inl ⟨fun whole => Bool.false_ne_true whole.2.1,rfl⟩
    | some found =>
      obtain ⟨tags,entryBytes⟩ := found
      obtain ⟨-,rfl,-⟩ := normalizeAndSizeTags_some sized
      dsimp only
      cases allowed : b.overAllowance p entry.id (sizeOfTags entry.tags) with
      | true => exact .inl ⟨fun whole => Bool.false_ne_true whole.2.2.symm,rfl⟩
      | false => exact .inr ⟨⟨rfl,rfl,rfl⟩,rfl⟩

/-- Every unexpired record from before the publish has its slot taken, or was evicted for it. -/
def Spent (p : Packet) (m : Multiset Item) (b : Batch) : Prop :=
  ∃ gone : Multiset Item, gone.card+b.evictionBudget = maxKeywordEvictionsPerPublish ∧
    ∀ x ∈ m, x.2.isExpired p.now = false → (∃ y ∈ b.store.keywords, y.slot = x.slot) ∨ x.slot ∈ gone.map Item.slot

section
variable {m : Multiset Item} (spent : Spent p m b)
include spent

theorem Spent.offer (sound : b.Sound p) : Spent p m (b.offer p entry) := by
  obtain ⟨gone,budget,accounted⟩ := spent
  obtain same | ⟨more,mid,evicted,left,touched⟩ | ⟨more,mid,evicted,left,stored⟩ := (sound.offer entry).2
  · rw [same]
    exact ⟨gone,budget,accounted⟩
  all_goals
    refine ⟨gone+more,by rw [card_add]; omega,fun x member live => ?_⟩
    rw [Multiset.map_add,mem_add]
    obtain ⟨y,inside,slot⟩ | went := accounted x member live
    on_goal 2 => exact .inr (.inl went)
    rw [evicted.keywords,mem_add] at inside
    obtain inside | went := inside
    on_goal 2 => exact .inr (.inr (slot ▸ mem_map_of_mem Item.slot went))
  · rw [touched,touch_keywords]
    exact .inl ⟨y,inside,slot⟩
  obtain ⟨ttlSecs,keywords⟩ := stored.keywords
  rw [keywords]
  refine .inl ?_
  by_cases own : InSlot (item p entry).slot y
  · refine ⟨_,mem_cons_self ..,?_⟩
    have taken : y.slot = (item p entry).slot := Prod.ext own.1 (Prod.ext own.2.1 own.2.2)
    exact taken.symm.trans slot
  · exact ⟨y,mem_cons_of_mem (mem_filter.2 ⟨inside,own⟩),slot⟩

theorem Spent.offers (sound : b.Sound p) {entries : List PublishEntry} :
    Spent p m (entries.foldl (Batch.offer p) b) := by
  induction entries generalizing b with
  | nil => exact spent
  | cons entry rest ih => exact ih (spent.offer sound) (sound.offer entry).1

end

end Batch
namespace DhtStore
variable {s : DhtStore} {p : Packet}

theorem Sound.opened_keeps (sound : s.Sound) {x : Item} (member : x ∈ s.keywords) (live : x.2.isExpired p.now = false) :
    x ∈ (s.opened p).store.keywords := by
  have shed := shed_pruneKeywords sound.kept p.now p.target
  rw [shed.keywords,mem_add] at member
  refine member.resolve_right fun gone => ?_
  obtain ⟨e,expired,rfl⟩ := List.mem_map.1 (mem_coe.1 gone)
  have old := (List.mem_filter.1 expired).2
  rw [live] at old
  cases old

theorem Sound.spent (sound : s.Sound) : Batch.Spent p s.keywords (s.opened p) :=
  ⟨0,rfl,fun x member live => .inl ⟨x,sound.opened_keeps member live,rfl⟩⟩

end DhtStore
end Ember.Kad
