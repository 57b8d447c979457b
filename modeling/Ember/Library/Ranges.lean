import Mathlib

/-! Sets of naturals as lists of half-open ranges. A list in normal form keeps its ranges in order
with a point missing between any two; it is the only such list of its set. -/
namespace Ember.Ranges
open List

abbrev Range := Nat × Nat
variable (start stop : Nat) (r : Range) (ranges : List Range)

def Covers (x : Nat) : Prop := ∃ r ∈ ranges, r.1 ≤ x ∧ x < r.2

instance (ranges : List Range) (x : Nat) : Decidable (Covers ranges x) :=
  inferInstanceAs (Decidable (∃ r ∈ ranges, r.1 ≤ x ∧ x < r.2))

structure Apart (ranges : List Range) : Prop where
  nonempty : ∀ r ∈ ranges, r.1 < r.2
  spaced : ranges.Pairwise fun r s => r.2 < s.1

def leftover : List Range :=
  if r.2 ≤ start ∨ stop ≤ r.1 then [r]
  else (if r.1 < start then [(r.1,start)] else [])++if stop < r.2 then [(stop,r.2)] else []

def cut : List Range := ranges.flatMap (leftover start stop)

def within : Option Range :=
  if r.2 ≤ start ∨ stop ≤ r.1 then none
  else if max r.1 start < min r.2 stop then some (max r.1 start,min r.2 stop) else none

def clip : List Range := ranges.filterMap (within start stop)

def overlap : Nat := min r.2 stop-max r.1 start

def byStart : List Range := ranges.insertionSort fun r s => r.1 ≤ s.1

/-- A range that touches the one being joined widens it; any other is set aside. -/
def absorb (joined : Range × List Range) (r : Range) : Range × List Range :=
  if r.2 < joined.1.1 ∨ joined.1.2 < r.1 then (joined.1,joined.2++[r])
  else ((min joined.1.1 r.1,max joined.1.2 r.2),joined.2)

def join : List Range :=
  let joined := ranges.foldl absorb ((start,stop),[])
  byStart (joined.2++[joined.1])

/-- Merges ranges in order of their starts, the last of the result in hand. -/
def fuse (last : Range) : List Range → List Range
  | [] => [last]
  | r :: rest => if r.1 ≤ last.2 then fuse (last.1,max last.2 r.2) rest else last :: fuse r rest

def merge : List Range :=
  match byStart ranges with
  | [] => []
  | r :: rest => fuse r rest

section Covers
variable {ranges others : List Range} {r : Range} {x : Nat}

@[simp] theorem covers_nil : ¬ Covers [] x := by
  rintro ⟨r,member,_⟩
  cases member

@[simp] theorem covers_cons : Covers (r :: ranges) x ↔ r.1 ≤ x ∧ x < r.2 ∨ Covers ranges x := by
  simp [Covers]

@[simp] theorem covers_append : Covers (ranges++others) x ↔ Covers ranges x ∨ Covers others x := by
  induction ranges with
  | nil => simp
  | cons r rest ih => rw [cons_append,covers_cons,covers_cons,ih,or_assoc]

theorem covers_perm (same : ranges.Perm others) : Covers ranges x ↔ Covers others x := by
  constructor
  · rintro ⟨r,member,inside⟩
    exact ⟨r,same.subset member,inside⟩
  · rintro ⟨r,member,inside⟩
    exact ⟨r,same.symm.subset member,inside⟩

theorem covers_byStart : Covers (byStart ranges) x ↔ Covers ranges x :=
  covers_perm (perm_insertionSort ..)

end Covers

namespace Apart
variable {ranges others : List Range} {r : Range} {x start stop : Nat}

theorem nil : Apart [] := ⟨by simp,.nil⟩

theorem single (filled : r.1 < r.2) : Apart [r] := ⟨by simpa using filled,pairwise_singleton ..⟩

theorem tail (apart : Apart (r :: ranges)) : Apart ranges :=
  ⟨fun s member => apart.nonempty s (mem_cons_of_mem _ member),(pairwise_cons.1 apart.spaced).2⟩

theorem head_nonempty (apart : Apart (r :: ranges)) : r.1 < r.2 := apart.nonempty r mem_cons_self

theorem beyond (apart : Apart (r :: ranges)) (later : Covers ranges x) : r.2 < x := by
  obtain ⟨s,member,low,_⟩ := later
  exact ((pairwise_cons.1 apart.spaced).1 s member).trans_le low

theorem length_le {bound : Nat} (apart : Apart ranges) (inside : ∀ r ∈ ranges, r.2 ≤ bound) : ranges.length ≤ bound := by
  have rising : ∀ low, (∀ r ∈ ranges, low ≤ r.1) → ranges.length ≤ bound-low := by
    induction ranges with
    | nil => simp
    | cons r rest ih =>
      intro low above
      have filled := apart.head_nonempty
      have top := inside r mem_cons_self
      have first := above r mem_cons_self
      have later := ih apart.tail (fun s member => inside s (mem_cons_of_mem _ member)) r.2 fun s member =>
        ((pairwise_cons.1 apart.spaced).1 s member).le
      rw [length_cons]
      omega
  exact rising 0 fun _ _ => Nat.zero_le _

theorem eq_of_covers (apart : Apart ranges) (apart' : Apart others) (same : ∀ x, Covers ranges x ↔ Covers others x) :
    ranges = others := by
  induction ranges generalizing others with
  | nil =>
    cases others with
    | nil => rfl
    | cons s rest =>
      have covered : Covers (s :: rest) s.1 := covers_cons.2 (.inl ⟨le_rfl,apart'.head_nonempty⟩)
      exact absurd ((same s.1).2 covered) covers_nil
  | cons r rest ih =>
    cases others with
    | nil =>
      have covered : Covers (r :: rest) r.1 := covers_cons.2 (.inl ⟨le_rfl,apart.head_nonempty⟩)
      exact absurd ((same r.1).1 covered) covers_nil
    | cons s rest' =>
      have filled := apart.head_nonempty
      have filled' := apart'.head_nonempty
      have here : ∀ {a b : Range} {l : List Range}, Apart (a :: l) → Covers (a :: l) b.1 → a.1 ≤ b.1 := by
        intro a b l normal covered
        rcases covers_cons.1 covered with inside | later
        · exact inside.1
        · exact (normal.head_nonempty.trans (normal.beyond later)).le
      -- the two first ranges start at the least point covered
      have start : r.1 = s.1 := by
        apply le_antisymm
        · exact here apart ((same s.1).2 (covers_cons.2 (.inl ⟨le_rfl,filled'⟩)))
        · exact here apart' ((same r.1).1 (covers_cons.2 (.inl ⟨le_rfl,filled⟩)))
      -- and end at the least point after it that is not
      have ends : ∀ {a b : Range} {l m : List Range}, Apart (a :: l) → Apart (b :: m) → a.1 = b.1 →
          (∀ x, Covers (b :: m) x → Covers (a :: l) x) → b.2 ≤ a.2 := by
        intro a b l m normal normal' begins inside
        by_contra longer
        have first := normal.head_nonempty
        have covered := inside a.2 (covers_cons.2 (.inl ⟨by omega,by omega⟩))
        rcases covers_cons.1 covered with own | later
        · omega
        · exact lt_irrefl _ (normal.beyond later)
      have stop : r.2 = s.2 := by
        apply le_antisymm
        · exact ends apart' apart start.symm fun x covered => (same x).1 covered
        · exact ends apart apart' start fun x covered => (same x).2 covered
      obtain rfl : r = s := Prod.ext start stop
      congr 1
      apply ih apart.tail apart'.tail
      intro x
      constructor
      · intro covered
        have past := apart.beyond covered
        exact (covers_cons.1 ((same x).1 (covers_cons.2 (.inr covered)))).resolve_left fun own => by omega
      intro covered
      have past := apart'.beyond covered
      exact (covers_cons.1 ((same x).2 (covers_cons.2 (.inr covered)))).resolve_left fun own => by omega

end Apart

section Cut
variable {ranges : List Range} {r s : Range} {x start stop bound : Nat}

theorem covers_leftover : Covers (leftover start stop r) x ↔ (r.1 ≤ x ∧ x < r.2) ∧ (x < start ∨ stop ≤ x) := by
  unfold leftover
  split
  · rw [covers_cons]
    simp only [covers_nil,or_false]
    omega
  · rw [covers_append]
    split <;> split <;> simp only [covers_cons,covers_nil,or_false,false_or,false_iff] <;> omega

theorem leftover_inside (filled : r.1 < r.2) (member : s ∈ leftover start stop r) :
    r.1 ≤ s.1 ∧ s.1 < s.2 ∧ s.2 ≤ r.2 := by
  unfold leftover at member
  split at member
  · obtain rfl := mem_singleton.1 member
    exact ⟨le_rfl,filled,le_rfl⟩
  rcases mem_append.1 member with left | right
  · split at left
    · obtain rfl := mem_singleton.1 left
      omega
    · cases left
  split at right
  · obtain rfl := mem_singleton.1 right
    omega
  · cases right

theorem covers_cut : Covers (cut start stop ranges) x ↔ Covers ranges x ∧ (x < start ∨ stop ≤ x) := by
  induction ranges with
  | nil => simp [cut]
  | cons r rest ih =>
    have split : cut start stop (r :: rest) = leftover start stop r++cut start stop rest := flatMap_cons ..
    rw [split,covers_append,covers_leftover,ih,covers_cons,or_and_right]

theorem Apart.cut (apart : Apart ranges) (proper : start < stop) : Apart (Ranges.cut start stop ranges) := by
  constructor
  · intro s member
    obtain ⟨r,inside,piece⟩ := mem_flatMap.1 member
    exact (leftover_inside (apart.nonempty r inside) piece).2.1
  apply pairwise_flatMap.2
  constructor
  · intro r member
    unfold leftover
    split
    · exact pairwise_singleton ..
    · split <;> split <;> simp [proper]
  apply apart.spaced.imp_of_mem
  intro r s first second order a piece b piece'
  have low := leftover_inside (apart.nonempty r first) piece
  have high := leftover_inside (apart.nonempty s second) piece'
  omega

theorem cut_bounded (filled : ∀ r ∈ ranges, r.1 < r.2) (bounded : ∀ r ∈ ranges, r.2 ≤ bound)
    (member : s ∈ cut start stop ranges) : s.2 ≤ bound := by
  obtain ⟨r,inside,piece⟩ := mem_flatMap.1 member
  exact (leftover_inside (filled r inside) piece).2.2.trans (bounded r inside)

theorem within_eq_some : within start stop r = some s ↔
    s = (max r.1 start,min r.2 stop) ∧ max r.1 start < min r.2 stop := by
  unfold within
  split
  · constructor
    · rintro ⟨⟩
    · rintro ⟨_,proper⟩
      omega
  split
  · rename_i proper
    simp only [Option.some.injEq,proper,and_true]
    exact eq_comm
  · rename_i proper
    simp [proper]

theorem mem_clip : s ∈ clip start stop ranges ↔
    ∃ r ∈ ranges, s = (max r.1 start,min r.2 stop) ∧ max r.1 start < min r.2 stop := by
  simp [clip,within_eq_some]

theorem covers_clip : Covers (clip start stop ranges) x ↔ Covers ranges x ∧ start ≤ x ∧ x < stop := by
  constructor
  · rintro ⟨s,member,low,high⟩
    obtain ⟨r,inside,rfl,proper⟩ := mem_clip.1 member
    exact ⟨⟨r,inside,by omega,by omega⟩,by omega,by omega⟩
  · rintro ⟨⟨r,inside,low,high⟩,first,last⟩
    exact ⟨_,mem_clip.2 ⟨r,inside,rfl,by omega⟩,by dsimp only; omega,by dsimp only; omega⟩

theorem Apart.clip (apart : Apart ranges) : Apart (Ranges.clip start stop ranges) := by
  constructor
  · intro s member
    obtain ⟨r,inside,rfl,proper⟩ := mem_clip.1 member
    exact proper
  apply pairwise_filterMap.2
  apply apart.spaced.imp
  intro r s order a first b second
  obtain ⟨rfl,_⟩ := within_eq_some.1 first
  obtain ⟨rfl,_⟩ := within_eq_some.1 second
  omega

end Cut

section Sorted
variable {ranges : List Range}

theorem sorted_byStart (ranges : List Range) : (byStart ranges).Pairwise fun r s => r.1 ≤ s.1 := by
  exact pairwise_insertionSort ..

theorem apart_byStart (nonempty : ∀ r ∈ ranges, r.1 < r.2)
    (spaced : ranges.Pairwise fun r s => r.2 < s.1 ∨ s.2 < r.1) : Apart (byStart ranges) := by
  have same : (byStart ranges).Perm ranges := perm_insertionSort ..
  have filled : ∀ r ∈ byStart ranges, r.1 < r.2 := fun r member => nonempty r (same.subset member)
  refine ⟨filled,?_⟩
  have separate : (byStart ranges).Pairwise fun r s => r.2 < s.1 ∨ s.2 < r.1 := by
    apply (same.pairwise_iff _).2 spaced
    intro r s either
    exact either.symm
  apply ((sorted_byStart ranges).and separate).imp_of_mem
  rintro r s first second ⟨order,before | after⟩
  · exact before
  · have := filled s second
    omega

end Sorted

section Join
variable {ranges : List Range} {x start stop : Nat}

def Clear (r s : Range) : Prop := r.2 < s.1 ∨ s.2 < r.1

/-- The join after some of the ranges: what it set aside keeps clear of the joined range, and the
two together cover what was met. -/
structure Joined (start stop : Nat) (met : List Range) (joined : Range × List Range) : Prop where
  proper : joined.1.1 < joined.1.2
  aside : joined.2.Sublist met
  clear : ∀ r ∈ joined.2, Clear r joined.1
  covers : ∀ x, Covers (joined.2++[joined.1]) x ↔ Covers met x ∨ start ≤ x ∧ x < stop

theorem Joined.absorb {met : List Range} {joined : Range × List Range} {r : Range}
    (so : Joined start stop met joined) (apart : Apart (met++[r])) :
    Joined start stop (met++[r]) (Ranges.absorb joined r) := by
  have filled := apart.nonempty r (mem_append_right _ mem_cons_self)
  have behind : ∀ s ∈ joined.2, s.2 < r.1 := fun s member =>
    (pairwise_append.1 apart.spaced).2.2 s (so.aside.subset member) r mem_cons_self
  have kept : ∀ s ∈ joined.2, s.1 < s.2 := fun s member =>
    apart.nonempty s (mem_append_left _ (so.aside.subset member))
  unfold Ranges.absorb
  split
  · refine ⟨so.proper,so.aside.append (Sublist.refl _),?_,?_⟩
    · intro s member
      rcases mem_append.1 member with old | new
      · exact so.clear s old
      · rwa [mem_singleton.1 new]
    intro x
    have old := so.covers x
    simp only [covers_append] at old ⊢
    rw [or_right_comm,old,or_right_comm]
  · refine ⟨by dsimp only; omega,so.aside.trans (sublist_append_left ..),?_,?_⟩
    · intro s member
      have later := behind s member
      have whole := kept s member
      -- a range set aside beyond the joined one would keep this later one clear as well
      rcases so.clear s member with before | beyond
      · left
        dsimp only
        omega
      · omega
    · intro x
      have old := so.covers x
      have widened : min joined.1.1 r.1 ≤ x ∧ x < max joined.1.2 r.2 ↔
          (joined.1.1 ≤ x ∧ x < joined.1.2) ∨ r.1 ≤ x ∧ x < r.2 := by omega
      simp only [covers_append,covers_cons,covers_nil,or_false] at old ⊢
      rw [widened,← or_assoc,old,or_right_comm]

section
variable (apart : Apart ranges) (proper : start < stop)
include apart proper

theorem joined_foldl : Joined start stop ranges (ranges.foldl absorb ((start,stop),[])) := by
  induction ranges using List.reverseRecOn with
  | nil => exact ⟨proper,Sublist.refl _,by simp,fun x => by simp⟩
  | append_singleton front r ih =>
    have earlier : Apart front :=
      ⟨fun s member => apart.nonempty s (mem_append_left _ member),(pairwise_append.1 apart.spaced).1⟩
    rw [foldl_append]
    exact (ih earlier).absorb apart

theorem covers_join : Covers (join start stop ranges) x ↔ Covers ranges x ∨ start ≤ x ∧ x < stop :=
  covers_byStart.trans ((joined_foldl apart proper).covers x)

theorem Apart.join : Apart (Ranges.join start stop ranges) := by
  have so := joined_foldl apart proper
  apply apart_byStart
  · intro r member
    rcases mem_append.1 member with old | new
    · exact apart.nonempty r (so.aside.subset old)
    · rw [mem_singleton.1 new]
      exact so.proper
  apply pairwise_append.2
  refine ⟨(apart.spaced.sublist so.aside).imp fun order => .inl order,pairwise_singleton ..,?_⟩
  intro r member s new
  rw [mem_singleton.1 new]
  exact so.clear r member

theorem join_bounded {bound : Nat} (bounded : ∀ r ∈ ranges, r.2 ≤ bound)
    (low : stop ≤ bound) : ∀ r ∈ join start stop ranges, r.2 ≤ bound := by
  intro r member
  -- the last point of the range is one the list or the added range covers
  have filled := (apart.join proper).nonempty r member
  have last : Covers (join start stop ranges) (r.2-1) := ⟨r,member,by omega,by omega⟩
  rcases (covers_join apart proper).1 last with ⟨s,inside,_,high⟩ | added
  · have := bounded s inside
    omega
  · omega

end

end Join

section Merge
variable {ranges others : List Range} {last : Range} {x : Nat}

theorem covers_fuse (ordered : ∀ r ∈ ranges, last.1 ≤ r.1) (sorted : ranges.Pairwise fun r s => r.1 ≤ s.1) :
    Covers (fuse last ranges) x ↔ Covers (last :: ranges) x := by
  induction ranges generalizing last with
  | nil => rfl
  | cons r rest ih =>
    have below := (pairwise_cons.1 sorted).1
    have start := ordered r mem_cons_self
    unfold fuse
    split
    · refine (@ih (last.1,max last.2 r.2) (fun s member => ordered s (mem_cons_of_mem _ member)) sorted.of_cons).trans ?_
      have widened : last.1 ≤ x ∧ x < max last.2 r.2 ↔ (last.1 ≤ x ∧ x < last.2) ∨ r.1 ≤ x ∧ x < r.2 := by omega
      simp only [covers_cons,widened,or_assoc]
    · simp [ih below sorted.of_cons]

theorem fuse_head (ranges : List Range) (last : Range) : ∃ r rest, fuse last ranges = r :: rest ∧ r.1 = last.1 := by
  induction ranges generalizing last with
  | nil => exact ⟨_,_,rfl,rfl⟩
  | cons r rest ih =>
    unfold fuse
    split
    · exact ih _
    · exact ⟨_,_,rfl,rfl⟩

theorem apart_fuse (filled : last.1 < last.2) (nonempty : ∀ r ∈ ranges, r.1 < r.2)
    (sorted : (last :: ranges).Pairwise fun r s => r.1 ≤ s.1) : Apart (fuse last ranges) := by
  induction ranges generalizing last with
  | nil => exact Apart.single filled
  | cons r rest ih =>
    have below := (pairwise_cons.1 sorted).1
    have later := (pairwise_cons.1 sorted).2
    have whole : ∀ s ∈ rest, s.1 < s.2 := fun s member => nonempty s (mem_cons_of_mem _ member)
    unfold fuse
    split
    · apply ih (by dsimp only; omega) whole
      apply pairwise_cons.2
      exact ⟨fun s member => below s (mem_cons_of_mem _ member),later.of_cons⟩
    have rest_apart := ih (nonempty r mem_cons_self) whole later
    obtain ⟨s,tail,shape,start⟩ := fuse_head rest r
    rw [shape] at rest_apart ⊢
    refine ⟨?_,pairwise_cons.2 ⟨?_,rest_apart.spaced⟩⟩
    · intro a member
      rcases mem_cons.1 member with rfl | old
      · exact filled
      · exact rest_apart.nonempty a old
    intro a member
    have first := rest_apart.head_nonempty
    rcases mem_cons.1 member with rfl | old
    · omega
    · have := (pairwise_cons.1 rest_apart.spaced).1 a old
      omega

theorem covers_merge : Covers (merge ranges) x ↔ Covers ranges x := by
  have sorted := sorted_byStart ranges
  rw [← @covers_byStart ranges]
  unfold merge
  cases shape : byStart ranges with
  | nil => rfl
  | cons r rest =>
    rw [shape] at sorted
    exact covers_fuse (pairwise_cons.1 sorted).1 sorted.of_cons

theorem apart_merge (nonempty : ∀ r ∈ ranges, r.1 < r.2) : Apart (merge ranges) := by
  have sorted := sorted_byStart ranges
  have same : (byStart ranges).Perm ranges := perm_insertionSort ..
  have filled : ∀ r ∈ byStart ranges, r.1 < r.2 := fun r member => nonempty r (same.subset member)
  unfold merge
  cases shape : byStart ranges with
  | nil => exact Apart.nil
  | cons r rest =>
    rw [shape] at sorted filled
    exact apart_fuse (filled r mem_cons_self) (fun s member => filled s (mem_cons_of_mem _ member)) sorted

theorem merge_bounded {bound : Nat} (nonempty : ∀ r ∈ ranges, r.1 < r.2) (bounded : ∀ r ∈ ranges, r.2 ≤ bound) :
    ∀ r ∈ merge ranges, r.2 ≤ bound := by
  intro r member
  have filled := (apart_merge nonempty).nonempty r member
  have last : Covers (merge ranges) (r.2-1) := ⟨r,member,by omega,by omega⟩
  obtain ⟨s,inside,_,high⟩ := covers_merge.1 last
  have := bounded s inside
  omega

end Merge

section Exclusive
variable {ranges others : List Range} {r s : Range} {x : Nat}

def Separate (r s : Range) : Prop := r.2 ≤ s.1 ∨ s.2 ≤ r.1

theorem Separate.symm (separate : Separate r s) : Separate s r := Or.symm separate

theorem separate_of_points (filled : r.1 < r.2) (filled' : s.1 < s.2)
    (free : ∀ x, ¬ ((r.1 ≤ x ∧ x < r.2) ∧ s.1 ≤ x ∧ x < s.2)) : Separate r s := by
  by_contra meeting
  unfold Separate at meeting
  exact free (max r.1 s.1) (by omega)

/-- Ranges in any order of which no two meet. -/
structure Exclusive (ranges : List Range) : Prop where
  nonempty : ∀ r ∈ ranges, r.1 < r.2
  separate : ranges.Pairwise Separate

namespace Exclusive

theorem nil : Exclusive [] := ⟨by simp,.nil⟩

theorem perm (exclusive : Exclusive ranges) (same : ranges.Perm others) : Exclusive others :=
  ⟨fun r member => exclusive.nonempty r (same.symm.subset member),(same.pairwise_iff Separate.symm).1 exclusive.separate⟩

theorem sublist (exclusive : Exclusive ranges) (fewer : others.Sublist ranges) : Exclusive others :=
  ⟨fun r member => exclusive.nonempty r (fewer.subset member),exclusive.separate.sublist fewer⟩

theorem append (exclusive : Exclusive ranges) (exclusive' : Exclusive others)
    (free : ∀ x, ¬ (Covers ranges x ∧ Covers others x)) : Exclusive (ranges++others) := by
  constructor
  · intro r member
    rcases mem_append.1 member with old | new
    · exact exclusive.nonempty r old
    · exact exclusive'.nonempty r new
  refine pairwise_append.2 ⟨exclusive.separate,exclusive'.separate,?_⟩
  intro r old s new
  apply separate_of_points (exclusive.nonempty r old) (exclusive'.nonempty s new)
  rintro x ⟨first,second⟩
  exact free x ⟨⟨r,old,first⟩,⟨s,new,second⟩⟩

end Exclusive
end Exclusive

section Points
variable {ranges : List Range} {start stop : Nat}

theorem card_inside {r : Range} :
    ((Finset.Ico start stop).filter fun x => r.1 ≤ x ∧ x < r.2).card = overlap start stop r := by
  have same : ((Finset.Ico start stop).filter fun x => r.1 ≤ x ∧ x < r.2) = Finset.Ico (max r.1 start) (min r.2 stop) := by
    ext x
    simp only [Finset.mem_filter,Finset.mem_Ico]
    omega
  rw [same,Nat.card_Ico,overlap]

theorem card_covered (apart : Apart ranges) :
    ((Finset.Ico start stop).filter (Covers ranges)).card = (ranges.map (overlap start stop)).sum := by
  induction ranges with
  | nil => simp
  | cons r rest ih =>
    have split : (Finset.Ico start stop).filter (Covers (r :: rest)) =
        ((Finset.Ico start stop).filter fun x => r.1 ≤ x ∧ x < r.2) ∪ (Finset.Ico start stop).filter (Covers rest) := by
      ext x
      simp [and_or_left]
    have separate : Disjoint ((Finset.Ico start stop).filter fun x => r.1 ≤ x ∧ x < r.2)
        ((Finset.Ico start stop).filter (Covers rest)) := by
      apply Finset.disjoint_filter.2
      intro x _ own later
      have past := apart.beyond later
      omega
    rw [split,Finset.card_union_of_disjoint separate,card_inside,ih apart.tail,map_cons,sum_cons]

theorem reaches_iff (apart : Apart ranges) (proper : start < stop) :
    (ranges.dropWhile fun r => r.2 ≤ start).head?.any (fun r => r.1 < stop) = true ↔
      ∃ x, (start ≤ x ∧ x < stop) ∧ Covers ranges x := by
  induction ranges with
  | nil => simp
  | cons r rest ih =>
    by_cases passed : r.2 ≤ start
    · rw [dropWhile_cons_of_pos (by simpa using passed),ih apart.tail]
      apply exists_congr
      intro x
      rw [covers_cons]
      constructor
      · rintro ⟨inside,covered⟩
        exact ⟨inside,.inr covered⟩
      rintro ⟨inside,own | covered⟩
      · omega
      · exact ⟨inside,covered⟩
    · rw [dropWhile_cons_of_neg (by simpa using passed),head?_cons,Option.any_some,decide_eq_true_eq]
      have filled := apart.head_nonempty
      constructor
      · intro before
        exact ⟨max r.1 start,by omega,covers_cons.2 (.inl (by omega))⟩
      rintro ⟨x,inside,covered⟩
      rcases covers_cons.1 covered with own | later
      · omega
      · have past := apart.beyond later
        omega

theorem Apart.rising (apart : Apart ranges) :
    ranges.Pairwise fun r s => decide (s.2 ≤ start) = true → decide (r.2 ≤ start) = true := by
  apply apart.spaced.imp_of_mem
  intro r s _ second order passed
  have filled := apart.nonempty s second
  have ended := of_decide_eq_true passed
  exact decide_eq_true (by omega)

end Points
end Ember.Ranges
