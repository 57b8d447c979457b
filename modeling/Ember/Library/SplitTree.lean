import Mathlib

/-! Hash trees over any number of leaves. A node over more than one leaf gives its left child half of
them, rounded up when it is itself a left child and down when a right one; nodes are numbered from
the root, `2*id+1` to the left and `2*id` to the right. -/
namespace Ember.SplitTree
open List Option Prod
variable {α : Type*} {count target id : Nat} {isLeft : Bool}

def leftCount (count : Nat) (isLeft : Bool) : Nat := (count+if isLeft then 1 else 0)/2

theorem leftCount_bounds (many : 1 < count) (isLeft : Bool) : 0 < leftCount count isLeft ∧ leftCount count isLeft < count := by
  unfold leftCount
  split <;> omega

def halfCount (count : Nat) (isLeft side : Bool) : Nat := bif side then leftCount count isLeft else count-leftCount count isLeft

theorem halfCount_bounds (many : 1 < count) (isLeft side : Bool) : 0 < halfCount count isLeft side ∧ halfCount count isLeft side < count := by
  have bounds := leftCount_bounds many isLeft
  cases side <;> simp only [halfCount,cond_true,cond_false] <;> omega

theorem halfCount_le {k : Nat} (few : count ≤ 2^(k+1)) {side : Bool} : halfCount count isLeft side ≤ 2^k := by
  cases side <;> simp only [halfCount,leftCount,cond_true,cond_false] <;> split <;> omega

theorem split_induction {motive : Nat → Bool → Prop} (small : ∀ count isLeft, count ≤ 1 → motive count isLeft)
    (split : ∀ count isLeft, 1 < count → (∀ side, motive (halfCount count isLeft side) side) → motive count isLeft)
    (count : Nat) (isLeft : Bool) : motive count isLeft := by
  induction count using Nat.strong_induction_on generalizing isLeft with
  | h count ih =>
    rcases Nat.lt_or_ge 1 count with many | few
    · exact split count isLeft many fun side => ih _ (halfCount_bounds many isLeft side).2 side
    · exact small count isLeft few

section Definitions
variable (h : α → α → α) (empty : α)

def root (leaves : List α) (isLeft : Bool) : α :=
  if leaves.length ≤ 1 then leaves.head?.getD empty
  else h (root (leaves.take (leftCount leaves.length isLeft)) true) (root (leaves.drop (leftCount leaves.length isLeft)) false)
termination_by leaves.length
decreasing_by all_goals grind [leftCount_bounds]

def pairs (leaves : List α) (isLeft : Bool) : List (α × α) :=
  if leaves.length ≤ 1 then []
  else (root h empty (leaves.take (leftCount leaves.length isLeft)) true,
      root h empty (leaves.drop (leftCount leaves.length isLeft)) false) ::
    (pairs (leaves.take (leftCount leaves.length isLeft)) true++pairs (leaves.drop (leftCount leaves.length isLeft)) false)
termination_by leaves.length
decreasing_by all_goals grind [leftCount_bounds]

def sides (count : Nat) (isLeft : Bool) : List Bool :=
  if count = 0 then []
  else if count = 1 then [isLeft]
  else sides (leftCount count isLeft) true++sides (count-leftCount count isLeft) false
termination_by count
decreasing_by all_goals grind [leftCount_bounds]

def ids (count id : Nat) (isLeft : Bool) : List Nat :=
  if count ≤ 1 then [id]
  else ids (leftCount count isLeft) (id*2+1) true++ids (count-leftCount count isLeft) (id*2) false
termination_by count
decreasing_by all_goals grind [leftCount_bounds]

/-- The way down to a leaf: where it ends, and past which siblings, with the side taken. -/
def path (count target id : Nat) (isLeft : Bool) : (Nat × Bool) × List (Nat × Bool) :=
  if count ≤ 1 then ((id,isLeft),[])
  else if target < leftCount count isLeft then
    let below := path (leftCount count isLeft) target (id*2+1) true
    (below.1,(id*2,true) :: below.2)
  else
    let below := path (count-leftCount count isLeft) (target-leftCount count isLeft) (id*2) false
    (below.1,(id*2+1,false) :: below.2)
termination_by count
decreasing_by all_goals grind [leftCount_bounds]

def audit (leaves : List α) (target id : Nat) (isLeft : Bool) : (Nat × Bool) × List (Nat × α) :=
  if leaves.length ≤ 1 then ((id,isLeft),[])
  else if target < leftCount leaves.length isLeft then
    let below := audit (leaves.take (leftCount leaves.length isLeft)) target (id*2+1) true
    (below.1,(id*2,root h empty (leaves.drop (leftCount leaves.length isLeft)) false) :: below.2)
  else
    let below := audit (leaves.drop (leftCount leaves.length isLeft)) (target-leftCount leaves.length isLeft) (id*2) false
    (below.1,(id*2+1,root h empty (leaves.take (leftCount leaves.length isLeft)) true) :: below.2)
termination_by leaves.length
decreasing_by all_goals grind [leftCount_bounds]

def join (cur sibling : α) (onLeft : Bool) : α := if onLeft then h cur sibling else h sibling cur

def climb (lookup : Nat → Option α) (path : List (Nat × Bool)) (cur : α) : Option α :=
  path.foldr (fun step cur => cur.bind fun cur => (lookup step.1).map fun sibling => join h cur sibling step.2) (some cur)

def climbPairs (lookup : Nat → Option α) (path : List (Nat × Bool)) (cur : α) : List (α × α) :=
  match path with
  | [] => []
  | step :: rest =>
    match climb h lookup rest cur, lookup step.1 with
    | some below, some sibling => (if step.2 then (below,sibling) else (sibling,below)) :: climbPairs lookup rest cur
    | _, _ => climbPairs lookup rest cur

end Definitions

section Halves
variable {leaves leaves' : List α}

def half (leaves : List α) (isLeft side : Bool) : List α :=
  bif side then leaves.take (leftCount leaves.length isLeft) else leaves.drop (leftCount leaves.length isLeft)

def child (id : Nat) (side : Bool) : Nat := bif side then id*2+1 else id*2

def sideOf (count target : Nat) (isLeft : Bool) : Bool := target < leftCount count isLeft

def inner (count target : Nat) (isLeft : Bool) : Nat :=
  bif sideOf count target isLeft then target else target-leftCount count isLeft

theorem inner_lt (inside : target < count) : inner count target isLeft < halfCount count isLeft (sideOf count target isLeft) := by
  unfold inner
  cases chosen : sideOf count target isLeft with
  | true => exact of_decide_eq_true chosen
  | false => exact Nat.sub_lt_sub_right (Nat.le_of_not_lt (of_decide_eq_false chosen)) inside

theorem half_length (many : 1 < leaves.length) {side : Bool} :
    (half leaves isLeft side).length = halfCount leaves.length isLeft side := by
  have bounds := leftCount_bounds many isLeft
  cases side with
  | true => exact length_take_of_le bounds.2.le
  | false => exact length_drop

theorem half_get :
    (half leaves isLeft (sideOf leaves.length target isLeft))[inner leaves.length target isLeft]? = leaves[target]? := by
  unfold inner
  cases chosen : sideOf leaves.length target isLeft with
  | true => exact getElem?_take_of_lt (of_decide_eq_true chosen)
  | false =>
    refine getElem?_drop.trans ?_
    simp [Nat.add_sub_cancel' (Nat.le_of_not_lt (of_decide_eq_false chosen))]

theorem eq_of_halves (same : ∀ side, half leaves isLeft side = half leaves' isLeft side) :
    leaves = leaves' := by
  have low : leaves.take _ = leaves'.take _ := same true
  have high : leaves.drop _ = leaves'.drop _ := same false
  rw [← take_append_drop (leftCount leaves.length isLeft) leaves,low,high,take_append_drop]

end Halves

section Roots
variable {h : α → α → α} {empty : α} {leaves leaves' : List α}

theorem root_single {a : α} : root h empty [a] isLeft = a := by
  rw [root]
  rfl

theorem root_split (many : 1 < leaves.length) :
    root h empty leaves isLeft = h (root h empty (half leaves isLeft true) true) (root h empty (half leaves isLeft false) false) := by
  rw [root,if_neg (by omega)]
  rfl

theorem pairs_small (few : leaves.length ≤ 1) : pairs h empty leaves isLeft = [] := by
  rw [pairs,if_pos few]

theorem pairs_split (many : 1 < leaves.length) :
    pairs h empty leaves isLeft = (root h empty (half leaves isLeft true) true,root h empty (half leaves isLeft false) false) ::
      (pairs h empty (half leaves isLeft true) true++pairs h empty (half leaves isLeft false) false) := by
  rw [pairs,if_neg (by omega)]
  rfl

theorem pairs_half (many : 1 < leaves.length) {side : Bool} {q : α × α} (member : q ∈ pairs h empty (half leaves isLeft side) side) :
    q ∈ pairs h empty leaves isLeft := by
  rw [pairs_split many]
  cases side with
  | true => exact mem_cons_of_mem _ (mem_append_left _ member)
  | false => exact mem_cons_of_mem _ (mem_append_right _ member)

theorem pairs_top (many : 1 < leaves.length) :
    (root h empty (half leaves isLeft true) true,root h empty (half leaves isLeft false) false) ∈ pairs h empty leaves isLeft := by
  rw [pairs_split many]
  exact mem_cons_self

theorem root_injective {nodes : Set (α × α)} (distinct : nodes.InjOn fun q => h q.1 q.2) (length : leaves.length = leaves'.length)
    (nonempty : 0 < leaves.length) (inside : ∀ q ∈ pairs h empty leaves isLeft, q ∈ nodes)
    (inside' : ∀ q ∈ pairs h empty leaves' isLeft, q ∈ nodes) (same : root h empty leaves isLeft = root h empty leaves' isLeft) :
    leaves = leaves' := by
  generalize size : leaves.length = count at nonempty
  induction count, isLeft using split_induction generalizing leaves leaves' with
  | small count isLeft few =>
    obtain ⟨a,rfl⟩ := length_eq_one_iff.1 (by omega : leaves.length = 1)
    obtain ⟨b,rfl⟩ := length_eq_one_iff.1 (by omega : leaves'.length = 1)
    rw [root_single,root_single] at same
    rw [same]
  | split count isLeft many ih =>
    have many' : 1 < leaves.length := by omega
    have more : 1 < leaves'.length := by omega
    rw [root_split many',root_split more] at same
    -- the two topmost pairs agree, and so each half does
    have top := mk.inj (distinct (inside _ (pairs_top many')) (inside' _ (pairs_top more)) same)
    refine eq_of_halves fun side => ih side (by rw [half_length many',half_length more,length])
      (fun q member => inside q (pairs_half many' member)) (fun q member => inside' q (pairs_half more member)) ?_
      (size ▸ half_length many' ..) (halfCount_bounds many isLeft side).1
    cases side with
    | true => exact top.1
    | false => exact top.2

end Roots

section Paths
variable {h : α → α → α} {empty : α} {leaves : List α} {lookup : Nat → Option α}

theorem path_split (many : 1 < count) :
    let side := sideOf count target isLeft
    let below := path (halfCount count isLeft side) (inner count target isLeft) (child id side) side
    path count target id isLeft = (below.1,(child id (!side),side) :: below.2) := by
  rw [path,if_neg (by omega)]
  unfold inner
  cases chosen : sideOf count target isLeft with
  | true => exact if_pos (of_decide_eq_true chosen)
  | false => exact if_neg (of_decide_eq_false chosen)

theorem path_small (few : count ≤ 1) : path count target id isLeft = ((id,isLeft),[]) := by
  rw [path,if_pos few]

theorem audit_split (many : 1 < leaves.length) :
    let side := sideOf leaves.length target isLeft
    let below := audit h empty (half leaves isLeft side) (inner leaves.length target isLeft) (child id side) side
    audit h empty leaves target id isLeft = (below.1,(child id (!side),root h empty (half leaves isLeft (!side)) (!side)) :: below.2) := by
  rw [audit,if_neg (by omega)]
  unfold inner
  cases chosen : sideOf leaves.length target isLeft with
  | true => exact if_pos (of_decide_eq_true chosen)
  | false => exact if_neg (of_decide_eq_false chosen)

theorem audit_path (leaves : List α) (target id : Nat) (isLeft : Bool) :
    (audit h empty leaves target id isLeft).1 = (path leaves.length target id isLeft).1 ∧
      (audit h empty leaves target id isLeft).2.map fst = (path leaves.length target id isLeft).2.map fst := by
  generalize size : leaves.length = count
  induction count, isLeft using split_induction generalizing leaves target id with
  | small count isLeft few =>
    rw [audit,if_pos (by omega),path_small few]
    exact ⟨rfl,rfl⟩
  | split count isLeft many ih =>
    subst size
    generalize chosen : sideOf leaves.length target isLeft = side
    have below := ih side _ (inner leaves.length target isLeft) (child id side) (half_length many ..)
    rw [audit_split many,path_split many,chosen]
    exact ⟨below.1,congrArg (child id (!side) :: ·) below.2⟩

theorem sides_split (many : 1 < count) :
    sides count isLeft = sides (halfCount count isLeft true) true++sides (halfCount count isLeft false) false := by
  rw [sides,if_neg (by omega),if_neg (by omega)]
  rfl

theorem sides_length : (sides count isLeft).length = count := by
  induction count, isLeft using split_induction with
  | small count isLeft few =>
    rw [sides]
    split
    · next none => simp [none]
    · rw [if_pos (by omega),length_singleton]
      omega
  | split count isLeft many ih =>
    rw [sides_split many,length_append,ih,ih]
    exact Nat.add_sub_cancel' (leftCount_bounds many isLeft).2.le

theorem sides_path (inside : target < count) : (sides count isLeft)[target]? = some (path count target id isLeft).1.2 := by
  induction count, isLeft using split_induction generalizing target id with
  | small count isLeft few =>
    obtain rfl : count = 1 := by omega
    obtain rfl : target = 0 := by omega
    rw [sides,path_small le_rfl]
    rfl
  | split count isLeft many ih =>
    have half : (sides count isLeft)[target]? =
        (sides (halfCount count isLeft (sideOf count target isLeft)) (sideOf count target isLeft))[inner count target isLeft]? := by
      rw [sides_split many]
      unfold inner
      cases chosen : sideOf count target isLeft with
      | true => exact getElem?_append_left (by rw [sides_length]; exact of_decide_eq_true chosen)
      | false =>
        refine (getElem?_append_right ?_).trans ?_ <;> rw [sides_length]
        · exact Nat.le_of_not_lt (of_decide_eq_false chosen)
        · rfl
    rw [half,path_split many]
    exact ih _ (inner_lt inside)

theorem climb_audit {leaf : α} (placed : leaves[target]? = some leaf)
    (found : ∀ sibling ∈ (audit h empty leaves target id isLeft).2, lookup sibling.1 = some sibling.2) :
    climb h lookup (path leaves.length target id isLeft).2 leaf = some (root h empty leaves isLeft) := by
  generalize size : leaves.length = count
  induction count, isLeft using split_induction generalizing leaves target id with
  | small count isLeft few =>
    obtain ⟨inside,own⟩ := List.getElem?_eq_some_iff.1 placed
    obtain ⟨a,rfl⟩ := length_eq_one_iff.1 (by omega : leaves.length = 1)
    rw [path_small few,root_single,← own]
    simp [climb]
  | split count isLeft many ih =>
    subst size
    rw [← half_get] at placed
    rw [audit_split many] at found
    rw [path_split many,root_split many]
    obtain ⟨own,later⟩ := forall_mem_cons.1 found
    have below := ih _ placed later (half_length many ..)
    unfold climb at below ⊢
    rw [foldr_cons,below,own]
    cases sideOf leaves.length target isLeft <;> rfl

theorem climb_injective {nodes : Set (α × α)} (distinct : nodes.InjOn fun q => h q.1 q.2) {cur leaf : α}
    (placed : leaves[target]? = some leaf) (tree : ∀ q ∈ pairs h empty leaves isLeft, q ∈ nodes)
    (climbed : ∀ q ∈ climbPairs h lookup (path leaves.length target id isLeft).2 cur, q ∈ nodes)
    (reached : climb h lookup (path leaves.length target id isLeft).2 cur = some (root h empty leaves isLeft)) : cur = leaf := by
  generalize size : leaves.length = count at climbed reached
  induction count, isLeft using split_induction generalizing leaves target id with
  | small count isLeft few =>
    obtain ⟨inside,own⟩ := List.getElem?_eq_some_iff.1 placed
    obtain ⟨a,rfl⟩ := length_eq_one_iff.1 (by omega : leaves.length = 1)
    rw [path_small few,root_single] at reached
    rw [← own]
    simpa [climb] using reached
  | split count isLeft many ih =>
    subst size
    rw [← half_get] at placed
    rw [path_split many] at climbed reached
    rw [root_split many] at reached
    generalize sideOf leaves.length target isLeft = side at placed climbed reached
    obtain ⟨below,found,joined⟩ := bind_eq_some_iff.1 reached
    obtain ⟨sibling,shown,hashed⟩ := map_eq_some_iff.1 joined
    have arrived : climb h lookup (path (halfCount leaves.length isLeft side) (inner leaves.length target isLeft) (child id side) side).2 cur =
      some below := found
    unfold climbPairs at climbed
    rw [arrived,shown] at climbed
    obtain ⟨own,later⟩ := forall_mem_cons.1 climbed
    have same : below = root h empty (half leaves isLeft side) side := by
      have top := tree _ (pairs_top many)
      cases side with
      | true => exact (mk.inj (distinct own top hashed)).1
      | false => exact (mk.inj (distinct own top hashed)).2
    exact ih side placed (fun q member => tree q (pairs_half many member)) (half_length many ..) later (by rw [arrived,same])

end Paths

section Numbers
variable {x : Nat} {side : Bool} {k : Nat}

/-- A node at or below another, by its number. -/
def Below (id x : Nat) : Prop := ∃ depth, x/2^depth = id

namespace Below

theorem refl (id : Nat) : Below id id := ⟨0,by simp⟩

theorem up (below : Below (child id side) x) : Below id x := by
  obtain ⟨depth,shown⟩ := below
  refine ⟨depth+1,?_⟩
  rw [Nat.pow_succ,← Nat.div_div_eq_div_mul,shown]
  cases side <;> simp [child]
  omega

theorem pos (below : Below id x) (positive : 0 < id) : 0 < x := by
  obtain ⟨depth,shown⟩ := below
  by_contra zero
  obtain rfl : x = 0 := by omega
  rw [Nat.zero_div] at shown
  omega

theorem apart (positive : 0 < id) (first : Below (child id side) x) (second : Below (child id (!side)) x) : False := by
  obtain ⟨depth,shown⟩ := first
  obtain ⟨depth',shown'⟩ := second
  have deeper : ∀ a b : Nat, a < b → x/2^b ≤ x/2^a/2 := by
    intro a b less
    have grown : 2^(a+1) ≤ 2^b := Nat.pow_le_pow_right (by decide) less
    have step : x/2^(a+1) = x/2^a/2 := by rw [Nat.pow_succ,← Nat.div_div_eq_div_mul]
    rw [← step]
    exact Nat.div_le_div_left grown (Nat.two_pow_pos _)
  have bound := deeper depth depth'
  have bound' := deeper depth' depth
  rcases lt_trichotomy depth depth' with less | rfl | more <;> cases side <;>
    simp only [child,cond_true,cond_false,Bool.not_true,Bool.not_false] at shown shown' <;> omega

end Below

theorem child_pos (positive : 0 < id) : 0 < child id side := by
  cases side <;> simp [child]
  omega

theorem ids_split (many : 1 < count) : ids count id isLeft =
    ids (halfCount count isLeft true) (child id true) true++ids (halfCount count isLeft false) (child id false) false := by
  rw [ids,if_neg (by omega)]
  rfl

theorem mem_ids (many : 1 < count) (member : x ∈ ids count id isLeft) :
    ∃ side, x ∈ ids (halfCount count isLeft side) (child id side) side := by
  rw [ids_split many] at member
  exact (mem_append.1 member).elim (⟨true,·⟩) (⟨false,·⟩)

theorem ids_below (count id : Nat) (isLeft : Bool) : ∀ x ∈ ids count id isLeft, Below id x := by
  induction count, isLeft using split_induction generalizing id with
  | small count isLeft few =>
    rw [ids,if_pos few]
    intro x member
    rw [mem_singleton.1 member]
    exact .refl id
  | split count isLeft many ih =>
    intro x member
    obtain ⟨side,inside⟩ := mem_ids many member
    exact (ih side _ x inside).up

theorem ids_length (positive : 0 < count) (id : Nat) (isLeft : Bool) : (ids count id isLeft).length = count := by
  induction count, isLeft using split_induction generalizing id with
  | small count isLeft few =>
    rw [ids,if_pos few,length_singleton]
    omega
  | split count isLeft many ih =>
    have bounds := halfCount_bounds many isLeft
    rw [ids_split many,length_append,ih true (bounds true).1,ih false (bounds false).1]
    exact Nat.add_sub_cancel' (leftCount_bounds many isLeft).2.le

theorem ids_nodup (count : Nat) (positive : 0 < id) (isLeft : Bool) : (ids count id isLeft).Nodup := by
  induction count, isLeft using split_induction generalizing id with
  | small count isLeft few =>
    rw [ids,if_pos few]
    exact nodup_singleton id
  | split count isLeft many ih =>
    rw [ids_split many]
    apply Nodup.append (ih true (child_pos positive)) (ih false (child_pos positive))
    intro x low high
    exact @Below.apart _ _ true positive (ids_below _ _ _ x low) (ids_below _ _ _ x high)

theorem child_lt {bound : Nat} (less : bound < (child id side+1)*2^k) : bound < (id+1)*2^(k+1) := by
  have grown : (id+1)*2^(k+1) = (id*2+2)*2^k := by rw [Nat.pow_succ]; ring
  have wider : (child id side+1)*2^k ≤ (id*2+2)*2^k :=
    Nat.mul_le_mul_right _ (by cases side <;> simp [child])
  omega

theorem own_lt : id < (id+1)*2^k := by
  have positive := Nat.two_pow_pos k
  nlinarith

theorem ids_lt (few : count ≤ 2^k) (id : Nat) (isLeft : Bool) : ∀ x ∈ ids count id isLeft, x < (id+1)*2^k := by
  intro x member
  induction k generalizing count id isLeft with
  | zero =>
    have small : count ≤ 1 := few
    rw [ids,if_pos small,mem_singleton] at member
    exact member ▸ own_lt
  | succ k ih =>
    rcases Nat.lt_or_ge 1 count with many | small
    · obtain ⟨side,inside⟩ := mem_ids many member
      exact child_lt (ih (halfCount_le few) _ _ inside)
    · rw [ids,if_pos small,mem_singleton] at member
      exact member ▸ own_lt

theorem path_lt (few : count ≤ 2^k) (target id : Nat) (isLeft : Bool) :
    (path count target id isLeft).1.1 < (id+1)*2^k ∧ (∀ step ∈ (path count target id isLeft).2, step.1 < (id+1)*2^k) ∧
      (path count target id isLeft).2.length ≤ k := by
  induction k generalizing count target id isLeft with
  | zero =>
    rw [path_small few]
    exact ⟨own_lt,nofun,le_rfl⟩
  | succ k ih =>
    rcases Nat.lt_or_ge 1 count with many | small
    · obtain ⟨last,way,short⟩ := ih (halfCount_le few) (inner count target isLeft) (child id _) (sideOf count target isLeft)
      rw [path_split many]
      refine ⟨child_lt last,forall_mem_cons.2 ⟨child_lt own_lt,fun step member => child_lt (way step member)⟩,?_⟩
      exact Nat.succ_le_succ short
    · rw [path_small small]
      exact ⟨own_lt,nofun,Nat.zero_le _⟩

theorem path_nodup (positive : 0 < id) {later : List Nat} (distinct : later.Nodup)
    (below : ∀ x ∈ later, Below (path count target id isLeft).1.1 x) :
    ((path count target id isLeft).2.map fst++later).Nodup ∧
      ∀ x ∈ (path count target id isLeft).2.map fst++later, Below id x := by
  induction count, isLeft using split_induction generalizing target id with
  | small count isLeft few =>
    rw [path_small few] at below ⊢
    exact ⟨distinct,below⟩
  | split count isLeft many ih =>
    rw [path_split many] at below ⊢
    have deeper := ih _ (child_pos positive) below
    refine ⟨nodup_cons.2 ⟨fun member => ?_,deeper.1⟩,forall_mem_cons.2 ⟨(Below.refl (child id _)).up,fun x member => ?_⟩⟩
    · exact Below.apart positive (deeper.2 _ member) (.refl _)
    · exact (deeper.2 x member).up

end Numbers
end Ember.SplitTree
