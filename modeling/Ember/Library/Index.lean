import Ember.Library.Ordered

/-! Tables kept beside another: the inverse of a table, and the lists of the items filed under each key. -/
namespace Ember
open List AList Function Table

namespace Table
variable {κ ν : Type} [DecidableEq κ] {t : Table κ ν} {k k' : κ} {v : ν}

theorem lookup_insert_ite : (t.insert k v).lookup k' = if k' = k then some v else t.lookup k' := by
  split
  next same => rw [same,lookup_insert]
  next other => exact lookup_insert_ne other

theorem lookup_erase_ite : (t.erase k).lookup k' = if k' = k then none else t.lookup k' := by
  split
  next same => rw [same,lookup_erase]
  next other => exact lookup_erase_ne other

theorem lookup_collect_iff {bindings : List (κ × ν)} (distinct : (bindings.map Prod.fst).Nodup) :
    (collect bindings).lookup k = some v ↔ (k,v) ∈ bindings := by
  refine ⟨?_,lookup_collect distinct⟩
  clear distinct
  induction bindings using List.reverseRecOn with
  | nil => simp [collect]
  | append_singleton rest last ih =>
    rw [collect,foldl_append,foldl_cons,foldl_nil,lookup_insert_ite]
    split
    next same =>
      intro found
      rw [same,← Option.some.inj found]
      simp
    next => exact fun found => mem_append_left _ (ih found)

omit [DecidableEq κ] in
theorem nodup_bindings : (t.bindings.map Prod.fst).Nodup := by
  have same : t.bindings.map Prod.fst = t.entries.map Sigma.fst := by simp [bindings]
  rw [same]
  exact t.nodupKeys

theorem Within.lookup_none {t' : Table κ ν} (within : Within t' t) (absent : t.lookup k = none) : t'.lookup k = none := by
  cases found : t'.lookup k with
  | none => rfl
  | some v => exact absurd (within found) (by simp [absent])

end Table

section Inverse
variable {κ ν : Type} [DecidableEq κ] [DecidableEq ν] {t : Table κ ν} {t' : Table ν κ} {k : κ} {v : ν}

/-- Each table binds what the other binds, the other way round. -/
def Inverse (t : Table κ ν) (t' : Table ν κ) : Prop := ∀ k v, t.lookup k = some v ↔ t'.lookup v = some k

namespace Inverse

theorem empty : Inverse (∅ : Table κ ν) ∅ := by
  intro k v
  simp

theorem unique (inverse : Inverse t t') {k' : κ} (first : t.lookup k = some v) (second : t.lookup k' = some v) : k = k' :=
  Option.some.inj (((inverse k v).1 first).symm.trans ((inverse k' v).1 second))

theorem erase (inverse : Inverse t t') (bound : t.lookup k = some v) : Inverse (t.erase k) (t'.erase v) := by
  intro a b
  by_cases same : a = k
  · subst same
    by_cases same' : b = v
    · subst same'
      simp
    · rw [lookup_erase_ne same',← inverse,bound]
      simpa using Ne.symm same'
  · by_cases same' : b = v
    · subst same'
      rw [lookup_erase_ne same]
      have other : t.lookup a ≠ some b := fun found => same (inverse.unique found bound)
      simpa using other
    · rw [lookup_erase_ne same,lookup_erase_ne same',inverse]

theorem insert (inverse : Inverse t t') (free : t.lookup k = none) (free' : t'.lookup v = none) :
    Inverse (t.insert k v) (t'.insert v k) := by
  intro a b
  by_cases same : a = k
  · subst same
    by_cases same' : b = v
    · subst same'
      simp
    · rw [lookup_insert_ne same',← inverse,free]
      simpa using Ne.symm same'
  · by_cases same' : b = v
    · subst same'
      rw [lookup_insert_ne same,inverse,free']
      simpa using Ne.symm same
    · rw [lookup_insert_ne same,lookup_insert_ne same',inverse]

theorem collect (injective : ∀ {k k' v}, t.lookup k = some v → t.lookup k' = some v → k = k') :
    Inverse t (collect (t.bindings.map Prod.swap)) := by
  have distinct : ((t.bindings.map Prod.swap).map Prod.fst).Nodup := by
    rw [map_map]
    apply nodup_bindings.of_map |>.map_on
    rintro ⟨a,b⟩ first ⟨c,d⟩ second same
    obtain rfl : b = d := same
    rw [injective (mem_bindings.1 first) (mem_bindings.1 second)]
  intro k v
  rw [lookup_collect_iff distinct,← mem_bindings]
  simp

end Inverse
end Inverse

section Index
variable {κ α : Type} [DecidableEq κ] {index : Table κ (List α)} {key : α → Option κ} {k k' : κ} {x : α}

namespace Index

def listed (index : Table κ (List α)) (k : κ) : List α := (index.lookup k).getD []

def post (index : Table κ (List α)) (k : κ) (x : α) : Table κ (List α) := index.insert k (listed index k++[x])

theorem listed_post : listed (post index k x) k' = if k' = k then listed index k++[x] else listed index k' := by
  unfold post
  by_cases same : k' = k
  · subst same
    simp [listed]
  · simp [listed,same]

variable [DecidableEq α]

/-- A key goes with its last item. -/
def detach (index : Table κ (List α)) (k : κ) (x : α) : Table κ (List α) :=
  match index.lookup k with
  | none => index
  | some items =>
    let kept := items.filter (· ≠ x)
    if kept.isEmpty then index.erase k else index.insert k kept

theorem listed_detach : listed (detach index k x) k' = if k' = k then (listed index k).filter (· ≠ x) else listed index k' := by
  unfold detach
  by_cases same : k' = k
  · subst same
    rw [if_pos rfl]
    cases found : index.lookup k' with
    | none => simp [listed,found]
    | some items =>
      dsimp only
      split
      next emptied =>
        have nothing : items.filter (· ≠ x) = [] := List.isEmpty_iff.1 emptied
        rw [listed,listed,found,lookup_erase]
        exact nothing.symm
      next => simp [listed,found]
  · rw [if_neg same]
    split
    · rfl
    dsimp only
    split
    · rw [listed,lookup_erase_ne same,listed]
    · rw [listed,lookup_insert_ne same,listed]

end Index

/-- Every item stands once in the list of its key and in no other. -/
structure Indexes (index : Table κ (List α)) (key : α → Option κ) : Prop where
  nodup : ∀ k, (Index.listed index k).Nodup
  mem : ∀ k x, x ∈ Index.listed index k ↔ key x = some k

namespace Indexes
open Index

theorem empty : Indexes (∅ : Table κ (List α)) fun _ => none := ⟨fun _ => .nil,by simp [listed]⟩

theorem congr {key' : α → Option κ} (indexes : Indexes index key) (same : ∀ x, key x = key' x) : Indexes index key' :=
  funext same ▸ indexes

variable [DecidableEq α]

theorem post (indexes : Indexes index key) (fresh : key x = none) :
    Indexes (post index k x) (update key x (some k)) := by
  have absent : x ∉ listed index k := fun member => by simp [(indexes.mem k x).1 member] at fresh
  constructor
  · intro k'
    rw [listed_post]
    split
    · exact (indexes.nodup k).concat absent |> (concat_eq_append ▸ ·)
    · exact indexes.nodup k'
  intro k' y
  rw [listed_post]
  by_cases own : y = x
  · subst own
    by_cases same : k' = k
    · simp [same]
    · simpa [same,indexes.mem,fresh] using Ne.symm same
  by_cases same : k' = k
  · simp [same,own,indexes.mem]
  · simp [same,own,indexes.mem]

theorem detach (indexes : Indexes index key) (filed : key x = some k) :
    Indexes (detach index k x) (update key x none) := by
  constructor
  · intro k'
    rw [listed_detach]
    split
    · exact (indexes.nodup k).filter _
    · exact indexes.nodup k'
  intro k' y
  rw [listed_detach]
  by_cases own : y = x
  · subst own
    by_cases same : k' = k
    · simp [same]
    · simpa [same,indexes.mem,filed] using Ne.symm same
  by_cases same : k' = k
  · simp [same,own,indexes.mem]
  · simp [same,own,indexes.mem]

end Indexes
end Index

end Ember
