import Mathlib

/-! Totals over association lists. A hash map is one with distinct keys; what is counted over its
bindings changes only by what one key gives up and takes. -/
namespace Ember
open List Option AList Prod

abbrev Table (κ ν : Type) := AList (fun _ : κ => ν)

namespace Table

variable {κ ν M : Type}

private def keep (f : ν → Option ν) (e : Σ _ : κ, ν) : Option (Σ _ : κ, ν) :=
  (f e.2).map fun value => ⟨e.1,value⟩

/-- Rewrites every value and drops the bindings whose value is given up. -/
def retain (f : ν → Option ν) (t : Table κ ν) : Table κ ν where
  entries := t.entries.filterMap (keep f)
  nodupKeys := by
    have kept : ((t.entries.filterMap (keep f)).map Sigma.fst).Sublist (t.entries.map Sigma.fst) := by
      induction t.entries with
      | nil => simp
      | cons e rest ih =>
        cases given : f e.2 with
        | none => simpa [keep,given] using ih.trans (sublist_cons_self ..)
        | some value => simpa [keep,given] using ih
    exact kept.nodup t.nodupKeys

private theorem total_filter (f : κ → ν → Bool) (entries : List (Σ _ : κ, ν)) :
    (entries.map fun e => (f e.1 e.2).toNat).sum = (entries.filter fun e => f e.1 e.2).length := by
  induction entries with
  | nil => rfl
  | cons e rest ih => cases holds : f e.1 e.2 <;> simp [holds,ih,Nat.add_comm]

section Totals
variable [AddCommMonoid M]

def total (g : κ → ν → M) (t : Table κ ν) : M := (t.entries.map fun e => g e.1 e.2).sum

theorem total_retain (f : ν → Option ν) (g lost : κ → ν → M) (t : Table κ ν)
    (split : ∀ k v, (f v).elim 0 (g k) + lost k v = g k v) : total g (retain f t) + total lost t = total g t := by
  simp only [total,retain]
  induction t.entries with
  | nil => simp
  | cons e rest ih =>
    simp only [filterMap_cons,map_cons,sum_cons,← ih,← split e.1 e.2,keep]
    cases f e.2 with
    | none => simp only [elim_none,zero_add]; exact add_left_comm ..
    | some value =>
      exact add_add_add_comm ..

variable [DecidableEq κ]

variable (g : κ → ν → M) (t : Table κ ν) (k : κ)

/-- What one key contributes, nothing when it is not bound. -/
def weight (g : κ → ν → M) (t : Table κ ν) (k : κ) : M := (t.lookup k).elim 0 (g k)

private theorem kerase_sum (entries : List (Σ _ : κ, ν)) :
    ((entries.kerase k).map fun e => g e.1 e.2).sum + (entries.dlookup k).elim 0 (g k) =
      (entries.map fun e => g e.1 e.2).sum := by
  induction entries with
  | nil => simp
  | cons e rest ih =>
    obtain ⟨key,value⟩ := e
    by_cases same : k = key
    · subst same
      simp [add_comm]
    rw [@kerase_cons_ne κ (fun _ => ν) _ k ⟨key,value⟩ rest same,
      dlookup_cons_ne rest ⟨key,value⟩ same]
    simp [add_assoc,ih]

theorem total_erase : total g (t.erase k) + weight g t k = total g t :=
  kerase_sum g k t.entries

theorem total_insert {v : ν} : total g (t.insert k v) = total g (t.erase k) + g k v := by
  rw [add_comm]
  rfl

theorem total_eq_sum {keys : Finset κ} (covers : ∀ k ∈ t, k ∈ keys) : total g t = ∑ k ∈ keys, weight g t k := by
  induction keys using Finset.induction_on generalizing t with
  | empty =>
    have empty : t.entries = [] := by
      rw [eq_nil_iff_forall_not_mem]
      intro e member
      exact absurd (covers e.1 (List.mem_map_of_mem member)) (Finset.notMem_empty _)
    simp [total,empty]
  | insert k keys fresh ih =>
    have rest : ∀ k' ∈ t.erase k, k' ∈ keys := by
      intro k' member
      obtain ⟨other,bound⟩ := mem_erase.1 member
      exact (Finset.mem_insert.1 (covers k' bound)).resolve_left other
    have same : ∀ k' ∈ keys, weight g (t.erase k) k' = weight g t k' := by
      intro k' member
      have other : k' ≠ k := fun equal => fresh (equal ▸ member)
      simp [weight,lookup_erase_ne other]
    rw [Finset.sum_insert fresh,← total_erase g t k,ih _ rest,Finset.sum_congr rfl same,add_comm]

end Totals

variable [DecidableEq κ]
variable {bindings : List (κ × ν)} (f : ν → Option ν) (p : ν → Bool) (t : Table κ ν) (k : κ) (v : ν)

theorem total_mono {g : κ → ν → Nat} {t t' : Table κ ν} (less : ∀ k, weight g t' k ≤ weight g t k) :
    total g t' ≤ total g t := by
  have inside : ∀ k ∈ t, k ∈ (t.keys++t'.keys).toFinset := fun k member => by
    simp [← AList.mem_keys,member]
  have inside' : ∀ k ∈ t', k ∈ (t.keys++t'.keys).toFinset := fun k member => by
    simp [← AList.mem_keys,member]
  rw [total_eq_sum g t inside,total_eq_sum g t' inside']
  exact Finset.sum_le_sum (fun k _ => less k)

private theorem filterMap_dlookup (entries : List (Σ _ : κ, ν)) (distinct : (entries.map Sigma.fst).Nodup) :
    (entries.filterMap (keep f)).dlookup k = (entries.dlookup k).bind f := by
  induction entries with
  | nil => simp
  | cons e rest ih =>
    obtain ⟨key,value⟩ := e
    simp only [map_cons,nodup_cons] at distinct
    have inner := ih distinct.2
    by_cases same : k = key
    · subst same
      have absent : rest.dlookup k = none :=
        dlookup_eq_none.2 (by simpa [List.keys] using distinct.1)
      cases given : f value with
      | none => simpa [keep,given,absent] using inner
      | some value' => simp [keep,given]
    · rw [dlookup_cons_ne rest ⟨key,value⟩ same]
      cases given : f value with
      | none => simpa [keep,given] using inner
      | some value' =>
        simp only [filterMap_cons,keep,given]
        exact (dlookup_cons_ne (rest.filterMap (keep f)) ⟨key,value'⟩ same).trans inner

theorem lookup_retain : (retain f t).lookup k = (t.lookup k).bind f :=
  filterMap_dlookup f k t.entries t.nodupKeys

theorem total_count {f : κ → ν → Bool} {t : Table κ ν} {members : Finset κ}
    (spec : ∀ k, k ∈ members ↔ (t.lookup k).any (f k)) : total (fun k v => (f k v).toNat) t = members.card := by
  have distinct : ((t.entries.filter fun e => f e.1 e.2).map Sigma.fst).Nodup :=
    t.nodupKeys.sublist filter_sublist
  have same : members = ((t.entries.filter fun e => f e.1 e.2).map Sigma.fst).toFinset := by
    ext k
    rw [spec,List.mem_toFinset,List.mem_map]
    constructor
    · intro holds
      cases found : t.lookup k with
      | none => simp [found] at holds
      | some value =>
        rw [found] at holds
        exact ⟨⟨k,value⟩,mem_filter.2 ⟨(mem_dlookup_iff t.nodupKeys).1 found,holds⟩,rfl⟩
    · rintro ⟨⟨key,value⟩,member,rfl⟩
      obtain ⟨bound,passes⟩ := mem_filter.1 member
      have found : t.lookup key = some value := (mem_dlookup_iff t.nodupKeys).2 bound
      simpa [found] using passes
  rw [same,toFinset_card_of_nodup distinct,length_map]
  exact total_filter f t.entries

def values (t : Table κ ν) : List ν := t.entries.map Sigma.snd

def count (t : Table κ Nat) (k : κ) : Nat := (t.lookup k).getD 0

def bump (t : Table κ Nat) (k : κ) : Table κ Nat := t.insert k (count t k+1)

theorem count_bump {t : Table κ Nat} {k k' : κ} : count (bump t k) k' = count t k'+if k' = k then 1 else 0 := by
  by_cases same : k' = k
  · subst same
    simp [count,bump]
  · simp [count,bump,same]

theorem count_erase {t : Table κ Nat} {k k' : κ} : count (t.erase k) k' = if k' = k then 0 else count t k' := by
  by_cases same : k' = k
  · subst same
    simp [count]
  · simp [count,same]

theorem values_insert : values (t.insert k v) = v :: values (t.erase k) := by
  rfl

theorem values_erase_sublist : (values (t.erase k)).Sublist (values t) :=
  (kerase_sublist k t.entries).map fun e : Σ _ : κ, ν => e.2

theorem values_perm {k : κ} {v : ν} (found : t.lookup k = some v) : (values t).Perm (v :: values (t.erase k)) := by
  have member : k ∈ t.entries.keys := dlookup_isSome.1 (by rw [show t.entries.dlookup k = some v from found]; rfl)
  obtain ⟨v',front,back,absent,split,erased⟩ := exists_of_kerase member
  have same : v' = v := by
    have bound : t.lookup k = some v' := (mem_dlookup_iff t.nodupKeys).2 (by rw [split]; simp)
    exact some.inj (bound.symm.trans found)
  rw [same] at split
  have rest : values (t.erase k) = (front++back).map Sigma.snd :=
    congrArg (List.map fun e : Σ _ : κ, ν => e.2) erased
  rw [rest,values,split]
  simp only [map_append]
  exact perm_middle

theorem lookup_of_erase {k k' : κ} {v : ν} (found : (t.erase k).lookup k' = some v) : t.lookup k' = some v := by
  by_cases same : k' = k
  · rw [same,lookup_erase] at found
    cases found
  · rwa [lookup_erase_ne same] at found

theorem mem_values {t : Table κ ν} {v : ν} : v ∈ values t ↔ ∃ k, t.lookup k = some v := by
  simp only [values,List.mem_map]
  constructor
  · rintro ⟨⟨k,v'⟩,member,rfl⟩
    exact ⟨k,(mem_dlookup_iff t.nodupKeys).2 member⟩
  · rintro ⟨k,found⟩
    exact ⟨⟨k,v⟩,(mem_dlookup_iff t.nodupKeys).1 found,rfl⟩

def collect (bindings : List (κ × ν)) : Table κ ν := bindings.foldl (fun t binding => t.insert binding.1 binding.2) ∅

theorem lookup_collect (distinct : (bindings.map fst).Nodup) {k : κ} {v : ν} (listed : (k,v) ∈ bindings) :
    (collect bindings).lookup k = some v := by
  induction bindings using List.reverseRecOn with
  | nil => cases listed
  | append_singleton rest last ih =>
    rw [map_append] at distinct
    have apart := nodup_append.1 distinct
    rw [collect,foldl_append,foldl_cons,foldl_nil]
    rcases mem_append.1 listed with earlier | own
    · have other : k ≠ last.1 := apart.2.2 k (List.mem_map_of_mem earlier) last.1 (mem_singleton_self _)
      rw [lookup_insert_ne other]
      exact ih apart.1 earlier
    · rw [← mem_singleton.1 own,lookup_insert]

theorem mapM_lookup_collect (distinct : (bindings.map fst).Nodup) {keys : List κ} {vals : List ν}
    (length : keys.length = vals.length) (listed : ∀ binding ∈ keys.zip vals, binding ∈ bindings) :
    keys.mapM (fun k => (collect bindings).lookup k) = some vals := by
  induction keys generalizing vals with
  | nil =>
    rw [length_eq_zero_iff.1 length.symm]
    rfl
  | cons k keys ih =>
    cases vals with
    | nil => cases length
    | cons v vals =>
      rw [zip_cons_cons,forall_mem_cons] at listed
      rw [mapM_cons,lookup_collect distinct listed.1,ih (Nat.succ.inj length) listed.2]
      rfl

end Table
end Ember
