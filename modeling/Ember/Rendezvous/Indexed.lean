import Ember.Rendezvous.Registry

/-! The hand-kept indexes of the registry: what each says of the names held, and that every write keeps them so. -/
namespace Ember.Rendezvous
open List Option AList Table Prod
open Ember.Search (Chars)

@[simp] theorem toAsciiLowercase_idem {s : Chars} : toAsciiLowercase (toAsciiLowercase s) = toAsciiLowercase s := by
  simp [toAsciiLowercase]

@[simp] theorem eqIgnoreAsciiCase_iff {a b : Chars} : eqIgnoreAsciiCase a b = true ↔ toAsciiLowercase a = toAsciiLowercase b := by
  simp [eqIgnoreAsciiCase]

namespace ChannelRegistry

def channelOf (reg : ChannelRegistry) (name : Chars) : Option Chars :=
  (reg.names.lookup name).map fun rec => toAsciiLowercase rec.channelId

def skeletonOf (env : Env) (reg : ChannelRegistry) (name : Chars) : Option Chars :=
  (reg.names.lookup name).map fun _ => confusableKey env name

/-- The indexes say of the tables what they are kept for, and the tables keep within their ceilings. -/
structure Indexed (env : Env) (reg : ChannelRegistry) : Prop where
  handles : Inverse reg.usernames reg.byPubkey
  keys : ∀ {name pk}, reg.usernames.lookup name = some pk → toAsciiLowercase pk = pk
  channels : Indexes reg.byChannel reg.channelOf
  skeletons : Indexes reg.bySkeleton (reg.skeletonOf env)
  ids : ∀ {name rec}, reg.names.lookup name = some rec → toAsciiLowercase rec.channelId = rec.channelId
  usernames_le : reg.usernames.size ≤ maxUsernames
  names_le : reg.names.size ≤ maxChannelNames

namespace Indexed
variable {env : Env} {reg : ChannelRegistry} {name : Chars} {rec old : ChannelNameRecord}

theorem empty (env : Env) (readOnly : Bool) : Indexed env { readOnly } where
  handles := Inverse.empty
  keys found := by simp at found
  channels := Indexes.empty
  skeletons := Indexes.empty
  ids found := by simp at found
  usernames_le := Nat.zero_le _
  names_le := Nat.zero_le _

section
variable (indexed : Indexed env reg)
include indexed

theorem insertName (fresh : reg.names.lookup name = none)
    (lower : toAsciiLowercase rec.channelId = rec.channelId) (room : reg.names.size < maxChannelNames) :
    Indexed env (reg.insertName env name rec) := by
  refine { indexed with channels := ?_, skeletons := ?_, ids := ?_, names_le := ?_ }
  · refine (indexed.channels.post (x := name) (by simp [channelOf,fresh])).congr ?_
    intro x
    obtain rfl | other := eq_or_ne x name
    · simp [channelOf,ChannelRegistry.insertName]
    · simp [other,channelOf,ChannelRegistry.insertName]
  · refine (indexed.skeletons.post (x := name) (by simp [skeletonOf,fresh])).congr ?_
    intro x
    obtain rfl | other := eq_or_ne x name
    · simp [skeletonOf,ChannelRegistry.insertName]
    · simp [other,skeletonOf,ChannelRegistry.insertName]
  · intro x rec' found
    simp only [ChannelRegistry.insertName,lookup_insert_ite] at found
    split at found
    · exact some.inj found ▸ lower
    · exact indexed.ids found
  · exact (size_insert_le _).trans room

theorem removeName : Indexed env (reg.removeName env name) := by
  unfold ChannelRegistry.removeName
  cases held : reg.names.lookup name with
  | none => exact indexed
  | some rec =>
    refine { indexed with channels := ?_, skeletons := ?_, ids := ?_, names_le := ?_ }
    · refine (indexed.channels.detach (x := name) (by simp [channelOf,held])).congr ?_
      intro x
      obtain rfl | other := eq_or_ne x name
      · simp [channelOf]
      · simp [other,channelOf]
    · refine (indexed.skeletons.detach (x := name) (by simp [skeletonOf,held])).congr ?_
      intro x
      obtain rfl | other := eq_or_ne x name
      · simp [skeletonOf]
      · simp [other,skeletonOf]
    · intro x rec' found
      exact indexed.ids (Table.Within.erase _ _ found)
    · exact (Table.Within.erase reg.names name).size_le.trans indexed.names_le

theorem setName (held : reg.names.lookup name = some old) (same : rec.channelId = old.channelId) :
    Indexed env (reg.setName name rec) := by
  refine { indexed with channels := ?_, skeletons := ?_, ids := ?_, names_le := ?_ }
  · apply indexed.channels.congr
    intro x
    obtain rfl | other := eq_or_ne x name
    · simp [channelOf,ChannelRegistry.setName,held,same]
    · simp [other,channelOf,ChannelRegistry.setName]
  · apply indexed.skeletons.congr
    intro x
    obtain rfl | other := eq_or_ne x name
    · simp [skeletonOf,ChannelRegistry.setName,held]
    · simp [other,skeletonOf,ChannelRegistry.setName]
  · intro x rec' found
    simp only [ChannelRegistry.setName,lookup_insert_ite] at found
    split at found
    · rw [← some.inj found,same]
      exact indexed.ids held
    · exact indexed.ids found
  · exact (size_insert_bound _ held).trans_le indexed.names_le

theorem handOver (held : reg.names.lookup name = some rec) {newId newPk signer : Chars} {now : Int}
    (lower : toAsciiLowercase newId = newId) : Indexed env (reg.handOver name rec newId newPk signer now) := by
  refine { indexed with channels := ?_, skeletons := ?_, ids := ?_, names_le := ?_ }
  · have moved := (indexed.channels.detach (x := name) (k := toAsciiLowercase rec.channelId) (by simp [channelOf,held])).post
      (x := name) (k := newId) (by simp)
    apply moved.congr
    intro x
    obtain rfl | other := eq_or_ne x name
    · simp [channelOf,ChannelRegistry.handOver,lower]
    · simp [other,channelOf,ChannelRegistry.handOver]
  · apply indexed.skeletons.congr
    intro x
    obtain rfl | other := eq_or_ne x name
    · simp [skeletonOf,ChannelRegistry.handOver,held]
    · simp [other,skeletonOf,ChannelRegistry.handOver]
  · intro x rec' found
    simp only [ChannelRegistry.handOver,lookup_insert_ite] at found
    split at found
    · exact some.inj found ▸ lower
    · exact indexed.ids found
  · exact (size_insert_bound _ held).trans_le indexed.names_le

theorem markDeleted : Indexed env (reg.markDeleted name) := by
  unfold ChannelRegistry.markDeleted
  cases held : reg.names.lookup name with
  | none => exact indexed
  | some rec => exact indexed.setName held rfl

theorem grandfather {now : Int} : Indexed env (reg.grandfatherLegacyTimestamps now) := by
  have channel : ∀ x, (reg.grandfatherLegacyTimestamps now).channelOf x = reg.channelOf x := by
    intro x
    simp only [channelOf,grandfatherLegacyTimestamps,lookup_retain]
    cases reg.names.lookup x with
    | none => rfl
    | some rec => simp; split <;> rfl
  refine { indexed with channels := ?_, skeletons := ?_, ids := ?_, names_le := ?_ }
  · exact indexed.channels.congr fun x => (channel x).symm
  · apply indexed.skeletons.congr
    intro x
    simp only [skeletonOf,grandfatherLegacyTimestamps,lookup_retain]
    cases reg.names.lookup x <;> rfl
  · intro x rec' found
    simp only [grandfatherLegacyTimestamps,lookup_retain] at found
    obtain ⟨rec,held,kept⟩ := bind_eq_some_iff.1 found
    have lower := indexed.ids held
    grind
  · refine Nat.le_trans ?_ indexed.names_le
    rw [size_eq,size_eq]
    exact sizeWhere_retain _ _ fun _ _ _ _ => rfl

theorem releaseUsername : Indexed env (reg.releaseUsername name) := by
  unfold ChannelRegistry.releaseUsername
  cases held : reg.usernames.lookup name with
  | none => exact indexed
  | some pk =>
    refine { indexed with handles := indexed.handles.erase held, keys := ?_, usernames_le := ?_ }
    · intro x pk' found
      exact indexed.keys (Table.Within.erase _ _ found)
    · exact (Table.Within.erase reg.usernames name).size_le.trans indexed.usernames_le

theorem dropHandle {pk : Chars} : Indexed env (reg.dropHandle pk) := by
  unfold ChannelRegistry.dropHandle
  cases held : reg.byPubkey.lookup pk with
  | none => exact indexed
  | some name =>
    refine { indexed with handles := indexed.handles.erase ((indexed.handles name pk).2 held), keys := ?_, usernames_le := ?_ }
    · intro x pk' found
      exact indexed.keys (Table.Within.erase _ _ found)
    · exact (Table.Within.erase reg.usernames name).size_le.trans indexed.usernames_le

end

section Reload
variable {bindings : List (Chars × ChannelNameRecord)}

theorem insertNames (indexed : Indexed env reg) (distinct : (bindings.map fst).Nodup)
    (fresh : ∀ b ∈ bindings, reg.names.lookup b.1 = none)
    (lower : ∀ b ∈ bindings, toAsciiLowercase b.2.channelId = b.2.channelId)
    (room : reg.names.size+bindings.length ≤ maxChannelNames) :
    let whole := bindings.foldl (fun reg b => reg.insertName env b.1 b.2) reg
    Indexed env whole ∧ whole.deleted = reg.deleted ∧
      ∀ name rec, whole.names.lookup name = some rec ↔ (name,rec) ∈ bindings ∨ reg.names.lookup name = some rec := by
  induction bindings generalizing reg with
  | nil => exact ⟨indexed,rfl,by simp⟩
  | cons b rest ih =>
    rw [map_cons,nodup_cons] at distinct
    rw [length_cons] at room
    have free := fresh b mem_cons_self
    have first := indexed.insertName free (lower b mem_cons_self) (by omega)
    have grown : (reg.insertName env b.1 b.2).names.size ≤ reg.names.size+1 := size_insert_le _
    have still : ∀ b' ∈ rest, (reg.insertName env b.1 b.2).names.lookup b'.1 = none := by
      intro b' member
      have other : b'.1 ≠ b.1 := fun same => distinct.1 (same ▸ List.mem_map_of_mem member)
      rw [ChannelRegistry.insertName,lookup_insert_ne other]
      exact fresh b' (mem_cons_of_mem _ member)
    obtain ⟨done,buried,held⟩ := ih first distinct.2 still (fun b' member => lower b' (mem_cons_of_mem _ member)) (by omega)
    refine ⟨done,buried,fun name rec => ?_⟩
    rw [foldl_cons,held,ChannelRegistry.insertName]
    by_cases same : name = b.1
    · subst same
      have absent : (b.1,rec) ∉ rest := fun member => distinct.1 (List.mem_map.2 ⟨_,member,rfl⟩)
      simp [free,absent,Prod.ext_iff,eq_comm]
    · have other : (name,rec) ≠ b := fun equal => same (equal ▸ rfl)
      simp [same,other]

end Reload

end Indexed

structure Saved (reg : ChannelRegistry) (file : RegistryFile) : Prop where
  usernames : file.usernames.entries.Perm reg.usernames.entries
  names : file.names.entries.Perm reg.names.entries
  deleted : file.deleted = reg.deleted
  usernameActivity : file.usernameActivity.entries.Perm reg.usernameActivity.entries

section Reload
variable {env : Env} {reg : ChannelRegistry} {file : RegistryFile}

theorem fromParts_spec (indexed : Indexed env reg) (saved : Saved reg file) (readOnly : Bool) :
    let loaded := fromParts env file readOnly
    Indexed env loaded ∧ (∀ name, loaded.names.lookup name = reg.names.lookup name) ∧
      loaded.deleted = reg.deleted := by
  have sameUsernames : ∀ name, file.usernames.lookup name = reg.usernames.lookup name :=
    fun name => perm_lookup saved.usernames
  have sameNames : ∀ name, file.names.lookup name = reg.names.lookup name := fun name => perm_lookup saved.names
  have inverted : file.usernames.bindings.foldl (fun byPubkey b => byPubkey.insert (toAsciiLowercase b.2) b.1) ∅ =
      collect (file.usernames.bindings.map swap) := by
    rw [collect,foldl_map]
    apply foldl_ext
    intro t b member
    rw [indexed.keys ((sameUsernames b.1).symm.trans (mem_bindings.1 member))]
    rfl
  have start : Indexed env
      { usernames := file.usernames, byPubkey := collect (file.usernames.bindings.map swap),
        deleted := file.deleted, usernameActivity := file.usernameActivity, readOnly } := by
    refine { Indexed.empty env readOnly with handles := ?_, keys := ?_, usernames_le := ?_ }
    · apply Inverse.collect
      intro k k' v first second
      rw [sameUsernames] at first second
      exact indexed.handles.unique first second
    · intro name pk found
      exact indexed.keys ((sameUsernames name).symm.trans found)
    · exact saved.usernames.length_eq.trans_le indexed.usernames_le
  have count : file.names.bindings.length = reg.names.size := by
    rw [bindings,length_map]
    exact saved.names.length_eq
  obtain ⟨done,buried,held⟩ := start.insertNames nodup_bindings (fun _ _ => lookup_empty _)
    (fun b member => indexed.ids ((sameNames b.1).symm.trans (mem_bindings.1 member)))
    (by
      rw [count]
      exact (Nat.zero_add _).trans_le indexed.names_le)
  unfold fromParts
  rw [inverted]
  refine ⟨done,fun name => ?_,buried.trans saved.deleted⟩
  rw [← sameNames]
  ext rec
  rw [held,mem_bindings]
  simp

end Reload
end ChannelRegistry
end Ember.Rendezvous
