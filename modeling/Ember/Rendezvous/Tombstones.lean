import Ember.Rendezvous.Runs

/-! What a deletion leaves behind. The room's id and each of its names are marked for good, and every request and reload goes
by the marks. -/
namespace Ember.Rendezvous.ChannelRegistry
open List Option Finset
open Ember.Search (Chars)

/-- A room's id is marked, it has no current name, and the names it held are on record as deleted. -/
structure Buried (id : Chars) (held : Chars → Prop) (reg : ChannelRegistry) : Prop where
  marked : id ∈ reg.deleted
  alone : reg.NoCurrent id
  names : ∀ name, held name → ∃ rec, reg.names.lookup name = some rec ∧ rec.deleted = true

section Marks
variable {env : Env} {reg reg' : ChannelRegistry} {now : Int} {r : Request} {surplus : List Chars} {id name : Chars}
  {held : Chars → Prop} {rec : ChannelNameRecord}

theorem other_of_deleted {name' : Chars} {rec' : ChannelNameRecord} (found : reg.names.lookup name = some rec)
    (deleted : rec.deleted = true) (found' : reg.names.lookup name' = some rec') (live : rec'.deleted = false) : name ≠ name' := by
  rintro rfl
  obtain rfl := some.inj (found.symm.trans found')
  rw [live] at deleted
  cases deleted

theorem live_of_current (current : rec.isCurrent = true) : rec.deleted = false := by
  simp only [ChannelNameRecord.isCurrent,Bool.and_eq_true,Bool.not_eq_true'] at current
  exact current.1

theorem stamped_deleted (deleted : rec.deleted = true) : stamped now rec = rec := by simp [stamped,deleted]

theorem Sweep.tombstone (sweep : Sweep env now reg reg') (found : reg.names.lookup name = some rec) (deleted : rec.deleted = true) :
    reg'.names.lookup name = some rec := by
  cases sweep with
  | @reap _ rec' found' gone =>
    have live : rec'.deleted = false := by
      unfold ChannelNameRecord.abandoned at gone
      split at gone
      · cases gone
      next live => exact Bool.eq_false_iff.2 live
    rw [lookup_removeName,if_neg (other_of_deleted found deleted found' live),found]
  | grandfather => rw [lookup_grandfather,found,map_some,stamped_deleted deleted]
  | releaseUsername => simp [found]
  | dropHandle => simp [found]

section
variable (buried : Buried id held reg)
include buried

theorem Buried.swept (swept : Swept env now reg reg') : Buried id held reg' := by
  refine ⟨swept.deleted ▸ buried.marked,buried.alone.less swept.lessened,fun name own => ?_⟩
  obtain ⟨rec,found,deleted⟩ := buried.names name own
  refine ⟨rec,?_,deleted⟩
  induction swept with
  | refl => exact found
  | tail _ sweep ih => exact sweep.tombstone ih deleted

theorem Buried.freed (freed : Relation.ReflTransGen (Free env surplus) reg reg') : Buried id held reg' := by
  induction freed with
  | refl => exact buried
  | tail _ free ih =>
    cases free with
    | drop found' _ live =>
      refine ⟨by rw [deleted_removeName]; exact ih.marked,fun name rec found => ih.alone (held_removeName found).2,fun name own => ?_⟩
      obtain ⟨rec,found,deleted⟩ := ih.names name own
      exact ⟨rec,by rw [lookup_removeName,if_neg (other_of_deleted found deleted found' live),found],deleted⟩

theorem Buried.renewed (renewed : Renewed now reg reg') : Buried id held reg' := by
  refine ⟨renewed.deleted ▸ buried.marked,buried.alone.less renewed.lessened,fun name own => ?_⟩
  obtain ⟨rec,found,deleted⟩ := buried.names name own
  refine ⟨rec,?_,deleted⟩
  rcases renewed.names with same | filled
  · rw [same,found]
  · rw [filled,found,map_some,stamped_deleted deleted]

theorem Buried.setName {old : ChannelNameRecord} (found : reg.names.lookup name = some old)
    (current : old.isCurrent = true) (room : rec.channelId = old.channelId) : Buried id held (reg.setName name rec) := by
  refine ⟨buried.marked,?_,fun name' own => ?_⟩
  · intro x rec' found' same
    rw [lookup_setName] at found'
    split at found'
    · obtain rfl := some.inj found'
      have := buried.alone found (room.symm.trans same)
      rw [current] at this
      cases this
    · exact buried.alone found' same
  · obtain ⟨rec',found',deleted⟩ := buried.names name' own
    exact ⟨rec',by rw [lookup_setName,if_neg (other_of_deleted found' deleted found (live_of_current current)),found'],deleted⟩

theorem Buried.deed (indexed : Indexed env reg) (deed : Deed env now r reg reg') : Buried id held reg' := by
  cases deed with
  | idle => exact buried
  | active => exact { buried with }
  | takeUsername => exact { buried with }
  | close => exact { buried with }
  | refresh _ _ _ found current => exact buried.setName found current rfl
  | nominate _ _ found current => exact buried.setName found current rfl
  | bind _ fresh _ _ alive =>
    refine ⟨buried.marked,?_,fun name own => ?_⟩
    · intro x rec' found same
      rw [lookup_insertName] at found
      split at found
      · obtain rfl := some.inj found
        exact absurd (same ▸ buried.marked) alive
      · exact buried.alone found same
    · obtain ⟨rec,found,deleted⟩ := buried.names name own
      refine ⟨rec,?_,deleted⟩
      rw [lookup_insertName,if_neg]
      · exact found
      rintro rfl
      rw [found] at fresh
      cases fresh
  | @rename _ _ _ _ _ source target old display found current _ _ _ _ alive _ free =>
    refine ⟨by rw [deleted_applyRename]; exact buried.marked,?_,fun name own => ?_⟩
    · intro x rec' found' same
      have elsewhere : old.channelId ≠ id := fun same => alive (same ▸ buried.marked)
      rw [lookup_applyRename found] at found'
      split at found'
      · obtain rfl := some.inj found'
        exact absurd same elsewhere
      split at found'
      · obtain rfl := some.inj found'
        exact absurd same elsewhere
      · exact buried.alone found' same
    · obtain ⟨rec,found',deleted⟩ := buried.names name own
      refine ⟨rec,?_,deleted⟩
      rw [lookup_applyRename found,if_neg,if_neg (other_of_deleted found' deleted found (live_of_current current)),found']
      rintro rfl
      cases free with
      | fresh absent => rw [found'] at absent; cases absent
      | back found'' live => exact other_of_deleted found' deleted found'' live rfl
  | @handOver _ _ newId _ _ _ _ found current _ _ _ alive =>
    refine ⟨buried.marked,?_,fun name own => ?_⟩
    · intro x rec' found' same
      rw [ChannelRegistry.handOver,Table.lookup_insert_ite] at found'
      split at found'
      · obtain rfl := some.inj found'
        have moved : toAsciiLowercase newId = id := same
        exact absurd (moved ▸ buried.marked) alive
      · exact buried.alone found' same
    · obtain ⟨rec,found',deleted⟩ := buried.names name own
      refine ⟨rec,?_,deleted⟩
      rw [ChannelRegistry.handOver,AList.lookup_insert_ne (other_of_deleted found' deleted found (live_of_current current)),found']
  | bury =>
    refine ⟨by rw [deleted_bury]; exact mem_insert_of_mem buried.marked,?_,fun name own => ?_⟩
    · intro x rec' found same
      by_contra current
      have before := bury_current indexed found (Bool.eq_true_of_not_eq_false current)
      exact current (buried.alone before.1 same)
    obtain ⟨rec,found,deleted⟩ := buried.names name own
    refine ⟨buriedAs _ rec,by rw [lookup_bury indexed,found,map_some],?_⟩
    unfold buriedAs
    split
    · rfl
    · exact deleted

theorem Buried.step {e : Event} (indexed : Indexed env reg) (step : Step env reg e reg') : Buried id held reg' := by
  obtain ⟨now,r,rfl,_,swept,done,_,before,deed,after⟩ | ⟨now,rfl,renewed⟩ := step.cases indexed
  · exact ((buried.swept before).deed (Swept.indexed before indexed) deed).freed after
  · exact buried.renewed renewed

theorem Buried.run {allowed : ChannelRegistry → Event → Prop} {events : List Event}
    (indexed : Indexed env reg) (run : Run env allowed reg events reg') : Buried id held reg' := by
  induction run with
  | nil => exact buried
  | snoc before _ step ih => exact ih.step (before.indexed indexed) step

end

theorem buried_deleteChannel (indexed : Indexed env reg) {channelId pubkey : Chars} (done : (reg.deleteChannel channelId pubkey).2 = .ok ()) :
    Buried (toAsciiLowercase channelId)
      (fun name => ∃ rec, reg.names.lookup name = some rec ∧ rec.channelId = toAsciiLowercase channelId)
      (reg.deleteChannel channelId pubkey).1 := by
  have whole : Buried (toAsciiLowercase channelId)
      (fun name => ∃ rec, reg.names.lookup name = some rec ∧ rec.channelId = toAsciiLowercase channelId)
      (reg.bury (toAsciiLowercase channelId)) := by
    refine ⟨by rw [deleted_bury]; exact mem_insert_self ..,?_,?_⟩
    · intro x rec' found same
      by_contra current
      exact (bury_current indexed found (Bool.eq_true_of_not_eq_false current)).2 same
    · rintro name ⟨rec,found,room⟩
      exact ⟨{ rec with deleted := true },by rw [lookup_bury indexed,found,map_some,buriedAs,if_pos room],rfl⟩
  unfold deleteChannel at done ⊢
  split at done
  · cases done
  next ready =>
  rw [if_neg ready]
  dsimp only at done ⊢
  split at done
  · cases done
  next owner =>
  rw [if_neg owner]
  split at done
  next again =>
    -- nothing is held and the id was marked before
    rw [if_pos again]
    obtain ⟨none,marked⟩ := Bool.and_eq_true_iff.1 again
    have empty := nothing_held indexed none
    have absent : ∀ name rec, reg.names.lookup name = some rec → rec.channelId ≠ toAsciiLowercase channelId := by
      intro name rec found room
      have listed := mem_namesOfChannel indexed found room
      rw [empty] at listed
      cases listed
    rw [empty] at marked ⊢
    exact ⟨of_decide_eq_true marked,fun name rec found room => absurd room (absent name rec found),
      fun name held => by obtain ⟨rec,found,room⟩ := held; exact absurd room (absent name rec found)⟩
  next fresh =>
    rw [if_neg fresh]
    split at done
    · cases done
    next space =>
    rw [if_neg space]
    exact whole

theorem rankedDirectory_unmarked {entry : DirectoryCursor × DirectoryListing} (listed : entry ∈ reg.rankedDirectory now) :
    entry.2.channelId ∉ reg.deleted := by
  have kept := mem_mergeSort.1 (mem_of_mem_take listed)
  obtain ⟨⟨name,rec⟩,member,rfl⟩ := List.mem_map.1 kept
  have shown := (mem_filter.1 member).2
  simp only [Bool.and_eq_true,decide_eq_true_eq] at shown
  exact shown.1.2

end Marks

/-- A deleted room stays deleted: its id is marked for good, it has no name and no listing, and the names it held stay on
record as deleted. -/
theorem deletion_permanent {env : Env} {reg reg' : ChannelRegistry} {allowed allowed' : ChannelRegistry → Event → Prop}
    {events later : List Event} {channelId pubkey : Chars} (run : Run env allowed (inMemory env) events reg)
    (done : (reg.deleteChannel channelId pubkey).2 = .ok ())
    (further : Run env allowed' (reg.deleteChannel channelId pubkey).1 later reg') :
    reg'.isDeleted channelId = true ∧ reg'.NoCurrent (toAsciiLowercase channelId) ∧
      (∀ now, ∀ entry ∈ reg'.rankedDirectory now, entry.2.channelId ≠ toAsciiLowercase channelId) ∧
      ∀ name rec, reg.names.lookup name = some rec → rec.channelId = toAsciiLowercase channelId →
        ∃ rec', reg'.names.lookup name = some rec' ∧ rec'.deleted = true ∧ rec'.isCurrent = false := by
  have indexed := run.indexed inMemory_indexed
  have served : Served env 0 _ [] reg (reg.deleteChannel channelId pubkey).1 := deleteChannel_served indexed
  have indexed' := served.indexed indexed
  have buried := (buried_deleteChannel indexed done).run indexed' further
  refine ⟨?_,buried.alone,?_,?_⟩
  · simp [isDeleted,buried.marked]
  · intro now entry listed same
    exact rankedDirectory_unmarked listed (same ▸ buried.marked)
  · intro name rec found room
    obtain ⟨rec',found',deleted⟩ := buried.names name ⟨rec,found,room⟩
    exact ⟨rec',found',deleted,by simp [ChannelNameRecord.isCurrent,deleted]⟩

theorem deletion_permanent_asked :
    let opened := (inMemory plainEnv).serveAll plainEnv [(1,.claimChannelName (roomId 'a') (roomKey 'a') "lobby".toList false)]
    let deleted := opened.deleteChannel (roomId 'a') (roomKey 'a')
    let asked := deleted.1.serveAll plainEnv
      [(2,.claimChannelName (roomId 'a') (roomKey 'a') "hall".toList false),
        (3,.claimChannelName (roomId 'b') (roomKey 'b') "lobby".toList false)]
    deleted.2 = .ok () ∧ asked.isDeleted (roomId 'a') = true ∧ asked.NoCurrent (toAsciiLowercase (roomId 'a')) := by
  intro opened deleted asked
  have done : deleted.2 = .ok () := by decide +kernel
  have run : Run plainEnv (fun _ _ => True) (inMemory plainEnv) _ opened := run_serveAll plainEnv fun _ _ _ => trivial
  have further : Run plainEnv (fun _ _ => True) deleted.1 _ asked := run_serveAll plainEnv fun _ _ _ => trivial
  have kept := deletion_permanent run done further
  exact ⟨done,kept.1,kept.2.1⟩

end Ember.Rendezvous.ChannelRegistry
