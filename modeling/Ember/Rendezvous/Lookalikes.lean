import Ember.Rendezvous.Runs

/-! Whether two rooms can hold names that look the same. A name put on record looks like no other room's; a room that takes
back a name it retired is not asked again. -/
namespace Ember.Rendezvous.ChannelRegistry
open Option
open Ember.Search (Chars)

section Distinct
variable {env : Env} {reg reg' : ChannelRegistry} {now : Int} {r : Request} {surplus : List Chars} {e : Event}

theorem Distinct.less (distinct : Distinct env reg) (less : Lessened reg reg') : Distinct env reg' := by
  intro name name' _ _ held held' current current' like
  obtain ⟨rec,t,found,rfl⟩ := less held
  obtain ⟨rec',t',found',rfl⟩ := less held'
  have same := distinct found found' current current' like
  exact same

theorem Deed.distinct (deed : Deed env now r reg reg') (indexed : Indexed env reg) (one : OneCurrent reg) (positive : 0 < now)
    (unmistaken : Unmistaken env reg (.request now r)) (distinct : Distinct env reg) : Distinct env reg' := by
  intro name name' rec rec' held held' current current' like
  obtain kept | ⟨id,target,own,others⟩ := deed.currents indexed positive one
  · obtain ⟨old,found,was,room⟩ := kept held current
    obtain ⟨old',found',was',room'⟩ := kept held' current'
    exact room.symm.trans ((distinct found found' was was' like).trans room')
  by_cases first : name = target
  · by_cases second : name' = target
    · rw [own (first ▸ held),own (second ▸ held')]
    · exact absurd (first ▸ like.symm) ((others held' current' second).2.2 distinct unmistaken)
  obtain ⟨old,_,unlike⟩ := others held current first
  by_cases second : name' = target
  · exact absurd (second ▸ like) (unlike distinct unmistaken)
  · exact distinct old (others held' current' second).1 current current' like

theorem Unmistaken.swept {swept : ChannelRegistry} (before : Swept env now reg swept)
    (unmistaken : Unmistaken env reg (.request now r)) : Unmistaken env swept (.request now r) := by
  cases r with
  | renameChannelName channelId pubkey raw isPrivate =>
    intro target back named held alive retired own owner name rec found current fine like
    obtain ⟨back₀,_,held₀,rfl⟩ := before.lessened held
    obtain ⟨rec₀,t,found₀,shape,same⟩ := before.held found
    have room := unmistaken target back₀ named held₀ alive retired own owner name rec₀ found₀ (by rw [shape] at current; exact current)
      (same.symm.trans fine) like
    rw [shape]
    exact room
  | _ => trivial

theorem Step.distinct (step : Step env reg e reg') (indexed : Indexed env reg) (one : OneCurrent reg) (positive : 0 < e.now)
    (unmistaken : Unmistaken env reg e) (distinct : Distinct env reg) : Distinct env reg' := by
  obtain ⟨now,r,rfl,_,served⟩ | ⟨now,rfl,renewed⟩ := step.cases indexed
  · obtain ⟨swept,done,_,before,deed,after⟩ := served
    have less := Swept.lessened before
    have settled := deed.distinct (Swept.indexed before indexed) (one.less less) positive (unmistaken.swept before) (distinct.less less)
    exact settled.less (Freed.lessened after)
  · exact distinct.less renewed.lessened

end Distinct

/-- Two rooms' names look the same only once a room took back a name that looked like another's. -/
theorem names_distinct {env : Env} {reg : ChannelRegistry} {events : List Event}
    (run : Run env (fun reg e => 0 < e.now ∧ Unmistaken env reg e) (inMemory env) events reg) : Distinct env reg := by
  have kept : Indexed env reg ∧ OneCurrent reg ∧ Distinct env reg := by
    induction run with
    | nil => exact ⟨inMemory_indexed,fun _ _ _ _ held => (by cases held),fun _ _ _ _ held => (by cases held)⟩
    | snoc _ fine step ih =>
      obtain ⟨indexed,one,distinct⟩ := ih
      exact ⟨step.indexed indexed,step.oneCurrent indexed fine.1 one,step.distinct indexed one fine.1 fine.2 distinct⟩
  exact kept.2.2

/-- A room renames itself within one look, hands the new name over, opens under another name and renames back. -/
def takeBack : List (Int × Request) :=
  [(1,.claimChannelName (roomId 'a') (roomKey 'a') "lobby".toList false),
    (1,.renameChannelName (roomId 'a') (roomKey 'a') "1obby".toList false),
    (2,.handoverChannelName (roomId 'a') (roomId 'b') (roomKey 'b') (roomKey 'a')),
    (3,.claimChannelName (roomId 'a') (roomKey 'a') "parlour".toList false),
    (4,.renameChannelName (roomId 'a') (roomKey 'a') "lobby".toList false)]

theorem lookalike_taken_back : ∃ events reg, Run plainEnv (fun _ e => 0 < e.now) (inMemory plainEnv) events reg ∧
      (events.map Event.now).Pairwise (· ≤ ·) ∧ (∀ e ∈ events, e.now ≤ 4) ∧
      ∃ name name' rec rec', reg.names.lookup name = some rec ∧ reg.names.lookup name' = some rec' ∧
        (rec.isCurrent ∧ rec.abandoned 4 = false) ∧ (rec'.isCurrent ∧ rec'.abandoned 4 = false) ∧
        rec.channelId ≠ rec'.channelId ∧ confusableKey plainEnv name = confusableKey plainEnv name' := by
  have positive : ∀ q ∈ takeBack, 0 < q.1 := by decide +kernel
  refine ⟨_,_,run_serveAll plainEnv fun _ q member => positive q member,by decide +kernel,by decide +kernel,
    "lobby".toList,"1obby".toList,?_⟩
  have both : (((inMemory plainEnv).serveAll plainEnv takeBack).names.lookup "lobby".toList).any (fun rec =>
      (((inMemory plainEnv).serveAll plainEnv takeBack).names.lookup "1obby".toList).any fun rec' =>
        (rec.isCurrent ∧ rec.abandoned 4 = false) ∧ (rec'.isCurrent ∧ rec'.abandoned 4 = false) ∧
          rec.channelId ≠ rec'.channelId) = true := by decide +kernel
  obtain ⟨rec,held,inner⟩ := (any_eq_true ..).1 both
  obtain ⟨rec',held',facts⟩ := (any_eq_true ..).1 inner
  obtain ⟨first,second,apart⟩ := of_decide_eq_true facts
  exact ⟨rec,rec',held,held',first,second,apart,by decide +kernel⟩

theorem names_distinct_handed_over : Distinct plainEnv ((inMemory plainEnv).serveAll plainEnv
      [(1,.claimChannelName (roomId 'a') (roomKey 'a') "lobby".toList false),
        (2,.handoverChannelName (roomId 'a') (roomId 'b') (roomKey 'b') (roomKey 'a'))]) := by
  apply names_distinct (run_serveAll plainEnv _)
  intro reg q member
  simp only [List.mem_cons,List.not_mem_nil,or_false] at member
  rcases member with rfl | rfl
  · exact ⟨by decide,trivial⟩
  · exact ⟨by decide,trivial⟩

end Ember.Rendezvous.ChannelRegistry
