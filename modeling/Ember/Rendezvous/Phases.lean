import Ember.Rendezvous.Indexed

/-! What a request can do to the registry. It may first sweep out what has expired, then does at most one deed, and a rename
may last free surplus names of its room. -/
namespace Ember.Rendezvous
open List Option Table
open Ember.Search (Chars)

def Request.sweeps : Request → Bool
  | .setChannelNominee .. | .handoverChannelName .. | .deleteChannel .. | .closeForShutdown => false
  | _ => true

namespace ChannelRegistry

variable (env : Env) (reg : ChannelRegistry) (id : Chars)

def NoCurrent : Prop :=
  ∀ ⦃name rec⦄, reg.names.lookup name = some rec → rec.channelId = id → rec.isCurrent = false

/-- Whatever looks like a name is the room's own. -/
def Unlike (target id : Chars) : Prop :=
  ∀ ⦃name rec⦄, reg.names.lookup name = some rec → confusableKey env name = confusableKey env target → rec.channelId = id

inductive Sweep (env : Env) (now : Int) : ChannelRegistry → ChannelRegistry → Prop
  | reap {reg : ChannelRegistry} {name rec} : reg.names.lookup name = some rec → rec.abandoned now = true →
      Sweep env now reg (reg.removeName env name)
  | grandfather (reg : ChannelRegistry) : Sweep env now reg (reg.grandfatherLegacyTimestamps now)
  | releaseUsername (reg : ChannelRegistry) (name : Chars) : Sweep env now reg (reg.releaseUsername name)
  | dropHandle (reg : ChannelRegistry) (pk : Chars) : Sweep env now reg (reg.dropHandle pk)

/-- Where a rename of the room of `old` may go: a name nobody else's looks like, or one the room retired. -/
inductive Open (env : Env) (reg : ChannelRegistry) (target : Chars) (old : ChannelNameRecord) (pubkey : Chars) : Prop
  | fresh : reg.names.lookup target = none → Unlike env reg target old.channelId → reg.names.size < maxChannelNames →
      Open env reg target old pubkey
  | back {rec : ChannelNameRecord} : reg.names.lookup target = some rec → rec.deleted = false → rec.retiredAt ≠ 0 →
      rec.channelId = old.channelId → eqIgnoreAsciiCase rec.pubkey pubkey = true → Open env reg target old pubkey

def Reaped (now : Int) (reg : ChannelRegistry) (target : Chars) : Prop :=
  ∀ ⦃name rec⦄, reg.names.lookup name = some rec → confusableKey env name = confusableKey env target → rec.abandoned now = false

/-- Marks every name of a room deleted, and its id. -/
def bury : ChannelRegistry :=
  let reg := (reg.namesOfChannel id).foldl markDeleted reg
  { reg with deleted := insert id reg.deleted }

inductive Deed (env : Env) (now : Int) : Request → ChannelRegistry → ChannelRegistry → Prop
  | idle (r : Request) (reg : ChannelRegistry) : Deed env now r reg reg
  | active (r : Request) (reg : ChannelRegistry) (pk : Chars) :
      Deed env now r reg { reg with usernameActivity := reg.usernameActivity.insert pk now }
  | takeUsername (r : Request) {reg : ChannelRegistry} {name pk : Chars} : reg.usernames.lookup name = none →
      reg.byPubkey.lookup pk = none → toAsciiLowercase pk = pk → reg.usernames.size < maxUsernames →
      Deed env now r reg
        { reg with
          usernames := reg.usernames.insert name pk
          byPubkey := reg.byPubkey.insert pk name
          usernameActivity := reg.usernameActivity.insert pk now }
  | refresh (r : Request) {reg : ChannelRegistry} {name rec} (isPrivate : Bool) (display : Chars) :
      reg.names.lookup name = some rec → rec.isCurrent = true →
      Deed env now r reg (reg.setName name { rec with isPrivate, display, refreshedAt := now })
  | bind (r : Request) {reg : ChannelRegistry} {name : Chars} {rec : ChannelNameRecord} : reg.names.lookup name = none →
      NoCurrent reg rec.channelId → Unlike env reg name rec.channelId → rec.channelId ∉ reg.deleted →
      toAsciiLowercase rec.channelId = rec.channelId → rec.isCurrent = true → rec.retiredAt = 0 →
      reg.names.size < maxChannelNames → Deed env now r reg (reg.insertName env name rec)
  | rename {reg : ChannelRegistry} {channelId pubkey name : Chars} {isPrivate : Bool} {source target : Chars} {old}
      (display : Chars) : reg.names.lookup source = some old → old.isCurrent = true →
      old.channelId = toAsciiLowercase channelId → eqIgnoreAsciiCase old.pubkey pubkey = true → source ≠ target →
      normalizeChannelName env name = some target → old.channelId ∉ reg.deleted → Reaped env now reg target →
      Open env reg target old pubkey →
      Deed env now (.renameChannelName channelId pubkey name isPrivate) reg
        (reg.applyRename env source target display isPrivate now)
  | nominate {reg : ChannelRegistry} {channelId pubkey nominee : Chars} {days : Nat} {name rec} (nominee' : Chars) (days' : Nat) :
      reg.names.lookup name = some rec → rec.isCurrent = true → eqIgnoreAsciiCase rec.pubkey pubkey = true →
      Deed env now (.setChannelNominee channelId pubkey nominee days) reg
        (reg.setName name { rec with nominee := nominee', claimAfterDays := days' })
  | handOver {reg : ChannelRegistry} {oldId newId newPubkey signer name : Chars} {rec} : reg.names.lookup name = some rec →
      rec.isCurrent = true → rec.channelId = toAsciiLowercase oldId → NoCurrent reg (toAsciiLowercase newId) →
      toAsciiLowercase newId ≠ rec.channelId → toAsciiLowercase newId ∉ reg.deleted → rec.channelId ∉ reg.deleted →
      (eqIgnoreAsciiCase rec.pubkey signer || byNominee rec (toAsciiLowercase signer) now) = true →
      Deed env now (.handoverChannelName oldId newId newPubkey signer) reg
        (reg.handOver name rec (toAsciiLowercase newId) (toAsciiLowercase newPubkey) (toAsciiLowercase signer) now)
  | bury {reg : ChannelRegistry} {channelId pubkey : Chars} :
      (∀ ⦃name rec⦄, reg.names.lookup name = some rec → rec.channelId = toAsciiLowercase channelId →
        eqIgnoreAsciiCase rec.pubkey pubkey = true) →
      Deed env now (.deleteChannel channelId pubkey) reg (reg.bury (toAsciiLowercase channelId))
  | close (r : Request) (reg : ChannelRegistry) : Deed env now r reg reg.closeForShutdown

inductive Free (env : Env) (surplus : List Chars) : ChannelRegistry → ChannelRegistry → Prop
  | drop {reg : ChannelRegistry} {name rec} : reg.names.lookup name = some rec → name ∈ surplus → rec.deleted = false →
      0 < rec.retiredAt → Free env surplus reg (reg.removeName env name)

inductive Served (env : Env) (now : Int) (r : Request) (surplus : List Chars) (reg reg' : ChannelRegistry) : Prop
  | intro (swept done : ChannelRegistry) : (r.sweeps = false → swept = reg) →
      Relation.ReflTransGen (Sweep env now) reg swept → Deed env now r swept done →
      Relation.ReflTransGen (Free env surplus) done reg' → Served env now r surplus reg reg'

section Names
variable {env : Env} {reg : ChannelRegistry} {name id : Chars} {rec : ChannelNameRecord} {now : Int}

section
variable (indexed : Indexed env reg)
include indexed

theorem mem_namesOfChannel
    (held : reg.names.lookup name = some rec) (room : rec.channelId = id) : name ∈ reg.namesOfChannel id := by
  apply (indexed.channels.mem id name).2
  rw [channelOf,held,map_some,indexed.ids held,room]

theorem liveName_some (live : reg.liveNameOfChannel id = some name) :
    ∃ rec, reg.names.lookup name = some rec ∧ rec.isCurrent = true ∧ rec.channelId = id := by
  have current := find?_some live
  obtain ⟨rec,held,current⟩ := (Option.any_eq_true ..).1 current
  have filed := (indexed.channels.mem id name).1 (mem_of_find?_eq_some live)
  rw [channelOf,held,map_some,Option.some.injEq,indexed.ids held] at filed
  exact ⟨rec,held,current,filed⟩

theorem liveName_none (live : reg.liveNameOfChannel id = none) : reg.NoCurrent id := by
  intro name rec held same
  have other := find?_eq_none.1 live name (mem_namesOfChannel indexed held same)
  simpa [held] using other

theorem unlike_of_imitates (fresh : reg.names.lookup name = none)
    (lower : toAsciiLowercase id = id) (clear : reg.imitates env name id = false) : reg.Unlike env name id := by
  intro other rec held like
  have listed : other ∈ Index.listed reg.bySkeleton (confusableKey env name) := by
    apply (indexed.skeletons.mem _ other).2
    rw [skeletonOf,held,map_some,like]
  rw [imitates,fresh,isNone_none,Bool.true_and,List.any_eq_false] at clear
  have same := clear other listed
  rw [held,any_some,Bool.not_eq_true,Bool.not_eq_false',eqIgnoreAsciiCase_iff,indexed.ids held,lower] at same
  exact same

end

end Names

section Lookups
variable {env : Env} {reg : ChannelRegistry} {name other pk : Chars} {rec : ChannelNameRecord} {now : Int}

@[simp] theorem lookup_setName : (reg.setName name rec).names.lookup other = if other = name then some rec else reg.names.lookup other :=
  lookup_insert_ite ..

@[simp] theorem lookup_insertName :
    (reg.insertName env name rec).names.lookup other = if other = name then some rec else reg.names.lookup other :=
  lookup_insert_ite ..

@[simp] theorem lookup_removeName :
    (reg.removeName env name).names.lookup other = if other = name then none else reg.names.lookup other := by
  unfold removeName
  cases held : reg.names.lookup name with
  | none =>
    by_cases same : other = name
    · rw [if_pos same,same]
      exact held
    · rw [if_neg same]
  | some rec => exact lookup_erase_ite ..

theorem held_removeName (held : (reg.removeName env name).names.lookup other = some rec) :
    other ≠ name ∧ reg.names.lookup other = some rec := by
  rw [lookup_removeName] at held
  split at held
  · cases held
  next different => exact ⟨different,held⟩

@[simp] theorem deleted_removeName : (reg.removeName env name).deleted = reg.deleted := by
  unfold removeName
  split <;> rfl

@[simp] theorem names_releaseUsername : (reg.releaseUsername name).names = reg.names := by
  unfold releaseUsername
  split <;> rfl

@[simp] theorem names_dropHandle : (reg.dropHandle pk).names = reg.names := by
  unfold dropHandle
  split <;> rfl

theorem lookup_dropHandle : (reg.dropHandle pk).byPubkey.lookup pk = none := by
  unfold dropHandle
  cases held : reg.byPubkey.lookup pk with
  | none => exact held
  | some old => exact AList.lookup_erase ..

theorem dropHandle_usernames (reg : ChannelRegistry) (pk : Chars) : Table.Within (reg.dropHandle pk).usernames reg.usernames := by
  unfold dropHandle
  split
  · exact .refl
  · exact .erase ..

/-- A record from before refreshes were timed gets the present time. -/
def stamped (now : Int) (rec : ChannelNameRecord) : ChannelNameRecord :=
  if rec.deleted || 0 < rec.refreshedAt then rec else { rec with refreshedAt := now }

@[simp] theorem lookup_grandfather :
    (reg.grandfatherLegacyTimestamps now).names.lookup other = (reg.names.lookup other).map (stamped now) := by
  simp only [grandfatherLegacyTimestamps,lookup_retain]
  cases reg.names.lookup other <;> rfl

theorem abandoned_stamped : (stamped now rec).abandoned now = rec.abandoned now := by
  unfold stamped
  split
  · rfl
  next old =>
  simp only [Bool.or_eq_true,decide_eq_true_eq,not_or] at old
  simp [ChannelNameRecord.abandoned,ChannelNameRecord.releaseAfterSecs,ChannelNameRecord.hasNominee,old.2]

theorem stamped_eq (now : Int) (rec : ChannelNameRecord) : ∃ t, stamped now rec = { rec with refreshedAt := t } := by
  unfold stamped
  split
  · exact ⟨rec.refreshedAt,rfl⟩
  · exact ⟨now,rfl⟩

end Lookups

/-- Every name left was on record before, but for its last refresh. -/
def Lessened (reg reg' : ChannelRegistry) : Prop :=
  ∀ ⦃name rec'⦄, reg'.names.lookup name = some rec' →
    ∃ rec t, reg.names.lookup name = some rec ∧ rec' = { rec with refreshedAt := t }

section Sweeping
variable {env : Env} {reg reg' swept : ChannelRegistry} {now : Int} {id target : Chars} {name : Chars}

theorem Lessened.refl : Lessened reg reg := fun _ rec held => ⟨rec,rec.refreshedAt,held,rfl⟩

theorem Lessened.trans {reg'' : ChannelRegistry} (first : Lessened reg reg') (second : Lessened reg' reg'') : Lessened reg reg'' := by
  intro name rec'' held
  obtain ⟨rec',t,held',rfl⟩ := second held
  obtain ⟨rec,t',held'',rfl⟩ := first held'
  exact ⟨rec,t,held'',rfl⟩

theorem Lessened.none (less : Lessened reg reg') (absent : reg.names.lookup name = none) :
    reg'.names.lookup name = none := by
  cases held : reg'.names.lookup name with
  | none => rfl
  | some rec' =>
    obtain ⟨rec,_,found,_⟩ := less held
    rw [absent] at found
    cases found

theorem NoCurrent.less (alone : NoCurrent reg id) (less : Lessened reg reg') : NoCurrent reg' id := by
  intro name rec' held same
  obtain ⟨rec,t,found,rfl⟩ := less held
  have settled := alone found same
  exact settled

theorem Unlike.less (unlike : Unlike env reg target id) (less : Lessened reg reg') : Unlike env reg' target id := by
  intro name rec' held like
  obtain ⟨rec,t,found,rfl⟩ := less held
  have own := unlike found like
  exact own

namespace Sweep
variable (sweep : Sweep env now reg reg')
include sweep

theorem indexed (indexed : Indexed env reg) : Indexed env reg' := by
  cases sweep with
  | reap => exact indexed.removeName
  | grandfather => exact indexed.grandfather
  | releaseUsername => exact indexed.releaseUsername
  | dropHandle => exact indexed.dropHandle

theorem deleted : reg'.deleted = reg.deleted := by
  cases sweep with
  | reap => exact deleted_removeName
  | grandfather => rfl
  | releaseUsername =>
    unfold ChannelRegistry.releaseUsername
    split <;> rfl
  | dropHandle =>
    unfold ChannelRegistry.dropHandle
    split <;> rfl

theorem held {rec' : ChannelNameRecord}
    (held : reg'.names.lookup name = some rec') : ∃ rec t, reg.names.lookup name = some rec ∧
      rec' = { rec with refreshedAt := t } ∧ rec'.abandoned now = rec.abandoned now := by
  cases sweep with
  | reap => exact ⟨rec',_,(held_removeName held).2,rfl,rfl⟩
  | grandfather =>
    rw [lookup_grandfather] at held
    obtain ⟨rec,found,rfl⟩ := map_eq_some_iff.1 held
    obtain ⟨t,shape⟩ := stamped_eq now rec
    exact ⟨rec,t,found,shape,abandoned_stamped⟩
  | releaseUsername => exact ⟨rec',_,names_releaseUsername ▸ held,rfl,rfl⟩
  | dropHandle => exact ⟨rec',_,names_dropHandle ▸ held,rfl,rfl⟩

theorem usernames : Table.Within reg'.usernames reg.usernames ∧ Table.Within reg'.byPubkey reg.byPubkey := by
  cases sweep with
  | reap =>
    unfold removeName
    split <;> exact ⟨.refl,.refl⟩
  | grandfather => exact ⟨.refl,.refl⟩
  | releaseUsername =>
    unfold ChannelRegistry.releaseUsername
    split
    · exact ⟨.refl,.refl⟩
    · exact ⟨.erase ..,.erase ..⟩
  | dropHandle =>
    refine ⟨dropHandle_usernames ..,?_⟩
    unfold ChannelRegistry.dropHandle
    split
    · exact .refl
    · exact .erase ..

end Sweep

abbrev Swept (env : Env) (now : Int) : ChannelRegistry → ChannelRegistry → Prop := Relation.ReflTransGen (Sweep env now)

namespace Swept
variable (sweeps : Swept env now reg reg')
include sweeps

theorem indexed (indexed : Indexed env reg) : Indexed env reg' := by
  induction sweeps with
  | refl => exact indexed
  | tail _ sweep ih => exact sweep.indexed ih

theorem deleted : reg'.deleted = reg.deleted := by
  induction sweeps with
  | refl => rfl
  | tail _ sweep ih => exact sweep.deleted.trans ih

theorem held {rec' : ChannelNameRecord}
    (held : reg'.names.lookup name = some rec') : ∃ rec t, reg.names.lookup name = some rec ∧
      rec' = { rec with refreshedAt := t } ∧ rec'.abandoned now = rec.abandoned now := by
  induction sweeps generalizing rec' with
  | refl => exact ⟨rec',_,held,rfl,rfl⟩
  | tail _ sweep ih =>
    obtain ⟨mid,t,found,rfl,same⟩ := sweep.held held
    obtain ⟨rec,_,found',rfl,same'⟩ := ih found
    exact ⟨rec,t,found',rfl,same.trans same'⟩

theorem lessened : Lessened reg reg' := by
  intro name rec' held
  obtain ⟨rec,t,found,shape,_⟩ := sweeps.held held
  exact ⟨rec,t,found,shape⟩

theorem reaped (reaped : Reaped env now reg target) : Reaped env now reg' target := by
  intro name rec' held like
  obtain ⟨rec,_,found,rfl,same⟩ := sweeps.held held
  exact same.trans (reaped found like)

theorem usernames : Table.Within reg'.usernames reg.usernames ∧ Table.Within reg'.byPubkey reg.byPubkey := by
  induction sweeps with
  | refl => exact ⟨.refl,.refl⟩
  | tail _ sweep ih => exact ⟨sweep.usernames.1.trans ih.1,sweep.usernames.2.trans ih.2⟩

end Swept

theorem swept_reapAbandonedNames (env : Env) (now : Int) (reg : ChannelRegistry) (candidates : List Chars) :
    Swept env now reg (reg.reapAbandonedNames env candidates now) := by
  induction candidates generalizing reg with
  | nil => exact .refl
  | cons name rest ih =>
    refine .trans ?_ (ih _)
    dsimp only
    split
    next gone =>
      obtain ⟨rec,held,abandoned⟩ := (Option.any_eq_true ..).1 gone
      exact .single (.reap held abandoned)
    next => exact .refl

theorem reapAbandonedNames_kept (reg : ChannelRegistry) (candidates : List Chars) {rec : ChannelNameRecord}
    (held : (reg.reapAbandonedNames env candidates now).names.lookup name = some rec) :
    reg.names.lookup name = some rec ∧ (name ∈ candidates → rec.abandoned now = false) := by
  induction candidates generalizing reg with
  | nil => exact ⟨held,fun listed => by cases listed⟩
  | cons first rest ih =>
    obtain ⟨found,later⟩ := ih _ held
    dsimp only at found
    have first' : reg.names.lookup name = some rec ∧ (name = first → rec.abandoned now = false) := by
      split at found
      · obtain ⟨other,found⟩ := held_removeName found
        exact ⟨found,fun same => absurd same other⟩
      next fine =>
      refine ⟨found,?_⟩
      rintro rfl
      simpa [found] using fine
    refine ⟨first'.1,fun listed => ?_⟩
    rcases mem_cons.1 listed with same | listed
    · exact first'.2 same
    · exact later listed

theorem reaped_candidates (now : Int) (indexed : Indexed env reg) (normalized id : Chars) :
    Reaped env now (reg.reapAbandonedNames env (reg.candidates env normalized id) now) normalized := by
  intro name rec held like
  obtain ⟨found,fine⟩ := reapAbandonedNames_kept reg _ held
  apply fine
  apply mem_append_right
  apply (indexed.skeletons.mem _ name).2
  rw [skeletonOf,found,map_some,like]

section
variable (env : Env) (now : Int) (reg : ChannelRegistry)

theorem swept_releaseUsernames {names : List Chars} : Swept env now reg (names.foldl releaseUsername reg) := by
  induction names generalizing reg with
  | nil => exact .refl
  | cons name rest ih => exact .head (.releaseUsername reg name) (ih _)

theorem swept_reapStale : Swept env now reg (reg.reapStale env now) := by
  unfold reapStale
  split
  · exact .refl
  · exact .head (.grandfather reg) ((swept_releaseUsernames env now _).trans (swept_reapAbandonedNames env now ..))

theorem swept_full (full : Prop) [Decidable full] :
    Swept env now reg (if full then reg.reapStale env now else reg) := by
  split
  · exact swept_reapStale env now reg
  · exact .refl

end

end Sweeping

section Serving
variable {env : Env} {reg : ChannelRegistry} {now : Int} {isPrivate : Bool}
variable {r : Request} {reg' : ChannelRegistry} {normalized display name channelId pubkey source : Chars} {surplus : List Chars}

theorem Served.still : Served env now r [] reg reg :=
  .intro reg reg (fun _ => rfl) .refl (.idle r reg) .refl

theorem Served.deed (deed : Deed env now r reg reg') : Served env now r [] reg reg' :=
  .intro reg reg' (fun _ => rfl) .refl deed .refl

theorem Served.sweep {swept : ChannelRegistry} (sweeps : r.sweeps = true) (first : Swept env now reg swept)
    (rest : Served env now r [] swept reg') : Served env now r [] reg reg' := by
  obtain ⟨mid,done,same,before,deed,after⟩ := rest
  exact .intro mid done (fun still => by simp [sweeps] at still) (first.trans before) deed after

theorem claimUsernameAt_served :
    Served env now (.claimUsername pubkey name) [] reg (reg.claimUsernameAt env pubkey name now).1 := by
  unfold claimUsernameAt
  split
  · exact .still ..
  split
  · exact .still ..
  next normalized _ =>
  dsimp only
  split
  · exact .still ..
  · -- the handle asked for is let go of first if it is idle
    have released : ∀ idle : Bool, Swept env now reg (if idle then reg.releaseUsername normalized else reg) := by
      intro idle
      cases idle
      · exact .refl
      · exact .single (.releaseUsername reg normalized)
    generalize (reg.usernames.lookup normalized).any (reg.usernameIdle · now) = idle
    refine Served.sweep rfl (released idle) ?_
    generalize owned : (if idle then reg.releaseUsername normalized else reg) = reg₁
    split
    · split
      · exact .deed (.active ..)
      · exact .still ..
    next free =>
    refine Served.sweep rfl (.single (.dropHandle reg₁ (toAsciiLowercase pubkey))) ?_
    have handless : (reg₁.dropHandle (toAsciiLowercase pubkey)).byPubkey.lookup (toAsciiLowercase pubkey) = none :=
      lookup_dropHandle
    have free' := (dropHandle_usernames reg₁ (toAsciiLowercase pubkey)).lookup_none free
    generalize reg₁.dropHandle (toAsciiLowercase pubkey) = reg₂ at handless free' ⊢
    have swept := swept_full env now reg₂ (maxUsernames ≤ reg₂.usernames.size)
    generalize (if maxUsernames ≤ reg₂.usernames.size then reg₂.reapStale env now else reg₂) = reg₃ at swept ⊢
    refine Served.sweep rfl swept ?_
    split
    · exact .still ..
    next room =>
    exact .deed (.takeUsername _ (swept.usernames.1.lookup_none free') (swept.usernames.2.lookup_none handless)
      toAsciiLowercase_idem (Nat.lt_of_not_le room))

theorem claimReaped_served (sweeps : r.sweeps = true) (indexed : Indexed env reg) {id pk : Chars}
    (lower : toAsciiLowercase id = id) (alive : id ∉ reg.deleted) :
    Served env now r [] reg (reg.claimReaped env id pk normalized display isPrivate now).1 := by
  unfold claimReaped
  split
  next existing other =>
    obtain ⟨live,_⟩ := filter_eq_some_iff.1 other
    obtain ⟨rec,held,current,_⟩ := liveName_some indexed live
    rw [held]
    split
    next rec' own =>
      obtain rfl : rec = rec' := some.inj (filter_eq_some_iff.1 own).1
      exact .deed (.refresh r rec.isPrivate rec.display held current)
    next => exact .still ..
  next none =>
    split
    · exact .still ..
    next clear =>
    split
    next existing held =>
      split
      · exact .still ..
      next own =>
      simp only [Bool.or_eq_true,not_or,Bool.not_eq_true,bne_eq_false_iff_eq] at own
      exact .deed (.refresh r isPrivate display held (by simp [ChannelNameRecord.isCurrent,own.1.1,own.1.2]))
    next fresh =>
      have alone : reg.NoCurrent id := by
        cases live : reg.liveNameOfChannel id with
        | none => exact liveName_none indexed live
        | some name =>
          obtain ⟨rec,held,_,_⟩ := liveName_some indexed live
          have same : name = normalized := by
            by_contra different
            rw [live] at none
            simp [different] at none
          rw [same,fresh] at held
          cases held
      have unlike := unlike_of_imitates indexed fresh lower (Bool.eq_false_iff.2 clear)
      have swept := swept_full env now reg (maxChannelNames ≤ reg.names.size)
      dsimp only
      generalize (if maxChannelNames ≤ reg.names.size then reg.reapStale env now else reg) = reg' at swept ⊢
      refine Served.sweep sweeps swept ?_
      split
      · exact .still ..
      next room =>
      exact .deed (.bind r (swept.lessened.none fresh) (alone.less swept.lessened) (unlike.less swept.lessened)
        (swept.deleted ▸ alive) lower rfl rfl (Nat.lt_of_not_le room))

theorem claimChannelNameAt_served (sweeps : r.sweeps = true) (indexed : Indexed env reg) :
    Served env now r [] reg (reg.claimChannelNameAt env channelId pubkey name isPrivate now).1 := by
  unfold claimChannelNameAt
  split
  · exact .still ..
  split
  · exact .still ..
  dsimp only
  split
  · exact .still ..
  split
  · exact .still ..
  next alive =>
  have swept := swept_reapAbandonedNames env now reg (reg.candidates env ‹_› (toAsciiLowercase channelId))
  apply Served.sweep sweeps swept
  exact claimReaped_served sweeps (swept.indexed indexed) toAsciiLowercase_idem (swept.deleted ▸ alive)

theorem Served.free {mid : ChannelRegistry} (served : Served env now r [] reg mid)
    (freed : Relation.ReflTransGen (Free env surplus) mid reg') : Served env now r surplus reg reg' := by
  obtain ⟨swept,done,same,before,deed,after⟩ := served
  cases after with
  | refl => exact .intro swept _ same before deed freed
  | tail _ free =>
    cases free with
    | drop _ listed => cases listed

theorem mem_surplusRetiredNames {id : Chars} (listed : name ∈ reg.surplusRetiredNames id) :
    ∃ rec, reg.names.lookup name = some rec ∧ rec.deleted = false ∧ 0 < rec.retiredAt := by
  obtain ⟨⟨t,_⟩,taken,rfl⟩ := List.mem_map.1 listed
  have sorted := mem_mergeSort.1 (mem_of_mem_take taken)
  obtain ⟨name',_,found⟩ := mem_filterMap.1 sorted
  obtain ⟨rec,held,kept⟩ := bind_eq_some_iff.1 found
  obtain ⟨retired,same⟩ := (ite_none_right_eq_some ..).1 kept
  obtain ⟨rfl,rfl⟩ := Prod.mk.inj (some.inj same)
  simp only [Bool.and_eq_true,Bool.not_eq_eq_eq_not,decide_eq_true_eq] at retired
  exact ⟨rec,held,retired⟩

theorem freed_foldl {names : List Chars} (subset : names ⊆ surplus)
    (retired : ∀ name ∈ names, ∀ rec, reg.names.lookup name = some rec → rec.deleted = false ∧ 0 < rec.retiredAt) :
    Relation.ReflTransGen (Free env surplus) reg (names.foldl (removeName env) reg) := by
  induction names generalizing reg with
  | nil => exact .refl
  | cons name rest ih =>
    have later := @ih (reg.removeName env name) (fun _ member => subset (mem_cons_of_mem _ member))
      fun other member rec held => retired other (mem_cons_of_mem _ member) rec (held_removeName held).2
    cases held : reg.names.lookup name with
    | none =>
      have still : reg.removeName env name = reg := by rw [removeName,held]
      rw [still] at later
      rw [foldl_cons,still]
      exact later
    | some rec =>
      obtain ⟨live,old⟩ := retired name mem_cons_self rec held
      exact .head (.drop held (subset mem_cons_self) live old) later

theorem freed_surplus (reg : ChannelRegistry) (id : Chars) :
    Relation.ReflTransGen (Free env (reg.surplusRetiredNames id)) reg (reg.releaseSurplusRetiredNames env id) := by
  apply freed_foldl (List.Subset.refl _)
  intro name listed rec held
  obtain ⟨rec',held',retired⟩ := mem_surplusRetiredNames listed
  obtain rfl := some.inj (held.symm.trans held')
  exact retired

theorem applyRename_served {target : Chars}
    (old : ∀ rec, reg.names.lookup source = some rec → rec.isCurrent = true ∧ rec.channelId = toAsciiLowercase channelId ∧
      eqIgnoreAsciiCase rec.pubkey pubkey = true ∧ Open env reg target rec pubkey)
    (other : source ≠ target) (named : normalizeChannelName env name = some target)
    (alive : toAsciiLowercase channelId ∉ reg.deleted) (reaped : Reaped env now reg target) :
    Served env now (.renameChannelName channelId pubkey name isPrivate) [] reg
      (reg.applyRename env source target display isPrivate now) := by
  cases held : reg.names.lookup source with
  | none =>
    rw [applyRename,held]
    exact .still ..
  | some rec =>
    obtain ⟨current,room,owner,free⟩ := old rec held
    exact .deed (.rename display held current room owner other named (room ▸ alive) reaped free)

theorem renameReaped_served (indexed : Indexed env reg)
    (live : reg.liveNameOfChannel (toAsciiLowercase channelId) = some source) (other : source ≠ normalized)
    (named : normalizeChannelName env name = some normalized) (alive : toAsciiLowercase channelId ∉ reg.deleted)
    (reaped : Reaped env now reg normalized) :
    Served env now (.renameChannelName channelId pubkey name isPrivate) [] reg
      (reg.renameReaped env (toAsciiLowercase channelId) (toAsciiLowercase pubkey) source normalized display isPrivate now).1 := by
  obtain ⟨old,held,current,room⟩ := liveName_some indexed live
  unfold renameReaped
  rw [held]
  dsimp only
  split
  · exact .still ..
  next owner =>
  have owned : eqIgnoreAsciiCase old.pubkey pubkey = true := by simpa using owner
  split
  · exact .still ..
  split
  · exact .still ..
  next clear =>
  split
  next existing found =>
    split
    · exact .still ..
    next own =>
    simp only [Bool.or_eq_true,not_or,Bool.not_eq_true,beq_eq_false_iff_ne,Bool.not_eq_false',isOf,Bool.and_eq_true,
      eqIgnoreAsciiCase_iff,toAsciiLowercase_idem,indexed.ids found] at own
    apply applyRename_served _ other named alive reaped
    intro rec held'
    obtain rfl := some.inj (held.symm.trans held')
    exact ⟨current,room,owned,.back found own.1.1 own.1.2 (own.2.1.trans room.symm) (eqIgnoreAsciiCase_iff.2 own.2.2)⟩
  next fresh =>
    have unlike := unlike_of_imitates indexed fresh toAsciiLowercase_idem (Bool.eq_false_iff.2 clear)
    have swept := swept_full env now reg (maxChannelNames ≤ reg.names.size)
    generalize (if maxChannelNames ≤ reg.names.size then reg.reapStale env now else reg) = reg' at swept ⊢
    refine Served.sweep rfl swept ?_
    split
    · exact .still ..
    next space =>
    apply applyRename_served _ other named (swept.deleted ▸ alive) (swept.reaped reaped)
    intro rec held'
    obtain ⟨rec₀,t,held₀,rfl⟩ := swept.lessened held'
    obtain rfl := some.inj (held.symm.trans held₀)
    exact ⟨current,room,owned,.fresh (swept.lessened.none fresh) (room ▸ unlike.less swept.lessened) (Nat.lt_of_not_le space)⟩

theorem moveName_served (now : Int) (indexed : Indexed env reg) (channelId pubkey name : Chars) (isPrivate : Bool) :
    Served env now (.renameChannelName channelId pubkey name isPrivate) [] reg
      (reg.moveName env channelId pubkey name isPrivate now).1 := by
  unfold moveName
  split
  · exact .still ..
  split
  · exact .still ..
  next normalized named =>
  dsimp only
  split
  · exact .still ..
  split
  · exact .still ..
  next alive =>
  have swept := swept_reapAbandonedNames env now reg
    (reg.candidates env normalized (toAsciiLowercase channelId))
  have reaped := reaped_candidates now indexed normalized (toAsciiLowercase channelId)
  have indexed' := swept.indexed indexed
  apply Served.sweep rfl swept
  split
  next source live =>
    obtain ⟨live,other⟩ := filter_eq_some_iff.1 live
    exact renameReaped_served indexed' live (of_decide_eq_true other) named (swept.deleted ▸ alive) reaped
  next => exact claimChannelNameAt_served rfl indexed'

section
variable (indexed : Indexed env reg) {signer oldId newId : Chars}
include indexed

theorem renameChannelNameAt_served :
    let r : Request := .renameChannelName channelId pubkey name isPrivate
    Served env now r (reg.surplusReleased env now r) reg (reg.renameChannelNameAt env channelId pubkey name isPrivate now).1 := by
  have served := moveName_served now indexed channelId pubkey name isPrivate
  dsimp only [surplusReleased,renameChannelNameAt]
  generalize reg.moveName env channelId pubkey name isPrivate now = moved at served ⊢
  obtain ⟨reg',answer⟩ := moved
  cases answer with
  | some => exact served
  | none => exact served.free (freed_surplus reg' _)

theorem setChannelNominee_served {nominee : Chars} {days : Nat} :
    Served env now (.setChannelNominee channelId pubkey nominee days) [] reg
      (reg.setChannelNominee channelId pubkey nominee days).1 := by
  unfold setChannelNominee
  split
  · exact .still ..
  dsimp only
  split
  · exact .still ..
  split
  · exact .still ..
  next name live =>
  obtain ⟨rec,held,current,_⟩ := liveName_some indexed live
  rw [held]
  dsimp only
  split
  · exact .still ..
  next owner => exact .deed (.nominate _ _ held current (by simpa using owner))

theorem repeatHandover_served {newPk held : Chars} (live : reg.liveNameOfChannel newId = some held) :
    Served env now r [] reg (reg.repeatHandover env oldId newId newPk signer held now).1 := by
  obtain ⟨rec,found,current,_⟩ := liveName_some indexed live
  unfold repeatHandover
  rw [found]
  dsimp only
  split
  · exact .still ..
  split
  · exact .deed (.refresh r rec.isPrivate rec.display found current)
  · exact .still ..

theorem handoverChannelName_served {newPubkey : Chars} :
    Served env now (.handoverChannelName oldId newId newPubkey signer) [] reg
      (reg.handoverChannelName env oldId newId newPubkey signer now).1 := by
  unfold handoverChannelName
  split
  · exact .still ..
  dsimp only
  split
  · exact .still ..
  split
  · exact .still ..
  next changed =>
  split
  · exact .still ..
  next alive =>
  rw [not_or] at alive
  split
  next held live => exact repeatHandover_served indexed live
  next free =>
  split
  · exact .still ..
  next name live =>
  obtain ⟨rec,held,current,room⟩ := liveName_some indexed live
  rw [held]
  dsimp only
  split
  · exact .still ..
  next authority =>
  apply Served.deed
  apply Deed.handOver held current room (liveName_none indexed free) _ alive.2 (room ▸ alive.1)
  · rw [Bool.not_eq_true,Bool.and_eq_false_iff] at authority
    simpa using authority
  · rw [room]
    simpa using changed

theorem nothing_held {id : Chars}
    (none : (!(reg.namesOfChannel id).any fun name => (reg.names.lookup name).isSome) = true) : reg.namesOfChannel id = [] := by
  rw [Bool.not_eq_true',List.any_eq_false] at none
  apply eq_nil_iff_forall_not_mem.2
  intro name listed
  have filed := (indexed.channels.mem id name).1 listed
  apply none name listed
  obtain ⟨rec,held,_⟩ := map_eq_some_iff.1 filed
  rw [held]
  rfl

theorem deleteChannel_served :
    Served env now (.deleteChannel channelId pubkey) [] reg (reg.deleteChannel channelId pubkey).1 := by
  unfold deleteChannel
  split
  · exact .still ..
  dsimp only
  split
  · exact .still ..
  next owner =>
  split
  next repeated =>
    rw [nothing_held indexed (Bool.and_eq_true_iff.1 repeated).1]
    exact .still ..
  split
  next full =>
    rw [nothing_held indexed (Bool.and_eq_true_iff.1 full).1]
    exact .still ..
  apply Served.deed
  apply Deed.bury
  intro name rec held room
  rw [Bool.not_eq_true,List.any_eq_false] at owner
  have own := owner name (mem_namesOfChannel indexed held room)
  simpa [held] using own

theorem serve_served : Served env now r (reg.surplusReleased env now r) reg (reg.serve env now r).1 := by
  cases r with
  | claimUsername pubkey name => exact claimUsernameAt_served
  | claimChannelName channelId pubkey name isPrivate => exact claimChannelNameAt_served rfl indexed
  | renameChannelName channelId pubkey name isPrivate => exact renameChannelNameAt_served indexed
  | setChannelNominee channelId pubkey nominee days => exact setChannelNominee_served indexed
  | handoverChannelName oldId newId newPubkey signer => exact handoverChannelName_served indexed
  | deleteChannel channelId pubkey => exact deleteChannel_served indexed
  | reapStale => exact .sweep rfl (swept_reapStale env now reg) (.still ..)
  | closeForShutdown => exact .deed (.close ..)

end

end Serving

end ChannelRegistry
end Ember.Rendezvous
