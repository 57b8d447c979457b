import Ember.Rendezvous.Phases

/-! Runs of the registry: requests one after another, with saves and reloads between them. Every step keeps the indexes,
and one current name a room. -/
namespace Ember.Rendezvous
open List Option Table AList
open Ember.Search (Chars)

inductive Event where
  | request (now : Int) (r : Request)
  | reload (now : Int)

def Event.now : Event → Int
  | .request now _ | .reload now => now

namespace ChannelRegistry

inductive Step (env : Env) (reg : ChannelRegistry) : Event → ChannelRegistry → Prop
  | request (now : Int) (r : Request) : Step env reg (.request now r) (reg.serve env now r).1
  | fromParts (now : Int) {file : RegistryFile} : Saved reg file → Step env reg (.reload now) (fromParts env file false)
  | load (now : Int) {file : RegistryFile} : Saved reg file →
      Step env reg (.reload now) ((fromParts env file false).grandfatherLegacyTimestamps now)

inductive Run (env : Env) (allowed : ChannelRegistry → Event → Prop) (start : ChannelRegistry) :
    List Event → ChannelRegistry → Prop
  | nil : Run env allowed start [] start
  | snoc {events : List Event} {e : Event} {reg reg' : ChannelRegistry} : Run env allowed start events reg → allowed reg e →
      Step env reg e reg' → Run env allowed start (events++[e]) reg'

variable (env : Env) (reg : ChannelRegistry)

def OneCurrent : Prop :=
  ∀ ⦃name name' rec rec'⦄, reg.names.lookup name = some rec → reg.names.lookup name' = some rec' → rec.isCurrent = true →
    rec'.isCurrent = true → rec.channelId = rec'.channelId → name = name'

def Distinct : Prop :=
  ∀ ⦃name name' rec rec'⦄, reg.names.lookup name = some rec → reg.names.lookup name' = some rec' → rec.isCurrent = true →
    rec'.isCurrent = true → confusableKey env name = confusableKey env name' → rec.channelId = rec'.channelId

/-- A name a room takes back, one it retired itself, looks like no other room's current name. -/
def Unmistaken : Event → Prop
  | .request now (.renameChannelName channelId pubkey raw _) =>
    ∀ target back, normalizeChannelName env raw = some target → reg.names.lookup target = some back →
      back.deleted = false → back.retiredAt ≠ 0 → back.channelId = toAsciiLowercase channelId →
      eqIgnoreAsciiCase back.pubkey pubkey = true →
      ∀ name rec, reg.names.lookup name = some rec → rec.isCurrent = true → rec.abandoned now = false →
        confusableKey env name = confusableKey env target → rec.channelId = toAsciiLowercase channelId
  | _ => True

section Lookups
variable {env : Env} {reg : ChannelRegistry} {source target name id : Chars} {old rec : ChannelNameRecord} {now : Int}
variable {isPrivate : Bool} {display : Chars}

def renamed (old : ChannelNameRecord) (display : Chars) (isPrivate : Bool) (now : Int) : ChannelNameRecord :=
  { old with isPrivate, deleted := false, display, refreshedAt := now, retiredAt := 0, renamedAt := now }

theorem lookup_applyRename (held : reg.names.lookup source = some old) :
    (reg.applyRename env source target display isPrivate now).names.lookup name =
      if name = target then some (renamed old display isPrivate now)
      else if name = source then some { old with retiredAt := now } else reg.names.lookup name := by
  unfold applyRename
  rw [held]
  dsimp only
  split
  · rw [lookup_setName,lookup_setName]
    rfl
  · rw [lookup_insertName,lookup_setName]
    rfl

theorem deleted_applyRename : (reg.applyRename env source target display isPrivate now).deleted = reg.deleted := by
  unfold applyRename
  split
  · rfl
  · dsimp only
    split <;> rfl

theorem lookup_markDeleted : (reg.markDeleted source).names.lookup name =
    if name = source then (reg.names.lookup name).map fun rec => { rec with deleted := true } else reg.names.lookup name := by
  unfold markDeleted
  by_cases same : name = source
  · subst same
    rw [if_pos rfl]
    cases held : reg.names.lookup name with
    | none => exact held
    | some rec =>
      rw [lookup_setName,if_pos rfl]
      rfl
  · rw [if_neg same]
    split
    · rfl
    · simp [if_neg same]

theorem deleted_markDeleted : (reg.markDeleted source).deleted = reg.deleted := by
  unfold markDeleted
  split <;> rfl

theorem markDeleteds (names : List Chars) (reg : ChannelRegistry) :
    (names.foldl markDeleted reg).deleted = reg.deleted ∧
      ∀ name, (names.foldl markDeleted reg).names.lookup name =
        (reg.names.lookup name).map fun rec => if name ∈ names then { rec with deleted := true } else rec := by
  induction names generalizing reg with
  | nil => simp
  | cons first rest ih =>
    obtain ⟨same,held⟩ := ih (reg.markDeleted first)
    refine ⟨same.trans deleted_markDeleted,fun name => ?_⟩
    rw [foldl_cons,held,lookup_markDeleted]
    cases reg.names.lookup name with
    | none => simp
    | some rec =>
      by_cases own : name = first
      · by_cases again : name ∈ rest <;> simp [own]
      · by_cases again : name ∈ rest <;> simp [own]

def buriedAs (id : Chars) (rec : ChannelNameRecord) : ChannelNameRecord :=
  if rec.channelId = id then { rec with deleted := true } else rec

theorem lookup_bury (indexed : Indexed env reg) : (reg.bury id).names.lookup name = (reg.names.lookup name).map (buriedAs id) := by
  rw [bury,(markDeleteds ..).2]
  cases held : reg.names.lookup name with
  | none => rfl
  | some rec =>
    have listed : name ∈ reg.namesOfChannel id ↔ rec.channelId = id := by
      rw [namesOfChannel,indexed.channels.mem,channelOf,held,map_some,indexed.ids held,Option.some.injEq]
    simp [buriedAs,listed]

theorem bury_current (indexed : Indexed env reg) (held : (reg.bury id).names.lookup name = some rec) (current : rec.isCurrent = true) :
    reg.names.lookup name = some rec ∧ rec.channelId ≠ id := by
  rw [lookup_bury indexed] at held
  obtain ⟨rec₀,found,rfl⟩ := map_eq_some_iff.1 held
  unfold buriedAs at current ⊢
  split at current
  · simp [ChannelNameRecord.isCurrent] at current
  next apart => exact ⟨by rw [if_neg apart,found],by rwa [if_neg apart]⟩

theorem deleted_bury : (reg.bury id).deleted = insert id reg.deleted := by
  rw [bury,(markDeleteds ..).1]

end Lookups

section Kept
variable {env : Env} {reg reg' : ChannelRegistry} {now : Int} {r : Request} {surplus : List Chars}
  {allowed : ChannelRegistry → Event → Prop} {start : ChannelRegistry} {events : List Event} {e : Event}

theorem Indexed.applyRename (indexed : Indexed env reg) {source target pubkey : Chars} {old : ChannelNameRecord}
    (held : reg.names.lookup source = some old) (free : Open env reg target old pubkey) (other : source ≠ target)
    {display : Chars} {isPrivate : Bool} : Indexed env (reg.applyRename env source target display isPrivate now) := by
  have retired : Indexed env (reg.setName source { old with retiredAt := now }) := indexed.setName held rfl
  unfold ChannelRegistry.applyRename
  rw [held]
  dsimp only
  cases free with
  | fresh absent _ room =>
    have free : (reg.setName source { old with retiredAt := now }).names.lookup target = none := by
      rw [lookup_setName,if_neg other.symm,absent]
    have space : (reg.setName source { old with retiredAt := now }).names.size < maxChannelNames :=
      (size_insert_bound _ held).trans_lt room
    rw [free]
    have lower := indexed.ids held
    exact retired.insertName free lower space
  | @back rec found _ _ same _ =>
    have found' : (reg.setName source { old with retiredAt := now }).names.lookup target = some rec := by
      rw [lookup_setName,if_neg other.symm,found]
    rw [found']
    exact retired.setName found' same.symm

theorem Indexed.bury (indexed : Indexed env reg) {id : Chars} : Indexed env (reg.bury id) := by
  have marked : Indexed env ((reg.namesOfChannel id).foldl ChannelRegistry.markDeleted reg) := by
    generalize reg.namesOfChannel id = names
    induction names generalizing reg with
    | nil => exact indexed
    | cons first rest ih => exact ih indexed.markDeleted
  exact { marked with }

theorem Deed.indexed (deed : Deed env now r reg reg') (indexed : Indexed env reg) : Indexed env reg' := by
  cases deed with
  | idle => exact indexed
  | active => exact { indexed with }
  | takeUsername _ free handless lower room =>
    refine { indexed with handles := indexed.handles.insert free handless, keys := ?_, usernames_le := ?_ }
    · intro name pk found
      rw [lookup_insert_ite] at found
      split at found
      · exact some.inj found ▸ lower
      · exact indexed.keys found
    · exact (size_insert_le _).trans room
  | refresh _ _ _ held _ => exact indexed.setName held rfl
  | bind _ fresh _ _ _ lower _ _ room => exact indexed.insertName fresh lower room
  | rename display held _ _ _ other _ _ _ free => exact indexed.applyRename held free other
  | nominate _ _ held _ _ => exact indexed.setName held rfl
  | handOver held => exact indexed.handOver held toAsciiLowercase_idem
  | bury => exact indexed.bury
  | close => exact { indexed with }

theorem Freed.indexed (freed : Relation.ReflTransGen (Free env surplus) reg reg') (indexed : Indexed env reg) : Indexed env reg' := by
  induction freed with
  | refl => exact indexed
  | tail _ free ih =>
    cases free with
    | drop => exact ih.removeName

theorem Served.indexed (served : Served env now r surplus reg reg') (indexed : Indexed env reg) : Indexed env reg' := by
  obtain ⟨swept,done,_,before,deed,after⟩ := served
  exact Freed.indexed after (deed.indexed (Swept.indexed before indexed))

theorem Step.indexed (step : Step env reg e reg') (indexed : Indexed env reg) : Indexed env reg' := by
  cases step with
  | request now r => exact (serve_served indexed).indexed indexed
  | fromParts _ saved => exact (fromParts_spec indexed saved false).1
  | load now saved => exact (fromParts_spec indexed saved false).1.grandfather

theorem Run.indexed (run : Run env allowed start events reg) (indexed : Indexed env start) : Indexed env reg := by
  induction run with
  | nil => exact indexed
  | snoc _ _ step ih => exact step.indexed ih

theorem inMemory_indexed : Indexed env (inMemory env) := Indexed.empty env false

/-- A registry read back: its names as they were, or old files' times filled in. -/
structure Renewed (now : Int) (reg reg' : ChannelRegistry) : Prop where
  deleted : reg'.deleted = reg.deleted
  names : (∀ name, reg'.names.lookup name = reg.names.lookup name) ∨
    ∀ name, reg'.names.lookup name = (reg.names.lookup name).map (stamped now)

theorem Renewed.lessened (renewed : Renewed now reg reg') : Lessened reg reg' := by
  intro name rec' held
  rcases renewed.names with same | filled
  · exact ⟨rec',rec'.refreshedAt,(same name).symm.trans held,rfl⟩
  obtain ⟨rec,found,rfl⟩ := map_eq_some_iff.1 ((filled name).symm.trans held)
  obtain ⟨t,shape⟩ := stamped_eq now rec
  exact ⟨rec,t,found,shape⟩

theorem Step.cases (step : Step env reg e reg') (indexed : Indexed env reg) :
    (∃ now r, e = .request now r ∧ reg' = (reg.serve env now r).1 ∧ Served env now r (reg.surplusReleased env now r) reg reg') ∨
      ∃ now, e = .reload now ∧ Renewed now reg reg' := by
  cases step with
  | request now r => exact .inl ⟨now,r,rfl,rfl,serve_served indexed⟩
  | fromParts now saved =>
    obtain ⟨_,same,buried⟩ := fromParts_spec indexed saved false
    exact .inr ⟨now,rfl,buried,.inl same⟩
  | load now saved =>
    obtain ⟨_,same,buried⟩ := fromParts_spec indexed saved false
    refine .inr ⟨now,rfl,buried,.inr fun name => ?_⟩
    simp [same]

end Kept

section OneCurrent
variable {env : Env} {reg reg' : ChannelRegistry} {now : Int} {r : Request} {surplus : List Chars} {e : Event}

theorem OneCurrent.less (one : OneCurrent reg) (less : Lessened reg reg') : OneCurrent reg' := by
  intro name name' _ _ held held' current current' same
  obtain ⟨rec,t,found,rfl⟩ := less held
  obtain ⟨rec',t',found',rfl⟩ := less held'
  have equal := one found found' current current' same
  exact equal

theorem currents_setName {name : Chars} {rec old : ChannelNameRecord} (held : reg.names.lookup name = some old)
    (current : old.isCurrent = true) (room : old.channelId = rec.channelId) ⦃x : Chars⦄ ⦃rec' : ChannelNameRecord⦄
    (found : (reg.setName name rec).names.lookup x = some rec') (now' : rec'.isCurrent = true) :
    ∃ old, reg.names.lookup x = some old ∧ old.isCurrent = true ∧ old.channelId = rec'.channelId := by
  rw [lookup_setName] at found
  split at found
  next same =>
    obtain rfl := some.inj found
    exact ⟨old,same ▸ held,current,room⟩
  next => exact ⟨rec',found,now',rfl⟩

section
variable (deed : Deed env now r reg reg') (indexed : Indexed env reg) (positive : 0 < now) (one : OneCurrent reg)
include deed indexed positive one

/-- Where current names come from: they were current before, for the same room, or a room takes one name and every other
one stays, is another room's and, unless a name is taken back, looks different. -/
theorem Deed.currents : (∀ ⦃x rec⦄, reg'.names.lookup x = some rec → rec.isCurrent = true →
      ∃ old, reg.names.lookup x = some old ∧ old.isCurrent = true ∧ old.channelId = rec.channelId) ∨
    ∃ id target, (∀ ⦃rec⦄, reg'.names.lookup target = some rec → rec.channelId = id) ∧
      ∀ ⦃x rec⦄, reg'.names.lookup x = some rec → rec.isCurrent = true → x ≠ target →
        reg.names.lookup x = some rec ∧ rec.channelId ≠ id ∧
          (Distinct env reg → Unmistaken env reg (.request now r) → confusableKey env x ≠ confusableKey env target) := by
  have kept (same : reg'.names = reg.names) ⦃x rec⦄ (found : reg'.names.lookup x = some rec) current :
      ∃ old, reg.names.lookup x = some old ∧ old.isCurrent = true ∧ old.channelId = rec.channelId :=
    ⟨rec,same ▸ found,current,rfl⟩
  cases deed with
  | idle => exact .inl (kept rfl)
  | active => exact .inl (kept rfl)
  | takeUsername => exact .inl (kept rfl)
  | close => exact .inl (kept rfl)
  | refresh _ _ _ held current => exact .inl (currents_setName held current rfl)
  | nominate _ _ held current _ => exact .inl (currents_setName held current rfl)
  | bury => exact .inl fun x rec found current => ⟨rec,(bury_current indexed found current).1,current,rfl⟩
  | @bind _ _ name rec _ alone unlike =>
    refine .inr ⟨rec.channelId,name,fun rec' found => ?_,fun x rec' found current other => ?_⟩
    · rw [lookup_insertName,if_pos rfl] at found
      exact congrArg _ (some.inj found).symm
    rw [lookup_insertName,if_neg other] at found
    have apart : rec'.channelId ≠ rec.channelId := fun same => by simp [alone found same] at current
    exact ⟨found,apart,fun _ _ like => apart (unlike found like)⟩
  | @rename _ channelId _ _ _ source target old display held current room _ other named _ reaped free =>
    refine .inr ⟨old.channelId,target,fun rec' found => ?_,fun x rec' found current' apart => ?_⟩
    · rw [lookup_applyRename held,if_pos rfl] at found
      obtain rfl := some.inj found
      rfl
    rw [lookup_applyRename held,if_neg apart] at found
    split at found
    · obtain rfl := some.inj found
      simp only [ChannelNameRecord.isCurrent,Bool.and_eq_true,beq_iff_eq] at current'
      omega
    next away =>
    have apart : rec'.channelId ≠ old.channelId := fun same => away (one found held current' current same)
    refine ⟨found,apart,fun _ unmistaken like => apart ?_⟩
    cases free with
    | fresh _ unlike _ => exact unlike found like
    | @back back held' alive retired same owner =>
      exact (unmistaken target back named held' alive retired (same.trans room) owner x rec' found current' (reaped found like)
        like).trans room.symm
  | @handOver _ _ newId _ _ name rec held current _ alone =>
    refine .inr ⟨toAsciiLowercase newId,name,fun rec' found => ?_,fun x rec' found current' other => ?_⟩
    · rw [ChannelRegistry.handOver,lookup_insert] at found
      exact congrArg ChannelNameRecord.channelId (some.inj found).symm
    rw [ChannelRegistry.handOver,lookup_insert_ne other] at found
    refine ⟨found,fun same => by simp [alone found same] at current',fun distinct _ like => other ?_⟩
    -- the room that gives the name up had no other current one to look like it
    exact one found held current' current (distinct found held current' current like)

theorem Deed.oneCurrent : OneCurrent reg' := by
  intro name name' rec rec' held held' current current' same
  obtain kept | ⟨id,target,own,others⟩ := deed.currents indexed positive one
  · obtain ⟨old,found,was,room⟩ := kept held current
    obtain ⟨old',found',was',room'⟩ := kept held' current'
    exact one found found' was was' (room.trans (same.trans room'.symm))
  by_cases first : name = target
  · by_cases second : name' = target
    · rw [first,second]
    · exact absurd (same.symm.trans (own (first ▸ held))) (others held' current' second).2.1
  obtain ⟨old,apart,_⟩ := others held current first
  by_cases second : name' = target
  · exact absurd (same.trans (own (second ▸ held'))) apart
  · exact one old (others held' current' second).1 current current' same

end

theorem Freed.lessened (freed : Relation.ReflTransGen (Free env surplus) reg reg') : Lessened reg reg' := by
  induction freed with
  | refl => exact .refl
  | tail _ free ih =>
    apply ih.trans
    cases free with
    | drop => exact fun name rec held => Lessened.refl (held_removeName held).2

theorem Served.oneCurrent (served : Served env now r surplus reg reg') (indexed : Indexed env reg) (positive : 0 < now)
    (one : OneCurrent reg) : OneCurrent reg' := by
  obtain ⟨swept,done,_,before,deed,after⟩ := served
  have swept' := one.less (Swept.lessened before)
  exact (deed.oneCurrent (Swept.indexed before indexed) positive swept').less (Freed.lessened after)

theorem Step.oneCurrent (step : Step env reg e reg') (indexed : Indexed env reg) (positive : 0 < e.now) (one : OneCurrent reg) :
    OneCurrent reg' := by
  obtain ⟨now,r,rfl,_,served⟩ | ⟨now,rfl,renewed⟩ := step.cases indexed
  · exact served.oneCurrent indexed positive one
  · exact one.less renewed.lessened

/-- After any requests and reloads at positive times, the indexes say what is on record and a room has one current name. -/
theorem registry_indexed {events : List Event} (run : Run env (fun _ e => 0 < e.now) (inMemory env) events reg) :
    Indexed env reg ∧ OneCurrent reg := by
  induction run with
  | nil => exact ⟨inMemory_indexed,fun _ _ _ _ held => by cases held⟩
  | snoc _ positive step ih => exact ⟨step.indexed ih.1,step.oneCurrent ih.1 positive ih.2⟩

end OneCurrent

variable (c : Char) (env : Env) (reg : ChannelRegistry)

def saved : RegistryFile :=
  { usernames := reg.usernames, names := reg.names, deleted := reg.deleted, usernameActivity := reg.usernameActivity }

theorem saved_saved : Saved reg reg.saved := ⟨.refl _,.refl _,rfl,.refl _⟩

def plainEnv : Env where
  lowercase := toAsciiLowercase
  skeleton := List.map fun c => if c = '0' then 'O' else if c = '1' then 'l' else c
  channelIdOfKey _ := none

def roomId : Chars := List.replicate 32 c
def roomKey : Chars := List.replicate 64 c

def serveAll (requests : List (Int × Request)) : ChannelRegistry :=
  requests.foldl (fun reg q => (reg.serve env q.1 q.2).1) reg

theorem run_serveAll {allowed : ChannelRegistry → Event → Prop} {start : ChannelRegistry}
    {requests : List (Int × Request)} (fine : ∀ reg, ∀ q ∈ requests, allowed reg (.request q.1 q.2)) :
    Run env allowed start (requests.map fun q => .request q.1 q.2) (start.serveAll env requests) := by
  induction requests using List.reverseRecOn with
  | nil => exact .nil
  | append_singleton rest last ih =>
    rw [map_append,serveAll,foldl_append]
    apply Run.snoc (ih fun reg q member => fine reg q (mem_append_left _ member))
    · exact fine _ last (by simp)
    · exact .request ..

theorem registry_indexed_reloaded :
    let renamed := (inMemory plainEnv).serveAll plainEnv
      [(1,.claimUsername (roomKey 'a') "ada".toList),(2,.claimChannelName (roomId 'a') (roomKey 'a') "lobby".toList false),
        (3,.renameChannelName (roomId 'a') (roomKey 'a') "1obby".toList false)]
    let loaded := fromParts plainEnv renamed.saved false
    renamed.names.size = 2 ∧ Indexed plainEnv loaded ∧ OneCurrent loaded := by
  refine ⟨by decide +kernel,registry_indexed (.snoc (run_serveAll plainEnv ?_) ?_ (.fromParts 4 (saved_saved _)))⟩
  · intro _ q member
    simp only [mem_cons,not_mem_nil,or_false] at member
    rcases member with rfl | rfl | rfl <;> decide
  · decide

end ChannelRegistry
end Ember.Rendezvous
