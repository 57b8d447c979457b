import Ember.Rendezvous.Runs

/-! How long a room keeps a name: only its own key, or its nominee once the owner was silent, takes a current name from it,
and a retired name stays its own until the hold is over. -/
namespace Ember.Rendezvous
open List Option AList
open Ember.Search (Chars)

def Request.key : Request → Option Chars
  | .claimUsername pubkey _ | .claimChannelName _ pubkey .. | .renameChannelName _ pubkey .. | .setChannelNominee _ pubkey ..
  | .deleteChannel _ pubkey => some pubkey
  | .handoverChannelName _ _ _ signer => some signer
  | .reapStale | .closeForShutdown => none

def Request.presents (r : Request) (rec : ChannelNameRecord) : Prop :=
  ∃ key, r.key = some key ∧ eqIgnoreAsciiCase rec.pubkey key = true

namespace ChannelRegistry

/-- A handover of the room, signed by its nominee once the owner was silent for long enough. -/
def Inherits (rec : ChannelNameRecord) (now : Int) : Request → Prop
  | .handoverChannelName oldId _ _ signer => toAsciiLowercase oldId = rec.channelId ∧ byNominee rec (toAsciiLowercase signer) now = true
  | _ => False

/-- A rename, deletion or handover of the room with its own key. -/
def Disposes (rec : ChannelNameRecord) : Request → Prop
  | .renameChannelName channelId pubkey .. | .deleteChannel channelId pubkey | .handoverChannelName channelId _ _ pubkey =>
    toAsciiLowercase channelId = rec.channelId ∧ eqIgnoreAsciiCase rec.pubkey pubkey = true
  | _ => False

structure Bound (rec rec' : ChannelNameRecord) : Prop where
  current : rec'.isCurrent = true
  channelId : rec'.channelId = rec.channelId
  pubkey : rec'.pubkey = rec.pubkey

section Current
variable {env : Env} {reg reg' : ChannelRegistry} {now : Int} {r : Request} {surplus : List Chars} {name : Chars}
  {rec : ChannelNameRecord}

theorem Bound.refl (current : rec.isCurrent = true) : Bound rec rec := ⟨current,rfl,rfl⟩

theorem not_retired (current : rec.isCurrent = true) : rec.retiredAt = 0 := by
  simp only [ChannelNameRecord.isCurrent,Bool.and_eq_true,beq_iff_eq] at current
  exact current.2

def KeptAt (reg : ChannelRegistry) (name : Chars) (rec : ChannelNameRecord) (now : Int) : Prop :=
  ∃ t, reg.names.lookup name = some { rec with refreshedAt := t } ∧ ChannelNameRecord.abandoned { rec with refreshedAt := t } now = false

theorem Sweep.keeps (sweep : Sweep env now reg reg') (held : reg.names.lookup name = some rec) (fine : rec.abandoned now = false) :
    KeptAt reg' name rec now := by
  cases sweep with
  | @reap _ rec' held' old =>
    refine ⟨rec.refreshedAt,?_,fine⟩
    rw [lookup_removeName,if_neg]
    · exact held
    rintro rfl
    obtain rfl := some.inj (held.symm.trans held')
    rw [fine] at old
    cases old
  | grandfather =>
    obtain ⟨t,shape⟩ := stamped_eq now rec
    refine ⟨t,?_,?_⟩
    · rw [lookup_grandfather,held,map_some,shape]
    · rw [← shape,abandoned_stamped,fine]
  | releaseUsername =>
    refine ⟨rec.refreshedAt,?_,fine⟩
    rw [names_releaseUsername]
    exact held
  | dropHandle =>
    refine ⟨rec.refreshedAt,?_,fine⟩
    rw [names_dropHandle]
    exact held

theorem Swept.keeps (swept : Swept env now reg reg') (held : reg.names.lookup name = some rec) (fine : rec.abandoned now = false) :
    KeptAt reg' name rec now := by
  induction swept with
  | refl => exact ⟨rec.refreshedAt,held,fine⟩
  | tail _ sweep ih =>
    obtain ⟨t,held',fine'⟩ := ih
    obtain ⟨t',held'',fine''⟩ := sweep.keeps held' fine'
    exact ⟨t',held'',fine''⟩

theorem Deed.keeps (deed : Deed env now r reg reg') (indexed : Indexed env reg) (held : reg.names.lookup name = some rec)
    (current : rec.isCurrent = true) (own : ¬ Disposes rec r) (heir : ¬ Inherits rec now r) :
    ∃ rec', reg'.names.lookup name = some rec' ∧ Bound rec rec' ∧
      (¬ r.presents rec → rec'.nominee = rec.nominee ∧ rec'.claimAfterDays = rec.claimAfterDays) := by
  have same : ∀ {reg' : ChannelRegistry}, reg'.names.lookup name = some rec → ∃ rec', reg'.names.lookup name = some rec' ∧
      Bound rec rec' ∧ (¬ r.presents rec → rec'.nominee = rec.nominee ∧ rec'.claimAfterDays = rec.claimAfterDays) :=
    fun held => ⟨rec,held,.refl current,fun _ => ⟨rfl,rfl⟩⟩
  cases deed with
  | idle => exact same held
  | active => exact same held
  | takeUsername => exact same held
  | close => exact same held
  | @refresh _ _ other rec' isPrivate display held' current' =>
    by_cases own : name = other
    · subst own
      obtain rfl := some.inj (held.symm.trans held')
      exact ⟨_,lookup_setName.trans (if_pos rfl),⟨current,rfl,rfl⟩,fun _ => ⟨rfl,rfl⟩⟩
    · exact same (by rw [lookup_setName,if_neg own,held])
  | @bind _ _ other _ fresh =>
    apply same
    rw [lookup_insertName,if_neg]
    · exact held
    rintro rfl
    rw [held] at fresh
    cases fresh
  | @rename _ channelId pubkey _ _ source target old display held' _ room owner _ _ _ _ free =>
    apply same
    rw [lookup_applyRename held',if_neg,if_neg]
    · exact held
    · rintro rfl
      obtain rfl := some.inj (held.symm.trans held')
      exact own ⟨room.symm,owner⟩
    · rintro rfl
      cases free with
      | fresh absent => rw [held] at absent; cases absent
      | back found _ retired =>
        obtain rfl := some.inj (held.symm.trans found)
        exact retired (not_retired current)
  | @nominate _ channelId pubkey _ _ other rec' nominee days held' _ owner =>
    by_cases own : name = other
    · subst own
      obtain rfl := some.inj (held.symm.trans held')
      exact ⟨_,lookup_setName.trans (if_pos rfl),⟨current,rfl,rfl⟩,fun foreign => absurd ⟨pubkey,rfl,owner⟩ foreign⟩
    · exact same (by rw [lookup_setName,if_neg own,held])
  | @handOver _ oldId newId _ signer other rec' held' _ room _ _ _ _ authority =>
    apply same
    rw [ChannelRegistry.handOver,lookup_insert_ne]
    · exact held
    rintro rfl
    obtain rfl := some.inj (held.symm.trans held')
    rw [Bool.or_eq_true] at authority
    rcases authority with owner | nominee
    · exact own ⟨room.symm,owner⟩
    · exact heir ⟨room.symm,nominee⟩
  | @bury _ channelId pubkey owner =>
    apply same
    rw [lookup_bury indexed,held,map_some,buriedAs,if_neg]
    intro room
    exact own ⟨room.symm,owner held room⟩

theorem Freed.keeps (freed : Relation.ReflTransGen (Free env surplus) reg reg') (held : reg.names.lookup name = some rec)
    (current : rec.isCurrent = true) : reg'.names.lookup name = some rec := by
  induction freed with
  | refl => exact held
  | tail _ free ih =>
    cases free with
    | drop found _ _ retired =>
      rw [lookup_removeName,if_neg]
      · exact ih
      rintro rfl
      obtain rfl := some.inj (ih.symm.trans found)
      have := not_retired current
      omega

theorem serve_keeps (indexed : Indexed env reg) (held : reg.names.lookup name = some rec) (current : rec.isCurrent = true)
    (fine : rec.abandoned now = false) (own : ¬ Disposes rec r) (heir : ¬ Inherits rec now r) :
    ∃ rec', (reg.serve env now r).1.names.lookup name = some rec' ∧ Bound rec rec' ∧
      (¬ r.presents rec → rec'.nominee = rec.nominee ∧ rec'.claimAfterDays = rec.claimAfterDays) := by
  have served : Served env now r _ reg _ := serve_served indexed
  obtain ⟨swept,done,still,before,deed,after⟩ := served
  obtain ⟨t,held',_⟩ := Swept.keeps before held fine
  -- only a handover asks how long the owner has been silent, and a handover sweeps nothing
  have heir' : ¬ Inherits { rec with refreshedAt := t } now r := by
    intro inherits
    have quiet : r.sweeps = false := by
      cases r with
      | handoverChannelName => rfl
      | _ => cases inherits
    have same : { rec with refreshedAt := t } = rec := some.inj ((still quiet ▸ held').symm.trans held)
    rw [same] at inherits
    exact heir inherits
  have own' : ¬ Disposes { rec with refreshedAt := t } r := by cases r <;> exact own
  obtain ⟨rec',found,bound,nominee⟩ := deed.keeps (Swept.indexed before indexed) held' current own' heir'
  exact ⟨rec',Freed.keeps after found bound.current,{ bound with },nominee⟩

theorem Renewed.keeps (renewed : Renewed now reg reg') (held : reg.names.lookup name = some rec) :
    ∃ t, reg'.names.lookup name = some { rec with refreshedAt := t } := by
  rcases renewed.names with same | filled
  · exact ⟨rec.refreshedAt,(same name).trans held⟩
  obtain ⟨t,shape⟩ := stamped_eq now rec
  refine ⟨t,?_⟩
  rw [filled,held,map_some,shape]

end Current

variable (env : Env) (name : Chars) (rec : ChannelNameRecord) (reg : ChannelRegistry)

/-- At each request the name has not expired, and its room is neither disposed of nor inherited. -/
def Undisturbed : Event → Prop
  | .request now r => ∀ rec, reg.names.lookup name = some rec →
      rec.abandoned now = false ∧ ¬ Disposes rec r ∧ ¬ Inherits rec now r
  | .reload _ => True

/-- At each request the name is not current, so its room has not taken it back, and it is not freed as surplus. -/
def StaysRetired (e : Event) : Prop :=
  (∀ rec, reg.names.lookup name = some rec → rec.isCurrent = false) ∧
    ∀ now r, e = .request now r → name ∉ reg.surplusReleased env now r

/-- A name on record as its room retired it, or deleted since. -/
def Reserved (name : Chars) (rec : ChannelNameRecord) : Prop :=
  ∃ rec', reg.names.lookup name = some rec' ∧ rec'.channelId = rec.channelId ∧ rec'.pubkey = rec.pubkey ∧
    (rec'.deleted = true ∨ rec'.retiredAt = rec.retiredAt)

/-- The room has taken the name back. -/
def Regained (name : Chars) (rec : ChannelNameRecord) : Prop :=
  ∃ rec', reg.names.lookup name = some rec' ∧ rec'.isCurrent = true ∧ rec'.channelId = rec.channelId

section Retired
variable {env : Env} {reg reg' : ChannelRegistry} {now : Int} {r : Request} {surplus : List Chars} {name : Chars}
  {rec : ChannelNameRecord}

theorem Reserved.same (reserved : Reserved reg name rec) (same : reg'.names.lookup name = reg.names.lookup name) :
    Reserved reg' name rec := by
  obtain ⟨rec',held,facts⟩ := reserved
  exact ⟨rec',same.trans held,facts⟩

section
variable {rec' : ChannelNameRecord} (reserved : Reserved reg name rec) (retired : 0 < rec.retiredAt)
include reserved retired

theorem Reserved.not_current (held : reg.names.lookup name = some rec') : rec'.isCurrent = false := by
  obtain ⟨rec'',held',_,_,gone⟩ := reserved
  obtain rfl := some.inj (held.symm.trans held')
  rcases gone with deleted | old
  · simp [ChannelNameRecord.isCurrent,deleted]
  · have later : rec'.retiredAt ≠ 0 := by omega
    simp [ChannelNameRecord.isCurrent,later]

theorem Reserved.other {name' : Chars}
    (held : reg.names.lookup name' = some rec') (current : rec'.isCurrent = true) : name ≠ name' := by
  rintro rfl
  rw [reserved.not_current retired held] at current
  cases current

end

theorem Sweep.reserved (sweep : Sweep env now reg reg') (retired : 0 < rec.retiredAt) (reserved : Reserved reg name rec) :
    Reserved reg' name rec ∨ retiredNameHoldSecs < now-rec.retiredAt := by
  cases sweep with
  | @reap gone rec' held old =>
    by_cases own : name = gone
    · subst own
      right
      obtain ⟨rec'',held',_,_,facts⟩ := reserved
      obtain rfl := some.inj (held.symm.trans held')
      unfold ChannelNameRecord.abandoned at old
      rcases facts with deleted | same
      · simp [deleted] at old
      split at old
      · cases old
      · rw [same,if_pos retired] at old
        exact of_decide_eq_true old
    · exact .inl (reserved.same (by simp [if_neg own]))
  | grandfather =>
    obtain ⟨rec',held,id,pk,facts⟩ := reserved
    obtain ⟨t,shape⟩ := stamped_eq now rec'
    exact .inl ⟨{ rec' with refreshedAt := t },by rw [lookup_grandfather,held,map_some,shape],id,pk,facts⟩
  | releaseUsername => exact .inl (reserved.same (by simp))
  | dropHandle => exact .inl (reserved.same (by simp))

theorem Swept.reserved (swept : Swept env now reg reg') (retired : 0 < rec.retiredAt) (reserved : Reserved reg name rec) :
    Reserved reg' name rec ∨ retiredNameHoldSecs < now-rec.retiredAt := by
  induction swept with
  | refl => exact .inl reserved
  | tail _ sweep ih =>
    rcases ih with reserved | beyond
    · exact sweep.reserved retired reserved
    · exact .inr beyond

theorem Deed.reserved (deed : Deed env now r reg reg') (indexed : Indexed env reg) (retired : 0 < rec.retiredAt)
    (reserved : Reserved reg name rec) : Reserved reg' name rec ∨ Regained reg' name rec := by
  cases deed with
  | idle => exact .inl reserved
  | active => exact .inl reserved
  | takeUsername => exact .inl reserved
  | close => exact .inl reserved
  | refresh _ _ _ held current => exact .inl <| reserved.same (by simp [if_neg (reserved.other retired held current)])
  | bind _ fresh =>
    refine .inl (reserved.same ?_)
    rw [lookup_insertName,if_neg]
    rintro rfl
    obtain ⟨_,held,_⟩ := reserved
    rw [held] at fresh
    cases fresh
  | @rename _ _ _ _ _ source target old display held current _ _ _ _ _ _ free =>
    by_cases own : name = target
    · subst own
      obtain ⟨rec',held',id,_⟩ := reserved
      cases free with
      | fresh absent => rw [held'] at absent; cases absent
      | back found _ _ same =>
        obtain rfl := some.inj (found.symm.trans held')
        exact .inr ⟨_,(lookup_applyRename held).trans (if_pos rfl),rfl,same.symm.trans id⟩
    · refine .inl (reserved.same ?_)
      rw [lookup_applyRename held,if_neg own,if_neg (reserved.other retired held current)]
  | nominate _ _ held current => exact .inl <| reserved.same (by simp [if_neg (reserved.other retired held current)])
  | handOver held current =>
    refine .inl (reserved.same ?_)
    rw [ChannelRegistry.handOver,lookup_insert_ne (reserved.other retired held current)]
  | bury =>
    obtain ⟨rec',held,id,pk,facts⟩ := reserved
    refine .inl ⟨buriedAs _ rec',by rw [lookup_bury indexed,held,map_some],?_⟩
    unfold buriedAs
    split
    · exact ⟨id,pk,.inl rfl⟩
    · exact ⟨id,pk,facts⟩

theorem Freed.reserved (freed : Relation.ReflTransGen (Free env surplus) reg reg') (kept : name ∉ surplus)
    (reserved : Reserved reg name rec) : Reserved reg' name rec := by
  induction freed with
  | refl => exact reserved
  | tail _ free ih =>
    cases free with
    | drop _ listed =>
      apply ih.same
      rw [lookup_removeName,if_neg]
      rintro rfl
      exact kept listed

theorem Step.reserved {e : Event} (step : Step env reg e reg') (indexed : Indexed env reg) (retired : 0 < rec.retiredAt)
    (stays : StaysRetired env name reg e) (reserved : Reserved reg name rec) :
    Reserved reg' name rec ∨ Regained reg' name rec ∨ retiredNameHoldSecs < e.now-rec.retiredAt := by
  obtain ⟨now,r,rfl,_,swept,done,_,before,deed,after⟩ | ⟨now,rfl,renewed⟩ := step.cases indexed
  · rcases Swept.reserved before retired reserved with reserved | beyond
    · rcases deed.reserved (Swept.indexed before indexed) retired reserved with reserved | ⟨rec',held,current,same⟩
      · exact .inl (Freed.reserved after (stays.2 now r rfl) reserved)
      · exact .inr (.inl ⟨rec',Freed.keeps after held current,current,same⟩)
    · exact .inr (.inr beyond)
  obtain ⟨rec',held,facts⟩ := reserved
  obtain ⟨t,held'⟩ := renewed.keeps held
  exact .inl ⟨_,held',facts⟩

end Retired

section Dated
variable {env : Env} {reg reg' : ChannelRegistry} {now : Int} {r : Request}

def Dated (reg : ChannelRegistry) : Prop := ∀ ⦃name rec⦄, reg.names.lookup name = some rec → 0 ≤ rec.retiredAt

theorem Dated.less (dated : Dated reg) (less : Lessened reg reg') : Dated reg' := by
  intro name _ held
  obtain ⟨rec,t,found,rfl⟩ := less held
  have positive := dated found
  exact positive

theorem Dated.setName (dated : Dated reg) {name : Chars} {rec : ChannelNameRecord} (positive : 0 ≤ rec.retiredAt) :
    Dated (reg.setName name rec) := by
  intro x rec' held
  rw [lookup_setName] at held
  split at held
  · exact some.inj held ▸ positive
  · exact dated held

theorem Deed.dated (deed : Deed env now r reg reg') (indexed : Indexed env reg) (positive : 0 < now) (dated : Dated reg) : Dated reg' := by
  cases deed with
  | idle => exact dated
  | active => exact dated
  | takeUsername => exact dated
  | close => exact dated
  | refresh _ _ _ held _ =>
    have := dated held
    exact dated.setName this
  | bind _ _ _ _ _ _ _ fresh =>
    intro x rec' held
    rw [lookup_insertName] at held
    split at held
    · exact some.inj held ▸ fresh.ge
    · exact dated held
  | rename _ found =>
    intro x rec' held
    rw [lookup_applyRename found] at held
    split at held
    · obtain rfl := some.inj held
      exact le_rfl
    split at held
    · obtain rfl := some.inj held
      exact positive.le
    · exact dated held
  | nominate _ _ held _ =>
    have := dated held
    exact dated.setName this
  | handOver found =>
    intro x rec' held
    rw [ChannelRegistry.handOver,Table.lookup_insert_ite] at held
    split at held
    · have := dated found
      obtain rfl := some.inj held
      exact this
    · exact dated held
  | bury =>
    intro x rec' held
    rw [lookup_bury indexed] at held
    obtain ⟨rec,found,rfl⟩ := map_eq_some_iff.1 held
    have := dated found
    unfold buriedAs
    split <;> exact this

theorem Step.dated {e : Event} (step : Step env reg e reg') (indexed : Indexed env reg) (positive : 0 < e.now) (dated : Dated reg) :
    Dated reg' := by
  obtain ⟨now,r,rfl,_,swept,done,_,before,deed,after⟩ | ⟨now,rfl,renewed⟩ := step.cases indexed
  · have swept' := dated.less (Swept.lessened before)
    exact (deed.dated (Swept.indexed before indexed) positive swept').less (Freed.lessened after)
  · exact dated.less renewed.lessened

theorem registry_dated {events : List Event} (run : Run env (fun _ e => 0 < e.now) (inMemory env) events reg) :
    Indexed env reg ∧ Dated reg := by
  induction run with
  | nil => exact ⟨inMemory_indexed,fun _ _ held => (by cases held)⟩
  | snoc _ positive step ih => exact ⟨step.indexed ih.1,step.dated ih.1 positive ih.2⟩

end Dated

section Tenure
variable {env : Env} {reg reg' : ChannelRegistry} {name : Chars} {rec : ChannelNameRecord} {events : List Event}

theorem Run.bound (run : Run env (Undisturbed name) reg events reg') (indexed : Indexed env reg)
    (held : reg.names.lookup name = some rec) (current : rec.isCurrent = true) :
    ∃ rec', reg'.names.lookup name = some rec' ∧ Bound rec rec' := by
  induction run with
  | nil => exact ⟨rec,held,.refl current⟩
  | @snoc _ e mid _ before fine step ih =>
    obtain ⟨rec',held',bound⟩ := ih
    obtain ⟨now,r,rfl,rfl,_⟩ | ⟨now,rfl,renewed⟩ := step.cases (before.indexed indexed)
    · obtain ⟨alive,own,heir⟩ := fine rec' held'
      obtain ⟨rec'',held'',bound',_⟩ := serve_keeps (before.indexed indexed) held' bound.current alive own heir
      exact ⟨rec'',held'',bound'.current,bound'.channelId.trans bound.channelId,bound'.pubkey.trans bound.pubkey⟩
    · obtain ⟨t,held''⟩ := renewed.keeps held'
      exact ⟨_,held'',bound.current,bound.channelId,bound.pubkey⟩

theorem Run.reserved (run : Run env (StaysRetired env name) reg events reg') (indexed : Indexed env reg)
    (held : reg.names.lookup name = some rec) (retired : 0 < rec.retiredAt) :
    Reserved reg' name rec ∨ Regained reg' name rec ∨ ∃ e ∈ events, retiredNameHoldSecs < e.now-rec.retiredAt := by
  induction run with
  | nil => exact .inl ⟨rec,held,rfl,rfl,.inr rfl⟩
  | @snoc _ e _ _ before stays step ih =>
    rcases ih with reserved | ⟨rec',found,current,_⟩ | ⟨e',member,beyond⟩
    · rcases step.reserved (before.indexed indexed) retired stays reserved with kept | regained | beyond
      · exact .inl kept
      · exact .inr (.inl regained)
      · exact .inr (.inr ⟨e,by simp,beyond⟩)
    · -- a name taken back is current, which it may be at the end of the run only
      rw [stays.1 rec' found] at current
      cases current
    · exact .inr (.inr ⟨e',by simp [member],beyond⟩)

theorem le_last {e : Event} (ordered : (events.map Event.now).Pairwise (· ≤ ·)) (member : e ∈ events) :
    ∃ last, events.getLast? = some last ∧ e.now ≤ last.now := by
  induction events using List.reverseRecOn with
  | nil => cases member
  | append_singleton rest last _ =>
    refine ⟨last,by simp,?_⟩
    rw [map_append] at ordered
    rcases mem_append.1 member with earlier | own
    · exact (pairwise_append.1 ordered).2.2 _ (List.mem_map_of_mem earlier) _ (by simp)
    · rw [mem_singleton.1 own]

/-- A room keeps its current name until its own key or its nominee takes it away, no other key even changes its
nominee, and a name it retired is, while it stays retired, its own until the hold is over. -/
theorem name_kept (run : Run env (fun _ e => 0 < e.now) (inMemory env) events reg) (held : reg.names.lookup name = some rec) :
    (rec.isCurrent = true → ∀ later reg', Run env (Undisturbed name) reg later reg' →
      ∃ rec', reg'.names.lookup name = some rec' ∧ Bound rec rec') ∧
    (rec.isCurrent = true → ∀ now r, rec.abandoned now = false → ¬ r.presents rec → ¬ Inherits rec now r →
      ∃ rec', (reg.serve env now r).1.names.lookup name = some rec' ∧ Bound rec rec' ∧ rec'.nominee = rec.nominee ∧
        rec'.claimAfterDays = rec.claimAfterDays) ∧
    (rec.retiredAt ≠ 0 → ∀ later reg' rec', Run env (StaysRetired env name) reg later reg' →
      (later.map Event.now).Pairwise (· ≤ ·) → reg'.names.lookup name = some rec' → rec'.channelId ≠ rec.channelId →
      ∃ last, later.getLast? = some last ∧ retiredNameHoldSecs < last.now-rec.retiredAt) := by
  obtain ⟨indexed,dated⟩ := registry_dated run
  refine ⟨fun current later reg' further => further.bound indexed held current,?_,?_⟩
  · intro current now r fine foreign heir
    have own : ¬ Disposes rec r := by
      intro disposes
      cases r with
      | renameChannelName _ pubkey => exact foreign ⟨pubkey,rfl,disposes.2⟩
      | deleteChannel _ pubkey => exact foreign ⟨pubkey,rfl,disposes.2⟩
      | handoverChannelName _ _ _ signer => exact foreign ⟨signer,rfl,disposes.2⟩
      | _ => cases disposes
    obtain ⟨rec',held',bound,nominee⟩ := serve_keeps indexed held current fine own heir
    exact ⟨rec',held',bound,nominee foreign⟩
  · intro retired later reg' rec' further ordered held' elsewhere
    have positive : 0 < rec.retiredAt := by
      have := dated held
      omega
    rcases further.reserved indexed held positive with ⟨rec'',held'',same,_⟩ | ⟨rec'',held'',_,same⟩ | ⟨e,member,beyond⟩
    · obtain rfl := some.inj (held'.symm.trans held'')
      exact absurd same elsewhere
    · obtain rfl := some.inj (held'.symm.trans held'')
      exact absurd same elsewhere
    · obtain ⟨last,final,order⟩ := le_last ordered member
      exact ⟨last,final,by omega⟩

end Tenure

theorem name_kept_stranger :
    let requests : List (Int × Request) :=
      [(1,.claimChannelName (roomId 'a') (roomKey 'a') "lobby".toList false),
        (2,.renameChannelName (roomId 'a') (roomKey 'a') "hall".toList false)]
    let reg := (inMemory plainEnv).serveAll plainEnv requests
    ∃ rec rec', reg.names.lookup "hall".toList = some rec ∧
      (reg.serve plainEnv 3 (.deleteChannel (roomId 'a') (roomKey 'b'))).1.names.lookup "hall".toList = some rec' ∧
      Bound rec rec' ∧ rec'.nominee = rec.nominee := by
  intro requests reg
  have positive : ∀ q ∈ requests, 0 < q.1 := by decide +kernel
  have run : Run plainEnv (fun _ e => 0 < e.now) (inMemory plainEnv) _ reg :=
    run_serveAll plainEnv fun _ q member => positive q member
  have facts : (reg.names.lookup "hall".toList).any (fun rec =>
      rec.isCurrent && !rec.abandoned 3 && !eqIgnoreAsciiCase rec.pubkey (roomKey 'b')) = true := by decide +kernel
  obtain ⟨rec,held,facts⟩ := (Option.any_eq_true ..).1 facts
  simp only [Bool.and_eq_true,Bool.not_eq_true'] at facts
  obtain ⟨⟨current,fine⟩,other⟩ := facts
  have foreign : ¬ (Request.deleteChannel (roomId 'a') (roomKey 'b')).presents rec := by
    rintro ⟨key,shown,same⟩
    obtain rfl := some.inj shown
    rw [other] at same
    cases same
  obtain ⟨rec',held',bound,nominee,_⟩ := (name_kept run held).2.1 current 3 _ fine foreign id
  exact ⟨rec,rec',held,held',bound,nominee⟩

def retirement : List (Int × Request) :=
  [(1,.claimChannelName (roomId 'a') (roomKey 'a') "lobby".toList false),
    (2,.renameChannelName (roomId 'a') (roomKey 'a') "hall".toList false)]

def takingBack : Request := .renameChannelName (roomId 'a') (roomKey 'a') "lobby".toList false

def handingOn : Request := .handoverChannelName (roomId 'a') (roomId 'b') (roomKey 'b') (roomKey 'a')

/-- A room takes a name back a day after it retired it and hands it over at once. -/
theorem retired_name_rebound :
    let reg := (inMemory plainEnv).serveAll plainEnv retirement
    let back := (reg.serve plainEnv 86402 takingBack).1
    ∃ rec rec', reg.names.lookup "lobby".toList = some rec ∧ rec.retiredAt = 2 ∧
      "lobby".toList ∉ reg.surplusReleased plainEnv 86402 takingBack ∧ "lobby".toList ∉ back.surplusReleased plainEnv 86402 handingOn ∧
      (back.serve plainEnv 86402 handingOn).1.names.lookup "lobby".toList = some rec' ∧ rec'.channelId ≠ rec.channelId ∧
      86402-rec.retiredAt < retiredNameHoldSecs := by
  intro reg back
  have facts : (reg.names.lookup "lobby".toList).any (fun rec =>
      ((back.serve plainEnv 86402 handingOn).1.names.lookup "lobby".toList).any fun rec' =>
        rec.retiredAt = 2 ∧ rec'.channelId ≠ rec.channelId) = true := by decide +kernel
  obtain ⟨rec,held,inner⟩ := (Option.any_eq_true ..).1 facts
  obtain ⟨rec',held',facts⟩ := (Option.any_eq_true ..).1 inner
  obtain ⟨retired,apart⟩ := of_decide_eq_true facts
  exact ⟨rec,rec',held,retired,by decide +kernel,by decide +kernel,held',apart,by rw [retired]; decide⟩

end ChannelRegistry
end Ember.Rendezvous
