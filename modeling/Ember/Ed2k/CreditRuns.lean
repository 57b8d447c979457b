import Ember.Ed2k.ClientsMetRecovery
import Ember.Ed2k.CreditAccount

/-! Runs of the credit manager: calls of any sessions, and restarts from what it saved. Each step does to an account what an
account step says. -/
namespace Ember.Ed2k
open Option AList Table

/-- The calls of sessions and timers. An answer is signed by whoever holds a key, or is no signature. -/
inductive Call where
  | setPublicKey (hash : UserHash) (key : Bytes)
  | answer (hash : UserHash) (ip : Ip) (signer : Option Bytes)
  | addUploaded (hash : UserHash) (ip : Ip) (bytes : Nat)
  | addDownloaded (hash : UserHash) (ip : Ip) (bytes : Nat)
  | noteClientIdentity (hash : UserHash) (ip : Option Ip) (peerName clientSoftware : Bytes)
  | setEmberHash (hash : UserHash) (emberHash : EmberHash)
  | claimEmberHash (hash : UserHash) (emberHash : EmberHash) (replaceable : EmberHash → Bool)
  | noteBoundEmberHash (hash : UserHash) (emberHash : EmberHash) (ip : Ip)
  | noteSessionProvenEmber (hash : UserHash) (emberHash : EmberHash)
  | cleanupStale (maxAgeDays : Int)

namespace CreditManager

def account (m : CreditManager) (h : UserHash) : Account := (m.credits.lookup h).elim .blank CreditRecord.account

def missing (m m' : CreditManager) : List UserHash := m.credits.keys.filter fun hash => hash ∉ m'.credits

def perform (ev : Eviction) (now : Int) (m : CreditManager) : Call → CreditManager × List Deed
  | .setPublicKey hash key => ((m.setPublicKey ev now hash key).1,[])
  | .answer hash ip signer =>
    let out := m.handleSecidentSignature ev now hash ip signer
    (out.1,if out.2 then [.proved hash (signer.getD []) ip] else [])
  | .addUploaded hash ip bytes =>
    let out := m.addUploaded ev now hash ip bytes
    (out.1,if out.2 then [.uploaded hash bytes] else [])
  | .addDownloaded hash ip bytes =>
    let out := m.addDownloaded ev now hash ip bytes
    (out.1,if out.2 then [.downloaded hash bytes] else [])
  | .noteClientIdentity hash ip peerName clientSoftware => (m.noteClientIdentity ev now hash ip peerName clientSoftware,[])
  | .setEmberHash hash emberHash => (m.setEmberHash ev now hash emberHash,[])
  | .claimEmberHash hash emberHash replaceable => ((m.claimEmberHash ev now hash emberHash replaceable).1,[])
  | .noteBoundEmberHash hash emberHash ip => (m.noteBoundEmberHash ev hash emberHash ip,[])
  | .noteSessionProvenEmber hash emberHash => (m.noteSessionProvenEmber hash emberHash,[])
  | .cleanupStale maxAgeDays => (m.cleanupStale now maxAgeDays,[])

/-- A call, or a restart that loads the saved file up to a cut. Records gone afterwards were evicted or aged out, or not
brought back. -/
inductive Step (parseEmule : Bytes → List EmuleCredit) (m : CreditManager) : List Deed → CreditManager → Prop
  | call (ev : Eviction) (now : Int) (c : Call) :
      Step parseEmule m ((m.perform ev now c).2++(m.missing (m.perform ev now c).1).map .dropped) (m.perform ev now c).1
  | restart (ev : Eviction) (now : Int) (cut : Nat) :
      Step parseEmule m (.restarted ((m.serialize ev).length ≤ cut) :: (m.missing (m.restarted parseEmule ev now true false cut)).map .lost)
        (m.restarted parseEmule ev now true false cut)

/-- One hash's account moved by a rule, and no other record touched, unless it had to go. -/
structure Touches (hash : UserHash) (rule : Account → Account) (m m' : CreditManager) : Prop where
  others : ∀ h, h ≠ hash → m'.credits.lookup h = m.credits.lookup h ∨ m'.credits.lookup h = none
  own : m'.account hash = rule (m.account hash)
  kept : hash ∈ m.credits → hash ∈ m'.credits
  sound : m.Sound → m'.Sound

section Touch
variable {hash h : UserHash} {rule rule' : Account → Account} {m m' m'' : CreditManager}
variable {ev : Eviction} {now : Int} {write : CreditRecord → CreditRecord} {own : List Deed}

theorem mem_missing : h ∈ m.missing m' ↔ h ∈ m.credits ∧ h ∉ m'.credits := by
  simp [missing,mem_keys]

theorem lookup_none_iff : m.credits.lookup h = none ↔ h ∉ m.credits := lookup_eq_none

theorem Touches.refl (hash : UserHash) (m : CreditManager) : Touches hash id m m := ⟨fun _ _ => .inl rfl,rfl,id,id⟩

theorem Touches.trans (first : Touches hash rule m m') (second : Touches hash rule' m' m'') :
    Touches hash (fun a => rule' (rule a)) m m'' := by
  refine ⟨fun h other => ?_,by rw [second.own,first.own],fun held => second.kept (first.kept held),
    fun sound => second.sound (first.sound sound)⟩
  obtain same | gone := second.others h other
  · rw [same]
    exact first.others h other
  · exact .inr gone

def Short (rule : Account → Account) : Prop :=
  ∀ a, a.publicKey.length ≤ maxPublicKeyLen → (rule a).publicKey.length ≤ maxPublicKeyLen

theorem Sound.short (sound : m.Sound) : (m.account hash).publicKey.length ≤ maxPublicKeyLen := by
  unfold account
  cases held : m.credits.lookup hash with
  | none => exact Nat.zero_le _
  | some record => exact sound.key hash record held

theorem evicted_spec {victim : UserHash} (out : m.evicted ev hash = some victim) :
    hash ∉ m.credits ∧ victim ∈ m.credits ∧ maxCreditRecords ≤ m.credits.keys.length := by
  unfold evicted at out
  split at out
  · cases out
  next full =>
  rw [not_or,Nat.not_lt] at full
  exact ⟨full.1,ev.held _ _ out,full.2⟩

theorem lookup_makeRoom (m : CreditManager) (hash h : UserHash) :
    (m.makeRoomForCredit ev hash).credits.lookup h = m.credits.lookup h ∨
      h ≠ hash ∧ (m.makeRoomForCredit ev hash).credits.lookup h = none := by
  unfold makeRoomForCredit
  cases out : m.evicted ev hash with
  | none => exact .inl rfl
  | some victim =>
    have spec := evicted_spec out
    rw [lookup_erase_ite]
    split
    · next same => exact .inr ⟨fun own => spec.1 (own ▸ same ▸ spec.2.1),rfl⟩
    · exact .inl rfl

theorem makeRoom_of_mem (held : hash ∈ m.credits) : m.makeRoomForCredit ev hash = m := by
  unfold makeRoomForCredit evicted
  rw [if_pos (.inl held)]

theorem Sound.room (sound : m.Sound) (ev : Eviction) (hash : UserHash) :
    (m.makeRoomForCredit ev hash).credits.keys.length < maxCreditRecords ∨ hash ∈ m.credits := by
  by_cases held : hash ∈ m.credits
  · exact .inr held
  refine .inl ?_
  unfold makeRoomForCredit
  cases out : m.evicted ev hash with
  | none =>
    by_contra full
    unfold evicted at out
    rw [if_neg (by rw [not_or]; exact ⟨held,full⟩)] at out
    obtain ⟨other,listed⟩ := List.exists_mem_of_length_pos (Nat.lt_of_lt_of_le (show 0 < maxCreditRecords by decide) (Nat.not_lt.mp full))
    have found := ev.found m.credits other (mem_keys.mpr listed)
    rw [out] at found
    cases found
  | some victim =>
    have spec := evicted_spec out
    have size : ((m.credits.erase victim).keys).length = m.credits.keys.length-1 := by
      rw [keys_erase]
      exact List.length_erase_of_mem (mem_keys.mp spec.2.1)
    dsimp only
    have few := sound.few
    have some : 0 < maxCreditRecords := by decide
    omega

theorem Sound.makeRoom (sound : m.Sound) : (m.makeRoomForCredit ev hash).Sound := by
  have within : ∀ h r, (m.makeRoomForCredit ev hash).credits.lookup h = some r → m.credits.lookup h = some r := by
    intro h r found
    obtain same | gone := lookup_makeRoom m hash h
    · rw [← same]
      exact found
    · rw [gone.2] at found
      cases found
  refine ⟨fun h r found => sound.hash h r (within h r found),fun h r found => sound.key h r (within h r found),?_⟩
  obtain room | held := sound.room ev hash
  · exact room.le
  · rw [makeRoom_of_mem held]
    exact sound.few

theorem Sound.insert (sound : m.Sound) {r : CreditRecord} (own : r.userHash = hash) (short : r.account.publicKey.length ≤ maxPublicKeyLen)
    (room : m.credits.keys.length < maxCreditRecords ∨ hash ∈ m.credits) :
    Sound { m with credits := m.credits.insert hash r } := by
  refine ⟨fun h r' found => ?_,fun h r' found => ?_,?_⟩
  · rw [lookup_insert_ite] at found
    split at found
    · next same => rw [same,← some.inj found,own]
    · exact sound.hash h r' found
  · rw [lookup_insert_ite] at found
    split at found
    · rw [← some.inj found]
      exact short
    · exact sound.key h r' found
  · obtain space | held := room
    · exact (length_keys_insert_le ..).trans space
    rw [keys_insert,List.length_cons,List.length_erase_of_mem (mem_keys.mp held)]
    have some := List.length_pos_of_mem (mem_keys.mp held)
    have few := sound.few
    omega

theorem touches_update (m : CreditManager) (hash : UserHash) (named : ∀ r, (write r).userHash = r.userHash)
    (acts : ∀ r, r.account = m.account hash → (write r).account = rule r.account) (short : Short rule) :
    Touches hash rule m (m.update ev now hash write) := by
  have own : (m.makeRoomForCredit ev hash).credits.lookup hash = m.credits.lookup hash :=
    (lookup_makeRoom m hash hash).resolve_right fun other => other.1 rfl
  have read : ({ ((m.credits.lookup hash).getD (.new hash now)) with lastSeen := now } : CreditRecord).account = m.account hash := by
    unfold account
    cases m.credits.lookup hash with
    | none => rfl
    | some record => rfl
  refine ⟨fun h other => ?_,?_,fun _ => (mem_insert _).mpr (.inl rfl),fun sound => ?_⟩
  · unfold update
    rw [lookup_insert_ne other]
    exact (lookup_makeRoom m hash h).imp_right And.right
  · rw [← read,← acts _ read]
    unfold update account
    simp [own]
  · unfold update
    dsimp only
    rw [own]
    refine sound.makeRoom.insert ((named _).trans ?_) ?_ ((sound.room ev hash).imp_right fun held => ?_)
    · cases held : m.credits.lookup hash with
      | none => rfl
      | some record => exact sound.hash hash record held
    · rw [acts _ read,read]
      exact short _ sound.short
    · rw [makeRoom_of_mem held]
      exact held

theorem touches_amend (named : ∀ r, (write r).userHash = r.userHash)
    (acts : ∀ r, (write r).account = r.account) : Touches hash id m (m.amend hash write) := by
  unfold amend
  cases held : m.credits.lookup hash with
  | none => exact .refl hash m
  | some record =>
    have listed : hash ∈ m.credits := lookup_isSome.mp (by rw [held]; rfl)
    refine ⟨fun h other => .inl (lookup_insert_ne other),?_,fun _ => (mem_insert _).mpr (.inl rfl),fun sound => ?_⟩
    · unfold account
      rw [lookup_insert,held,elim_some,acts]
      rfl
    refine sound.insert ((named record).trans (sound.hash hash record held)) ?_ (.inr listed)
    rw [acts]
    exact sound.key hash record held

theorem step_elsewhere (apart : ∀ d ∈ own, ¬d.About h)
    (left : m'.account h = m.account h ∨ m'.credits.lookup h = none) :
    Account.Step h (m.account h) (own++(m.missing m').map .dropped) (m'.account h) := by
  by_cases gone : h ∈ m.missing m'
  · have blank : m'.account h = .blank := by
      rw [account,lookup_none_iff.mpr (mem_missing.mp gone).2]
      rfl
    rw [blank]
    refine .dropped (List.mem_append_right _ (List.mem_map_of_mem gone)) fun k ip listed => ?_
    obtain mine | other := List.mem_append.mp listed
    · exact apart _ mine rfl
    · simp at other
  · have kept : m'.account h = m.account h := by
      refine left.elim id fun absent => ?_
      have never : m.credits.lookup h = none := by
        by_contra held
        exact gone (mem_missing.mpr ⟨by_contra fun out => held (lookup_none_iff.mpr out),lookup_none_iff.mp absent⟩)
      rw [account,account,absent,never]
    rw [kept]
    refine .quiet fun d listed aboutIt => ?_
    obtain mine | other := List.mem_append.mp listed
    · exact apart d mine aboutIt
    obtain ⟨out,absent,rfl⟩ := List.mem_map.mp other
    obtain rfl : out = h := aboutIt
    exact gone absent

/-- What a call does: every account takes a step along its deeds, and the books stay sound. -/
def Performs (m : CreditManager) (out : CreditManager × List Deed) : Prop :=
  (∀ h, Account.Step h (m.account h) (out.2++(m.missing out.1).map .dropped) (out.1.account h)) ∧ (m.Sound → out.1.Sound)

theorem Touches.performs (touch : Touches hash rule m m') (about : ∀ d ∈ own, ∀ h, d.About h → h = hash)
    (mine : ∀ others, (∀ d ∈ others, ¬d.About hash) → Account.Step hash (m.account hash) (own++others) (rule (m.account hash))) :
    m.Performs (m',own) := by
  refine ⟨fun h => ?_,touch.sound⟩
  by_cases same : h = hash
  · subst same
    rw [touch.own]
    refine mine _ fun d listed aboutIt => ?_
    obtain ⟨gone,out,rfl⟩ := List.mem_map.mp listed
    obtain rfl : gone = h := aboutIt
    exact (mem_missing.mp out).2 (touch.kept (mem_missing.mp out).1)
  · refine step_elsewhere (fun d listed aboutIt => same (about d listed h aboutIt)) ?_
    refine (touch.others h same).imp_left fun kept => ?_
    rw [account,account,kept]

theorem Touches.told {d : Deed} (touch : Touches hash rule m m') (about : ∀ h, d.About h → h = hash)
    (mine : ∀ others, (∀ d ∈ others, ¬d.About hash) → Account.Step hash (m.account hash) (d :: others) (rule (m.account hash))) :
    m.Performs (m',[d]) :=
  touch.performs (fun _ listed => List.mem_singleton.1 listed ▸ about) mine

theorem Touches.quiet (touch : Touches hash id m m') : m.Performs (m',[]) := touch.performs nofun fun _ => .quiet

end Touch

section Calls
variable {ev : Eviction} {now : Int} (m : CreditManager) (hash : UserHash)
variable {emberHash : EmberHash} {ip : Ip} {r : CreditRecord}

theorem performs_refl : m.Performs (m,[]) := (Touches.refl 0 m).quiet

theorem touches_bindKey {key : Bytes} (short : key.length ≤ maxPublicKeyLen) :
    Touches hash (Account.bindKey key) m (m.update ev now hash (CreditRecord.bindKey key)) := by
  refine touches_update m hash (fun r => ?_) (fun r _ => ?_) fun a fits => ?_
  · simp [CreditRecord.bindKey,apply_ite CreditRecord.userHash]
  · simp only [CreditRecord.bindKey,apply_ite CreditRecord.account]
    rfl
  · unfold Account.bindKey
    split_ifs
    · exact fits
    · exact fits
    · exact fits
    · exact short

theorem resetUnanchored_named : r.resetUnanchored.userHash = r.userHash := by
  simp [CreditRecord.resetUnanchored,apply_ite CreditRecord.userHash]

theorem setState_named (state : IdentState) (r : CreditRecord) : (r.setState state).userHash = r.userHash := by
  simp [CreditRecord.setState,apply_ite CreditRecord.userHash,resetUnanchored_named]

theorem touches_failed : Touches hash Account.fail m (m.setIdentState ev now hash .failed) := by
  refine touches_update m hash (setState_named .failed) (fun r _ => ?_) fun a fits => ?_
  · cases proven : r.keyProven <;> simp [CreditRecord.setState,Account.fail,CreditRecord.account,proven]
  unfold Account.fail
  split
  · exact fits
  · exact Nat.zero_le _

theorem touches_promoteProvenEmber : Touches hash id m (m.promoteProvenEmber hash) := by
  unfold promoteProvenEmber
  split
  · exact .refl hash m
  · refine touches_amend (fun r => ?_) fun r => ?_
    all_goals split <;> rfl

theorem account_resetUnanchored (r : CreditRecord) : r.resetUnanchored.account = r.account.resetUnanchored := by
  simp only [CreditRecord.resetUnanchored,apply_ite CreditRecord.account]
  rfl

theorem account_verified (bound : r.publicKey ≠ []) : (r.setState .verified).account = r.account.prove 0 := by
  have reset := account_resetUnanchored r
  have key : r.resetUnanchored.publicKey = r.publicKey := by
    unfold CreditRecord.resetUnanchored
    split <;> rfl
  have ip : r.resetUnanchored.identIp = r.identIp := by
    unfold CreditRecord.resetUnanchored
    split <;> rfl
  have keyed : (!r.publicKey.isEmpty) = true := by simpa using bound
  simp only [CreditRecord.setState,key,ip,keyed,Bool.or_true] at reset ⊢
  rw [Account.prove,← reset]
  rfl

theorem account_pin (verified : r.identState = .verified) :
    (r.pin ip).account = if ip = 0 then r.account else { r.account with identIp := ip } := by
  by_cases unknown : ip = 0
  · rw [CreditRecord.pin,if_neg fun both => both.2 unknown,if_pos unknown]
  · rw [CreditRecord.pin,if_pos ⟨verified,unknown⟩,if_neg unknown]
    rfl

theorem touches_verified (bound : (m.account hash).publicKey ≠ []) :
    Touches hash (Account.prove ip) m ((m.setIdentState ev now hash .verified).checkIdentityIp ev now hash ip) := by
  have first : Touches hash (Account.prove 0) m (m.setIdentState ev now hash .verified) :=
    touches_update m hash (setState_named .verified) (fun r same => account_verified (by rw [← same] at bound; exact bound))
      fun _ => id
  have second : Touches hash (fun a => if ip = 0 then a else { a with identIp := ip }) (m.setIdentState ev now hash .verified)
      ((m.setIdentState ev now hash .verified).update ev now hash (CreditRecord.pin ip)) := by
    refine touches_update _ hash (fun r => ?_) (fun r same => account_pin ?_) fun a fits => ?_
    · simp [CreditRecord.pin,apply_ite CreditRecord.userHash]
    · rw [first.own] at same
      exact congrArg Account.identState same
    · simpa [apply_ite Account.publicKey] using fits
  have all := (first.trans second).trans (touches_promoteProvenEmber _ hash)
  refine { all with own := all.own.trans ?_ }
  by_cases unknown : ip = 0
  · rw [unknown]
    exact if_pos rfl
  · refine (if_neg unknown).trans ?_
    simp only [Account.prove,if_neg unknown]

theorem touches_setEmberHash : Touches hash id m (m.setEmberHash ev now hash emberHash) := by
  unfold setEmberHash
  split
  · exact .refl hash m
  have touch : Touches hash id { m with boundEmberHashes := m.boundEmberHashes.erase hash }
      ({ m with boundEmberHashes := m.boundEmberHashes.erase hash }.update ev now hash fun r => { r with emberHash := some emberHash }) :=
    touches_update _ hash (fun _ => rfl) (fun _ _ => rfl) fun _ => id
  exact { touch with sound := fun sound => touch.sound { sound with } }

theorem touches_noteBoundEmberHash : Touches hash id m (m.noteBoundEmberHash ev hash emberHash ip) := by
  unfold noteBoundEmberHash
  split
  · exact .refl hash m
  · obtain ⟨others,own,kept,books⟩ := touches_promoteProvenEmber { m with boundEmberHashes := AList.insert hash (emberHash,ip) _ } hash
    exact ⟨others,own,kept,fun sound => books { sound with }⟩

theorem touches_noteSessionProvenEmber : Touches hash id m (m.noteSessionProvenEmber hash emberHash) := by
  unfold noteSessionProvenEmber
  split
  · exact .refl hash m
  · refine touches_amend (fun r => ?_) fun r => ?_
    all_goals split <;> rfl

theorem touches_noteClientIdentity {ip : Option Ip} {peerName clientSoftware : Bytes} :
    Touches hash id m (m.noteClientIdentity ev now hash ip peerName clientSoftware) := by
  unfold noteClientIdentity
  dsimp only
  split
  · exact .refl hash m
  · exact touches_update m hash (fun _ => rfl) (fun _ _ => rfl) fun _ => id

theorem performs_cleanupStale {maxAgeDays : Int} : m.Performs (m.cleanupStale now maxAgeDays,[]) := by
  -- a record that stays is the one held, but for the time it was last seen
  have came : ∀ h r, (m.cleanupStale now maxAgeDays).credits.lookup h = some r →
      ∃ r', m.credits.lookup h = some r' ∧ r.userHash = r'.userHash ∧ r.account = r'.account := by
    intro h r found
    unfold cleanupStale at found
    rw [lookup_retain] at found
    obtain ⟨r',held,kept⟩ := bind_eq_some_iff.mp found
    dsimp only at kept
    split at kept
    · rw [← some.inj kept]
      exact ⟨r',held,rfl,rfl⟩
    · cases kept
  refine ⟨fun h => step_elsewhere nofun ?_,fun sound => ⟨fun h r found => ?_,fun h r found => ?_,?_⟩⟩
  · cases found : (m.cleanupStale now maxAgeDays).credits.lookup h with
    | none => exact .inr rfl
    | some r =>
      obtain ⟨r',held,_,same⟩ := came h r found
      rw [account,account,found,held]
      exact .inl same
  · obtain ⟨r',held,own,_⟩ := came h r found
    rw [own]
    exact sound.hash h r' held
  · obtain ⟨r',held,_,same⟩ := came h r found
    rw [show r.publicKey = r'.publicKey from congrArg Account.publicKey same]
    exact sound.key h r' held
  · refine (List.Subperm.length_le ((keys_nodup _).subperm fun h listed => ?_)).trans sound.few
    obtain ⟨r,found⟩ := isSome_iff_exists.mp (lookup_isSome.mpr (mem_keys.mpr listed))
    obtain ⟨r',held,_⟩ := came h r found
    exact mem_keys.mp (lookup_isSome.mp (by rw [held]; rfl))

theorem perform_performs {c : Call} : m.Performs (m.perform ev now c) := by
  cases c with
  | setPublicKey hash key =>
    unfold perform setPublicKey
    dsimp only
    split
    · exact performs_refl m
    next fits =>
    rw [not_or,Nat.not_lt] at fits
    exact (touches_bindKey m hash fits.2).performs nofun fun _ => .bind key
  | answer hash ip signer =>
    unfold perform handleSecidentSignature
    dsimp only
    split
    · next valid =>
      obtain ⟨bound,signed⟩ : (m.account hash).publicKey ≠ [] ∧ signer = some (m.account hash).publicKey := by
        unfold verifySignature at valid
        cases held : m.credits.lookup hash with
        | none =>
          rw [held] at valid
          cases valid
        | some record =>
          simpa [account,held,CreditRecord.account] using valid
      rw [signed]
      exact (touches_verified m hash bound).told (by exact fun _ => Eq.symm) fun _ apart => .prove ip bound apart
    · split
      · exact (touches_failed m hash).performs nofun fun _ => .fail
      · exact performs_refl m
  | addUploaded hash ip bytes =>
    unfold perform addUploaded
    dsimp only
    split
    · have touch : Touches hash (fun a => { a with uploaded := saturatingAdd a.uploaded bytes }) m
          (m.update ev now hash fun r => { r with uploaded := saturatingAdd r.uploaded bytes }) :=
        touches_update m hash (fun _ => rfl) (fun _ _ => rfl) fun _ => id
      exact touch.told (by exact fun _ => Eq.symm) fun _ apart => .upload bytes apart
    · exact performs_refl m
  | addDownloaded hash ip bytes =>
    unfold perform addDownloaded
    dsimp only
    split
    · have touch : Touches hash (fun a => { a with downloaded := saturatingAdd a.downloaded bytes }) m
          (m.update ev now hash fun r => { r with downloaded := saturatingAdd r.downloaded bytes }) :=
        touches_update m hash (fun _ => rfl) (fun _ _ => rfl) fun _ => id
      exact touch.told (by exact fun _ => Eq.symm) fun _ apart => .download bytes apart
    · exact performs_refl m
  | noteClientIdentity hash ip peerName clientSoftware =>
    exact (touches_noteClientIdentity m hash).quiet
  | setEmberHash hash emberHash => exact (touches_setEmberHash m hash).quiet
  | claimEmberHash hash emberHash replaceable =>
    unfold perform claimEmberHash
    dsimp only
    split
    · exact performs_refl m
    split
    · exact performs_refl m
    · exact (touches_setEmberHash m hash).quiet
  | noteBoundEmberHash hash emberHash ip => exact (touches_noteBoundEmberHash m hash).quiet
  | noteSessionProvenEmber hash emberHash => exact (touches_noteSessionProvenEmber m hash).quiet
  | cleanupStale maxAgeDays => exact performs_cleanupStale m

end Calls

section Restart
variable {m : CreditManager} {parseEmule : Bytes → List EmuleCredit} {ev : Eviction} {now : Int} {cut : Nat} {deeds : List Deed} {m' : CreditManager}

theorem account_adopted {anchored : Bool} {r p : CreditRecord} (recalled : Recalled anchored r p) :
    (p.adopted now).account = r.account.reloaded anchored := by
  simp only [CreditRecord.adopted,recalled.uploaded,recalled.downloaded,recalled.publicKey,
    recalled.identState,recalled.identIp,recalled.anchor]
  rfl

theorem Sound.step_restart (sound : m.Sound) {h : UserHash} : Account.Step h (m.account h)
      (.restarted ((m.serialize ev).length ≤ cut) :: (m.missing (m.restarted parseEmule ev now true false cut)).map .lost)
      ((m.restarted parseEmule ev now true false cut).account h) := by
  cases found : (m.restarted parseEmule ev now true false cut).credits.lookup h with
  | none =>
    have blank : (m.restarted parseEmule ev now true false cut).account h = .blank := by
      rw [account,found]
      rfl
    rw [blank]
    refine .forgotten _ ?_ (by simp)
    by_cases held : h ∈ m.credits
    · exact .inr (List.mem_map_of_mem (mem_missing.mpr ⟨held,lookup_none_iff.mp found⟩))
    · rw [account,lookup_none_iff.mpr held]
      exact .inl rfl
  | some p' =>
    obtain ⟨r,p,anchored,held,_,recalled,rfl,all⟩ := sound.lookup_restarted found
    have reloaded : (m.restarted parseEmule ev now true false cut).account h = (m.account h).reloaded anchored := by
      rw [account,account,found,held]
      exact account_adopted recalled
    rw [reloaded]
    refine .reloaded anchored (fun whole => all (of_decide_eq_true whole)) fun d listed about => ?_
    obtain ⟨out,gone,rfl⟩ := List.mem_map.mp listed
    obtain rfl : out = h := about
    exact (mem_missing.mp gone).2 (lookup_isSome.mp (by rw [found]; rfl))

theorem Step.sound (sound : m.Sound) (step : Step parseEmule m deeds m') : m'.Sound := by
  cases step with
  | call ev now c => exact (perform_performs m).2 sound
  | restart ev now cut => exact sound.restarted

theorem Step.account (sound : m.Sound) (step : Step parseEmule m deeds m') (h : UserHash) :
    Account.Step h (m.account h) deeds (m'.account h) := by
  cases step with
  | call ev now c => exact (perform_performs m).1 h
  | restart ev now cut => exact sound.step_restart

end Restart
end CreditManager
end Ember.Ed2k
