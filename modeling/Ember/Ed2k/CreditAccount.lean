import Ember.Ed2k.Credits
import Ember.Library.Path

/-! The account behind one user hash, as far as credit and identity go. No record is a blank account. What is said of
proofs and credit is said here, over the deeds of a run. -/
namespace Ember.Ed2k
open List

inductive Deed where
  | proved (hash : UserHash) (key : Bytes) (ip : Ip)
  | uploaded (hash : UserHash) (bytes : Nat)
  | downloaded (hash : UserHash) (bytes : Nat)
  | dropped (hash : UserHash)
  | restarted (whole : Bool)
  | lost (hash : UserHash)
  deriving DecidableEq

namespace Deed
variable (h : UserHash) (key : Bytes) (trace : List Deed)

def About : Deed → Prop
  | proved hash _ _ | uploaded hash _ | downloaded hash _ | dropped hash | lost hash => hash = h
  | restarted _ => True

def Proves : Deed → Bool
  | proved hash k _ => hash = h && k = key
  | _ => false

def sent : Deed → Nat
  | uploaded hash bytes => if hash = h then bytes else 0
  | _ => 0

def received : Deed → Nat
  | downloaded hash bytes => if hash = h then bytes else 0
  | _ => 0

def since : List Deed := trace.dropWhile fun d => !d.Proves h key

def uploadedSince : Nat := ((since h key trace).map (sent h)).sum

def downloadedSince : Nat := ((since h key trace).map (received h)).sum

variable {h : UserHash} {key : Bytes} {past deeds : List Deed}

section
variable (proved : ∃ ip, .proved h key ip ∈ past)
include proved

theorem since_append : since h key (past++deeds) = since h key past++deeds := by
  unfold since
  rw [dropWhile_append,if_neg]
  obtain ⟨ip,listed⟩ := proved
  intro empty
  rw [List.isEmpty_iff,dropWhile_eq_nil_iff] at empty
  have never := empty _ listed
  simp [Proves] at never

theorem uploadedSince_append :
    uploadedSince h key (past++deeds) = uploadedSince h key past+(deeds.map (sent h)).sum := by
  unfold uploadedSince
  simp [since_append proved]

theorem downloadedSince_append :
    downloadedSince h key (past++deeds) = downloadedSince h key past+(deeds.map (received h)).sum := by
  unfold downloadedSince
  simp [since_append proved]

end

end Deed

structure Account where
  uploaded : Nat
  downloaded : Nat
  publicKey : Bytes
  identState : IdentState
  identIp : Ip
  cryptoVerifiedOnce : Bool
  keyProven : Bool

def CreditRecord.account (r : CreditRecord) : Account :=
  ⟨r.uploaded,r.downloaded,r.publicKey,r.identState,r.identIp,r.cryptoVerifiedOnce,r.keyProven⟩

namespace Account

def blank : Account := ⟨0,0,[],.unknown,0,false,false⟩

def bindKey (key : Bytes) (a : Account) : Account :=
  if a.publicKey = key then if a.identState = .unknown then { a with identState := .needed } else a
  else if a.keyProven then a
  else { a with publicKey := key, identState := .needed }

def resetUnanchored (a : Account) : Account :=
  if !a.cryptoVerifiedOnce ∧ (0 < a.uploaded ∨ 0 < a.downloaded) then { a with uploaded := 1, downloaded := 1 } else a

/-- A challenge answered from an address: the first time what was there before is reset. -/
def prove (ip : Ip) (a : Account) : Account :=
  { a.resetUnanchored with
    publicKey := a.publicKey
    identState := .verified
    identIp := if ip = 0 then a.identIp else ip
    cryptoVerifiedOnce := true
    keyProven := true }

def fail (a : Account) : Account :=
  { a with identState := .failed, publicKey := if a.keyProven then a.publicKey else [] }

def reloaded (anchored : Bool) (a : Account) : Account :=
  let once := decide (a.identState = .verified) || anchored && a.cryptoVerifiedOnce
  let key := if once then if a.keyProven then a.publicKey else [] else []
  let state := if a.identState = .verified ∨ a.identState = .failed then .needed else a.identState
  { uploaded := a.uploaded%2^64
    downloaded := a.downloaded%2^64
    publicKey := key
    identState := if key = [] ∧ (state = .needed ∨ state = .failed) then .unknown else state
    identIp := a.identIp
    cryptoVerifiedOnce := once
    keyProven := !key.isEmpty }

/-- What one step of the manager does to the account of a hash; the other deeds are about others. -/
inductive Step (h : UserHash) (a : Account) : List Deed → Account → Prop
  | quiet {others : List Deed} (apart : ∀ d ∈ others, ¬d.About h) : Step h a others a
  | bind (key : Bytes) {others : List Deed} (apart : ∀ d ∈ others, ¬d.About h) : Step h a others (a.bindKey key)
  | prove (ip : Ip) (bound : a.publicKey ≠ []) {others : List Deed} (apart : ∀ d ∈ others, ¬d.About h) :
      Step h a (.proved h a.publicKey ip :: others) (a.prove ip)
  | fail {others : List Deed} (apart : ∀ d ∈ others, ¬d.About h) : Step h a others a.fail
  | upload (bytes : Nat) {others : List Deed} (apart : ∀ d ∈ others, ¬d.About h) :
      Step h a (.uploaded h bytes :: others) { a with uploaded := saturatingAdd a.uploaded bytes }
  | download (bytes : Nat) {others : List Deed} (apart : ∀ d ∈ others, ¬d.About h) :
      Step h a (.downloaded h bytes :: others) { a with downloaded := saturatingAdd a.downloaded bytes }
  | dropped {deeds : List Deed} (out : .dropped h ∈ deeds) (silent : ∀ k ip, .proved h k ip ∉ deeds) : Step h a deeds blank
  | forgotten (whole : Bool) {others : List Deed} (out : a = blank ∨ .lost h ∈ others) (silent : ∀ k ip, .proved h k ip ∉ others) :
      Step h a (.restarted whole :: others) blank
  | reloaded {whole : Bool} (anchored : Bool) (all : whole = true → anchored = true) {others : List Deed} (apart : ∀ d ∈ others, ¬d.About h) :
      Step h a (.restarted whole :: others) (a.reloaded anchored)

/-- A proven key is bound and has answered, and what it did not earn is at most the reset value. -/
structure Earned (h : UserHash) (trace : List Deed) (a : Account) : Prop where
  key : a.keyProven = true → a.publicKey ≠ []
  once : a.cryptoVerifiedOnce = a.keyProven
  verified : a.identState = .verified → a.keyProven = true
  proved : a.keyProven = true → ∃ ip, .proved h a.publicKey ip ∈ trace
  uploaded : a.keyProven = true → a.uploaded ≤ 1+Deed.uploadedSince h a.publicKey trace
  downloaded : a.keyProven = true → a.downloaded ≤ 1+Deed.downloadedSince h a.publicKey trace

variable {h : UserHash} {a a' : Account} {past deeds : List Deed} {others : List Deed}

theorem Earned.blank : Earned h past blank := ⟨nofun,rfl,nofun,nofun,nofun,nofun⟩

theorem Earned.later (held : Earned h past a) (deeds : List Deed) : Earned h (past++deeds) a := by
  refine ⟨held.key,held.once,held.verified,fun proven => ?_,fun proven => ?_,fun proven => ?_⟩
  · obtain ⟨ip,listed⟩ := held.proved proven
    exact ⟨ip,mem_append_left _ listed⟩
  · rw [Deed.uploadedSince_append (held.proved proven)]
    exact (held.uploaded proven).trans (by omega)
  · rw [Deed.downloadedSince_append (held.proved proven)]
    exact (held.downloaded proven).trans (by omega)

theorem Earned.bindKey (held : Earned h past a) (key : Bytes) : Earned h past (a.bindKey key) := by
  unfold Account.bindKey
  split
  · split
    · exact { held with verified := nofun }
    · exact held
  split
  · exact held
  · next unproven => exact ⟨fun proven => absurd proven unproven,held.once,nofun,fun proven => absurd proven unproven,
      fun proven => absurd proven unproven,fun proven => absurd proven unproven⟩

theorem Earned.fail (held : Earned h past a) : Earned h past a.fail := by
  have key proven : a.fail.publicKey = a.publicKey := if_pos proven
  refine ⟨fun proven => ?_,held.once,nofun,fun proven => ?_,fun proven => ?_,fun proven => ?_⟩
  · rw [key proven]; exact held.key proven
  · rw [key proven]; exact held.proved proven
  · rw [key proven]; exact held.uploaded proven
  · rw [key proven]; exact held.downloaded proven

theorem prove_reset (ip : Ip) (unanchored : a.cryptoVerifiedOnce = false) : (a.prove ip).uploaded ≤ 1 ∧ (a.prove ip).downloaded ≤ 1 := by
  by_cases some : 0 < a.uploaded ∨ 0 < a.downloaded
  · have reset : a.resetUnanchored = { a with uploaded := 1, downloaded := 1 } := if_pos ⟨by rw [unanchored]; rfl,some⟩
    simp [Account.prove,reset]
  have reset : a.resetUnanchored = a := if_neg fun both => some both.2
  simp only [Account.prove,reset]
  omega

theorem prove_kept (ip : Ip) (anchored : a.cryptoVerifiedOnce = true) :
    (a.prove ip).uploaded = a.uploaded ∧ (a.prove ip).downloaded = a.downloaded := by
  simp [Account.prove,Account.resetUnanchored,anchored]

theorem Earned.prove (held : Earned h past a) (bound : a.publicKey ≠ []) (ip : Ip) (others : List Deed) :
    Earned h (past++.proved h a.publicKey ip :: others) (a.prove ip) := by
  have later := held.later (.proved h a.publicKey ip :: others)
  have earned : (a.prove ip).uploaded ≤ 1+Deed.uploadedSince h a.publicKey (past++.proved h a.publicKey ip :: others) ∧
      (a.prove ip).downloaded ≤ 1+Deed.downloadedSince h a.publicKey (past++.proved h a.publicKey ip :: others) := by
    cases anchored : a.cryptoVerifiedOnce with
    | false =>
      have reset := prove_reset ip anchored
      omega
    | true =>
      have proven : a.keyProven = true := held.once.symm.trans anchored
      rw [(prove_kept ip anchored).1,(prove_kept ip anchored).2]
      exact ⟨later.uploaded proven,later.downloaded proven⟩
  exact ⟨fun _ => bound,rfl,fun _ => rfl,fun _ => ⟨ip,by simp [Account.prove]⟩,fun _ => earned.1,fun _ => earned.2⟩

theorem Earned.reloaded_cases (held : Earned h past a) (anchored : Bool) :
    ((a.reloaded anchored).cryptoVerifiedOnce = true ∧ a.keyProven = true ∧ (a.reloaded anchored).keyProven = true ∧
        (a.reloaded anchored).publicKey = a.publicKey) ∨
      ((a.reloaded anchored).cryptoVerifiedOnce = false ∧ (a.reloaded anchored).keyProven = false) := by
  cases once : (decide (a.identState = .verified) || anchored && a.cryptoVerifiedOnce) with
  | false => exact .inr ⟨once,by simp [Account.reloaded,once]⟩
  | true =>
    have proven : a.keyProven = true := by
      rw [held.once,Bool.or_eq_true,decide_eq_true_eq,Bool.and_eq_true] at once
      exact once.elim held.verified And.right
    refine .inl ⟨once,proven,?_,?_⟩
    · simpa [Account.reloaded,once,proven] using held.key proven
    · simp [Account.reloaded,once,proven]

theorem reloaded_identState_ne {anchored : Bool} : (a.reloaded anchored).identState ≠ .verified := by
  intro verified
  obtain ⟨_,unknown⟩ | ⟨_,kept⟩ := ite_eq_iff.mp verified
  · cases unknown
  obtain ⟨_,needed⟩ | ⟨other,same⟩ := ite_eq_iff.mp kept
  · cases needed
  · exact other (.inl same)

theorem Earned.reloaded (held : Earned h past a) (anchored : Bool) : Earned h past (a.reloaded anchored) := by
  have state (verified : (a.reloaded anchored).identState = .verified) : (a.reloaded anchored).keyProven = true :=
    absurd verified reloaded_identState_ne
  obtain ⟨once,proven,kept,key⟩ | ⟨never,unproven⟩ := held.reloaded_cases anchored
  · refine ⟨fun _ => ?_,once.trans kept.symm,state,fun _ => ?_,fun _ => ?_,fun _ => ?_⟩
    · rw [key]; exact held.key proven
    · rw [key]; exact held.proved proven
    · rw [key]; exact (Nat.mod_le ..).trans (held.uploaded proven)
    · rw [key]; exact (Nat.mod_le ..).trans (held.downloaded proven)
  have absurd_proven {P : Prop} (kept : (a.reloaded anchored).keyProven = true) : P := by
    rw [unproven] at kept
    cases kept
  exact ⟨absurd_proven,never.trans unproven.symm,state,absurd_proven,absurd_proven,absurd_proven⟩

theorem Earned.step (held : Earned h past a) (step : Step h a deeds a') : Earned h (past++deeds) a' := by
  have later := held.later deeds
  cases step with
  | quiet => exact later
  | bind key => exact later.bindKey key
  | prove ip bound => exact held.prove bound ip _
  | fail => exact later.fail
  | upload bytes =>
    refine { later with uploaded := fun proven => ?_ }
    have earned := held.uploaded proven
    rw [Deed.uploadedSince_append (held.proved proven)]
    simp only [map_cons,sum_cons,Deed.sent,if_pos,saturatingAdd]
    omega
  | download bytes =>
    refine { later with downloaded := fun proven => ?_ }
    have earned := held.downloaded proven
    rw [Deed.downloadedSince_append (held.proved proven)]
    simp only [map_cons,sum_cons,Deed.received,if_pos,saturatingAdd]
    omega
  | dropped | forgotten => exact .blank
  | reloaded anchored => exact later.reloaded anchored

private theorem split_append {pre b : List Deed} {d : Deed} (same : past++deeds = pre++d :: b) :
    (∃ late, deeds = late++d :: b ∧ pre = past++late) ∨ ∃ mid, past = pre++d :: mid ∧ b = mid++deeds := by
  rcases append_eq_append_iff.mp same with ⟨late,before,after⟩ | ⟨mid,before,after⟩
  · exact .inl ⟨late,after,before⟩
  cases mid with
  | nil => exact .inl ⟨[],by simpa using after.symm,by simpa using before.symm⟩
  | cons d' mid =>
    obtain ⟨rfl,rfl⟩ := List.cons.inj after
    exact .inr ⟨mid,before,rfl⟩

/-- Nothing in between took the record away or cut the file it was saved in. -/
structure Unbroken (h : UserHash) (deeds : List Deed) : Prop where
  dropped : .dropped h ∉ deeds
  lost : .lost h ∉ deeds
  cut : .restarted false ∉ deeds

theorem Step.of_proved {k : Bytes} {ip : Ip} (step : Step h a deeds a') (listed : .proved h k ip ∈ deeds) :
    ∃ others, deeds = .proved h k ip :: others ∧ (∀ d ∈ others, ¬d.About h) ∧ k = a.publicKey ∧ a' = a.prove ip := by
  have elsewhere {others : List Deed} (apart : ∀ d ∈ others, ¬d.About h) : .proved h k ip ∉ others := fun listed => apart _ listed rfl
  cases step with
  | quiet apart | bind _ apart | fail apart => exact absurd listed (elsewhere apart)
  | upload _ apart | download _ apart | reloaded _ _ apart =>
    exact absurd ((mem_cons.mp listed).resolve_left nofun) (elsewhere apart)
  | dropped _ silent => exact absurd listed (silent k ip)
  | forgotten _ _ silent => exact absurd ((mem_cons.mp listed).resolve_left nofun) (silent k ip)
  | prove ip' _ apart =>
    obtain same | later := mem_cons.mp listed
    · cases same
      exact ⟨_,rfl,apart,rfl,rfl⟩
    · exact absurd later (elsewhere apart)

theorem Step.key_kept (earned : Earned h past a) (step : Step h a deeds a') (unbroken : Unbroken h deeds)
    (proven : a.keyProven = true) : a'.keyProven = true ∧ a'.publicKey = a.publicKey := by
  cases step with
  | quiet | upload | download => exact ⟨proven,rfl⟩
  | bind key =>
    unfold Account.bindKey
    split
    · split <;> exact ⟨proven,rfl⟩
    · exact ⟨proven,rfl⟩
  | prove ip => exact ⟨rfl,rfl⟩
  | fail => exact ⟨proven,if_pos proven⟩
  | dropped out => exact absurd out unbroken.dropped
  | forgotten whole out =>
    obtain rfl | lost := out
    · cases proven
    · exact absurd (mem_cons_of_mem _ lost) unbroken.lost
  | @reloaded whole anchored all =>
    obtain rfl : whole = true := by
      cases whole with
      | true => rfl
      | false => exact absurd (.head _) unbroken.cut
    obtain ⟨_,_,kept,key⟩ | ⟨never,_⟩ := earned.reloaded_cases anchored
    · exact ⟨kept,key⟩
    · have once : a.cryptoVerifiedOnce = true := earned.once.trans proven
      simp [Account.reloaded,all rfl,once] at never

/-- A key that answered stays bound as long as nothing took the record away. -/
def Bound (h : UserHash) (trace : List Deed) (a : Account) : Prop :=
  ∀ pre k ip b, trace = pre++.proved h k ip :: b → Unbroken h b → a.keyProven = true ∧ a.publicKey = k

theorem Bound.step (earned : Earned h past a) (bound : Bound h past a) (step : Step h a deeds a') : Bound h (past++deeds) a' := by
  intro pre k ip b same unbroken
  obtain ⟨late,rfl,rfl⟩ | ⟨mid,rfl,rfl⟩ := split_append same
  · obtain ⟨_,_,_,rfl,rfl⟩ := step.of_proved (mem_append_right _ (.head _))
    exact ⟨rfl,rfl⟩
  have before : Unbroken h mid := ⟨fun out => unbroken.dropped (mem_append_left _ out),
    fun out => unbroken.lost (mem_append_left _ out),fun out => unbroken.cut (mem_append_left _ out)⟩
  have now : Unbroken h deeds := ⟨fun out => unbroken.dropped (mem_append_right _ out),
    fun out => unbroken.lost (mem_append_right _ out),fun out => unbroken.cut (mem_append_right _ out)⟩
  obtain ⟨proven,key⟩ := bound pre k ip mid rfl before
  obtain ⟨kept,same⟩ := step.key_kept earned now proven
  exact ⟨kept,same.trans key⟩

/-- The pin is the last known address the bound key answered from, and a verified account was answered for since the last
restart, from there or from no known address. -/
structure Placed (h : UserHash) (trace : List Deed) (a : Account) : Prop where
  proven : a.identIp ≠ 0 → a.keyProven = true
  pinned : a.identIp ≠ 0 → ∃ pre b, trace = pre++.proved h a.publicKey a.identIp :: b ∧ ∀ k ip, .proved h k ip ∈ b → ip = 0
  session : a.identState = .verified → ∃ pre ip b, trace = pre++.proved h a.publicKey ip :: b ∧ (∀ whole, .restarted whole ∉ b) ∧
    (∀ k ip', .proved h k ip' ∉ b) ∧ (ip = 0 ∨ ip = a.identIp)

theorem Placed.blank : Placed h past blank := ⟨fun pin => absurd rfl pin,fun pin => absurd rfl pin,nofun⟩

theorem Placed.pinned_later (placed : Placed h past a) (pin : a.identIp ≠ 0)
    (still : ∀ k ip, .proved h k ip ∈ deeds → ip = 0) :
    ∃ pre b, past++deeds = pre++.proved h a.publicKey a.identIp :: b ∧ ∀ k ip, .proved h k ip ∈ b → ip = 0 := by
  obtain ⟨pre,b,rfl,quiet⟩ := placed.pinned pin
  refine ⟨pre,b++deeds,by simp,fun k ip listed => ?_⟩
  obtain before | now := mem_append.mp listed
  · exact quiet k ip before
  · exact still k ip now

theorem Placed.later (placed : Placed h past a) (apart : ∀ d ∈ deeds, ∀ w k ip, d ≠ .restarted w ∧ d ≠ .proved h k ip) :
    Placed h (past++deeds) a := by
  have silent k ip : .proved h k ip ∉ deeds := fun listed => (apart _ listed true k ip).2 rfl
  refine ⟨placed.proven,fun pin => placed.pinned_later pin fun k ip listed => absurd listed (silent k ip),fun verified => ?_⟩
  obtain ⟨pre,ip,b,rfl,running,last,place⟩ := placed.session verified
  refine ⟨pre,ip,b++deeds,by simp,fun whole listed => ?_,fun k ip' listed => ?_,place⟩
  · obtain before | now := mem_append.mp listed
    · exact running whole before
    · exact (apart _ now whole [] 0).1 rfl
  obtain before | now := mem_append.mp listed
  · exact last k ip' before
  · exact silent k ip' now

private theorem apart_deeds (apart : ∀ d ∈ others, ¬d.About h) :
    ∀ d ∈ others, ∀ w k ip, d ≠ .restarted w ∧ d ≠ .proved h k ip :=
  fun d listed _ _ _ => ⟨fun same => apart d listed (same ▸ trivial),fun same => apart d listed (same ▸ rfl)⟩

theorem Placed.bindKey (placed : Placed h past a) {key : Bytes} : Placed h past (a.bindKey key) := by
  unfold Account.bindKey
  split
  · split
    · exact { placed with session := nofun }
    · exact placed
  split
  · exact placed
  · next unproven =>
    exact ⟨placed.proven,fun pin => absurd (placed.proven pin) unproven,nofun⟩

theorem Placed.fail (placed : Placed h past a) : Placed h past a.fail := by
  refine ⟨placed.proven,fun pin => ?_,nofun⟩
  have key : a.fail.publicKey = a.publicKey := if_pos (placed.proven pin)
  rw [key]
  exact placed.pinned pin

theorem Placed.prove (placed : Placed h past a) {ip : Ip} (apart : ∀ d ∈ others, ¬d.About h) :
    Placed h (past++.proved h a.publicKey ip :: others) (a.prove ip) := by
  have silent k ip' : .proved h k ip' ∉ others := fun listed => apart _ listed rfl
  refine ⟨fun _ => rfl,fun pin => ?_,fun _ => ⟨past,ip,others,rfl,fun whole listed => apart _ listed trivial,silent,?_⟩⟩
  · by_cases unknown : ip = 0
    · -- a proof from no known address keeps the pin there is
      subst unknown
      refine placed.pinned_later pin fun k ip' listed => ?_
      obtain same | later := mem_cons.mp listed
      · cases same
        rfl
      · exact absurd later (silent k ip')
    · have moved : (a.prove ip).identIp = ip := if_neg unknown
      rw [moved]
      exact ⟨past,others,rfl,fun k ip' listed => absurd listed (silent k ip')⟩
  · by_cases unknown : ip = 0
    · exact .inl unknown
    · exact .inr (if_neg unknown).symm

theorem Placed.step (earned : Earned h past a) (placed : Placed h past a) (step : Step h a deeds a') (whole : .restarted false ∉ deeds) :
    Placed h (past++deeds) a' := by
  cases step with
  | quiet apart => exact placed.later (apart_deeds apart)
  | bind key apart => exact (placed.later (apart_deeds apart)).bindKey
  | prove ip _ apart => exact placed.prove apart
  | fail apart => exact (placed.later (apart_deeds apart)).fail
  | upload bytes apart =>
    have plain w k ip : Deed.uploaded h bytes ≠ .restarted w ∧ Deed.uploaded h bytes ≠ .proved h k ip := ⟨nofun,nofun⟩
    have later := placed.later (forall_mem_cons.mpr ⟨plain,apart_deeds apart⟩)
    exact { later with }
  | download bytes apart =>
    have plain w k ip : Deed.downloaded h bytes ≠ .restarted w ∧ Deed.downloaded h bytes ≠ .proved h k ip := ⟨nofun,nofun⟩
    have later := placed.later (forall_mem_cons.mpr ⟨plain,apart_deeds apart⟩)
    exact { later with }
  | dropped | forgotten => exact .blank
  | @reloaded all anchored read others apart =>
    have kept pin : (a.reloaded anchored).keyProven = true ∧ (a.reloaded anchored).publicKey = a.publicKey :=
      Step.key_kept earned (.reloaded anchored read apart) ⟨fun listed => apart _ ((mem_cons.mp listed).resolve_left nofun) rfl,
        fun listed => apart _ ((mem_cons.mp listed).resolve_left nofun) rfl,whole⟩ (placed.proven pin)
    refine ⟨fun pin => (kept pin).1,fun pin => ?_,fun verified => absurd verified reloaded_identState_ne⟩
    rw [(kept pin).2]
    refine placed.pinned_later pin fun k ip listed => ?_
    exact absurd rfl (apart _ ((mem_cons.mp listed).resolve_left nofun))

end Account
end Ember.Ed2k
