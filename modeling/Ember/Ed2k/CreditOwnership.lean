import Ember.Ed2k.CreditRuns

/-! Proven credit belongs to the key that proved it, over whole runs and across restarts. -/
namespace Ember.Ed2k.CreditManager
open List

variable {parseEmule : Bytes → List EmuleCredit} {trace : List Deed} {m : CreditManager} {h : UserHash}

abbrev Run (parseEmule : Bytes → List EmuleCredit) : CreditManager → List Deed → CreditManager → Prop := Path (Step parseEmule)

structure Owned (h : UserHash) (trace : List Deed) (m : CreditManager) : Prop where
  sound : m.Sound
  earned : (m.account h).Earned h trace
  bound : (m.account h).Bound h trace
  placed : .restarted false ∉ trace → (m.account h).Placed h trace

theorem Owned.start (h : UserHash) : Owned h [] (new true false) where
  sound := ⟨nofun,nofun,Nat.zero_le _⟩
  earned := .blank
  bound := fun _ _ _ _ same => absurd same (by simp)
  placed := fun _ => .blank

theorem Owned.step {deeds : List Deed} {m' : CreditManager} (owned : Owned h trace m) (step : Step parseEmule m deeds m') :
    Owned h (trace++deeds) m' := by
  have moved := step.account owned.sound h
  refine ⟨step.sound owned.sound,owned.earned.step moved,owned.bound.step owned.earned moved,fun whole => ?_⟩
  rw [mem_append,not_or] at whole
  exact (owned.placed whole.1).step owned.earned moved whole.2

theorem Run.owned (run : Run parseEmule (new true false) trace m) (h : UserHash) : Owned h trace m := by
  have kept := run.keeps (fun _ _ _ _ owned step => Owned.step owned step) [] (Owned.start h)
  simpa using kept

theorem lookup_of_keyProven (proven : (m.account h).keyProven = true) :
    ∃ r, m.credits.lookup h = some r ∧ r.account = m.account h := by
  unfold account at proven ⊢
  cases held : m.credits.lookup h with
  | none =>
    rw [held] at proven
    cases proven
  | some r => exact ⟨r,rfl,rfl⟩

theorem verified_of_getCurrentIdentState {ip : Ip} (state : m.getCurrentIdentState h ip = .verified) :
    (m.account h).identState = .verified ∧ (ip ≠ 0 → (m.account h).identIp = ip) := by
  unfold getCurrentIdentState at state
  unfold account
  cases held : m.credits.lookup h with
  | none =>
    rw [held] at state
    cases state
  | some r =>
    rw [held] at state
    dsimp only at state
    split at state
    · cases state
    next here =>
    refine ⟨state,fun known => ?_⟩
    by_contra other
    exact here ⟨state,known,other⟩

/-- The key that answered for a hash stays bound until a restart does not bring the record back; a verified hash is read so only
from the last known address its key answered from, after an answer since the restart; and it holds no credit beyond the reset
value that was not earned after its key first answered, not even from a cut file. -/
theorem proven_credit_kept (run : Run parseEmule (new true false) trace m) (h : UserHash) :
    (∀ pre key ip b, trace = pre++.proved h key ip :: b → Account.Unbroken h b →
      ∃ r, m.credits.lookup h = some r ∧ r.publicKey = key) ∧
    (∀ ev now r, m.credits.lookup h = some r → 0 < r.uploaded ∨ 0 < r.downloaded ∨ r.emberHash.isSome = true →
      (m.serialize ev).length ≤ maxClientsMetLen →
      (m.restarted parseEmule ev now true false (m.serialize ev).length).credits.lookup h ≠ none) ∧
    (∀ ip, ip ≠ 0 → .restarted false ∉ trace → m.getCurrentIdentState h ip = .verified → ∃ r, m.credits.lookup h = some r ∧
      (∃ pre b, trace = pre++.proved h r.publicKey ip :: b ∧ ∀ key ip', .proved h key ip' ∈ b → ip' = 0) ∧
      ∃ pre ip' b, trace = pre++.proved h r.publicKey ip' :: b ∧ (ip' = 0 ∨ ip' = ip) ∧ ∀ whole, .restarted whole ∉ b) ∧
    (m.getCurrentIdentState h 0 = .verified → ∃ r, m.credits.lookup h = some r ∧ (∃ ip, .proved h r.publicKey ip ∈ trace) ∧
      r.uploaded ≤ 1+Deed.uploadedSince h r.publicKey trace ∧ r.downloaded ≤ 1+Deed.downloadedSince h r.publicKey trace) := by
  have owned := Run.owned run h
  refine ⟨fun pre key ip b same unbroken => ?_,fun ev now r held worth fits => ?_,fun ip known whole state => ?_,fun state => ?_⟩
  · obtain ⟨proven,bound⟩ := owned.bound pre key ip b same unbroken
    obtain ⟨r,held,account⟩ := lookup_of_keyProven proven
    exact ⟨r,held,(congrArg Account.publicKey account).trans bound⟩
  · refine owned.sound.restarted_recalls le_rfl fits held ?_
    simpa [CreditRecord.isCached,or_assoc] using worth
  · obtain ⟨verified,pin⟩ := verified_of_getCurrentIdentState state
    have placed := owned.placed whole
    have here := pin known
    obtain ⟨r,held,account⟩ := lookup_of_keyProven (owned.earned.verified verified)
    have key : r.publicKey = (m.account h).publicKey := congrArg Account.publicKey account
    obtain ⟨pre,b,pinned,last⟩ := placed.pinned (by rw [here]; exact known)
    obtain ⟨pre',ip',b',session,running,_,place⟩ := placed.session verified
    rw [here] at pinned place
    rw [← key] at pinned session
    exact ⟨r,held,⟨pre,b,pinned,last⟩,pre',ip',b',session,place,running⟩
  · obtain ⟨verified,_⟩ := verified_of_getCurrentIdentState state
    have proven := owned.earned.verified verified
    obtain ⟨r,held,account⟩ := lookup_of_keyProven proven
    have earned := owned.earned
    rw [← account] at earned proven
    exact ⟨r,held,earned.proved proven,earned.uploaded proven,earned.downloaded proven⟩

def firstHeld : Eviction where
  walk l := l
  perm := .refl
  victim credits := credits.keys.head?
  held _ _ first := AList.mem_keys.mpr (mem_of_head? first)
  found credits hash held := by
    cases keys : credits.keys with
    | nil => exact absurd (AList.mem_keys.mp held) (by rw [keys]; exact not_mem_nil)
    | cons first rest => rfl

def execute (m : CreditManager) : List (Option Call) → CreditManager × List Deed
  | [] => (m,[])
  | some c :: rest =>
    let next := m.perform firstHeld 0 c
    let out := execute next.1 rest
    (out.1,next.2++(m.missing next.1).map .dropped++out.2)
  | none :: rest =>
    let next := m.restarted (fun _ => []) firstHeld 0 true false (m.serialize firstHeld).length
    let out := execute next rest
    (out.1,.restarted true :: (m.missing next).map .lost++out.2)

theorem run_execute (m : CreditManager) (calls : List (Option Call)) : Run (fun _ => []) m (m.execute calls).2 (m.execute calls).1 := by
  induction calls generalizing m with
  | nil => exact .refl m
  | cons c rest ih =>
    cases c with
    | some c => exact (Path.single (Step.call firstHeld 0 c)).trans (ih _)
    | none =>
      have step : Step (fun _ => []) m _ _ := .restart firstHeld 0 (m.serialize firstHeld).length
      rw [decide_eq_true (le_refl _)] at step
      exact (Path.single step).trans (ih _)

/-- A peer that proved its key from one address and sent something, and after a restart proved it again through a relay. -/
def relayed : List (Option Call) :=
  [some (.setPublicKey 1 [7]),some (.answer 1 5 (some [7])),some (.addDownloaded 1 5 100),none,some (.answer 1 0 (some [7]))]

theorem proven_credit_kept_relayed :
    ∃ trace m, Run (fun _ => []) (new true false) trace m ∧ m.getCurrentIdentState 1 0 = .verified ∧
      ∃ r, m.credits.lookup 1 = some r ∧ (∃ ip, .proved 1 r.publicKey ip ∈ trace) ∧
        r.uploaded ≤ 1+Deed.uploadedSince 1 r.publicKey trace ∧ r.downloaded ≤ 1+Deed.downloadedSince 1 r.publicKey trace := by
  have run := run_execute (new true false) relayed
  have state : ((new true false).execute relayed).1.getCurrentIdentState 1 0 = .verified := by decide +kernel
  exact ⟨_,_,run,state,(proven_credit_kept run 1).2.2.2 state⟩

/-- A file cut anywhere gives back records that were held, with no credit and no key that was not theirs. -/
theorem cut_file_invents_nothing (run : Run parseEmule (new true false) trace m) (ev : Eviction) (now : Int)
    (available unreadable : Bool) (cut : Nat) {found : CreditRecord}
    (back : (m.restarted parseEmule ev now available unreadable cut).credits.lookup h = some found) :
    ∃ r, m.credits.lookup h = some r ∧ found.uploaded ≤ r.uploaded ∧ found.downloaded ≤ r.downloaded ∧
      (found.publicKey = [] ∨ found.publicKey = r.publicKey ∧ r.keyProven = true) := by
  obtain ⟨r,p,anchored,held,-,recalled,rfl,-⟩ := (run.owned h).sound.lookup_restarted back
  refine ⟨r,held,recalled.uploaded ▸ Nat.mod_le ..,recalled.downloaded ▸ Nat.mod_le ..,?_⟩
  unfold CreditRecord.adopted
  dsimp only
  rw [recalled.publicKey,CreditRecord.persistedPublicKey]
  split
  · split
    next proven => exact .inr ⟨rfl,proven⟩
    · exact .inl rfl
  · exact .inl rfl

theorem cut_file_invents_nothing_relayed : ∃ m found r, m = ((new true false).execute relayed).1 ∧
    (m.restarted (fun _ => []) firstHeld 0 true false 80).credits.lookup 1 = some found ∧
    m.credits.lookup 1 = some r ∧ found.downloaded ≤ r.downloaded := by
  have some : ((((new true false).execute relayed).1.restarted (fun _ => []) firstHeld 0 true false 80).credits.lookup 1).isSome = true := by
    decide +kernel
  obtain ⟨found,back⟩ := Option.isSome_iff_exists.1 some
  obtain ⟨r,held,-,less,-⟩ := cut_file_invents_nothing (run_execute (new true false) relayed) firstHeld 0 true false 80 back
  exact ⟨_,found,r,rfl,back,held,less⟩

/-- A proven key without bytes or link is gone after a restart, and another takes its place; and an address the key answered
from before a restart reads verified after an answer from nowhere. -/
theorem proven_key_replaced :
    (∃ trace m, Run (fun _ => []) (new true false) trace m ∧ .proved 1 [7] 5 ∈ trace ∧ .dropped 1 ∉ trace ∧ .restarted false ∉ trace ∧
      (m.credits.lookup 1).map CreditRecord.publicKey = some [8]) ∧
    ∃ pre trace m, Run (fun _ => []) (new true false) (pre++.restarted true :: trace) m ∧ .dropped 1 ∉ pre++.restarted true :: trace ∧
      .restarted false ∉ pre++.restarted true :: trace ∧ (∀ key, .proved 1 key 5 ∉ trace) ∧ m.getCurrentIdentState 1 5 = .verified := by
  constructor
  · let calls : List (Option Call) := [some (.setPublicKey 1 [7]),some (.answer 1 5 (some [7])),none,some (.setPublicKey 1 [8])]
    exact ⟨_,_,run_execute (new true false) calls,by decide +kernel,by decide +kernel,by decide +kernel,by decide +kernel⟩
  have run := run_execute (new true false) relayed
  have deeds : ((new true false).execute relayed).2 =
      [.proved 1 [7] 5,.downloaded 1 100]++.restarted true :: [.proved 1 [7] 0] := by decide +kernel
  rw [deeds] at run
  exact ⟨_,_,_,run,by decide +kernel,by decide +kernel,by simp,by decide +kernel⟩

end Ember.Ed2k.CreditManager
