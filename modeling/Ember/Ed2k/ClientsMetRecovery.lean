import Ember.Ed2k.ClientsMet
import Ember.Library.Index

/-! What a restart finds of the records it saved, whether the file is whole or was cut off anywhere. -/
namespace Ember.Ed2k
open Bytes Reader List AList Table

namespace CreditRecord

def stored (r : CreditRecord) : CreditRecord where
  userHash := r.userHash
  uploaded := r.uploaded%2^64
  downloaded := r.downloaded%2^64
  lastSeen := i64 (ofI64 r.lastSeen)
  publicKey := r.persistedPublicKey
  identState := if r.identState = .verified ∨ r.identState = .failed then .needed else r.identState
  identIp := r.identIp
  emberHash := r.emberHash
  cryptoVerifiedOnce := r.identState = .verified
  peerName := []
  clientSoftware := []
  seenIp := 0
  provenEmberHash := none
  keyProven := false

theorem reads_ident (ip : Ip) (state : IdentState) :
    Reads (readIdent true) (ofNatLittleEndian 4 ip.toNat++[state.toU8]) (ip,state) := by
  have value := (byte_reads () state.toU8).map fun byte => (BitVec.ofNat 32 ip.toNat,IdentState.fromU8 byte)
  apply (little_reads () ip.isLt).bind
  simpa using value

theorem reads_key {key : Bytes} (short : key.length ≤ maxPublicKeyLen) :
    Reads readKey (ofNatLittleEndian 2 key.length++key) key := by
  have small : key.length < 256^2 := short.trans_lt (by decide)
  apply (little_reads () small).bind
  rw [if_neg (Nat.not_lt.mpr short)]
  exact exact_reads () key

theorem reads_emberTrailer (hash : Option EmberHash) : Reads (readEmberTrailer true) (writeEmberTrailer hash) hash := by
  cases hash with
  | none =>
    have read : Reads (readEmberTrailer true) ([0]++[]) none := (byte_reads () 0).bind Reads.pure
    exact read
  | some hash =>
    have value := (exact_reads () (ofArray hash)).map fun bytes => some (array 128 bytes)
    rw [array_ofArray (show 128 = 8*16 by decide)] at value
    exact (byte_reads () 1).bind value

theorem reads_hash (hash : BitVec 128) : Reads (exact () 16) (ofArray hash) (ofArray hash) := by
  have read := exact_reads () (ofArray hash)
  rwa [length_ofArray] at read

theorem reads_record {r : CreditRecord} (short : r.persistedPublicKey.length ≤ maxPublicKeyLen) :
    Reads (readCreditRecord true true) r.write r.stored := by
  have seen : Reads (exact () 8) (ofI64 r.lastSeen) (ofI64 r.lastSeen) := by
    have read := exact_reads () (ofI64 r.lastSeen)
    rwa [ofI64] at read
  apply (reads_hash r.userHash).bind
  apply (little_reads_mod () 8 r.uploaded).bind
  apply (little_reads_mod () 8 r.downloaded).bind
  apply seen.bind
  apply (reads_ident r.identIp r.identState).bind
  apply (reads_key short).bind
  have last := (reads_emberTrailer r.emberHash).map fun emberHash => { r.stored with emberHash }
  have hash : array 128 (ofArray r.userHash) = r.userHash := array_ofArray (show 128 = 8*16 by decide) _
  simpa [stored,hash] using last

end CreditRecord

/-- What a file gives of a record, its anchors readable or not: all of it but the name. -/
structure Recalled (anchored : Bool) (r p : CreditRecord) : Prop where
  userHash : p.userHash = r.userHash
  uploaded : p.uploaded = r.uploaded%2^64
  downloaded : p.downloaded = r.downloaded%2^64
  publicKey : p.publicKey = r.persistedPublicKey
  identState : p.identState = if r.identState = .verified ∨ r.identState = .failed then .needed else r.identState
  identIp : p.identIp = r.identIp
  anchor : p.cryptoVerifiedOnce = (decide (r.identState = .verified) || anchored && r.cryptoVerifiedOnce)

section Sections
variable {anchored : Bool} {records parsed : List CreditRecord}

theorem recalled_stored (r : CreditRecord) : Recalled false r r.stored :=
  ⟨rfl,rfl,rfl,rfl,rfl,rfl,by simp [CreditRecord.stored]⟩

theorem recalled_named (held : List.Forall₂ (Recalled anchored) records parsed) {identity : UserHash × Bytes × Bytes} :
    List.Forall₂ (Recalled anchored) records (named parsed identity) := by
  induction held with
  | nil => exact .nil
  | cons first rest ih =>
    unfold named
    split
    · exact .cons { first with } rest
    · exact .cons first ih

theorem recalled_foldl_named {identities : List (UserHash × Bytes × Bytes)} (held : List.Forall₂ (Recalled anchored) records parsed) :
    List.Forall₂ (Recalled anchored) records (identities.foldl named parsed) := by
  induction identities generalizing parsed with
  | nil => exact held
  | cons identity rest ih => exact ih (recalled_named held)

theorem reads_anchors (few : records.length < 2^32) : Reads readAnchorSection (CreditManager.writeAnchors records)
      ((records.filter CreditRecord.cryptoVerifiedOnce).map CreditRecord.userHash) := by
  have count : (records.filter CreditRecord.cryptoVerifiedOnce).length < 256^4 := (length_filter_le ..).trans_lt few
  unfold CreditManager.writeAnchors
  generalize records.filter CreditRecord.cryptoVerifiedOnce = kept at count ⊢
  have fixed (r : CreditRecord) : (ofArray r.userHash).length = 16 := length_ofArray _
  have body := (exact_reads () (kept.flatMap fun r => ofArray r.userHash)).map fun body =>
    (List.range kept.length).map fun i => array 128 (slice body (i*16) (i*16+16))
  rw [map_slice_flatMap fixed] at body
  have same : (kept.map fun r => array 128 (ofArray r.userHash)) = kept.map CreditRecord.userHash :=
    map_congr_left fun r _ => array_ofArray (show 128 = 8*16 by decide) _
  rw [same] at body
  apply (little_reads () (show clientsMetAnchorMagic < 256^4 by decide)).bind
  apply (little_reads () count).bind
  simpa using body

theorem recalled_anchored (distinct : (records.map CreditRecord.userHash).Nodup) :
    List.Forall₂ (Recalled true) records ((records.map CreditRecord.stored).map
      (CreditRecord.anchoredBy ((records.filter CreditRecord.cryptoVerifiedOnce).map CreditRecord.userHash))) := by
  rw [map_map,forall₂_map_right_iff,forall₂_same]
  intro r listed
  have own : r.userHash ∈ (records.filter CreditRecord.cryptoVerifiedOnce).map CreditRecord.userHash ↔ r.cryptoVerifiedOnce = true := by
    simp only [mem_map,mem_filter]
    constructor
    · rintro ⟨r',⟨listed',anchored⟩,same⟩
      rwa [← inj_on_of_nodup_map distinct listed' listed same]
    · intro anchored
      exact ⟨r,⟨listed,anchored⟩,rfl⟩
  refine ⟨rfl,rfl,rfl,rfl,rfl,rfl,?_⟩
  simp [CreditRecord.stored,CreditRecord.anchoredBy,own]

theorem recalled_sections (few : records.length < 2^32) (distinct : (records.map CreditRecord.userHash).Nodup) {late : Bytes}
    (inside : late <+: CreditManager.writeAnchors records++CreditManager.writeIdentities records) :
    ∃ anchored, List.Forall₂ (Recalled anchored) records (withSections true true (records.map CreditRecord.stored) late) ∧
      (late = CreditManager.writeAnchors records++CreditManager.writeIdentities records → anchored = true) := by
  have anchors := reads_anchors few
  by_cases reached : CreditManager.writeAnchors records <+: late
  · obtain ⟨rest,rfl⟩ := reached
    refine ⟨true,?_,fun _ => rfl⟩
    unfold withSections
    rw [anchors.whole]
    exact recalled_foldl_named (recalled_anchored distinct)
  · have early := (List.prefix_or_prefix_of_prefix inside (List.prefix_append ..)).resolve_right reached
    obtain ⟨error,failed⟩ := anchors.cut late early fun same => reached (by rw [same])
    refine ⟨false,?_,fun whole => absurd (whole ▸ List.prefix_append ..) reached⟩
    unfold withSections
    rw [if_pos rfl,failed]
    rw [forall₂_map_right_iff,forall₂_same]
    exact fun r _ => recalled_stored r

end Sections

def clientsMetHeader (count : Nat) : Bytes :=
  ofNatLittleEndian 4 clientsMetMagic++([clientsMetVersion]++ofNatLittleEndian 4 count)

theorem length_clientsMetHeader (count : Nat) : (clientsMetHeader count).length = 9 := by
  simp [clientsMetHeader]

theorem readClientsMet_header {count : Nat} (few : count ≤ maxCreditRecords) (part : Bytes) :
    readClientsMet (clientsMetHeader count++part) =
      let read := upTo (readCreditRecord true true) count part
      if read.1.length = count then withSections true true read.1 read.2 else read.1 := by
  have small : count < 256^4 := few.trans_lt (by decide)
  have size := length_clientsMetHeader count
  have magic : (clientsMetHeader count++part).take 4 = ofNatLittleEndian 4 clientsMetMagic := by
    simp [clientsMetHeader]
  have version : (clientsMetHeader count++part)[4]? = some clientsMetVersion := by
    rw [clientsMetHeader]
    simp
  have counted : slice (clientsMetHeader count++part) 5 9 = ofNatLittleEndian 4 count := by
    have middle : slice ((ofNatLittleEndian 4 clientsMetMagic++[clientsMetVersion])++ofNatLittleEndian 4 count++part) (5+0) (5+4) =
        slice (ofNatLittleEndian 4 count) 0 4 := slice_middle _ _ _ (by simp)
    refine middle.trans ?_
    simp [slice]
  have number : littleEndian (ofNatLittleEndian 4 count) = count := by
    rw [littleEndian_ofNatLittleEndian,Nat.mod_eq_of_lt small]
  have known : littleEndian (ofNatLittleEndian 4 clientsMetMagic) = clientsMetMagic := by
    rfl
  have body : (clientsMetHeader count++part).drop 9 = part := drop_left' size
  have long : ¬((clientsMetHeader count++part).length < 4 ∨ True ∧ (clientsMetHeader count++part).length < 9) := by
    rw [length_append]
    omega
  unfold readClientsMet
  simp only [magic,known,version,Option.getD_some,if_neg long,if_true,decide_true,body,counted,number,
    min_eq_left few,show (2 ≤ clientsMetVersion) = True by decide,
    show (3 ≤ clientsMetVersion) = True by decide,show (4 ≤ clientsMetVersion) = True by decide,and_self]

theorem readClientsMet_short {count cut : Nat} (rest : Bytes) (short : cut < 9) :
    readClientsMet ((clientsMetHeader count++rest).take cut) = [] := by
  unfold readClientsMet
  rw [if_pos]
  by_cases tiny : cut < 4
  · exact .inl ((length_take_le ..).trans_lt tiny)
  refine .inr ⟨?_,(length_take_le ..).trans_lt short⟩
  rw [take_take,Nat.min_eq_left (by omega),clientsMetHeader,append_assoc,take_left' (by simp)]
  rfl

namespace CreditManager

/-- Every record is under its own hash, no key is too long, and there are not too many. -/
structure Sound (m : CreditManager) : Prop where
  hash : ∀ hash r, m.credits.lookup hash = some r → r.userHash = hash
  key : ∀ hash r, m.credits.lookup hash = some r → r.publicKey.length ≤ maxPublicKeyLen
  few : m.credits.keys.length ≤ maxCreditRecords

variable {m : CreditManager} {r : CreditRecord} {records : List CreditRecord}

section
variable (sound : m.Sound) (ev : Eviction)
include sound

theorem Sound.length_cached : (m.cached ev).length ≤ maxCreditRecords := by
  refine (length_filter_le ..).trans ?_
  rw [(ev.perm _).length_eq]
  simpa [values,AList.keys,List.keys] using sound.few

theorem Sound.nodup_cached : ((m.cached ev).map CreditRecord.userHash).Nodup := by
  have same : (values m.credits).map CreditRecord.userHash = m.credits.keys := by
    rw [values,map_map]
    refine map_congr_left fun e listed => ?_
    exact sound.hash _ _ (mem_lookup_iff.mpr listed)
  have distinct : ((ev.walk (values m.credits)).map CreditRecord.userHash).Nodup :=
    ((ev.perm _).map _).nodup_iff.mpr (same ▸ m.credits.keys_nodup)
  exact distinct.sublist (filter_sublist.map _)

omit sound in
theorem mem_cached : r ∈ m.cached ev ↔ (∃ hash, m.credits.lookup hash = some r) ∧ r.isCached = true := by
  rw [cached,mem_filter,(ev.perm _).mem_iff,mem_values]

theorem Sound.persisted_short (listed : r ∈ m.cached ev) : r.persistedPublicKey.length ≤ maxPublicKeyLen := by
  obtain ⟨hash,held⟩ := ((mem_cached ev).mp listed).1
  unfold CreditRecord.persistedPublicKey
  split
  · exact sound.key hash r held
  · exact Nat.zero_le _

theorem Sound.recalled (cut : Nat) :
    ∃ j anchored, List.Forall₂ (Recalled anchored) ((m.cached ev).take j) (readClientsMet ((m.serialize ev).take cut)) ∧
      ((m.serialize ev).length ≤ cut → (m.cached ev).length ≤ j ∧ anchored = true) := by
  have file : m.serialize ev = clientsMetHeader (m.cached ev).length++
      ((m.cached ev).flatMap CreditRecord.write++(writeAnchors (m.cached ev)++writeIdentities (m.cached ev))) := by
    simp [serialize,clientsMetHeader]
  have reads : ∀ r ∈ m.cached ev, Reads (readCreditRecord true true) r.write r.stored :=
    fun r listed => CreditRecord.reads_record (sound.persisted_short ev listed)
  have few := sound.length_cached ev
  have distinct := sound.nodup_cached ev
  rw [file]
  clear file
  generalize m.cached ev = l at *
  have size := length_clientsMetHeader l.length
  by_cases short : cut < 9
  · rw [readClientsMet_short _ short]
    refine ⟨0,false,by simp,fun whole => ?_⟩
    rw [length_append] at whole
    omega
  rw [take_append,take_of_length_le (by omega),size,readClientsMet_header few]
  have inside := List.take_prefix (cut-9) (l.flatMap CreditRecord.write++(writeAnchors l++writeIdentities l))
  by_cases reached : l.flatMap CreditRecord.write <+: (l.flatMap CreditRecord.write++
      (writeAnchors l++writeIdentities l)).take (cut-9)
  · obtain ⟨late,split⟩ := reached
    rw [← split] at inside ⊢
    rw [upTo_whole reads]
    rw [if_pos (length_map _)]
    obtain ⟨anchored,held,all⟩ := recalled_sections (few.trans_lt (by decide)) distinct
      ((List.prefix_append_right_inj _).mp inside)
    refine ⟨l.length,anchored,by rwa [take_length],fun whole => ⟨le_rfl,all ?_⟩⟩
    rw [take_of_length_le (by rw [length_append] at whole; omega)] at split
    exact append_cancel_left split
  · have early := (List.prefix_or_prefix_of_prefix inside (List.prefix_append ..)).resolve_right reached
    obtain ⟨j,less,read⟩ := upTo_cut reads early fun same => reached ⟨[],by simp [same]⟩
    refine ⟨j,false,?_,fun whole => absurd ?_ reached⟩
    · dsimp only
      rw [read,if_neg (by simp; omega),forall₂_map_right_iff,forall₂_same]
      exact fun r _ => recalled_stored r
    · rw [take_of_length_le (by rw [length_append] at whole; omega)]
      exact List.prefix_append ..

end

theorem length_keys_insert_le (t : Credits) (hash : UserHash) (r : CreditRecord) : (t.insert hash r).keys.length ≤ t.keys.length+1 := by
  rw [keys_insert]
  exact Nat.succ_le_succ (length_erase_le)

theorem foldl_insertLoadedCredit {ev : Eviction} {now : Int}
    (room : m.credits.keys.length+records.length ≤ maxCreditRecords) :
    records.foldl (insertLoadedCredit ev now) m = { m with credits :=
      (records.map fun p => (p.userHash,p.adopted now)).foldl (fun t binding => t.insert binding.1 binding.2) m.credits } := by
  induction records generalizing m with
  | nil => rfl
  | cons p rest ih =>
    rw [length_cons] at room
    have first : m.insertLoadedCredit ev now p = { m with credits := m.credits.insert p.userHash (p.adopted now) } := by
      have free : m.evicted ev (p.adopted now).userHash = none := if_pos (.inr (by omega))
      unfold insertLoadedCredit
      simp only [free]
      rfl
    have grown := length_keys_insert_le m.credits p.userHash (p.adopted now)
    rw [foldl_cons,first,ih (by dsimp only; omega)]
    rfl

theorem not_looksLikeEmule {ev : Eviction} {cut : Nat} : looksLikeEmule ((m.serialize ev).take cut) = false := by
  cases cut with
  | zero => rfl
  | succ cut =>
    rfl

variable (parseEmule : Bytes → List EmuleCredit) (ev : Eviction) (now : Int) (available unreadable : Bool) (cut : Nat)

/-- A fresh manager that loaded what another saved, up to a cut. -/
def restarted (m : CreditManager) : CreditManager :=
  (new available unreadable).loadFromFile parseEmule ev now ((m.serialize ev).take cut)

theorem Sound.restarted_eq (sound : m.Sound) (fits : ((m.serialize ev).take cut).length ≤ maxClientsMetLen) :
    ∃ j anchored parsed, List.Forall₂ (Recalled anchored) ((m.cached ev).take j) parsed ∧
      ((m.serialize ev).length ≤ cut → (m.cached ev).length ≤ j ∧ anchored = true) ∧
      m.restarted parseEmule ev now available unreadable cut =
        ⟨collect (parsed.map fun p => (p.userHash,p.adopted now)),∅,available,unreadable⟩ := by
  obtain ⟨j,anchored,held,whole⟩ := sound.recalled ev cut
  refine ⟨j,anchored,_,held,whole,?_⟩
  have few : (readClientsMet ((m.serialize ev).take cut)).length ≤ maxCreditRecords := by
    rw [← held.length_eq,length_take]
    exact (Nat.min_le_right ..).trans (sound.length_cached ev)
  unfold restarted loadFromFile
  rw [if_neg (Nat.not_lt.mpr fits),not_looksLikeEmule,if_neg (by simp)]
  exact foldl_insertLoadedCredit (by simpa [new] using few)

variable {parseEmule ev now available unreadable cut} {hash : UserHash}

private theorem nodup_recalled (now : Int) {anchored : Bool} {parsed : List CreditRecord} (held : List.Forall₂ (Recalled anchored) records parsed)
    (distinct : (records.map CreditRecord.userHash).Nodup) :
    ((parsed.map fun p => (p.userHash,p.adopted now)).map Prod.fst).Nodup := by
  have same : (parsed.map fun p => (p.userHash,p.adopted now)).map Prod.fst = records.map CreditRecord.userHash := by
    induction held with
    | nil => rfl
    | cons first _ ih =>
      rw [map_cons,map_cons,ih (nodup_cons.mp distinct).2]
      exact congrArg (· :: _) first.userHash
  rwa [same]

private theorem partner {R : CreditRecord → CreditRecord → Prop} {l l' : List CreditRecord} (held : List.Forall₂ R l l') {a : CreditRecord}
    (listed : a ∈ l) : ∃ b ∈ l', R a b := by
  induction held with
  | nil => cases listed
  | cons first _ ih =>
    obtain rfl | later := mem_cons.mp listed
    · exact ⟨_,.head _,first⟩
    · obtain ⟨b,listed,related⟩ := ih later
      exact ⟨b,.tail _ listed,related⟩

theorem Sound.lookup_restarted (sound : m.Sound) {p' : CreditRecord}
    (found : (m.restarted parseEmule ev now available unreadable cut).credits.lookup hash = some p') :
    ∃ r p anchored, m.credits.lookup hash = some r ∧ r.isCached = true ∧ Recalled anchored r p ∧ p' = p.adopted now ∧
      ((m.serialize ev).length ≤ cut → anchored = true) := by
  rcases lt_or_ge maxClientsMetLen ((m.serialize ev).take cut).length with large | fits
  · rw [restarted,loadFromFile,if_pos large] at found
    cases found
  obtain ⟨j,anchored,parsed,held,whole,same⟩ := sound.restarted_eq parseEmule ev now available unreadable cut fits
  rw [same] at found
  have distinct := nodup_recalled now held ((sound.nodup_cached ev).sublist ((take_sublist j _).map _))
  obtain ⟨p,listed,bound⟩ := mem_map.mp ((lookup_collect_iff distinct).mp found)
  obtain ⟨rfl,rfl⟩ := Prod.mk.inj bound
  obtain ⟨r,saved,recalled⟩ := partner (List.Forall₂.flip held) listed
  obtain ⟨⟨hash,bound⟩,cached⟩ := (mem_cached ev).mp (mem_of_mem_take saved)
  refine ⟨r,p,anchored,?_,cached,recalled,rfl,fun all => (whole all).2⟩
  rwa [recalled.userHash,sound.hash hash r bound]

theorem Sound.restarted_recalls (sound : m.Sound) (whole : (m.serialize ev).length ≤ cut) (fits : (m.serialize ev).length ≤ maxClientsMetLen)
    (held : m.credits.lookup hash = some r) (cached : r.isCached = true) :
    (m.restarted parseEmule ev now available unreadable cut).credits.lookup hash ≠ none := by
  rw [← take_of_length_le whole] at fits
  obtain ⟨j,anchored,parsed,recalled,all,same⟩ := sound.restarted_eq parseEmule ev now available unreadable cut fits
  have saved : r ∈ (m.cached ev).take j := by
    rw [take_of_length_le (all whole).1]
    exact (mem_cached ev).mpr ⟨⟨hash,held⟩,cached⟩
  obtain ⟨p,listed,own⟩ := partner recalled saved
  have distinct := nodup_recalled now recalled ((sound.nodup_cached ev).sublist ((take_sublist j _).map _))
  have bound := (lookup_collect_iff distinct).mpr (mem_map_of_mem listed)
  rw [own.userHash,sound.hash hash r held] at bound
  rw [same,bound]
  exact nofun

theorem Sound.restarted (sound : m.Sound) : (m.restarted parseEmule ev now available unreadable cut).Sound := by
  refine ⟨fun hash p' found => ?_,fun hash p' found => ?_,?_⟩
  · obtain ⟨r,p,_,held,_,recalled,rfl,_⟩ := sound.lookup_restarted found
    exact recalled.userHash.trans (sound.hash hash r held)
  · obtain ⟨r,p,_,held,cached,recalled,rfl,_⟩ := sound.lookup_restarted found
    have short := sound.persisted_short ev ((mem_cached ev).mpr ⟨⟨hash,held⟩,cached⟩)
    rw [← recalled.publicKey] at short
    unfold CreditRecord.adopted
    split
    · exact short
    · exact Nat.zero_le _
  · have subset : (m.restarted parseEmule ev now available unreadable cut).credits.keys ⊆ m.credits.keys := by
      intro hash listed
      obtain ⟨p',found⟩ := Option.isSome_iff_exists.mp (lookup_isSome.mpr (AList.mem_keys.mpr listed))
      obtain ⟨r,_,_,held,_⟩ := sound.lookup_restarted found
      exact AList.mem_keys.mp (lookup_isSome.mp (by rw [held]; rfl))
    exact ((keys_nodup _).subperm subset).length_le.trans sound.few

end CreditManager
end Ember.Ed2k
