import Ember.Ed2k.PartMetRoundTrip

/-! A verified part may be withdrawn while an older sidecar still vouches for it. The tracker
publishes every bit it clears; snapshots reach the disk late or never; upload sessions read the
sidecar when they like and take off what was published. -/
namespace Ember.Ed2k
open Bytes Reader List Option AList

/-- Parts withdrawn in memory and not verified since, by sidecar path and by file hash. -/
structure UnverifiedSinceClear (P : Type) where
  byPath : Table P (List Nat) := ∅
  byHash : Table Hash (List Nat) := ∅

namespace UnverifiedSinceClear
variable {P K : Type} [DecidableEq P] [DecidableEq K]
variable {key k : K} (table : Table K (List Nat)) (registry : UnverifiedSinceClear P) (path : P) (hash : Hash) {q : Nat}

def extend (key : K) (parts : List Nat) : Table K (List Nat) :=
  table.insert key ((table.lookup key).getD [] ∪ parts)

def remove (key : K) (part : Nat) : Table K (List Nat) :=
  match table.lookup key with
  | none => table
  | some parts =>
    let rest := parts.filter (· ≠ part)
    if rest = [] then table.erase key else table.insert key rest

def record (parts : List Nat) : UnverifiedSinceClear P :=
  if parts = [] then registry
  else
    { byPath := extend registry.byPath path parts
      byHash := if hash ≠ 0 then extend registry.byHash hash parts else registry.byHash }

def clearPart (part : Nat) : UnverifiedSinceClear P :=
  { byPath := remove registry.byPath path part, byHash := remove registry.byHash hash part }

def recordAll (calls : List (List Nat)) : UnverifiedSinceClear P :=
  calls.foldl (fun registry parts => registry.record path hash parts) registry

def clearAll : UnverifiedSinceClear P :=
  { byPath := registry.byPath.erase path, byHash := registry.byHash.erase hash }

def partsFor : List Nat :=
  (registry.byPath.lookup path).getD []++if hash ≠ 0 then (registry.byHash.lookup hash).getD [] else []

theorem mem_extend {table : Table K (List Nat)} {parts : List Nat} :
    q ∈ ((extend table key parts).lookup k).getD [] ↔ q ∈ (table.lookup k).getD [] ∨ k = key ∧ q ∈ parts := by
  unfold extend
  by_cases same : k = key
  · rw [same,lookup_insert]
    simp
  · simp [same]

theorem mem_remove {table : Table K (List Nat)} {part : Nat} :
    q ∈ ((remove table key part).lookup k).getD [] ↔ q ∈ (table.lookup k).getD [] ∧ ¬ (k = key ∧ q = part) := by
  unfold remove
  by_cases same : k = key
  · subst same
    cases held : table.lookup k with
    | none => simp [held]
    | some parts =>
      have rest : q ∈ parts.filter (· ≠ part) ↔ q ∈ parts ∧ q ≠ part := by simp
      dsimp only
      split
      · rename_i empty
        rw [empty] at rest
        simpa using rest
      · simp
  · split
    · simp [same]
    dsimp only
    split
    · simp [same]
    · simp [same]

def Pending (p : Nat) : Prop :=
  p ∈ (registry.byPath.lookup path).getD [] ∧ (hash ≠ 0 → p ∈ (registry.byHash.lookup hash).getD [])

namespace Pending
variable {registry : UnverifiedSinceClear P} {path : P} {hash : Hash} {p : Nat}

theorem recorded {parts : List Nat} (member : p ∈ parts) : (registry.record path hash parts).Pending path hash p := by
  unfold record
  rw [if_neg (ne_nil_of_mem member)]
  refine ⟨mem_extend.2 (.inr ⟨rfl,member⟩),?_⟩
  intro identified
  rw [if_pos identified]
  exact mem_extend.2 (.inr ⟨rfl,member⟩)

section
variable (pending : registry.Pending path hash p)
include pending

theorem record (path' : P) (hash' : Hash) (parts : List Nat) :
    (registry.record path' hash' parts).Pending path hash p := by
  unfold UnverifiedSinceClear.record
  split
  · exact pending
  refine ⟨mem_extend.2 (.inl pending.1),?_⟩
  intro identified
  split
  · exact mem_extend.2 (.inl (pending.2 identified))
  · exact pending.2 identified

theorem recordAll (path' : P) (hash' : Hash) (calls : List (List Nat)) :
    (registry.recordAll path' hash' calls).Pending path hash p := by
  induction calls generalizing registry with
  | nil => exact pending
  | cons parts calls ih => exact ih (pending.record path' hash' parts)

theorem clearPart {part : Nat} (other : p ≠ part) : (registry.clearPart path hash part).Pending path hash p :=
  ⟨mem_remove.2 ⟨pending.1,fun same => other same.2⟩,fun identified => mem_remove.2 ⟨pending.2 identified,fun same => other same.2⟩⟩

theorem mem_partsFor {path' : P} {hash' : Hash}
    (known : path' = path ∨ hash' = hash ∧ hash ≠ 0) : p ∈ registry.partsFor path' hash' := by
  unfold partsFor
  rcases known with rfl | ⟨rfl,identified⟩
  · exact mem_append_left _ pending.1
  · rw [if_pos identified]
    exact mem_append_right _ (pending.2 identified)

end

theorem told {parts : List Nat} {calls : List (List Nat)} (call : parts ∈ calls) (member : p ∈ parts) :
    (registry.recordAll path hash calls).Pending path hash p := by
  induction calls generalizing registry with
  | nil => cases call
  | cons first calls ih =>
    rcases mem_cons.1 call with rfl | later
    · exact (recorded member).recordAll ..
    · exact ih later

end Pending

end UnverifiedSinceClear

namespace PartTracker
variable (t : PartTracker)

/-- The verified parts that `invalidate_range` clears and hands to `record_unverified`. -/
def unverifiedIn (start stop : Nat) : List Nat :=
  let stop := min stop t.fileSize
  if start < stop ∧ t.partVerified ≠ [] then
    let last := min ((stop-1)/partSize) (t.partCount-1)
    (List.range (last+1)).filter fun p => start/partSize ≤ p && t.isPartVerified p
  else []

/-- Coalescing invalidates run after run, each with a record of its own. -/
def unverifiedByRuns : PartTracker → List Ranges.Range → List (List Nat)
  | _, [] => []
  | t, run :: runs => t.unverifiedIn run.1 run.2 :: unverifiedByRuns (t.invalidateRange run.1 run.2) runs

def unverifiedByFill (start stop : Nat) : List (List Nat) :=
  (t.fillGaps start stop).unverifiedByRuns (t.takenBack start stop)

/-- What an operation hands to `record_unverified`, call by call. -/
def unverifiedBy : TrackerOp → List (List Nat)
  | .fillRange start stop => t.unverifiedByFill start stop
  | .markComplete partIdx => t.unverifiedByFill (t.partRange partIdx).1 (t.partRange partIdx).2
  | .markIncomplete partIdx => if t.isPartVerified partIdx then [[partIdx]] else []
  | .invalidateRange start stop => [t.unverifiedIn start stop]
  | .invalidateUnreadable readableLen => if readableLen < t.fileSize then [t.unverifiedIn readableLen t.fileSize] else []
  | .commit start stop => (t.releaseWriteReservation start stop).unverifiedByFill start stop
  | .reserve .. | .release .. => []
  | .clearPartHashesAndVerified => [(List.range t.partVerified.length).filter t.isPartVerified]

def beginLoad (met : Option Bytes) : PartTracker :=
  let read := t.loadInner met
  { (match read.2 with
    | .error _ => read.1.resetToIncomplete
    | .ok () => read.1) with writeReservations := [] }

def syncToOnDiskPartLength : Option Nat → PartTracker
  | some length => t.invalidateUnreadable length
  | none => t

def unverifiedBySync : Option Nat → List (List Nat)
  | some length => t.unverifiedBy (.invalidateUnreadable length)
  | none => []

def beginWithIdentity (fileSize : Nat) (expectedFileHash : Hash) (met : Option Bytes) : PartTracker :=
  if (trackedPartCount fileSize).isSome then (newEmpty fileSize expectedFileHash).beginLoad met
  else newEmpty fileSize expectedFileHash

end PartTracker

structure Session (P : Type) where
  path : P
  tracker : PartTracker

/-- The download's tracker, its sidecar on disk, the snapshots not written yet with their generations,
and the sessions. -/
structure Sharing (P : Type) where
  metPath : P
  tracker : PartTracker
  saveGeneration : Nat := 0
  snapshots : List (Nat × SaveSnapshot) := []
  met : Option Bytes := none
  registry : UnverifiedSinceClear P := {}
  sessions : List (Session P) := []

inductive SharingEvent (P : Type) where
  | op (op : TrackerOp)
  | setPartVerified (partIdx : Nat)
  | markFileHashVerified
  | snapshot
  | write (snapshot : Nat) (date : UInt32)
  | openSession (path : P) (fileSize : Nat) (expectedFileHash : Hash)
  | sync (session : Nat) (partLength : Option Nat)

namespace Sharing
variable {P : Type} [DecidableEq P]

variable (s : Sharing P)

def op (op : TrackerOp) : Sharing P :=
  { s with tracker := s.tracker.step op
           registry := s.registry.recordAll s.metPath s.tracker.fileHash (s.tracker.unverifiedBy op) }

def setPartVerified (s : Sharing P) (partIdx : Nat) : Sharing P :=
  if partIdx < s.tracker.partVerified.length then
    { s with tracker := s.tracker.setPartVerified partIdx
             registry := s.registry.clearPart s.metPath s.tracker.fileHash partIdx }
  else s

def markFileHashVerified (s : Sharing P) : Sharing P :=
  { s with tracker := s.tracker.markFileHashVerified, registry := s.registry.clearAll s.metPath s.tracker.fileHash }

def takeSnapshot : Sharing P :=
  { s with saveGeneration := s.saveGeneration+1
           snapshots := s.snapshots++[(s.saveGeneration+1,s.tracker.buildSaveSnapshot)] }

/-- A delayed writer gives up when a newer snapshot was taken. -/
def write (snapshot : Nat) (date : UInt32) : Sharing P :=
  match s.snapshots[snapshot]? with
  | none => s
  | some (generation,snap) =>
    let s := { s with snapshots := s.snapshots.eraseIdx snapshot }
    if s.saveGeneration ≠ generation then s
    else match snap.writeToDisk date with
      | .error _ => s
      | .ok bytes => { s with met := some bytes }

def openSession (path : P) (fileSize : Nat) (expectedFileHash : Hash) : Sharing P :=
  { s with sessions := s.sessions++[⟨path,.beginWithIdentity fileSize expectedFileHash s.met⟩] }

/-- A session cuts what it read down to the data on disk, and publishes what that clears. -/
def sync (session : Nat) (partLength : Option Nat) : Sharing P :=
  match s.sessions[session]? with
  | none => s
  | some reader =>
    { s with sessions := s.sessions.set session { reader with tracker := reader.tracker.syncToOnDiskPartLength partLength }
             registry := s.registry.recordAll reader.path reader.tracker.fileHash (reader.tracker.unverifiedBySync partLength) }

def step (s : Sharing P) : SharingEvent P → Sharing P
  | .op op => s.op op
  | .setPartVerified partIdx => s.setPartVerified partIdx
  | .markFileHashVerified => s.markFileHashVerified
  | .snapshot => s.takeSnapshot
  | .write snapshot date => s.write snapshot date
  | .openSession path fileSize expectedFileHash => s.openSession path fileSize expectedFileHash
  | .sync session partLength => s.sync session partLength

def run (events : List (SharingEvent P)) : Sharing P := events.foldl step s

def report (reader : Session P) : PartTracker :=
  reader.tracker.applyPendingInvalidations (s.registry.partsFor reader.path reader.tracker.fileHash)

end Sharing

section Bits
variable {t : PartTracker} {flags : List Bool} {p : Nat} {bytes : Bytes}

theorem note_bitmap (tags : MetTags) (mark : MetTag) (noted : (tags.note mark).verifiedBitmapBytes = some bytes) :
    tags.verifiedBitmapBytes = some bytes ∨ mark = .verifiedBitmap bytes := by
  cases mark with
  | verifiedBitmap own =>
    right
    rw [some.inj noted]
  | fileName name =>
    left
    simp only [MetTags.note] at noted
    split at noted <;> exact noted
  | _ => exact .inl noted

theorem readAll_bitmap {tags : List Bytes} {marks : List MetTag} (reads : List.Forall₂ (Reads readEmuleTag) tags marks)
    (only : ∀ bytes, .verifiedBitmap bytes ∈ marks → bytes = packBits flags) (count : Nat) (gathered : MetTags)
    (own : ∀ bytes, gathered.verifiedBitmapBytes = some bytes → bytes = packBits flags)
    (found : (MetTags.readAll count tags.flatten gathered).verifiedBitmapBytes = some bytes) : bytes = packBits flags := by
  induction reads generalizing count gathered with
  | nil =>
    cases count with
    | zero => exact own bytes found
    | succ count => exact own bytes found
  | @cons tag mark tags marks read rest ih =>
    cases count with
    | zero => exact own bytes found
    | succ count =>
      rw [flatten_cons,MetTags.readAll,if_neg (by simp [tag_ne_nil read]),read.whole] at found
      apply ih (fun bytes member => only bytes (mem_cons_of_mem _ member)) count (gathered.note mark) _ found
      intro bytes noted
      rcases note_bitmap gathered mark noted with earlier | marked
      · exact own bytes earlier
      · exact only bytes (marked ▸ mem_cons_self)

theorem metTags_bitmap {snap : SaveSnapshot} (member : .verifiedBitmap bytes ∈ snap.metTags) :
    bytes = packBits snap.partVerified := by
  have unmarked : ∀ i gaps, MetTag.verifiedBitmap bytes ∉ gapMarks i gaps := by
    intro i gaps
    induction gaps generalizing i with
    | nil => exact not_mem_nil
    | cons gap rest ih => simp [gapMarks,ih (i+1)]
  unfold SaveSnapshot.metTags at member
  simp only [mem_append,unmarked] at member
  rcases member with named | flagged
  · split at named <;> simp at named
  split at flagged
  · simpa using flagged
  · cases flagged

namespace PartTracker

theorem isPartVerified_lt (verified : t.isPartVerified p = true) : p < t.partVerified.length := by
  unfold isPartVerified at verified
  by_contra past
  rw [getElem?_eq_none (by omega)] at verified
  cases verified

theorem adoptTags_bits {count : Nat} {tags : MetTags} (verified : (t.adoptTags count tags).isPartVerified p = true) :
    t.isPartVerified p = true ∨ ∃ bytes, tags.verifiedBitmapBytes = some bytes ∧ bitAt bytes p = true := by
  unfold adoptTags at verified
  extract_lets t' unknown opened at verified
  split at verified
  · exact absurd verified lowered_ne
  · split at verified
    · exact .inl verified
    split at verified
    · exact .inl verified
    split at verified
    · exact .inl verified
    split at verified
    · exact .inl verified
    rename_i bytes shown
    right
    refine ⟨bytes,shown,?_⟩
    unfold isPartVerified at verified
    rw [getElem?_map] at verified
    by_cases inside : p < opened.partCount
    · rw [getElem?_range inside,map_some,getD_some,Bool.and_eq_true] at verified
      exact verified.1
    · rw [getElem?_eq_none (by rw [length_range]; omega)] at verified
      cases verified

variable {snap : SaveSnapshot}

theorem loadTags_bits {tags : List Bytes} (reads : List.Forall₂ (Reads readEmuleTag) tags snap.metTags)
    (blank : t.isPartVerified p = false)
    (verified : (t.loadTags (ofNatLittleEndian 4 tags.length++tags.flatten)).1.isPartVerified p = true) :
    (snap.partVerified[p]?.getD false) = true := by
  rcases adoptTags_bits verified with held | ⟨bytes,found,bit⟩
  · rw [blank] at held
    cases held
  · have same := readAll_bitmap reads (fun _ => metTags_bitmap) _ _ (fun _ none => by cases none) found
    rwa [same,bitAt_packBits] at bit

theorem knownMetHashset_head (partHashes : List Hash) (fileSize : Nat) :
    (ed2kKnownMetHashset partHashes fileSize).head? = partHashes.head? := by
  unfold ed2kKnownMetHashset
  split
  · rename_i whole
    cases partHashes with
    | nil =>
      have none : 0 = fileSize/partSize := whole.2.2
      have some := Nat.div_pos whole.1 (by unfold partSize; norm_num)
      omega
    | cons first rest => rfl
  · rfl

theorem loadEmuleFormat_bits {data dateAndHash body : Bytes} {version : UInt8} (layout : partMetHashLayout data version = .ok (5,true))
    (shape : data = [version]++(dateAndHash++body)) (length : dateAndHash.length = 20) (blank : t.isPartVerified p = false)
    (verified : (t.loadEmuleFormat data version).1.isPartVerified p = true) :
    ∃ (u : PartTracker) (partHashes : List Hash) (rest : Bytes), readPartHashes u.fileSize true body = .ok (some partHashes,rest) ∧
      u.isPartVerified p = false ∧ (u.loadTags rest).1.isPartVerified p = true := by
  have read := (exact_reads unexpectedEof dateAndHash).whole body
  rw [length] at read
  subst shape
  unfold loadEmuleFormat at verified
  rw [layout] at verified
  dsimp only at verified
  rw [show ([version]++(dateAndHash++body)).drop (5-4) = dateAndHash++body from rfl,read] at verified
  dsimp only at verified
  generalize taken : (if t.fileHash = 0 then { t with fileHash := array 128 (dateAndHash.drop 4) } else t) = t' at verified
  have same : t'.isPartVerified p = false := by
    rw [← taken]
    split <;> exact blank
  split at verified
  · exact absurd verified (by rw [show t.resetToIncomplete.isPartVerified p = t.isPartVerified p from rfl,blank]; simp)
  split at verified
  · exact absurd verified (by rw [same]; simp)
  · exact absurd verified (by rw [show t'.resetToIncomplete.isPartVerified p = t'.isPartVerified p from rfl,same]; simp)
  · rename_i hashes rest found
    exact ⟨{ t' with partHashes := hashes },hashes,rest,found,same,verified⟩

theorem loadInner_bits (fits : snap.Fits)
    (unambiguous : ∀ first ∈ snap.partHashes.head?, slice (ofArray first) 1 5 ≠ [0,0,2,1]) {date : UInt32}
    (written : snap.writeToDisk date = .ok bytes) (blank : t.isPartVerified p = false)
    (verified : (t.loadInner (some bytes)).1.isPartVerified p = true) : (snap.partVerified[p]?.getD false) = true := by
  obtain ⟨tags,tagged,reads,typed⟩ := fits.tags_reads
  have few : (ed2kKnownMetHashset snap.partHashes snap.fileSize).length ≤ 65535 := by
    by_contra many
    unfold SaveSnapshot.writeToDisk at written
    rw [if_pos (by omega)] at written
    cases written
  rw [writeToDisk_eq tagged date few] at written
  obtain rfl := Except.ok.inj written
  generalize hashset : ed2kKnownMetHashset snap.partHashes snap.fileSize = hashes at few verified
  have first := knownMetHashset_head snap.partHashes snap.fileSize
  rw [hashset] at first
  have current := version_current snap
  have layout : partMetHashLayout (snap.file date hashes tags) snap.version = .ok (5,true) := by
    apply partMetHashLayout_plain
    · rcases current with old | large
      · rw [old]
        decide
      · rw [large]
        decide
    · exact file_layout snap date typed (by rw [first]; exact unambiguous)
  have long : 4 ≤ (snap.file date hashes tags).length := by
    simp only [SaveSnapshot.file,length_append,length_ofNatLittleEndian]
    omega
  rw [loadInner_emule long rfl current] at verified
  obtain ⟨u,partHashes,rest,found,unverified,restored⟩ := loadEmuleFormat_bits layout rfl (by simp) blank verified
  by_cases known : hashes.length = 0 ∨ hashes.length = ed2kPartCountForSize u.fileSize ∨ hashes.length = ed2kKnownMetPartHashCount u.fileSize
  · rw [(readPartHashes_reads few known).whole] at found
    cases found
    exact loadTags_bits reads unverified restored
  · rw [readPartHashes_refused few known] at found
    cases found

end PartTracker
end Bits

namespace PartTracker
section Told
variable {t after final : PartTracker} {calls more : List (List Nat)} {start stop : Nat}

/-- Every bit that goes out was handed over in one of the calls. -/
def Told (t after : PartTracker) (calls : List (List Nat)) : Prop :=
  ∀ p, t.isPartVerified p = true → after.isPartVerified p = false → ∃ parts ∈ calls, p ∈ parts

theorem Told.trans (first : Told t after calls) (second : Told after final more) : Told t final (calls++more) := by
  intro p verified cleared
  cases between : after.isPartVerified p with
  | true =>
    obtain ⟨parts,call,member⟩ := second p between cleared
    exact ⟨parts,mem_append_right _ call,member⟩
  | false =>
    obtain ⟨parts,call,member⟩ := first p verified between
    exact ⟨parts,mem_append_left _ call,member⟩

theorem told_of_kept (same : after.partVerified = t.partVerified) : Told t after [] := by
  intro p verified cleared
  unfold isPartVerified at cleared
  rw [same] at cleared
  exact absurd (cleared.symm.trans verified) (by simp)

theorem bumpContentGeneration_flags : (t.bumpContentGeneration start stop).partVerified = t.partVerified := by
  unfold bumpContentGeneration
  split <;> rfl

theorem addGap_flags : (t.addGap start stop).partVerified = t.partVerified := by
  unfold addGap
  dsimp only
  split
  · rfl
  · exact bumpContentGeneration_flags

theorem fillGaps_flags : (t.fillGaps start stop).partVerified = t.partVerified := by
  unfold fillGaps
  dsimp only
  split
  · exact bumpContentGeneration_flags
  · rfl

theorem invalidateRange_told (t : PartTracker) (start stop : Nat) :
    Told t (t.invalidateRange start stop) [t.unverifiedIn start stop] := by
  intro p verified cleared
  refine ⟨_,mem_singleton_self _,?_⟩
  unfold unverifiedIn
  unfold invalidateRange at cleared
  extract_lets stop' opened last at cleared
  dsimp only
  have flags : opened.partVerified = t.partVerified := addGap_flags
  have bit : t.partVerified[p]? = some true := by
    unfold isPartVerified at verified
    cases held : t.partVerified[p]? with
    | none => rw [held] at verified; cases verified
    | some flag => rw [held] at verified; exact congrArg some verified
  split at cleared
  · rename_i proper
    rw [if_pos ⟨proper.1,flags ▸ proper.2⟩,mem_filter,mem_range]
    unfold isPartVerified at cleared
    dsimp only at cleared
    rw [getElem?_mapIdx,flags,bit] at cleared
    split_ifs at cleared with inside
    · exact ⟨Nat.lt_succ_of_le inside.2,by rw [decide_eq_true inside.1,verified]; rfl⟩
    · cases cleared
  · unfold isPartVerified at cleared
    rw [flags,bit] at cleared
    cases cleared

theorem reopen_told (t : PartTracker) (runs : List Ranges.Range) : Told t (t.reopen runs) (t.unverifiedByRuns runs) := by
  induction runs generalizing t with
  | nil => exact told_of_kept rfl
  | cons run runs ih => exact (invalidateRange_told t run.1 run.2).trans (ih _)

theorem fillRange_told (t : PartTracker) (start stop : Nat) :
    Told t (t.fillRange start stop).1 (t.unverifiedByFill start stop) := by
  unfold unverifiedByFill
  by_cases proper : start < stop
  · rw [fillRange_eq proper]
    exact (told_of_kept fillGaps_flags).trans (reopen_told _ _)
  · unfold fillRange takenBack
    rw [if_pos (by omega),if_pos (by omega)]
    exact told_of_kept rfl

theorem filled_told {range : Ranges.Range} : Told t (t.filled range) (t.unverifiedByFill range.1 range.2) :=
  fillRange_told t range.1 range.2

theorem invalidateUnreadable_told (t : PartTracker) (readableLen : Nat) :
    Told t (t.invalidateUnreadable readableLen) (t.unverifiedBy (.invalidateUnreadable readableLen)) := by
  unfold invalidateUnreadable unverifiedBy
  dsimp only
  split
  · exact invalidateRange_told t _ _
  · exact told_of_kept rfl

/-- No operation clears a bit without a call that names its part. -/
theorem step_told (t : PartTracker) (op : TrackerOp) : Told t (t.step op) (t.unverifiedBy op) := by
  cases op with
  | fillRange start stop => exact fillRange_told t start stop
  | markComplete partIdx => exact filled_told
  | markIncomplete partIdx =>
    intro p verified cleared
    unfold step markIncomplete isPartVerified at cleared
    dsimp only at cleared
    rw [addGap_flags] at cleared
    dsimp only [unverifiedBy]
    by_cases same : p = partIdx
    · subst same
      rw [if_pos verified]
      exact ⟨[p],mem_singleton_self _,mem_singleton_self _⟩
    · rw [getElem?_set_ne (Ne.symm same)] at cleared
      exact absurd (cleared.symm.trans verified) (by simp)
  | invalidateRange start stop => exact invalidateRange_told t start stop
  | invalidateUnreadable readableLen => exact invalidateUnreadable_told t readableLen
  | reserve start stop => exact told_of_kept rfl
  | commit start stop =>
    exact fun p verified => fillRange_told (t.releaseWriteReservation start stop) start stop p verified
  | release start stop => exact told_of_kept rfl
  | clearPartHashesAndVerified =>
    intro p verified _
    exact ⟨_,mem_singleton_self _,mem_filter.2 ⟨mem_range.2 (isPartVerified_lt verified),verified⟩⟩

end Told

variable {t : PartTracker} {p : Nat}

theorem Sound.partVerified_length (sound : Sound t) : t.partVerified.length ≤ 65535 := by
  rw [sound.verified,sound.parts]
  unfold trackedPartCount ed2kMaxFileSizeBytes ed2kMaxWireParts partSize
  split
  · simp
  split
  · simp
  · rw [getD_some]
    omega

theorem Sound.fits (sound : Sound t) (size : t.fileSize < 2^64) : t.buildSaveSnapshot.Fits where
  few := by
    have bound := sound.apart.length_le sound.inside
    change t.gaps.length ≤ 2^64
    omega
  gaps := fun gap member => ⟨sound.apart.nonempty gap member,sound.inside gap member⟩
  size := size
  flags := sound.partVerified_length

theorem beginLoad_bits {met : Option Bytes} (verified : (t.beginLoad met).isPartVerified p = true) :
    (t.loadInner met).1.isPartVerified p = true := by
  unfold beginLoad at verified
  dsimp only at verified
  cases outcome : (t.loadInner met).2 with
  | error error =>
    rw [outcome] at verified
    exact verified
  | ok done =>
    rw [outcome] at verified
    exact verified

theorem newEmpty_blank (fileSize : Nat) (fileHash : Hash) (p : Nat) : (newEmpty fileSize fileHash).isPartVerified p = false := by
  change ((List.replicate ((trackedPartCount fileSize).getD 0) false)[p]?.getD false) = false
  rw [getElem?_replicate]
  split <;> rfl

theorem applyPendingInvalidations_bits {pending : List Nat} (verified : (t.applyPendingInvalidations pending).isPartVerified p = true) :
    p ∉ pending ∧ t.isPartVerified p = true := by
  change ((pending.foldl (fun flags p => flags.set p false) t.partVerified)[p]?.getD false) = true at verified
  change p ∉ pending ∧ (t.partVerified[p]?.getD false) = true
  generalize t.partVerified = flags at verified ⊢
  induction pending generalizing flags with
  | nil => exact ⟨not_mem_nil,verified⟩
  | cons q rest ih =>
    obtain ⟨absent,held⟩ := ih _ verified
    rw [getElem?_set] at held
    split at held
    · split at held <;> cases held
    · rename_i other
      exact ⟨fun member => (mem_cons.1 member).elim (fun same => other same.symm) absent,held⟩

end PartTracker

namespace Sharing
open PartTracker
variable {P : Type} [DecidableEq P] {s after : Sharing P} {p : Nat} {tracker : PartTracker}

/-- A part that may be named on disk: verified in the tracker, or its withdrawal is on record. -/
def Vouched (s : Sharing P) (p : Nat) : Prop :=
  p < s.tracker.partVerified.length ∧ (s.tracker.isPartVerified p = true ∨ s.registry.Pending s.metPath s.tracker.fileHash p)

/-- First part hashes that cannot be taken for the older layout. -/
def Unambiguous (partHashes : List Hash) : Prop := ∀ first ∈ partHashes.head?, slice (ofArray first) 1 5 ≠ [0,0,2,1]

/-- Whatever a sidecar, a snapshot under way or a session names is vouched for. -/
structure Guarded (s : Sharing P) : Prop where
  sound : s.tracker.Sound
  size : s.tracker.fileSize < 2^64
  unambiguous : Unambiguous s.tracker.partHashes
  snapshots : ∀ entry ∈ s.snapshots, (entry.2.Fits ∧ Unambiguous entry.2.partHashes) ∧
    ∀ p, (entry.2.partVerified[p]?.getD false) = true → s.Vouched p
  met : ∀ bytes ∈ s.met, ∀ (t : PartTracker) p, t.isPartVerified p = false →
    (t.loadInner (some bytes)).1.isPartVerified p = true → s.Vouched p
  sessions : ∀ reader ∈ s.sessions, ∀ p, reader.tracker.isPartVerified p = true → s.Vouched p

theorem Guarded.carry (guarded : Guarded s) {registry : UnverifiedSinceClear P} (sound : tracker.Sound)
    (size : tracker.fileSize = s.tracker.fileSize) (unambiguous : Unambiguous tracker.partHashes)
    (vouched : ∀ p, s.Vouched p → Vouched { s with tracker := tracker, registry := registry } p) :
    Guarded { s with tracker := tracker, registry := registry } where
  sound := sound
  size := size ▸ guarded.size
  unambiguous := unambiguous
  snapshots := fun entry member =>
    ⟨(guarded.snapshots entry member).1,fun p verified => vouched p ((guarded.snapshots entry member).2 p verified)⟩
  met := fun bytes stored t p blank verified => vouched p (guarded.met bytes stored t p blank verified)
  sessions := fun reader member p verified => vouched p (guarded.sessions reader member p verified)

theorem vouched_op (op : TrackerOp) (vouched : s.Vouched p) : (s.op op).Vouched p := by
  obtain ⟨held,_,edits⟩ := step_edits s.tracker op
  have framed := edits.framed
  have inside : p < (s.tracker.step op).partVerified.length := framed.shaped.verified ▸ vouched.1
  refine ⟨inside,?_⟩
  change (s.tracker.step op).isPartVerified p = true ∨
    (s.registry.recordAll s.metPath s.tracker.fileHash (s.tracker.unverifiedBy op)).Pending s.metPath (s.tracker.step op).fileHash p
  rw [framed.hash]
  rcases vouched.2 with verified | pending
  · cases kept : (s.tracker.step op).isPartVerified p with
    | true => exact .inl rfl
    | false =>
      obtain ⟨parts,call,member⟩ := step_told s.tracker op p verified kept
      exact .inr (.told call member)
  · exact .inr (pending.recordAll ..)

section
variable (guarded : Guarded s)
include guarded

theorem Guarded.op {op : TrackerOp} : Guarded (s.op op) := by
  obtain ⟨held,_,edits⟩ := step_edits s.tracker op
  have framed := edits.framed
  have unambiguous : Unambiguous (s.tracker.step op).partHashes := by
    rcases framed.hashes with same | none
    · exact (congrArg Unambiguous same).mpr guarded.unambiguous
    · apply (congrArg Unambiguous none).mpr
      exact fun _ first => by cases first
  exact guarded.carry (step_sound guarded.sound op) framed.shaped.size unambiguous fun p => vouched_op op

theorem Guarded.setPartVerified {partIdx : Nat} : Guarded (s.setPartVerified partIdx) := by
  unfold Sharing.setPartVerified
  split
  · rename_i inside
    have length : (s.tracker.partVerified.set partIdx true).length = s.tracker.partVerified.length := length_set
    have sound : (s.tracker.setPartVerified partIdx).Sound := guarded.sound.reverified _ length
    refine guarded.carry sound rfl guarded.unambiguous fun p vouched => ?_
    refine ⟨length ▸ vouched.1,?_⟩
    change ((s.tracker.partVerified.set partIdx true)[p]?.getD false) = true ∨ _
    by_cases same : p = partIdx
    · subst same
      rw [getElem?_set_self inside]
      exact .inl rfl
    rw [getElem?_set_ne (Ne.symm same)]
    rcases vouched.2 with verified | pending
    · exact .inl verified
    · exact .inr (pending.clearPart same)
  · exact guarded

theorem Guarded.markFileHashVerified : Guarded s.markFileHashVerified := by
  have length : (s.tracker.partVerified.map fun _ => true).length = s.tracker.partVerified.length := length_map ..
  have sound : s.tracker.markFileHashVerified.Sound := guarded.sound.aside ⟨rfl,rfl,length,rfl⟩ rfl
  refine guarded.carry sound rfl guarded.unambiguous fun p vouched => ?_
  refine ⟨length ▸ vouched.1,.inl ?_⟩
  change ((s.tracker.partVerified.map fun _ => true)[p]?.getD false) = true
  rw [getElem?_map,getElem?_eq_getElem vouched.1]
  rfl

theorem Guarded.takeSnapshot : Guarded s.takeSnapshot := by
  refine { guarded with snapshots := ?_ }
  intro entry member
  rcases mem_append.1 member with earlier | taken
  · exact guarded.snapshots entry earlier
  · rw [mem_singleton.1 taken]
    exact ⟨⟨guarded.sound.fits guarded.size,guarded.unambiguous⟩,fun p verified => ⟨isPartVerified_lt verified,.inl verified⟩⟩

theorem Guarded.write {snapshot : Nat} {date : UInt32} : Guarded (s.write snapshot date) := by
  unfold Sharing.write
  split
  · exact guarded
  rename_i generation snap found
  have entry := guarded.snapshots _ (mem_of_getElem? found)
  have taken : Guarded { s with snapshots := s.snapshots.eraseIdx snapshot } :=
    { guarded with snapshots := fun entry member => guarded.snapshots entry (mem_of_mem_eraseIdx member) }
  dsimp only
  split
  · exact taken
  split
  · exact taken
  rename_i bytes written
  refine { taken with met := ?_ }
  intro stored same t p blank verified
  obtain rfl := some.inj same
  exact entry.2 p (loadInner_bits entry.1.1 entry.1.2 written blank verified)

theorem Guarded.openSession {path : P} {fileSize : Nat} {expected : Hash} :
    Guarded (s.openSession path fileSize expected) := by
  refine { guarded with sessions := ?_ }
  intro reader member p verified
  rcases mem_append.1 member with earlier | opened
  · exact guarded.sessions reader earlier p verified
  rw [mem_singleton.1 opened] at verified
  have blank := newEmpty_blank fileSize expected p
  unfold beginWithIdentity at verified
  split at verified
  · have read := beginLoad_bits verified
    cases stored : s.met with
    | none =>
      rw [stored] at read
      exact absurd (blank.symm.trans read) (by simp)
    | some bytes =>
      rw [stored] at read
      exact guarded.met bytes stored _ p blank read
  · exact absurd (blank.symm.trans verified) (by simp)

theorem Guarded.sync {session : Nat} {partLength : Option Nat} : Guarded (s.sync session partLength) := by
  unfold Sharing.sync
  split
  · exact guarded
  rename_i reader found
  have cut : Framed reader.tracker (reader.tracker.syncToOnDiskPartLength partLength) := by
    unfold syncToOnDiskPartLength
    split
    · exact (invalidateUnreadable_edits ..).framed
    · exact Edits.refl.framed
  generalize recorded :
    s.registry.recordAll reader.path reader.tracker.fileHash (reader.tracker.unverifiedBySync partLength) = registry
  have noted : Guarded { s with registry := registry } := by
    refine guarded.carry guarded.sound rfl guarded.unambiguous fun p vouched => ?_
    refine ⟨vouched.1,vouched.2.imp_right fun pending => ?_⟩
    have kept := pending.recordAll reader.path reader.tracker.fileHash (reader.tracker.unverifiedBySync partLength)
    rwa [recorded] at kept
  refine { noted with sessions := ?_ }
  intro other member p verified
  rcases mem_or_eq_of_mem_set member with old | new
  · exact noted.sessions other old p verified
  · rw [new] at verified
    exact noted.sessions reader (mem_of_getElem? found) p (cut.lowered p verified)

theorem Guarded.step {event : SharingEvent P} : Guarded (s.step event) := by
  cases event with
  | op op => exact guarded.op
  | setPartVerified partIdx => exact guarded.setPartVerified
  | markFileHashVerified => exact guarded.markFileHashVerified
  | snapshot => exact guarded.takeSnapshot
  | write snapshot date => exact guarded.write
  | openSession path fileSize expected => exact guarded.openSession
  | sync session partLength => exact guarded.sync

theorem Guarded.run (events : List (SharingEvent P)) : Guarded (s.run events) := by
  induction events generalizing s with
  | nil => exact guarded
  | cons event events ih => exact ih guarded.step

end

theorem step_metPath (s : Sharing P) (event : SharingEvent P) : (s.step event).metPath = s.metPath := by
  cases event with
  | setPartVerified partIdx =>
    change (s.setPartVerified partIdx).metPath = s.metPath
    unfold setPartVerified
    split <;> rfl
  | write snapshot date =>
    change (s.write snapshot date).metPath = s.metPath
    unfold write
    split
    · rfl
    dsimp only
    split
    · rfl
    · split <;> rfl
  | sync session partLength =>
    change (s.sync session partLength).metPath = s.metPath
    unfold sync
    split <;> rfl
  | _ => rfl

theorem run_metPath (s : Sharing P) (events : List (SharingEvent P)) : (s.run events).metPath = s.metPath := by
  induction events generalizing s with
  | nil => rfl
  | cons event events ih => exact (ih _).trans (step_metPath s event)

theorem Guarded.reported (guarded : Guarded s) {reader : Session P} (member : reader ∈ s.sessions)
    (known : reader.path = s.metPath ∨ reader.tracker.fileHash = s.tracker.fileHash ∧ s.tracker.fileHash ≠ 0)
    (verified : (s.report reader).isPartVerified p = true) : s.tracker.isPartVerified p = true := by
  obtain ⟨absent,held⟩ := applyPendingInvalidations_bits verified
  rcases (guarded.sessions reader member p held).2 with live | pending
  · exact live
  · exact absurd (pending.mem_partsFor known) absent

/-- A run starts with a tracker and no sidecar, or, in a new process, with what the sidecar of an
unfinished download gives. -/
inductive Start : Sharing P → Prop where
  | fresh {metPath : P} {t : PartTracker} {registry : UnverifiedSinceClear P} (sound : t.Sound) (size : t.fileSize < 2^64)
      (unambiguous : Unambiguous t.partHashes) : Start { metPath := metPath, tracker := t, registry := registry }
  | resumed {metPath : P} {saved : PartTracker} {date : UInt32} {bytes : Bytes} {length : Nat} (storable : Storable saved)
      (unfinished : saved.gaps ≠ []) (backed : ∀ p, saved.isPartVerified p = true → saved.isPartComplete p = true)
      (written : saved.buildSaveSnapshot.writeToDisk date = .ok bytes) (full : saved.fileSize ≤ length) :
      Start { metPath := metPath, tracker := saved.reload bytes length, met := some bytes }

theorem Start.guarded (start : Start s) : Guarded s := by
  cases start with
  | fresh sound size unambiguous =>
    refine ⟨sound,size,unambiguous,fun _ absent => (not_mem_nil absent).elim,?_,fun _ absent => (not_mem_nil absent).elim⟩
    intro bytes absent
    cases absent
  | @resumed metPath saved date bytes length storable unfinished backed written full =>
    obtain ⟨tags,tagged,reads,typed⟩ := storable.fits.tags_reads
    have file := written
    rw [writeToDisk_eq tagged date (storable.hashes rfl).2.1] at file
    have same : Reproduces saved (saved.reload bytes length) := by
      rw [← Except.ok.inj file]
      exact reproduces_reload storable ⟨storable,rfl,reads,typed⟩ full
    have sound : (saved.reload bytes length).Sound := by
      unfold reload
      rw [newWithIdentity_load storable]
      exact newEmpty_sound.load storable.size.1
    refine ⟨sound,same.fileSize.trans_lt storable.fits.size,?_,fun _ absent => (not_mem_nil absent).elim,?_,
      fun _ absent => (not_mem_nil absent).elim⟩
    · exact (congrArg Unambiguous same.partHashes).mpr storable.unambiguous
    intro stored present t p blank verified
    obtain rfl := some.inj present
    -- the reload brought back every bit a reader can find
    have bit : saved.isPartVerified p = true := loadInner_bits storable.fits storable.unambiguous written blank verified
    have inside : p < saved.partCount := storable.sound.verified ▸ isPartVerified_lt bit
    have restored : (saved.reload bytes length).isPartVerified p = true := by
      unfold isPartVerified
      rw [same.partVerified,if_neg unfinished,getElem?_map,getElem?_range inside]
      change (saved.isPartVerified p && saved.isPartComplete p) = true
      rw [bit,backed p bit]
      rfl
    exact ⟨isPartVerified_lt restored,.inl restored⟩

/-- A part a session's load reports is verified in the download's tracker at that moment, however old the
sidecar. -/
theorem verified_never_stale (first : Sharing P) (start : Start first) (events : List (SharingEvent P)) (s : Sharing P)
    (reached : first.run events = s) reader (member : reader ∈ s.sessions)
    (known : reader.path = first.metPath ∨ reader.tracker.fileHash = s.tracker.fileHash ∧ s.tracker.fileHash ≠ 0) p
    (reported : (s.report reader).isPartVerified p = true) : s.tracker.isPartVerified p = true := by
  have guarded := start.guarded.run events
  have path : (first.run events).metPath = first.metPath := run_metPath ..
  rw [reached] at guarded path
  rw [← path] at known
  exact guarded.reported member known reported

def sidecar : Bytes := (halfway.buildSaveSnapshot.writeToDisk 1).toOption.getD []

def resumption : Sharing Unit := { metPath := (), tracker := halfway.reload sidecar 9728100, met := some sidecar }

/-- A part the sidecar names is withdrawn and verified again under a session that read it. -/
def renewal : List (SharingEvent Unit) :=
  [.openSession () 9728100 0,.op (.invalidateRange 0 10),.openSession () 9728100 0,.op (.fillRange 0 10),.setPartVerified 0]

theorem resumption_starts : Start resumption := by
  have found : (halfway.buildSaveSnapshot.writeToDisk 1).toOption = some sidecar := by decide +kernel
  have written : halfway.buildSaveSnapshot.writeToDisk 1 = .ok sidecar := by
    cases outcome : halfway.buildSaveSnapshot.writeToDisk 1 with
    | ok bytes =>
      rw [outcome] at found
      rw [some.inj found]
    | error error =>
      rw [outcome] at found
      cases found
  refine .resumed halfway_storable (by rw [halfway_gaps]; simp) ?_ written halfway_size.le
  intro p verified
  have inside : p < 2 := by
    have inside := isPartVerified_lt verified
    rwa [show halfway.partVerified.length = 2 by decide +kernel] at inside
  interval_cases p
  · decide +kernel
  · exact absurd verified (by decide +kernel)

theorem verified_never_stale_renewal : ∃ s : Sharing Unit, resumption.run renewal = s ∧
    ∃ reader ∈ s.sessions, (s.report reader).isPartVerified 0 = true ∧ s.tracker.isPartVerified 0 = true := by
  have found : ∃ reader ∈ (resumption.run renewal).sessions, ((resumption.run renewal).report reader).isPartVerified 0 = true :=
    List.any_eq_true.1 (by decide +kernel)
  obtain ⟨reader,member,reported⟩ := found
  exact ⟨_,rfl,reader,member,reported,
    verified_never_stale resumption resumption_starts renewal _ rfl reader member (.inl rfl) 0 reported⟩

/-- Part hashes that read, in the older layout, as tags: a text, a bitmap with the first part verified,
and a text that passes over the count of the tags that follow. -/
def forged : PartTracker :=
  { newEmpty 9729000 7 with partHashes := [0x010000020100FF080000000000000000,0x00070100EB0100000001020100FF0400] }

/-- The first part is complete, and the second has as many gaps as the forged count of tags asks for. -/
def forgery : List (SharingEvent Unit) :=
  .op (.markComplete 0) :: (List.range 124).map (fun k => .op (.fillRange (9728001+2*k) (9728002+2*k)))++
    [.snapshot,.write 0 1,.openSession () 9729000 0]

def forgedRun : Sharing Unit := Sharing.run { metPath := (), tracker := forged } forgery

/-- Nothing was ever verified, and the load reports the first part. -/
theorem stale_forged : ∃ reader ∈ forgedRun.sessions, reader.path = () ∧ (forgedRun.report reader).isPartVerified 0 = true ∧
    forgedRun.tracker.isPartVerified 0 = false := by
  have found : forgedRun.sessions.any (fun reader =>
      (forgedRun.report reader).isPartVerified 0 && !forgedRun.tracker.isPartVerified 0) = true := by decide +kernel
  obtain ⟨reader,member,reported⟩ := List.any_eq_true.1 found
  rw [Bool.and_eq_true,Bool.not_eq_true'] at reported
  exact ⟨reader,member,rfl,reported⟩

end Sharing
end Ember.Ed2k
