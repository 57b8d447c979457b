import Ember.Ed2k.PartMetLoad
import Ember.Ed2k.PartMetTags

/-! A saved sidecar loads as what was saved, and any strict beginning of it as nothing downloaded. -/
namespace Ember.Ed2k
open Ranges Bytes Reader List AList

section Adopted
variable {snap : SaveSnapshot}

theorem gapAt_gathered {j : Nat} {gap : Range} (listed : snap.gaps[j]? = some gap) (proper : gap.1 < gap.2)
    (inside : gap.2 ≤ snap.fileSize) : snap.gathered.gapAt snap.fileSize j gap.1 = some gap := by
  have stop : snap.gathered.gapEnds.lookup j = some gap.2 := by
    change (filed Prod.snd 0 snap.gaps ∅).lookup j = some gap.2
    rw [lookup_filed_all,listed,Option.map_some]
  unfold MetTags.gapAt
  rw [stop]
  change (if gap.1 < min gap.2 snap.fileSize ∧ min gap.2 snap.fileSize ≤ snap.fileSize then some (gap.1,min gap.2 snap.fileSize)
    else none) = some gap
  rw [Nat.min_eq_left inside,if_pos ⟨proper,inside⟩]

theorem gathered_gaps (apart : Apart snap.gaps) (inside : ∀ gap ∈ snap.gaps, gap.2 ≤ snap.fileSize) :
    snap.gathered.gaps snap.fileSize = snap.gaps := by
  apply (snap.gathered.gaps_normal snap.fileSize).1.eq_of_covers apart
  intro x
  unfold MetTags.gaps
  rw [covers_merge]
  constructor
  · rintro ⟨found,member,covered⟩
    obtain ⟨entry,listed,read⟩ := mem_filterMap.1 member
    have looked : (filed Prod.fst 0 snap.gaps ∅).lookup entry.1 = some entry.2 := mem_lookup_iff.2 listed
    rw [lookup_filed_all] at looked
    obtain ⟨gap,placed,start⟩ := Option.map_eq_some_iff.1 looked
    have own := mem_of_getElem? placed
    rw [← start,gapAt_gathered placed (apart.nonempty gap own) (inside gap own)] at read
    exact ⟨gap,own,by rwa [← Option.some.inj read] at covered⟩
  · rintro ⟨gap,own,covered⟩
    obtain ⟨j,placed⟩ := mem_iff_getElem?.1 own
    have looked : (filed Prod.fst 0 snap.gaps ∅).lookup j = some gap.1 := by
      rw [lookup_filed_all,placed,Option.map_some]
    exact ⟨gap,mem_filterMap.2 ⟨⟨j,gap.1⟩,mem_lookup_iff.1 looked,
      gapAt_gathered placed (apart.nonempty gap own) (inside gap own)⟩,covered⟩

theorem gathered_paired : snap.gathered.gapEnds.keys.any (fun idx => (snap.gathered.gapStarts.lookup idx).isNone) = false := by
  apply any_eq_false.2
  intro j listed
  have looked : ((filed Prod.snd 0 snap.gaps ∅).lookup j).isSome = true := lookup_isSome.2 listed
  change ¬ ((filed Prod.fst 0 snap.gaps ∅).lookup j).isNone = true
  rw [lookup_filed_all] at looked
  rw [lookup_filed_all,Option.isNone_map,Option.isNone_iff_eq_none]
  intro none
  rw [none] at looked
  cases looked

theorem gathered_starts : snap.gathered.gapStarts.entries = [] ↔ snap.gaps = [] := by
  change (filed Prod.fst 0 snap.gaps ∅).entries = [] ↔ _
  constructor
  · intro empty
    by_contra some
    obtain ⟨gap,rest,shown⟩ := exists_cons_of_ne_nil some
    have looked : (filed Prod.fst 0 snap.gaps ∅).lookup 0 = Option.some gap.1 := by
      rw [lookup_filed_all,shown]
      rfl
    have listed := mem_lookup_iff.1 looked
    rw [empty] at listed
    cases listed
  · intro none
    rw [none]
    rfl

namespace PartTracker
variable {t : PartTracker}

theorem isPartComplete_congr {t' : PartTracker} (size : t.fileSize = t'.fileSize) (count : t.partCount = t'.partCount)
    (gaps : t.gaps = t'.gaps) (i : Nat) : t.isPartComplete i = t'.isPartComplete i := by
  unfold isPartComplete gapOverlapsFrom firstGapReaching partRange
  rw [size,count,gaps]

def restored (t : PartTracker) (snap : SaveSnapshot) : List Bool :=
  if snap.gaps = [] ∨ snap.partVerified.any id = false then t.partVerified
  else (List.range t.partCount).map fun i => snap.partVerified[i]?.getD false && { t with gaps := snap.gaps }.isPartComplete i

theorem restored_kept (kept : snap.gaps = [] ∨ snap.partVerified.any id = false) : t.restored snap = t.partVerified := if_pos kept

theorem adoptTags_gathered (fits : snap.Fits) (short : snap.gaps.length ≤ maxGapEntries) (apart : Apart snap.gaps)
    (same : t.fileSize = snap.fileSize) (filled : 0 < t.fileSize) :
    t.adoptTags snap.metTags.length snap.gathered =
      { t with
        fileName := if snap.fileName.bytes = [] then t.fileName else decodeMetString (clampedName snap.fileName)
        transferred := UInt64.ofNat (snap.transferred.toNat%2^sizedBits snap.useLarge)
        gaps := snap.gaps
        partVerified := t.restored snap } := by
  have few := SaveSnapshot.Fits.metTags_length short
  have sized : snap.gathered.fileSizeFromTags.any (· != t.fileSize) = false := by
    change (some (snap.fileSize%2^sizedBits snap.useLarge)).any (· != t.fileSize) = false
    rw [Nat.mod_eq_of_lt fits.sized,same]
    simp
  have parsed : snap.gathered.tagsParsed = snap.metTags.length := rfl
  have name : snap.gathered.fileName.getD t.fileName =
      if snap.fileName.bytes = [] then t.fileName else decodeMetString (clampedName snap.fileName) := by
    change (if snap.fileName.bytes = [] then none else some (decodeMetString (clampedName snap.fileName))).getD t.fileName = _
    split <;> rfl
  rw [← name]
  unfold adoptTags
  extract_lets t' unknown opened
  rw [if_neg (by rw [sized]; simp),if_neg (by rw [parsed]; unfold maxTagCount; omega),if_neg (by rw [gathered_paired]; simp)]
  by_cases none : snap.gaps = []
  · rw [if_pos ⟨gathered_starts.2 none,filled⟩,restored_kept (.inl none),none]
    rfl
  rw [if_neg fun empty => none (gathered_starts.1 empty.1)]
  have gaps : opened = { t' with gaps := snap.gaps } := by
    unfold opened
    rw [show t'.fileSize = snap.fileSize from same,gathered_gaps apart fun gap member => (fits.gaps gap member).2]
  rw [gaps]
  cases flagged : snap.partVerified.any id with
  | false =>
    have bitmap : snap.gathered.verifiedBitmapBytes = Option.none := by
      unfold SaveSnapshot.gathered
      rw [flagged]
      rfl
    rw [bitmap,restored_kept (.inr flagged)]
    rfl
  | true =>
    have bitmap : snap.gathered.verifiedBitmapBytes = some (packBits snap.partVerified) := by
      unfold SaveSnapshot.gathered
      rw [flagged]
      rfl
    rw [bitmap]
    unfold restored
    simp only [none,flagged,bitAt_packBits]
    rfl

end PartTracker
end Adopted

section File
variable {t : PartTracker}

structure Storable (t : PartTracker) : Prop where
  sound : t.Sound
  size : ValidSize t.fileSize
  few : t.gaps.length ≤ maxGapEntries
  identified : t.fileHash ≠ 0
  hashset : t.partHashes = [] ∨ t.partHashes.length = ed2kPartCountForSize t.fileSize
  unambiguous : ∀ first ∈ t.partHashes.head?, slice (ofArray first) 1 5 ≠ [0,0,2,1]
  name : t.fileName.bytes.length ≤ 65535
  unmarked : t.fileName.bytes.take 3 ≠ [0xEF,0xBB,0xBF]

namespace Storable

section
variable (storable : Storable t)
include storable

theorem bounds : 1 ≤ t.fileSize ∧ t.fileSize < 65535*9728000 := by
  have size := storable.size
  unfold ValidSize ed2kMaxFileSizeBytes ed2kMaxWireParts partSize at size
  omega

theorem counted : t.partCount = ed2kPartCountForSize t.fileSize := by
  have size := storable.size
  unfold ValidSize at size
  rw [storable.sound.parts,trackedPartCount,ed2kPartCountForSize,if_neg (by omega),if_neg (by omega),if_neg (by omega),Option.getD_some]

theorem partCount_le : ed2kPartCountForSize t.fileSize ≤ 65535 := by
  have size := storable.bounds
  unfold ed2kPartCountForSize partSize
  split
  · omega
  · omega

theorem fits : t.buildSaveSnapshot.Fits where
  few := by
    have few : t.gaps.length ≤ 8192 := storable.few
    change t.gaps.length ≤ 2^64
    omega
  gaps := fun gap member => ⟨storable.sound.apart.nonempty gap member,storable.sound.inside gap member⟩
  size := by
    have size := storable.bounds
    change t.fileSize < 2^64
    omega
  flags := by
    change t.partVerified.length ≤ 65535
    rw [storable.sound.verified,storable.counted]
    exact storable.partCount_le

theorem hashes {hashes : List Hash} (written : ed2kKnownMetHashset t.partHashes t.fileSize = hashes) :
    hashes.take (ed2kPartCountForSize t.fileSize) = t.partHashes ∧ hashes.length ≤ 65535 ∧
      (hashes.length = 0 ∨ hashes.length = ed2kPartCountForSize t.fileSize ∨ hashes.length = ed2kKnownMetPartHashCount t.fileSize) ∧
      ∀ first ∈ hashes.head?, slice (ofArray first) 1 5 ≠ [0,0,2,1] := by
  have bounds := storable.bounds
  have count := storable.partCount_le
  subst written
  unfold ed2kKnownMetHashset
  by_cases whole : partSize ≤ t.fileSize ∧ t.fileSize%partSize = 0 ∧ t.partHashes.length = t.fileSize/partSize
  · -- an exact multiple of the part size, with all its hashes
    have parts : ed2kPartCountForSize t.fileSize = t.partHashes.length ∧
        ed2kKnownMetPartHashCount t.fileSize = t.partHashes.length+1 ∧ 0 < t.partHashes.length ∧ t.partHashes.length < 65535 := by
      unfold ed2kPartCountForSize ed2kKnownMetPartHashCount
      rw [if_neg (by omega),if_neg (by omega),if_pos whole.2.1]
      unfold partSize at whole ⊢
      omega
    obtain ⟨first,rest,shown⟩ := exists_cons_of_length_pos parts.2.2.1
    rw [if_pos whole,parts.1,length_append,length_singleton]
    refine ⟨take_left ..,by omega,.inr (.inr parts.2.1.symm),?_⟩
    have head : (t.partHashes++[emptyMd4]).head? = t.partHashes.head? := by
      rw [shown]
      rfl
    rw [head]
    exact storable.unambiguous
  · rw [if_neg whole]
    rcases storable.hashset with none | full
    · refine ⟨by simp [none],by rw [none]; simp,.inl (by rw [none]; rfl),storable.unambiguous⟩
    · exact ⟨by rw [← full,take_length],by omega,.inr (.inl full),storable.unambiguous⟩

end

end Storable
variable {fileSize : Nat} {hashes : List Hash} (snap : SaveSnapshot)

theorem overwrite_middle {before middle after bytes : Bytes} (same : middle.length = bytes.length) :
    SaveSnapshot.overwrite (before++middle++after) before.length bytes = before++bytes++after := by
  unfold SaveSnapshot.overwrite
  rw [append_assoc before,take_left,← same,drop_append,drop_eq_nil_of_le (by omega),Nat.add_sub_cancel_left,
    drop_left,nil_append]

def SaveSnapshot.version : UInt8 := if snap.useLarge then partfileVersionLargefile else partfileVersion

def SaveSnapshot.file (date : UInt32) (hashes : List Hash) (tags : List Bytes) : Bytes :=
  [snap.version]++((ofNatLittleEndian 4 date.toNat++ofArray snap.fileHash)++
    ((ofNatLittleEndian 2 hashes.length++hashes.flatMap fun hash => ofArray hash)++(ofNatLittleEndian 4 tags.length++tags.flatten)))

theorem flatMap_ofArray_length : (hashes.flatMap fun hash => ofArray hash).length = hashes.length*16 :=
  length_flatMap_width length_ofArray hashes

theorem writeToDisk_eq {snap : SaveSnapshot} {tags : List Bytes} (written : snap.tags = .ok tags) (date : UInt32)
    (few : (ed2kKnownMetHashset snap.partHashes snap.fileSize).length ≤ 65535) :
    snap.writeToDisk date = .ok (snap.file date (ed2kKnownMetHashset snap.partHashes snap.fileSize) tags) := by
  generalize hashset : ed2kKnownMetHashset snap.partHashes snap.fileSize = hashes at few ⊢
  have position : 5+16+2+hashes.length*16 = (snap.header date hashes).length := by
    unfold SaveSnapshot.header
    simp only [length_append,length_ofNatLittleEndian,length_ofArray,flatMap_ofArray_length,length_singleton]
  unfold SaveSnapshot.writeToDisk
  rw [hashset,written]
  rw [if_neg (by omega),position]
  change Except.ok (SaveSnapshot.overwrite (snap.header date hashes++ofNatLittleEndian 4 0++tags.flatten) (snap.header date hashes).length
    (ofNatLittleEndian 4 tags.length)) = _
  rw [overwrite_middle (by rw [length_ofNatLittleEndian,length_ofNatLittleEndian])]
  unfold SaveSnapshot.header SaveSnapshot.file SaveSnapshot.version
  simp

theorem readPartHashes_reads (few : hashes.length ≤ 65535)
    (known : hashes.length = 0 ∨ hashes.length = ed2kPartCountForSize fileSize ∨ hashes.length = ed2kKnownMetPartHashCount fileSize) :
    Reads (PartTracker.readPartHashes fileSize true) (ofNatLittleEndian 2 hashes.length++hashes.flatMap fun hash => ofArray hash)
      (some (hashes.take (ed2kPartCountForSize fileSize))) := by
  have each : (List.range hashes.length).map
      (fun i => array 128 (slice (hashes.flatMap fun hash => ofArray hash) (16*i) (16*i+16))) = hashes := by
    simpa only [Nat.mul_comm 16,@array_ofArray 128 16 rfl,map_id'] using
      @map_slice_flatMap Hash Hash (fun hash => ofArray hash) 16 length_ofArray (array 128) hashes
  have body := (exact_reads "truncated part hashes in part.met" (hashes.flatMap fun hash => ofArray hash)).map fun bytes =>
    some (((List.range hashes.length).map fun i => array 128 (slice bytes (16*i) (16*i+16))).take (ed2kPartCountForSize fileSize))
  rw [each,flatMap_ofArray_length] at body
  apply (little_reads unexpectedEof (by omega)).bind
  dsimp only
  rw [if_neg (by omega)]
  exact body

theorem readPartHashes_refused (few : hashes.length ≤ 65535)
    (unknown : ¬ (hashes.length = 0 ∨ hashes.length = ed2kPartCountForSize fileSize ∨ hashes.length = ed2kKnownMetPartHashCount fileSize))
    (rest : Bytes) : PartTracker.readPartHashes fileSize true
      ((ofNatLittleEndian 2 hashes.length++hashes.flatMap fun hash => ofArray hash)++rest) =
        .ok (none,(hashes.flatMap fun hash => ofArray hash)++rest) := by
  unfold PartTracker.readPartHashes
  rw [if_pos rfl,append_assoc,bind_ok ((little_reads unexpectedEof (by omega)).whole _)]
  dsimp only
  rw [if_pos (by omega)]
  rfl

end File

section Layout

variable {data : Bytes} {start stop : Nat}

theorem get_inside {part found : Bytes} (inside : part <+: data) (got : get part start stop = some found) :
    get data start stop = some found := by
  obtain ⟨rest,rfl⟩ := inside
  unfold Bytes.get slice at got ⊢
  obtain ⟨long,shown⟩ := Option.ite_none_right_eq_some.1 got
  rw [if_pos (by rw [length_append]; omega),← shown]
  by_cases proper : start ≤ stop
  · rw [drop_append,take_append_of_le_length (by rw [length_drop]; omega)]
  · rw [Nat.sub_eq_zero_of_le (by omega),take_zero,take_zero]

theorem getElem?_slice {i : Nat} (inside : start+i < stop) : (slice data start stop)[i]? = data[start+i]? := by
  unfold slice
  rw [getElem?_take_of_lt (by omega),getElem?_drop]

theorem partMetHashLayout_plain {version : UInt8} (unsplit : version ≠ partfileSplittedVersion)
    (plain : get data 24 28 ≠ some [0,0,2,1]) : partMetHashLayout data version = .ok (5,true) := by
  unfold partMetHashLayout
  rw [if_neg unsplit,if_neg fun old => plain old.2.1]

theorem file_layout (snap : SaveSnapshot) (date : UInt32) {hashes : List Hash} {tags : List Bytes} (typed : tags.flatten.head? ≠ some 1)
    (unambiguous : ∀ first ∈ hashes.head?, slice (ofArray first) 1 5 ≠ [0,0,2,1]) :
    get (snap.file date hashes tags) 24 28 ≠ some [0,0,2,1] := by
  intro found
  obtain ⟨_,shown⟩ := Option.ite_none_right_eq_some.1 found
  have shown := Option.some.inj shown
  have front : ([snap.version]++(ofNatLittleEndian 4 date.toNat++ofArray snap.fileHash)++ofNatLittleEndian 2 hashes.length).length = 23 := by
    simp
  have at23 : ∀ i, (snap.file date hashes tags)[23+i]? =
      ((hashes.flatMap fun hash => ofArray hash)++(ofNatLittleEndian 4 tags.length++tags.flatten))[i]? := by
    intro i
    unfold SaveSnapshot.file
    rw [← append_assoc,append_assoc (ofNatLittleEndian 2 hashes.length),← append_assoc _ (ofNatLittleEndian 2 hashes.length),
      ← front,getElem?_append_right (Nat.le_add_right ..),Nat.add_sub_cancel_left]
  cases hashes with
  | nil =>
    -- the type of the first tag stands where the older layout has a 1
    have fourth : (snap.file date [] tags)[27]? = some 1 := by
      rw [← @getElem?_slice _ 24 28 3 (by norm_num),shown]
      rfl
    rw [head?_eq_getElem?] at typed
    exact typed fourth
  | cons first rest =>
    have length : (ofArray first).length = 16 := length_ofArray first
    apply unambiguous first rfl
    rw [← shown]
    apply ext_getElem?
    intro i
    by_cases inside : i < 4
    · have place : 24+i = 23+(1+i) := by omega
      rw [getElem?_slice (by omega),getElem?_slice (by omega),place,at23,flatMap_cons,append_assoc,
        getElem?_append_left (by omega)]
    · unfold slice
      rw [getElem?_eq_none (by rw [length_take]; omega),getElem?_eq_none (by rw [length_take]; omega)]

end Layout

namespace PartTracker
variable {t : PartTracker}

section Outcome

structure Unread (fileSize : Nat) (read : PartTracker × Except String Unit) : Prop where
  size : read.1.fileSize = fileSize
  unverified : ∀ verified ∈ read.1.partVerified, verified = false
  gaps : read.2 = .ok () → read.1.gaps = [(0,fileSize)]
variable {after : PartTracker} {disk : Disk} {length : Nat}

theorem Unread.error {error : String} (unverified : ∀ verified ∈ t.partVerified, verified = false) :
    Unread t.fileSize (t,.error error) := ⟨rfl,unverified,fun ok => by cases ok⟩

theorem load_ok (read : t.loadInner disk.met = (after,.ok ()))
    (stored : disk.partLength = some length) (full : after.fileSize ≤ length) (calm : disk.pending = []) :
    t.load disk = { after with writeReservations := [] } := by
  unfold load invalidateUnreadable
  rw [read,stored,calm]
  dsimp only
  rw [if_neg (by omega)]
  simp [applyPendingInvalidations]

theorem load_error {error : String} (read : t.loadInner disk.met = (after,.error error))
    (stored : disk.partLength = some length) (full : after.fileSize ≤ length) (calm : disk.pending = []) :
    t.load disk = { after.resetToIncomplete with writeReservations := [] } := by
  have same : after.resetToIncomplete.fileSize = after.fileSize := rfl
  unfold load invalidateUnreadable
  rw [read,stored,calm]
  dsimp only
  rw [if_neg (by omega)]
  simp [applyPendingInvalidations]

theorem load_unread {fileSize : Nat} (filled : 0 < fileSize) (unread : Unread fileSize (t.loadInner disk.met))
    (stored : disk.partLength = some length) (full : fileSize ≤ length) (calm : disk.pending = []) :
    (t.load disk).gaps = [(0,fileSize)] ∧ ∀ verified ∈ (t.load disk).partVerified, verified = false := by
  obtain ⟨after,outcome⟩ : ∃ after, t.loadInner disk.met = after := ⟨_,rfl⟩
  rw [outcome] at unread
  obtain ⟨after,done | failed⟩ := after
  · rw [load_error outcome stored (by rw [unread.size]; exact full) calm]
    refine ⟨?_,unread.unverified⟩
    change (if 0 < after.fileSize then [(0,after.fileSize)] else []) = _
    rw [show after.fileSize = fileSize from unread.size,if_pos filled]
  · rw [load_ok outcome stored (by rw [unread.size]; exact full) calm]
    exact ⟨unread.gaps rfl,unread.unverified⟩

end Outcome

section Read
variable {version : UInt8}

theorem loadInner_emule {data : Bytes} (long : 4 ≤ data.length) (lead : data.getD 0 0 = version)
    (current : version = partfileVersion ∨ version = partfileVersionLargefile) :
    t.loadInner (some data) = t.loadEmuleFormat data version := by
  have emule : version = partfileVersion ∨ version = partfileVersionLargefile ∨ version = partfileSplittedVersion := by
    rcases current with old | large
    · exact .inl old
    · exact .inr (.inl large)
  unfold loadInner
  dsimp only
  rw [if_neg (by omega),lead,if_pos emule]

theorem loadEmuleFormat_short {part : Bytes} (layout : partMetHashLayout part version = .ok (5,true)) (short : part.length < 21) :
    t.loadEmuleFormat part version = (t,.error unexpectedEof) := by
  unfold loadEmuleFormat exact
  rw [layout]
  dsimp only
  rw [if_neg (by rw [length_drop]; omega)]

theorem loadEmuleFormat_body {dateAndHash body : Bytes}
    (layout : partMetHashLayout ([version]++(dateAndHash++body)) version = .ok (5,true)) (length : dateAndHash.length = 20)
    (own : array 128 (dateAndHash.drop 4) = t.fileHash) (identified : t.fileHash ≠ 0) :
    t.loadEmuleFormat ([version]++(dateAndHash++body)) version =
      match readPartHashes t.fileSize true body with
      | .error error => (t,.error error)
      | .ok (none,_) => (t.resetToIncomplete,.ok ())
      | .ok (some partHashes,rest) => { t with partHashes := partHashes }.loadTags rest := by
  have read := (exact_reads unexpectedEof dateAndHash).whole body
  rw [length] at read
  unfold loadEmuleFormat
  rw [layout]
  dsimp only
  rw [show ([version]++(dateAndHash++body)).drop (5-4) = dateAndHash++body from rfl,read]
  dsimp only
  rewrite [own,if_neg (by simp),if_neg identified]
  rcases readPartHashes t.fileSize true body with error | ⟨_ | hashes,rest⟩ <;> rfl

theorem adoptTags_unread {count : Nat} {tags : MetTags} (few : count ≤ maxTagCount) (cut : tags.tagsParsed < count)
    (filled : 0 < t.fileSize) (unverified : ∀ verified ∈ t.partVerified, verified = false) :
    Unread t.fileSize (t.adoptTags count tags,.ok ()) := by
  unfold adoptTags
  extract_lets t' unknown opened
  split
  · refine ⟨rfl,?_,fun _ => rfl⟩
    intro verified member
    obtain ⟨_,_,rfl⟩ := mem_map.1 member
    rfl
  · rw [if_pos ⟨.inl (by rw [Nat.min_eq_left few]; exact cut),filled⟩]
    exact ⟨rfl,unverified,fun _ => rfl⟩

end Read

section Saved
variable {date : UInt32} {tags : List Bytes} {hashes : List Hash}

theorem newWithIdentity_load (storable : Storable t) {disk : Disk} :
    newWithIdentity t.fileSize t.fileHash disk = (newEmpty t.fileSize t.fileHash).load disk := by
  have size := storable.size
  unfold ValidSize at size
  have counted : (trackedPartCount t.fileSize).isSome = true := by
    unfold trackedPartCount
    rw [if_neg (by omega),if_neg (by omega)]
    rfl
  exact if_pos counted

theorem version_current (snap : SaveSnapshot) : snap.version = partfileVersion ∨ snap.version = partfileVersionLargefile := by
  unfold SaveSnapshot.version
  split
  · exact .inr rfl
  · exact .inl rfl

def loading (t : PartTracker) : PartTracker := { newEmpty t.fileSize t.fileHash with partHashes := t.partHashes }

structure Saved (t : PartTracker) (hashes : List Hash) (tags : List Bytes) : Prop where
  storable : Storable t
  hashset : ed2kKnownMetHashset t.partHashes t.fileSize = hashes
  reads : List.Forall₂ (Reads readEmuleTag) tags t.buildSaveSnapshot.metTags
  typed : tags.flatten.head? ≠ some 1

namespace Saved

theorem count (saved : Saved t hashes tags) : tags.length = t.buildSaveSnapshot.metTags.length ∧ tags.length ≤ 16390 := by
  have same := saved.reads.length_eq
  exact ⟨same,same ▸ SaveSnapshot.Fits.metTags_length saved.storable.few⟩

variable {part : Bytes}

theorem layout (saved : Saved t hashes tags) (inside : part <+: t.buildSaveSnapshot.file date hashes tags) :
    partMetHashLayout part t.buildSaveSnapshot.version = .ok (5,true) := by
  apply partMetHashLayout_plain
  · rcases version_current t.buildSaveSnapshot with old | large
    · rw [old]
      decide
    · rw [large]
      decide
  · intro found
    exact file_layout t.buildSaveSnapshot date saved.typed (saved.storable.hashes saved.hashset).2.2.2 (get_inside inside found)

theorem reads_hashes (saved : Saved t hashes tags) :
    Reads (readPartHashes t.fileSize true) (ofNatLittleEndian 2 hashes.length++hashes.flatMap fun hash => ofArray hash)
      (some t.partHashes) := by
  have facts := saved.storable.hashes saved.hashset
  have read := readPartHashes_reads facts.2.1 facts.2.2.1
  rwa [facts.1] at read

theorem own :
    array 128 ((ofNatLittleEndian 4 date.toNat++ofArray t.fileHash).drop 4) = (newEmpty t.fileSize t.fileHash).fileHash := by
  exact @array_ofArray 128 16 rfl t.fileHash

theorem loadInner_whole (saved : Saved t hashes tags) :
    (newEmpty t.fileSize t.fileHash).loadInner (some (t.buildSaveSnapshot.file date hashes tags)) =
      (t.loading.adoptTags tags.length t.buildSaveSnapshot.gathered,.ok ()) := by
  have few := saved.count.2
  have layout := saved.layout (List.prefix_refl (t.buildSaveSnapshot.file date hashes tags))
  have lead : (t.buildSaveSnapshot.file date hashes tags).getD 0 0 = t.buildSaveSnapshot.version := rfl
  have long : 4 ≤ (t.buildSaveSnapshot.file date hashes tags).length := by
    simp only [SaveSnapshot.file,length_append,length_ofNatLittleEndian]
    omega
  rw [loadInner_emule long lead (version_current _)]
  unfold SaveSnapshot.file at layout ⊢
  rw [loadEmuleFormat_body layout (by simp) own saved.storable.identified]
  have read := saved.reads_hashes.whole (ofNatLittleEndian 4 tags.length++tags.flatten)
  rw [show (newEmpty t.fileSize t.fileHash).fileSize = t.fileSize from rfl,read]
  dsimp only
  unfold loadTags
  rw [(little_reads unexpectedEof (by omega)).whole]
  dsimp only
  rw [Nat.min_eq_left (by unfold maxTagCount; omega),readAll_whole saved.reads,foldl_note_metTags]
  rfl

theorem blank : ∀ verified ∈ (newEmpty t.fileSize t.fileHash).partVerified, verified = false := by
  intro verified member
  exact (mem_replicate.1 member).2

theorem loadInner_cut (saved : Saved t hashes tags) (inside : part <+: t.buildSaveSnapshot.file date hashes tags)
    (strict : part ≠ t.buildSaveSnapshot.file date hashes tags) :
    Unread t.fileSize ((newEmpty t.fileSize t.fileHash).loadInner (some part)) := by
  have few := saved.count.2
  have layout := saved.layout inside
  by_cases tiny : part.length < 4
  · unfold loadInner
    dsimp only
    rw [if_pos tiny]
    exact .error blank
  rcases cut_append inside strict with ⟨early,_⟩ | ⟨late,rfl,later,lacking⟩
  · have short := early.length_le
    rw [length_singleton] at short
    omega
  have lead : ([t.buildSaveSnapshot.version]++late).getD 0 0 = t.buildSaveSnapshot.version := rfl
  rw [loadInner_emule (by omega) lead (version_current _)]
  rcases cut_append later lacking with ⟨early,missing⟩ | ⟨body,rfl,bodyInside,bodyCut⟩
  · have short : late.length < 20 := by
      have shorter := lt_of_le_of_ne early.length_le fun same => missing (early.eq_of_length same)
      simpa using shorter
    rw [loadEmuleFormat_short layout (by rw [length_append,length_singleton]; omega)]
    exact .error blank
  rw [loadEmuleFormat_body layout (by simp) own saved.storable.identified]
  rcases cut_append bodyInside bodyCut with ⟨early,missing⟩ | ⟨rest,rfl,restInside,restCut⟩
  · obtain ⟨error,failed⟩ := saved.reads_hashes.cut body early missing
    rw [show (newEmpty t.fileSize t.fileHash).fileSize = t.fileSize from rfl,failed]
    exact .error blank
  rw [show (newEmpty t.fileSize t.fileHash).fileSize = t.fileSize from rfl,saved.reads_hashes.whole]
  dsimp only
  unfold loadTags
  have counted : Reads (little unexpectedEof 4) (ofNatLittleEndian 4 tags.length) tags.length :=
    little_reads unexpectedEof (by omega)
  rcases cut_append restInside restCut with ⟨early,missing⟩ | ⟨last,rfl,lastInside,lastCut⟩
  · obtain ⟨error,failed⟩ := counted.cut rest early missing
    rw [failed]
    exact ⟨rfl,blank,fun ok => by cases ok⟩
  have parsed := readAll_cut saved.reads lastInside lastCut {}
  rw [Nat.zero_add] at parsed
  rw [counted.whole]
  dsimp only
  rw [Nat.min_eq_left (by unfold maxTagCount; omega)]
  exact adoptTags_unread (t := t.loading) (by unfold maxTagCount; omega) parsed saved.storable.size.1 blank

end Saved
end Saved

structure Reproduces (t loaded : PartTracker) : Prop where
  fileSize : loaded.fileSize = t.fileSize
  gaps : loaded.gaps = t.gaps
  partHashes : loaded.partHashes = t.partHashes
  fileName : loaded.fileName = t.fileName
  transferred : loaded.transferred.toNat = if t.fileSize ≤ 0xFFFFFFFF then t.transferred.toNat%2^32 else t.transferred.toNat
  partVerified : loaded.partVerified = if t.gaps = [] then List.replicate t.partCount false
    else (List.range t.partCount).map fun i => t.isPartVerified i && t.isPartComplete i

def reload (t : PartTracker) (bytes : Bytes) (length : Nat) : PartTracker :=
  newWithIdentity t.fileSize t.fileHash { met := some bytes, partLength := some length, pending := [] }

theorem restored_saved (storable : Storable t) :
    t.loading.restored t.buildSaveSnapshot = if t.gaps = [] then List.replicate t.partCount false
      else (List.range t.partCount).map fun i => t.isPartVerified i && t.isPartComplete i := by
  have count : t.loading.partCount = t.partCount := storable.sound.parts.symm
  have blank : t.loading.partVerified = List.replicate t.partCount false := by
    rw [← count]
    rfl
  by_cases none : t.gaps = []
  · rw [restored_kept (.inl none),if_pos none,blank]
  rw [if_neg none]
  cases flagged : t.partVerified.any id with
  | false =>
    rw [restored_kept (.inr flagged),blank]
    apply ext_getElem (by simp)
    intro i inside _
    have unverified : t.isPartVerified i = false := by
      rw [length_replicate,← storable.sound.verified] at inside
      have flag := any_eq_false.1 flagged t.partVerified[i] (getElem_mem inside)
      unfold isPartVerified
      rw [getElem?_eq_getElem inside]
      simpa using flag
    rw [getElem_replicate,getElem_map,getElem_range,unverified,Bool.false_and]
  | true =>
    have kept : ¬ (t.buildSaveSnapshot.gaps = [] ∨ t.buildSaveSnapshot.partVerified.any id = false) := by
      rintro (empty | unflagged)
      · exact none empty
      · rw [show t.buildSaveSnapshot.partVerified.any id = true from flagged] at unflagged
        cases unflagged
    unfold restored
    rw [if_neg kept,← count]
    apply map_congr_left
    intro i _
    exact congrArg (t.isPartVerified i && ·) (@isPartComplete_congr { t.loading with gaps := t.gaps } t rfl count rfl i)

theorem reproduces_reload (storable : Storable t) {hashes : List Hash} {tags : List Bytes} (saved : Saved t hashes tags)
    {date : UInt32} {length : Nat} (full : t.fileSize ≤ length) :
    Reproduces t (t.reload (t.buildSaveSnapshot.file date hashes tags) length) := by
  have read := @Saved.loadInner_whole t date tags hashes saved
  rw [saved.count.1,adoptTags_gathered (t := t.loading) storable.fits storable.few storable.sound.apart rfl storable.size.1] at read
  unfold reload
  rw [newWithIdentity_load storable,load_ok read rfl (by exact full) rfl]
  have small := t.transferred.toNat_lt
  constructor
  · rfl
  · rfl
  · rfl
  · change (if t.fileName.bytes = [] then {} else decodeMetString (clampedName t.fileName)) = t.fileName
    rw [clampedName,decodeMetString,if_pos storable.name,if_neg storable.unmarked,Text.fromUtf8Lossy_bytes]
    split
    · rename_i empty
      exact Text.ext empty.symm
    · rfl
  · change (UInt64.ofNat (t.transferred.toNat%2^sizedBits t.buildSaveSnapshot.useLarge)).toNat = _
    by_cases wide : 0xFFFFFFFF < t.fileSize
    · have large : t.buildSaveSnapshot.useLarge = true := decide_eq_true wide
      rw [large,if_neg (by omega)]
      change t.transferred.toNat%2^64%2^64 = _
      omega
    have narrow : t.buildSaveSnapshot.useLarge = false := decide_eq_false wide
    rw [narrow,if_pos (by omega)]
    change t.transferred.toNat%2^32%2^64 = _
    omega
  · exact restored_saved storable

/-- A sidecar loads as it was saved, and cut short it says that nothing is there. -/
theorem met_round_trip (t : PartTracker) (storable : Storable t) (date : UInt32) (length : Nat) (full : t.fileSize ≤ length) :
    ∃ bytes, t.buildSaveSnapshot.writeToDisk date = .ok bytes ∧ Reproduces t (t.reload bytes length) ∧
      ∀ part, part <+: bytes → part ≠ bytes →
        (t.reload part length).gaps = [(0,t.fileSize)] ∧ ∀ verified ∈ (t.reload part length).partVerified, verified = false := by
  obtain ⟨tags,written,reads,typed⟩ := storable.fits.tags_reads
  have saved : Saved t _ tags := ⟨storable,rfl,reads,typed⟩
  refine ⟨_,writeToDisk_eq written date (storable.hashes rfl).2.1,?_,?_⟩
  · exact reproduces_reload storable saved full
  intro part inside strict
  unfold reload
  rw [newWithIdentity_load storable]
  exact load_unread storable.size.1 (saved.loadInner_cut inside strict) rfl full rfl

def named : PartTracker := { newEmpty 9728100 7 with fileName := ⟨[0x61,0x2E,0x62],rfl⟩, partHashes := [5,9] }

/-- The first part is verified and some of the second is there. -/
def halfway : PartTracker := ((named.run [.fillRange 0 9728000]).setPartVerified 0).run [.fillRange 9728010 9728040]

theorem halfway_gaps : halfway.gaps = [(9728000,9728010),(9728040,9728100)] := by decide +kernel

theorem halfway_sound : Sound halfway := by
  have start : Sound named := Sound.aside (t := newEmpty 9728100 7) newEmpty_sound ⟨rfl,rfl,rfl,rfl⟩ rfl
  have first : Sound (named.run [.fillRange 0 9728000]) := run_sound start
  have verified : Sound ((named.run [.fillRange 0 9728000]).setPartVerified 0) := first.reverified _ length_set
  exact run_sound verified

theorem halfway_size : halfway.fileSize = 9728100 := by decide +kernel

theorem halfway_hashes : halfway.partHashes = [5,9] := by decide +kernel

theorem halfway_name : halfway.fileName = named.fileName := by decide +kernel

theorem halfway_storable : Storable halfway where
  sound := halfway_sound
  size := by
    rw [halfway_size]
    exact ⟨by decide +kernel,by decide +kernel⟩
  few := by
    rw [halfway_gaps]
    decide
  identified := by decide +kernel
  hashset := by
    rw [halfway_size,halfway_hashes]
    exact .inr (by decide +kernel)
  unambiguous := by
    rw [halfway_hashes]
    intro first found
    cases found
    decide +kernel
  name := by
    rw [halfway_name]
    decide
  unmarked := by
    rw [halfway_name]
    decide

theorem met_round_trip_halfway : halfway.gaps = [(9728000,9728010),(9728040,9728100)] ∧ halfway.partVerified = [true,false] ∧
    ∃ bytes, halfway.buildSaveSnapshot.writeToDisk 0 = .ok bytes ∧ Reproduces halfway (halfway.reload bytes 9728100) := by
  have flags : halfway.partVerified = [true,false] := by decide +kernel
  obtain ⟨bytes,written,same,_⟩ := met_round_trip halfway halfway_storable 0 9728100 halfway_size.le
  exact ⟨halfway_gaps,flags,bytes,written,same⟩

end PartTracker
end Ember.Ed2k
