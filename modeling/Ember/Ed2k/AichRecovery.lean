import Ember.Ed2k.Aich

/-! What an answer about one part gives the peer who asked: an honest one is taken and brings the
part's leaves, and none brings others. -/
namespace Ember.Ed2k.Aich
open Bytes SplitTree List Table

section Sizes
variable {size part : Nat}

theorem blocksPerFullPart_eq : blocksPerFullPart = 53 := rfl

theorem numParts_bounds (positive : 0 < size) : 0 < numParts size ∧ (numParts size-1)*partSize < size ∧ size ≤ numParts size*partSize := by
  unfold numParts partSize
  omega

theorem max_numParts (positive : 0 < size) : max (numParts size) 1 = numParts size := Nat.max_eq_left (numParts_bounds positive).1

theorem blocksInPart_full (before : part < numParts size-1) : blocksInPart size part (numParts size) = 53 := by
  unfold blocksInPart partDataSize
  rw [if_neg (by omega),if_pos before]
  rfl

theorem blocksInPart_bounds (inside : part < numParts size) :
    0 < blocksInPart size part (numParts size) ∧ blocksInPart size part (numParts size) ≤ 53 := by
  unfold blocksInPart partDataSize partSize aichBlockSize
  rw [if_neg (by omega)]
  split
  · omega
  · split <;> omega

theorem leafCountForSize_eq (positive : 0 < size) :
    leafCountForSize size = (numParts size-1)*53+blocksInPart size (numParts size-1) (numParts size) := by
  have range : List.range (numParts size) = List.range (numParts size-1)++[numParts size-1] := by
    rw [← range_succ]
    exact congrArg List.range (Nat.sub_add_cancel (numParts_bounds positive).1).symm
  have full : (List.range (numParts size-1)).map (fun part => blocksInPart size part (numParts size)) =
      List.replicate (numParts size-1) 53 := by
    rw [eq_replicate_iff,length_map,length_range]
    refine ⟨rfl,fun blocks member => ?_⟩
    obtain ⟨part,listed,rfl⟩ := mem_map.1 member
    exact blocksInPart_full (mem_range.1 listed)
  unfold leafCountForSize
  rw [if_neg (by omega),range,map_append,sum_append,full,sum_replicate_nat,map_singleton,sum_singleton]

theorem numParts_wire (known : size ≤ ed2kMaxFileSizeBytes) : numParts size ≤ 2^16 := by
  unfold ed2kMaxFileSizeBytes ed2kMaxWireParts partSize at known
  unfold numParts partSize
  omega

theorem numParts_old (small : size ≤ 0xFFFFFFFF) : numParts size ≤ 2^9 := by
  unfold numParts partSize
  omega

theorem oldMax_le (small : size ≤ oldMaxEmuleFileSize) : size ≤ 0xFFFFFFFF := by
  unfold oldMaxEmuleFileSize at small
  omega

end Sizes

section Tree
variable {sha1 : Bytes → Digest} {hs : AICHRecoveryHashSet} {part : Nat}
variable (leaves : List Digest)

theorem partRoot_eq {isLeft : Bool} : partRoot sha1 leaves isLeft = buildTreeRecursive sha1 leaves isLeft := by
  unfold partRoot
  split
  · exact root_single.symm
  · rfl

structure AICHRecoveryHashSet.Whole (hs : AICHRecoveryHashSet) : Prop where
  positive : 0 < hs.fileSize
  length : hs.leafHashes.length = leafCountForSize hs.fileSize

theorem parts_eq (positive : 0 < hs.fileSize) : hs.parts = numParts hs.fileSize := max_numParts positive

theorem partLeaves_eq (whole : hs.Whole) (inside : part < numParts hs.fileSize) :
    hs.partLeaves part = (hs.leafHashes.drop (part*53)).take (blocksInPart hs.fileSize part (numParts hs.fileSize)) ∧
      part*53+blocksInPart hs.fileSize part (numParts hs.fileSize) ≤ hs.leafHashes.length ∧
      (part+1 < numParts hs.fileSize → blocksInPart hs.fileSize part (numParts hs.fileSize) = 53) := by
  have length := whole.length
  rw [leafCountForSize_eq whole.positive] at length
  have bounds := blocksInPart_bounds inside
  have full : part+1 < numParts hs.fileSize → blocksInPart hs.fileSize part (numParts hs.fileSize) = 53 :=
    fun before => blocksInPart_full (by omega)
  unfold AICHRecoveryHashSet.partLeaves
  rw [blocksPerFullPart_eq]
  rcases Nat.lt_or_ge (part+1) (numParts hs.fileSize) with before | last
  · have own := full before
    rw [if_neg (by omega),own]
    exact ⟨by congr 1; omega,by omega,fun _ => rfl⟩
  obtain rfl : part = numParts hs.fileSize-1 := by omega
  rw [if_neg (by omega)]
  exact ⟨by congr 1; omega,by omega,full⟩

theorem partLeaves_length (whole : hs.Whole) (inside : part < numParts hs.fileSize) :
    (hs.partLeaves part).length = blocksInPart hs.fileSize part (numParts hs.fileSize) := by
  obtain ⟨shown,room,-⟩ := partLeaves_eq whole inside
  rw [shown,length_take,length_drop]
  omega

theorem partHashesFrom_length (fileSize numParts : Nat) (sides : List Bool) (p offset : Nat) :
    (partHashesFrom sha1 leaves fileSize numParts sides p offset).length = sides.length := by
  induction sides generalizing p offset with
  | nil => rfl
  | cons isLeft rest ih => exact congrArg Nat.succ (ih ..)

theorem partHashesFrom_get (whole : hs.Whole) {sides : List Bool} {p i : Nat} {isLeft : Bool}
    (count : p+sides.length = numParts hs.fileSize) (listed : sides[i]? = some isLeft) :
    (partHashesFrom sha1 hs.leafHashes hs.fileSize (numParts hs.fileSize) sides p (p*53))[i]? =
      some (buildTreeRecursive sha1 (hs.partLeaves (p+i)) isLeft) := by
  induction sides generalizing p i with
  | nil => cases listed
  | cons first rest ih =>
    rw [length_cons] at count
    have inside : p < numParts hs.fileSize := by omega
    obtain ⟨shown,room,full⟩ := partLeaves_eq whole inside
    have blocks : (partDataSize hs.fileSize p (numParts hs.fileSize)+aichBlockSize-1)/aichBlockSize =
        blocksInPart hs.fileSize p (numParts hs.fileSize) := by
      unfold blocksInPart
      rw [if_neg (by omega)]
    unfold partHashesFrom
    rw [blocks,Nat.min_eq_left room]
    cases i with
    | zero =>
      obtain rfl := Option.some.inj listed
      rw [getElem?_cons_zero,Nat.add_sub_cancel_left,partRoot_eq,Nat.add_zero,shown]
    | succ i =>
      rw [getElem?_cons_succ] at listed ⊢
      have more : p+1 < numParts hs.fileSize := by
        have nonempty := (List.getElem?_eq_some_iff.1 listed).1
        omega
      rw [full more,← Nat.succ_mul,ih (by omega) listed,Nat.succ_add_eq_add_succ]

theorem computeAllPartHashes_length (fileSize numParts : Nat) :
    (computeAllPartHashes sha1 leaves fileSize numParts).length = numParts := by
  rw [computeAllPartHashes,partHashesFrom_length,computePartIsLeft,sides_length]

abbrev AICHRecoveryHashSet.partHashes (sha1 : Bytes → Digest) (hs : AICHRecoveryHashSet) : List Digest :=
  computeAllPartHashes sha1 hs.leafHashes hs.fileSize (numParts hs.fileSize)

theorem partHashes_length : (hs.partHashes sha1).length = numParts hs.fileSize := computeAllPartHashes_length ..

theorem computeAllPartHashes_get (whole : hs.Whole) (inside : part < numParts hs.fileSize) :
    (hs.partHashes sha1)[part]? =
      some (buildTreeRecursive sha1 (hs.partLeaves part) (topLevelPathStructure (numParts hs.fileSize) part).1.2) := by
  have side : (computePartIsLeft (numParts hs.fileSize))[part]? = some (topLevelPathStructure (numParts hs.fileSize) part).1.2 :=
    sides_path inside
  have hash := @partHashesFrom_get sha1 hs whole _ 0 part _ (by rw [computePartIsLeft,sides_length,Nat.zero_add]) side
  rwa [Nat.zero_add] at hash

theorem hierarchicalRoot_eq (whole : hs.Whole) : hierarchicalRoot sha1 hs.leafHashes hs.fileSize =
    buildTreeRecursive sha1 (hs.partHashes sha1) true := by
  have bounds := numParts_bounds whole.positive
  have length := whole.length
  rw [leafCountForSize_eq whole.positive] at length
  rcases Nat.lt_or_ge 1 (numParts hs.fileSize) with many | one
  · unfold hierarchicalRoot
    split
    · next none => rw [none] at length; simp at length; omega
    · next leaf single => rw [single] at length; simp at length; omega
    · rw [if_neg (by omega)]
  have only : numParts hs.fileSize = 1 := by omega
  have first := @computeAllPartHashes_get sha1 hs 0 whole bounds.1
  obtain ⟨shown,room,-⟩ := @partLeaves_eq hs 0 whole bounds.1
  have all : hs.partLeaves 0 = hs.leafHashes := by
    rw [only,Nat.zero_add] at length
    rw [shown,only,drop_zero,← length,take_length]
  have single : hs.partHashes sha1 =
      [buildTreeRecursive sha1 hs.leafHashes true] := by
    have side : (topLevelPathStructure (numParts hs.fileSize) 0).1.2 = true := by
      rw [topLevelPathStructure,path_small one]
    rw [all,side] at first
    obtain ⟨hash,same⟩ := length_eq_one_iff.1 (partHashes_length.trans only)
    rw [same] at first ⊢
    exact congrArg (fun hash => [hash]) (Option.some.inj first)
  rw [single]
  unfold buildTreeRecursive
  rw [root_single]
  unfold hierarchicalRoot
  split
  · next none => rw [none,root]; rfl
  · next leaf alone => rw [alone,root_single]
  · rw [if_pos one]
    rfl

end Tree

section Wire
variable {entries : List (Nat × Digest)} {width : Nat} {stop : Nat}

theorem writeEntry_length (width : Nat) (entry : Nat × Digest) : (writeEntry width entry).length = width+20 := by
  simp [writeEntry]

theorem writeEntries_length (width : Nat) (entries : List (Nat × Digest)) :
    (writeEntries width entries).length = 2+entries.length*(width+20) := by
  rw [writeEntries,length_append,length_ofNatLittleEndian,length_flatMap_width (writeEntry_length width)]

theorem writeEntry_reads {entry : Nat × Digest} (fits : entry.1 < 256^width) :
    (littleEndian ((writeEntry width entry).take width),array 160 ((writeEntry width entry).drop width)) = entry := by
  have id : (ofNatLittleEndian width entry.1).length = width := length_ofNatLittleEndian ..
  rw [writeEntry,take_left' id,drop_left' id,littleEndian_ofNatLittleEndian,Nat.mod_eq_of_lt fits,@array_ofArray 160 20 rfl]

theorem readEntries_written {before after : Bytes} {offset : Nat} (place : before.length = offset)
    (fits : ∀ entry ∈ entries, 0 < entry.1 ∧ entry.1 < 256^width) :
    readEntries (before++entries.flatMap (writeEntry width)++after) offset width entries.length = entries := by
  have total := length_flatMap_width (writeEntry_length width) entries
  have records : (List.range entries.length).map (fun i =>
      let record := slice (before++entries.flatMap (writeEntry width)++after) (offset+i*(width+20)) (offset+(i*(width+20)+(width+20)))
      (littleEndian (record.take width),array 160 (record.drop width))) = entries := by
    have alone := map_slice_flatMap (writeEntry_length width)
      (fun record => (littleEndian (record.take width),(array 160 (record.drop width) : Digest))) entries
    have each : ∀ entry ∈ entries, (fun entry => (littleEndian ((writeEntry width entry).take width),
        array 160 ((writeEntry width entry).drop width))) entry = id entry := fun entry listed => writeEntry_reads (fits entry listed).2
    rw [map_congr_left each,map_id] at alone
    refine Eq.trans (map_congr_left fun i listed => ?_) alone
    have inside := mem_range.1 listed
    have room : i*(width+20)+(width+20) ≤ (entries.flatMap (writeEntry width)).length := by
      rw [total,← Nat.succ_mul]
      exact Nat.mul_le_mul_right _ inside
    rw [← place,slice_middle before _ after room]
  unfold readEntries
  rw [records,filter_eq_self]
  intro entry listed
  exact decide_eq_true (fits entry listed).1

theorem slice_append_left {first second : Bytes} (inside : stop ≤ first.length) : slice (first++second) 0 stop = slice first 0 stop := by
  unfold slice
  simp [take_append_of_le_length (by omega)]

theorem slice_whole {data : Bytes} (length : data.length = stop) : slice data 0 stop = data := by
  rw [slice,drop_zero,Nat.sub_zero,← length,take_length]

theorem parseWireEntries_written {short long : List (Nat × Digest)} (nonempty : short++long ≠ []) (fewShort : short.length < 65536)
    (fewLong : long.length < 65536) (fitsShort : ∀ entry ∈ short, 0 < entry.1 ∧ entry.1 < 256^2)
    (fitsLong : ∀ entry ∈ long, 0 < entry.1 ∧ entry.1 < 256^4) :
    parseWireEntries (writeEntries 2 short++writeEntries 4 long) = some (short++long) := by
  have lengthShort := writeEntries_length 2 short
  have lengthLong := writeEntries_length 4 long
  have countShort : littleEndian (slice (writeEntries 2 short++writeEntries 4 long) 0 2) = short.length := by
    rw [slice_append_left (by omega),writeEntries,slice_append_left (by rw [length_ofNatLittleEndian]),
      slice_whole (length_ofNatLittleEndian ..),littleEndian_ofNatLittleEndian,Nat.mod_eq_of_lt (by omega)]
  have countLong : littleEndian (slice (writeEntries 2 short++writeEntries 4 long) (2+short.length*22) (2+short.length*22+2)) =
      long.length := by
    have shifted := @slice_middle (writeEntries 2 short) (ofNatLittleEndian 2 long.length) (long.flatMap (writeEntry 4)) 0 2
      (by rw [length_ofNatLittleEndian])
    rw [lengthShort,append_assoc,Nat.add_zero] at shifted
    unfold writeEntries at shifted ⊢
    rw [shifted,slice_whole (length_ofNatLittleEndian ..),littleEndian_ofNatLittleEndian,Nat.mod_eq_of_lt (by omega)]
  have readShort : readEntries (writeEntries 2 short++writeEntries 4 long) 2 2 short.length = short :=
    readEntries_written (length_ofNatLittleEndian 2 short.length) fitsShort
  have readLong : readEntries (writeEntries 2 short++writeEntries 4 long) (2+short.length*22+2) 4 long.length = long := by
    have read := @readEntries_written long 4 (writeEntries 2 short++ofNatLittleEndian 2 long.length) [] _
      (by rw [length_append,lengthShort]) fitsLong
    rwa [append_nil,append_assoc] at read
  have total : (writeEntries 2 short++writeEntries 4 long).length = 2+short.length*22+2+long.length*24 := by
    rw [length_append]
    omega
  have counted : ¬ (short.length = 0 ∧ long.length = 0) := by
    rintro ⟨none,none'⟩
    rw [length_eq_zero_iff.1 none,length_eq_zero_iff.1 none'] at nonempty
    exact nonempty rfl
  unfold parseWireEntries
  dsimp only
  rw [countShort,countLong,if_neg (by omega),if_neg (by omega),if_neg (by omega),if_neg counted,readShort,readLong,if_neg nonempty]

end Wire

section Answer
variable {sha1 : Bytes → Digest} {hs : AICHRecoveryHashSet} {part : Nat}
variable {leaves : List Digest} {lookup : Nat → Option Digest}

theorem partPlace_eq {numParts : Nat} : partPlace numParts part = (topLevelPathStructure numParts part).1 := by
  unfold partPlace
  split
  · next few => rw [topLevelPathStructure,path_small few]
  · rfl

theorem verifyPartLeaves_iff {master : Digest} {size : Nat} (positive : 0 < size) :
    verifyPartLeaves sha1 leaves master size part lookup = true ↔ leaves ≠ [] ∧
      climb (hashInternal sha1) lookup (topLevelPathStructure (numParts size) part).2
        (buildTreeRecursive sha1 leaves (topLevelPathStructure (numParts size) part).1.2) = some master := by
  unfold verifyPartLeaves
  dsimp only
  rw [max_numParts positive,partRoot_eq,partPlace_eq]
  by_cases none : leaves = []
  · rw [if_pos none]
    exact ⟨(nomatch ·),fun both => absurd none both.1⟩
  rw [if_neg none]
  split
  · next few =>
    have alone : (topLevelPathStructure (numParts size) part).2 = [] := by rw [topLevelPathStructure,path_small few]
    rw [alone,decide_eq_true_iff]
    exact ⟨fun same => ⟨none,congrArg some same⟩,fun climbed => Option.some.inj climbed.2⟩
  · rw [decide_eq_true_iff]
    exact ⟨fun climbed => ⟨none,climbed⟩,fun both => both.2⟩

theorem recoveryEntries_eq (positive : 0 < hs.fileSize) : hs.recoveryEntries sha1 part =
    (topLevelAuditPath sha1 (hs.partHashes sha1) part).2++
      (leafIds (hs.partLeaves part).length (topLevelPathStructure (numParts hs.fileSize) part).1.1
        (topLevelPathStructure (numParts hs.fileSize) part).1.2).zip (hs.partLeaves part) := by
  have length := @partHashes_length sha1 hs
  have place := (@audit_path Digest (hashInternal sha1) (hashLeaf sha1 [])
    (hs.partHashes sha1) part 1 true).1
  unfold AICHRecoveryHashSet.recoveryEntries topLevelPathStructure topLevelAuditPath
  rw [parts_eq positive]
  rw [length] at place
  rw [← place]
  split
  · next few => rw [audit,if_pos (by omega)]
  · rfl

section
variable (whole : hs.Whole) (inside : part < numParts hs.fileSize)
include whole inside

theorem recoveryEntries_ids : (hs.recoveryEntries sha1 part).map Prod.fst =
    (path (numParts hs.fileSize) part 1 true).2.map Prod.fst++ids (blocksInPart hs.fileSize part (numParts hs.fileSize))
      (path (numParts hs.fileSize) part 1 true).1.1 (path (numParts hs.fileSize) part 1 true).1.2 := by
  have length := @partHashes_length sha1 hs
  have siblings := (@audit_path Digest (hashInternal sha1) (hashLeaf sha1 [])
    (hs.partHashes sha1) part 1 true).2
  have blocks := blocksInPart_bounds inside
  rw [length] at siblings
  rw [recoveryEntries_eq whole.positive,map_append,topLevelAuditPath,siblings,partLeaves_length whole inside,leafIds,
    if_pos blocks.1,map_fst_zip (by rw [ids_length blocks.1,partLeaves_length whole inside])]
  rfl

theorem recoveryEntries_nodup :
    ((hs.recoveryEntries sha1 part).map Prod.fst).Nodup ∧ ∀ entry ∈ hs.recoveryEntries sha1 part, 0 < entry.1 := by
  have positive : 0 < (path (numParts hs.fileSize) part 1 true).1.1 := by
    have below := @path_nodup (numParts hs.fileSize) part 1 true Nat.one_pos
      [(path (numParts hs.fileSize) part 1 true).1.1] (nodup_singleton _)
      fun x member => by rw [mem_singleton.1 member]; exact .refl _
    exact (below.2 _ (mem_append_right _ (mem_singleton_self _))).pos Nat.one_pos
  have distinct := @path_nodup (numParts hs.fileSize) part 1 true Nat.one_pos _
    (ids_nodup (blocksInPart hs.fileSize part (numParts hs.fileSize)) positive (path (numParts hs.fileSize) part 1 true).1.2)
    (ids_below _ _ _)
  rw [← @recoveryEntries_ids sha1 hs part whole inside] at distinct
  exact ⟨distinct.1,fun entry listed => (distinct.2 _ (mem_map_of_mem listed)).pos Nat.one_pos⟩

theorem recoveryEntries_lt {k : Nat} (few : numParts hs.fileSize ≤ 2^k) :
    ∀ entry ∈ hs.recoveryEntries sha1 part, entry.1 < 2^(k+7) := by
  intro entry listed
  have blocks := blocksInPart_bounds inside
  have way := path_lt few part 1 true
  have leaves := ids_lt (show blocksInPart hs.fileSize part (numParts hs.fileSize) ≤ 2^6 by omega)
    (path (numParts hs.fileSize) part 1 true).1.1 (path (numParts hs.fileSize) part 1 true).1.2 entry.1
  have id := mem_map_of_mem (f := Prod.fst) listed
  have power : 2^(k+7) = 2^k*128 := Nat.pow_add 2 k 7
  rw [recoveryEntries_ids whole inside] at id
  rcases mem_append.1 id with sibling | leaf
  · obtain ⟨step,member,same⟩ := mem_map.1 sibling
    have bound := way.2.1 step member
    omega
  · have bound := leaves leaf
    omega

theorem recoveryEntries_length {k : Nat} (few : numParts hs.fileSize ≤ 2^k) :
    (hs.recoveryEntries sha1 part).length ≤ k+53 := by
  have blocks := blocksInPart_bounds inside
  have way := (path_lt few part 1 true).2.2
  rw [← length_map (f := Prod.fst),recoveryEntries_ids whole inside,length_append,length_map,ids_length blocks.1]
  omega

theorem use32_eq : hs.use32 (hs.recoveryEntries sha1 part) = decide (oldMaxEmuleFileSize < hs.fileSize) := by
  unfold AICHRecoveryHashSet.use32
  rcases Nat.lt_or_ge oldMaxEmuleFileSize hs.fileSize with large | small
  · simp [decide_eq_true large]
  have few := numParts_old (oldMax_le small)
  rw [decide_eq_false (by omega),Bool.false_or,any_eq_false]
  intro entry listed
  have bound := recoveryEntries_lt whole inside few entry listed
  rw [decide_eq_true_iff]
  omega

theorem partLeaves_ne_nil : hs.partLeaves part ≠ [] := by
  have blocks := blocksInPart_bounds inside
  rw [← partLeaves_length whole inside] at blocks
  exact ne_nil_of_length_pos blocks.1

theorem createPartRecoveryData_eq : hs.createPartRecoveryData sha1 part =
    if oldMaxEmuleFileSize < hs.fileSize then writeEntries 2 []++writeEntries 4 (hs.recoveryEntries sha1 part)
    else writeEntries 2 (hs.recoveryEntries sha1 part)++writeEntries 4 [] := by
  unfold AICHRecoveryHashSet.createPartRecoveryData
  rw [if_neg (partLeaves_ne_nil whole inside),parts_eq whole.positive,if_neg (by omega)]
  dsimp only
  rw [use32_eq whole inside]
  by_cases large : oldMaxEmuleFileSize < hs.fileSize
  · simp [large]
  · simp [large]

theorem recoveryEntries_ne_nil : hs.recoveryEntries sha1 part ≠ [] := by
  have blocks := blocksInPart_bounds inside
  have length := congrArg List.length (@recoveryEntries_ids sha1 hs part whole inside)
  rw [length_map,length_append,ids_length blocks.1] at length
  apply ne_nil_of_length_pos
  omega

theorem parseWireEntries_answer (known : hs.fileSize ≤ ed2kMaxFileSizeBytes) :
    parseWireEntries (hs.createPartRecoveryData sha1 part) = some (hs.recoveryEntries sha1 part) := by
  have few := numParts_wire known
  have length := @recoveryEntries_length sha1 hs part whole inside 16 few
  have positive := (@recoveryEntries_nodup sha1 hs part whole inside).2
  have nonempty := @recoveryEntries_ne_nil sha1 hs part whole inside
  have bound := fun k few => @recoveryEntries_lt sha1 hs part whole inside k few
  rw [createPartRecoveryData_eq whole inside]
  generalize hs.recoveryEntries sha1 part = entries at length positive nonempty bound ⊢
  split
  · have large : ∀ entry ∈ entries, 0 < entry.1 ∧ entry.1 < 256^4 := fun entry listed =>
      ⟨positive entry listed,(bound 16 few entry listed).trans_le (by omega)⟩
    rw [@parseWireEntries_written [] entries (by rwa [nil_append]) (by rw [length_nil]; omega) (by omega) (forall_mem_nil _) large,
      nil_append]
  next small =>
  have fewer := numParts_old (oldMax_le (Nat.le_of_not_lt small))
  have narrow : ∀ entry ∈ entries, 0 < entry.1 ∧ entry.1 < 256^2 := fun entry listed =>
    ⟨positive entry listed,(bound 9 fewer entry listed).trans_le (by omega)⟩
  rw [@parseWireEntries_written entries [] (by rwa [append_nil]) (by omega) (by rw [length_nil]; omega) narrow (forall_mem_nil _),
    append_nil]

theorem claimedLeaves_answer (known : hs.fileSize ≤ ed2kMaxFileSizeBytes) :
    claimedLeaves hs.fileSize part (hs.createPartRecoveryData sha1 part) =
      some (hs.partLeaves part,fun id => (collect (hs.recoveryEntries sha1 part)).lookup id) := by
  have blocks := blocksInPart_bounds inside
  have length := partLeaves_length whole inside
  have looked := @Table.mapM_lookup_collect _ _ _ _ (@recoveryEntries_nodup sha1 hs part whole inside).1
    (leafIds (blocksInPart hs.fileSize part (numParts hs.fileSize)) (topLevelPathStructure (numParts hs.fileSize) part).1.1
      (topLevelPathStructure (numParts hs.fileSize) part).1.2) (hs.partLeaves part)
    (by rw [leafIds,if_pos blocks.1,ids_length blocks.1,length])
    fun binding listed => by
      rw [recoveryEntries_eq whole.positive,length]
      exact mem_append_right _ listed
  unfold claimedLeaves
  dsimp only
  rw [parseWireEntries_answer whole inside known,max_numParts whole.positive,partPlace_eq]
  dsimp only
  rw [looked]
  rfl

theorem verifyPartLeaves_answer :
    verifyPartLeaves sha1 (hs.partLeaves part) (hierarchicalRoot sha1 hs.leafHashes hs.fileSize) hs.fileSize part
      (fun id => (collect (hs.recoveryEntries sha1 part)).lookup id) = true := by
  have length := @partHashes_length sha1 hs
  rw [verifyPartLeaves_iff whole.positive]
  refine ⟨partLeaves_ne_nil whole inside,?_⟩
  have climbed := @climb_audit _ part 1 true _ _ _ (fun id => (collect (hs.recoveryEntries sha1 part)).lookup id) _
    (@computeAllPartHashes_get sha1 hs part whole inside) fun sibling listed => lookup_collect (@recoveryEntries_nodup sha1 hs part whole inside).1 (by
      rw [recoveryEntries_eq whole.positive]
      exact mem_append_left _ listed)
  rw [length] at climbed
  rw [hierarchicalRoot_eq whole]
  exact climbed

end

theorem place_fresh {start : Nat} : AICHRecoveryHashSet.place [] start leaves = List.replicate start 0++leaves := by
  unfold AICHRecoveryHashSet.place
  simp

theorem readRecoveryData_verified {data : Bytes} (positive : 0 < hs.fileSize)
    (inside : part < numParts hs.fileSize) (claimed : claimedLeaves hs.fileSize part data = some (leaves,lookup))
    (verified : verifyPartLeaves sha1 leaves hs.rootHash hs.fileSize part lookup = true) : hs.readRecoveryData sha1 data part =
      (true,{ hs with leafHashes := AICHRecoveryHashSet.place hs.leafHashes (part*53) leaves }) := by
  have blocks := blocksInPart_bounds inside
  unfold AICHRecoveryHashSet.readRecoveryData
  rw [parts_eq positive,blocksPerFullPart_eq,if_neg (by omega),claimed]
  dsimp only
  rw [if_pos verified]

theorem readRecoveryData_answer (whole : hs.Whole) (inside : part < numParts hs.fileSize) (known : hs.fileSize ≤ ed2kMaxFileSizeBytes)
    (rooted : hs.rootHash = hierarchicalRoot sha1 hs.leafHashes hs.fileSize) :
    (AICHRecoveryHashSet.new hs.rootHash hs.fileSize).readRecoveryData sha1 (hs.createPartRecoveryData sha1 part) part =
      (true,⟨hs.rootHash,List.replicate (part*53) 0++hs.partLeaves part,hs.fileSize⟩) := by
  have verified := @verifyPartLeaves_answer sha1 hs part whole inside
  rw [← rooted] at verified
  rw [@readRecoveryData_verified sha1 (.new hs.rootHash hs.fileSize) part _ _ _ whole.positive inside
    (@claimedLeaves_answer sha1 hs part whole inside known) verified,AICHRecoveryHashSet.new,place_fresh]

theorem readRecoveryData_outside (positive : 0 < hs.fileSize) (outside : numParts hs.fileSize ≤ part) (data : Bytes) :
    hs.readRecoveryData sha1 data part = (false,hs) := by
  have none : blocksInPart hs.fileSize part hs.parts = 0 := by rw [parts_eq positive,blocksInPart,if_pos outside]
  unfold AICHRecoveryHashSet.readRecoveryData
  rw [if_pos (.inl none)]

end Answer

/-- What an honest answer is, and what it does for a peer that knows only the master hash and the size. -/
structure AICHRecoveryHashSet.Answers (sha1 : Bytes → Digest) (hs : AICHRecoveryHashSet) (part : Nat) : Prop where
  written : hs.createPartRecoveryData sha1 part =
    if oldMaxEmuleFileSize < hs.fileSize then writeEntries 2 []++writeEntries 4 (hs.recoveryEntries sha1 part)
    else writeEntries 2 (hs.recoveryEntries sha1 part)++writeEntries 4 []
  parsed : parseWireEntries (hs.createPartRecoveryData sha1 part) = some (hs.recoveryEntries sha1 part)
  distinct : ((hs.recoveryEntries sha1 part).map Prod.fst).Nodup
  narrow : hs.fileSize ≤ 0xFFFFFFFF → ∀ entry ∈ hs.recoveryEntries sha1 part, entry.1 < 2^16
  wide : ∀ entry ∈ hs.recoveryEntries sha1 part, entry.1 < 2^32
  accepted : ((new hs.rootHash hs.fileSize).readRecoveryData sha1 (hs.createPartRecoveryData sha1 part) part).1 = true
  placed : ∀ i < blocksInPart hs.fileSize part (numParts hs.fileSize), ∃ leaf,
    hs.leafHashes[part*blocksPerFullPart+i]? = some leaf ∧
    ((new hs.rootHash hs.fileSize).readRecoveryData sha1 (hs.createPartRecoveryData sha1 part) part).2.leafHashes[part*blocksPerFullPart+i]? =
      some leaf

theorem answers {sha1 : Bytes → Digest} {hs : AICHRecoveryHashSet} {part : Nat} (whole : hs.Whole) (inside : part < numParts hs.fileSize)
    (known : hs.fileSize ≤ ed2kMaxFileSizeBytes) (rooted : hs.rootHash = hierarchicalRoot sha1 hs.leafHashes hs.fileSize) :
    hs.Answers sha1 part where
  written := createPartRecoveryData_eq whole inside
  parsed := parseWireEntries_answer whole inside known
  distinct := (recoveryEntries_nodup whole inside).1
  narrow small entry listed := (recoveryEntries_lt whole inside (numParts_old small) entry listed).trans_le (by omega)
  wide entry listed := (recoveryEntries_lt whole inside (numParts_wire known) entry listed).trans_le (by omega)
  accepted := by rw [readRecoveryData_answer whole inside known rooted]
  placed := by
    intro i within
    obtain ⟨shown,room,-⟩ := partLeaves_eq whole inside
    have own : (hs.partLeaves part)[i]? = hs.leafHashes[part*53+i]? := by
      rw [shown,getElem?_take_of_lt within,getElem?_drop]
    have there : part*53+i < hs.leafHashes.length := lt_of_lt_of_le (Nat.add_lt_add_left within _) room
    rw [readRecoveryData_answer whole inside known rooted,blocksPerFullPart_eq]
    refine ⟨_,getElem?_eq_getElem there,?_⟩
    rw [getElem?_append_right (by rw [length_replicate]; omega),length_replicate,Nat.add_sub_cancel_left,own,
      getElem?_eq_getElem there]

theorem recovery_complete (sha1 : Bytes → Digest) (leaves : List Digest) (size : Nat) (valid : 1 ≤ size ∧ size ≤ ed2kMaxFileSizeBytes)
    (length : leaves.length = leafCountForSize size) :
    let hs : AICHRecoveryHashSet := ⟨hierarchicalRoot sha1 leaves size,leaves,size⟩
    (∀ part < numParts size, hs.Answers sha1 part) ∧
      ∀ part, numParts size ≤ part → hs.createPartRecoveryData sha1 part = emptyEnvelope ∧
        ((AICHRecoveryHashSet.new hs.rootHash size).readRecoveryData sha1 emptyEnvelope part).1 = false := by
  intro hs
  have whole : hs.Whole := ⟨valid.1,length⟩
  refine ⟨fun part inside => answers whole inside valid.2 rfl,fun part outside => ⟨?_,?_⟩⟩
  · rw [AICHRecoveryHashSet.createPartRecoveryData,parts_eq whole.positive,if_pos outside,ite_self]
  · rw [@readRecoveryData_outside sha1 (.new hs.rootHash size) part valid.1 outside]

def threeParts : List Digest := (List.range 159).map (BitVec.ofNat 160)

theorem recovery_complete_three : numParts 29184000 = 3 ∧
    ∀ part < numParts 29184000, (⟨hierarchicalRoot (array 160) threeParts 29184000,threeParts,29184000⟩ : AICHRecoveryHashSet).Answers
      (array 160) part := by
  have count : leafCountForSize 29184000 = 159 := by decide +kernel
  have valid : 1 ≤ 29184000 ∧ 29184000 ≤ ed2kMaxFileSizeBytes := by
    unfold ed2kMaxFileSizeBytes ed2kMaxWireParts partSize
    omega
  have length : threeParts.length = leafCountForSize 29184000 := by rw [threeParts,length_map,length_range,count]
  exact ⟨by decide +kernel,(recovery_complete (array 160) threeParts 29184000 valid length).1⟩

end Ember.Ed2k.Aich
