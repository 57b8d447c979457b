import Ember.Ed2k.PartMet

/-! Each tag of a sidecar is read back as what it says, and cut short not at all; so the loop over the
tags gathers what was saved, or finds fewer than announced. -/
namespace Ember.Ed2k
open Ranges Bytes Reader List Option AList Prod

section Decimal

variable {n : Nat}

theorem decimal_digits (positive : n ≠ 0) :
    decimal n = (Nat.digits 10 n).reverse.map fun d => UInt8.ofNat (48+d) := if_neg positive

theorem decimal_isDigit {byte : UInt8} (member : byte ∈ decimal n) : isDigit byte = true := by
  by_cases zero : n = 0
  · rw [decimal,if_pos zero] at member
    rw [mem_singleton.1 member]
    decide
  rw [decimal_digits zero] at member
  obtain ⟨d,digit,rfl⟩ := List.mem_map.1 member
  have small : d < 10 := Nat.digits_lt_base (by norm_num) (mem_reverse.1 digit)
  have digits : ∀ d < 10, isDigit (UInt8.ofNat (48+d)) = true := by decide
  exact digits d small

theorem decimal_ne_nil : decimal n ≠ [] := by
  by_cases zero : n = 0
  · rw [decimal,if_pos zero]
    simp
  · rw [decimal_digits zero,ne_eq,map_eq_nil_iff,reverse_eq_nil_iff]
    exact Nat.digits_ne_nil_iff_ne_zero.2 zero

theorem decimal_length {k : Nat} (small : n < 10^(k+1)) : (decimal n).length ≤ k+1 := by
  by_cases zero : n = 0
  · rw [decimal,if_pos zero]
    exact Nat.succ_le_succ (Nat.zero_le k)
  · rw [decimal_digits zero,length_map,length_reverse]
    exact (Nat.digits_length_le_iff (by norm_num) n).2 small

theorem decimal_value : (decimal n).foldl (fun value digit => value*10+(digit.toNat-48)) 0 = n := by
  by_cases zero : n = 0
  · rw [zero]
    rfl
  rw [decimal_digits zero,foldl_map,foldl_reverse]
  have digit : ∀ d ∈ Nat.digits 10 n, (UInt8.ofNat (48+d)).toNat-48 = d := by
    intro d member
    have small : d < 10 := Nat.digits_lt_base (by norm_num) member
    rw [UInt8.toNat_ofNat']
    omega
  calc (Nat.digits 10 n).foldr (fun d value => value*10+((UInt8.ofNat (48+d)).toNat-48)) 0
      = (Nat.digits 10 n).foldr (fun d value => d+10*value) 0 := by
        apply foldr_ext
        intro d member value
        rw [digit d member,Nat.mul_comm,Nat.add_comm]
    _ = Nat.ofDigits 10 (Nat.digits 10 n) := (Nat.ofDigits_eq_foldr 10 _).symm
    _ = n := Nat.ofDigits_digits 10 n

theorem parseUsize_decimal (fits : n < 2^64) : parseUsize (decimal n) = some n := by
  have unsigned : (decimal n).head? ≠ some 43 := by
    intro plus
    have digit := decimal_isDigit (mem_of_head? plus)
    cases digit
  have digits : (decimal n).all isDigit = true := List.all_eq_true.2 fun _ => decimal_isDigit
  unfold parseUsize
  rw [if_neg unsigned]
  rw [if_neg (by simp [decimal_ne_nil,digits]),decimal_value,if_pos fits]

end Decimal

section Tags
variable {gapType : UInt8} (useLarge : Bool) (tagId : UInt8) (value : Nat) {rawType : UInt8}

theorem readTagName_reads (plain : rawType &&& 0x80 = 0) {name : Bytes} (short : name.length ≤ 4096) :
    Reads (readTagName rawType) (ofNatLittleEndian 2 name.length++name) (rawType,name) := by
  unfold readTagName
  rw [if_neg (by simpa using plain)]
  apply (little_reads unexpectedEof (by omega)).bind
  rw [if_neg (by omega)]
  exact (exact_reads unexpectedEof name).map _

theorem readEmuleTag_reads (plain : rawType &&& 0x80 = 0) {name value : Bytes} (short : name.length ≤ 4096)
    {tag : MetTag} (read : Reads (readTagValue rawType name) value tag) :
    Reads readEmuleTag ([rawType]++(ofNatLittleEndian 2 name.length++name)++value) tag := by
  apply (byte_reads unexpectedEof rawType).bind
  exact (readTagName_reads plain short).bind read

theorem writeUint32Tag_reads : Reads readEmuleTag (writeUint32Tag tagId value) (numberTag [tagId] (value%2^32)) := by
  have read : Reads (readTagValue tagtypeUint32 [tagId]) (ofNatLittleEndian 4 value) (numberTag [tagId] (value%2^32)) :=
    (little_reads_mod unexpectedEof 4 value).map _
  exact readEmuleTag_reads (by decide) (by simp) read

theorem writeUint64Tag_reads : Reads readEmuleTag (writeUint64Tag tagId value) (numberTag [tagId] (value%2^64)) := by
  have read : Reads (readTagValue tagtypeUint64 [tagId]) (ofNatLittleEndian 8 value) (numberTag [tagId] (value%2^64)) :=
    (little_reads_mod unexpectedEof 8 value).map _
  exact readEmuleTag_reads (by decide) (by simp) read

def sizedBits : Nat := if useLarge then 64 else 32

theorem writeSizedTag_reads :
    Reads readEmuleTag (writeSizedTag useLarge tagId value) (numberTag [tagId] (value%2^sizedBits useLarge)) := by
  cases useLarge
  · exact writeUint32Tag_reads tagId value
  · exact writeUint64Tag_reads tagId value

def clampedName (value : Text) : Bytes :=
  if value.bytes.length ≤ 65535 then value.bytes else value.bytes.take (charBoundary value.bytes 65535)

theorem charBoundary_le (bytes : Bytes) (stop : Nat) : charBoundary bytes stop ≤ stop := by
  induction stop with
  | zero => exact le_rfl
  | succ stop ih =>
    unfold charBoundary
    split
    · omega
    · exact le_rfl

theorem clampedName_length (value : Text) : (clampedName value).length ≤ 65535 := by
  unfold clampedName
  split
  · assumption
  have bound := charBoundary_le value.bytes 65535
  rw [length_take]
  omega

theorem writeStringTag_reads {name : Text} :
    Reads readEmuleTag (writeStringTag ftFilename name) (.fileName (decodeMetString (clampedName name))) := by
  have read : Reads (readTagValue tagtypeString [ftFilename]) (ofNatLittleEndian 2 (clampedName name).length++clampedName name)
      (.fileName (decodeMetString (clampedName name))) := by
    have short := clampedName_length name
    have value := (exact_reads "part.met string tag length exceeds data boundary" (clampedName name)).map
      fun bytes => if [ftFilename] = [ftFilename] then MetTag.fileName (decodeMetString bytes) else .unknown
    exact (little_reads unexpectedEof (by omega)).bind value
  have tag := @readEmuleTag_reads tagtypeString (by decide) [ftFilename] _ (by simp) _ read
  rwa [← append_assoc] at tag

theorem writeBlobTag_reads {data : Bytes} (short : data.length ≤ 1000000) :
    ∃ bytes, writeBlobTag ftEmberVerifiedBitmap data = .ok bytes ∧ Reads readEmuleTag bytes (.verifiedBitmap data) := by
  have read : Reads (readTagValue tagtypeBlob [ftEmberVerifiedBitmap]) (ofNatLittleEndian 4 data.length++data) (.verifiedBitmap data) := by
    have value := (exact_reads "blob tag length exceeds data boundary" data).map fun bytes =>
      if [ftEmberVerifiedBitmap] = [ftEmberVerifiedBitmap] ∧ data.length ≤ 1000000 then MetTag.verifiedBitmap bytes else .unknown
    rw [if_pos ⟨rfl,short⟩] at value
    exact (little_reads unexpectedEof (by omega)).bind value
  have tag := @readEmuleTag_reads tagtypeBlob (by decide) [ftEmberVerifiedBitmap] _ (by simp) _ read
  refine ⟨_,if_pos (by omega),?_⟩
  rwa [← append_assoc] at tag

def gapMark (gapType : UInt8) (index value : Nat) : MetTag :=
  if gapType = ftGapstart then .gapStart index value else .gapEnd index value

theorem numberTag_gap (gap : gapType = ftGapstart ∨ gapType = ftGapend) {index : Nat} (small : index < 2^64)
    {value : Nat} : numberTag (gapType :: decimal index) value = gapMark gapType index value := by
  obtain ⟨digit,digits,shown⟩ := exists_cons_of_ne_nil decimal_ne_nil
  have parsed := parseUsize_decimal small
  rw [shown] at parsed ⊢
  unfold numberTag
  dsimp only
  rw [if_pos gap,parsed]
  rfl

theorem writeGapTag_reads (gap : gapType = ftGapstart ∨ gapType = ftGapend) {index value : Nat}
    (small : index < 2^64) {useLarge : Bool} (fits : value < 2^sizedBits useLarge) :
    ∃ bytes, writeGapTag gapType index value useLarge = .ok bytes ∧ Reads readEmuleTag bytes (gapMark gapType index value) := by
  have short : (gapType :: decimal index).length ≤ 4096 := by
    have few := @decimal_length index 19 (by omega)
    rw [length_cons]
    omega
  have named : ofNatLittleEndian 2 (1+(decimal index).length)++[gapType]++decimal index =
      ofNatLittleEndian 2 (gapType :: decimal index).length++(gapType :: decimal index) := by
    rw [Nat.add_comm]
    rfl
  unfold writeGapTag
  rw [named]
  cases useLarge with
  | true =>
    have read : Reads (readTagValue tagtypeUint64 (gapType :: decimal index)) (ofNatLittleEndian 8 value) (gapMark gapType index value) := by
      rw [← numberTag_gap gap small]
      exact (little_reads unexpectedEof fits).map _
    exact ⟨_,rfl,readEmuleTag_reads (by decide) short read⟩
  | false =>
    have read : Reads (readTagValue tagtypeUint32 (gapType :: decimal index)) (ofNatLittleEndian 4 value) (gapMark gapType index value) := by
      rw [← numberTag_gap gap small]
      exact (little_reads unexpectedEof fits).map _
    exact ⟨_,if_pos fits,readEmuleTag_reads (by decide) short read⟩

end Tags

section Bitmap

theorem foldl_bits {up : Nat → Bool} {k : Nat} (inside : k < 8) :
    ((List.range 8).foldl (fun byte k => if up k then byte ||| UInt8.ofNat (2^k) else byte) 0).toNat.testBit k = up k := by
  have all : ∀ (a b c d e f g h : Bool), ∀ k < 8,
      ((List.range 8).foldl (fun byte k => if [a,b,c,d,e,f,g,h].getD k false then byte ||| UInt8.ofNat (2^k) else byte) 0).toNat.testBit k =
        [a,b,c,d,e,f,g,h].getD k false := by decide +kernel
  have same : ∀ k < 8, up k = [up 0,up 1,up 2,up 3,up 4,up 5,up 6,up 7].getD k false := by
    intro k inside
    interval_cases k <;> rfl
  rw [same k inside,← all _ _ _ _ _ _ _ _ k inside]
  congr 2

theorem bitAt_packBits {flags : List Bool} {i : Nat} : bitAt (packBits flags) i = flags[i]?.getD false := by
  unfold bitAt packBits
  rw [getD_eq_getElem?_getD,getElem?_map]
  by_cases inside : i/8 < (flags.length+7)/8
  · rw [getElem?_range inside,map_some,getD_some,
      foldl_bits (by omega),Nat.div_add_mod]
  have past : flags.length ≤ i := by omega
  rw [getElem?_eq_none (by rw [length_range]; omega),
    getElem?_eq_none past]
  simp

end Bitmap

section Written
variable {snap : SaveSnapshot}

def gapMarks : Nat → List Range → List MetTag
  | _, [] => []
  | i, gap :: rest => .gapStart i gap.1 :: .gapEnd i gap.2 :: gapMarks (i+1) rest

theorem gapMarks_length {i : Nat} {gaps : List Range} : (gapMarks i gaps).length = 2*gaps.length := by
  induction gaps generalizing i with
  | nil => rfl
  | cons gap rest ih =>
    rw [gapMarks,length_cons,length_cons,ih,length_cons]
    omega

theorem writeGapTags_reads {useLarge : Bool} {i : Nat} {gaps : List Range} (few : i+gaps.length ≤ 2^64)
    (fits : ∀ gap ∈ gaps, gap.1 < 2^sizedBits useLarge ∧ gap.2 < 2^sizedBits useLarge) :
    ∃ tags, writeGapTags useLarge i gaps = .ok tags ∧ List.Forall₂ (Reads readEmuleTag) tags (gapMarks i gaps) := by
  induction gaps generalizing i with
  | nil => exact ⟨[],rfl,.nil⟩
  | cons gap rest ih =>
    rw [length_cons] at few
    obtain ⟨own,others⟩ := forall_mem_cons.1 fits
    obtain ⟨start,startWritten,startReads⟩ := @writeGapTag_reads ftGapstart (.inl rfl) i gap.1 (by omega) useLarge own.1
    obtain ⟨stop,stopWritten,stopReads⟩ := @writeGapTag_reads ftGapend (.inr rfl) i gap.2 (by omega) useLarge own.2
    obtain ⟨tags,written,reads⟩ := ih (i := i+1) (by omega) others
    refine ⟨start :: stop :: tags,?_,.cons startReads (.cons stopReads reads)⟩
    unfold writeGapTags
    rw [startWritten,stopWritten,written]
    rfl

def SaveSnapshot.metTags (snap : SaveSnapshot) : List MetTag :=
  (if snap.fileName.bytes = [] then [] else [.fileName (decodeMetString (clampedName snap.fileName))])++
    [.fileSize (snap.fileSize%2^sizedBits snap.useLarge),.transferred (snap.transferred.toNat%2^sizedBits snap.useLarge)]++
    gapMarks 0 snap.gaps++[.gapFormat gapFormatExclusiveEnd]++
    if snap.partVerified.any id then [.verifiedBitmap (packBits snap.partVerified)] else []

structure SaveSnapshot.Fits (snap : SaveSnapshot) : Prop where
  few : snap.gaps.length ≤ 2^64
  gaps : ∀ gap ∈ snap.gaps, gap.1 < gap.2 ∧ gap.2 ≤ snap.fileSize
  size : snap.fileSize < 2^64
  flags : snap.partVerified.length ≤ 65535

namespace SaveSnapshot.Fits

theorem sized (fits : Fits snap) : snap.fileSize < 2^sizedBits snap.useLarge := by
  have size := fits.size
  unfold useLarge sizedBits
  by_cases large : 0xFFFFFFFF < snap.fileSize
  · rw [if_pos (decide_eq_true large)]
    exact size
  · rw [if_neg (by simpa using large)]
    omega

theorem metTags_length (few : snap.gaps.length ≤ maxGapEntries) : snap.metTags.length ≤ 16390 := by
  have few : snap.gaps.length ≤ 8192 := few
  have named : (if snap.fileName.bytes = [] then [] else
      [MetTag.fileName (decodeMetString (clampedName snap.fileName))]).length ≤ 1 := by
    split <;> simp
  have flagged : (if snap.partVerified.any id then [MetTag.verifiedBitmap (packBits snap.partVerified)] else []).length ≤ 1 := by
    split <;> simp
  unfold metTags
  simp only [length_append,length_cons,length_nil,gapMarks_length]
  omega

theorem leading_type {next : Bytes} {others : List Bytes} :
    ((if snap.fileName.bytes = [] then [] else [writeStringTag ftFilename snap.fileName])++
      ([writeSizedTag snap.useLarge ftFilesize snap.fileSize,next]++others)).flatten.head? ≠ some 1 := by
  split
  · unfold writeSizedTag
    split
    · exact fun typed => by cases typed
    · exact fun typed => by cases typed
  · exact fun typed => by cases typed

theorem tags_reads (fits : Fits snap) :
    ∃ tags, snap.tags = .ok tags ∧ List.Forall₂ (Reads readEmuleTag) tags snap.metTags ∧ tags.flatten.head? ≠ some 1 := by
  have few := fits.few
  have small := fits.sized
  obtain ⟨gapTags,gapsWritten,gapsRead⟩ := @writeGapTags_reads snap.useLarge 0 snap.gaps (by omega) fun gap member => by
    have inside := fits.gaps gap member
    omega
  have size := writeSizedTag_reads snap.useLarge ftFilesize snap.fileSize
  have transferred := writeSizedTag_reads snap.useLarge ftTransferred snap.transferred.toNat
  have format := writeUint32Tag_reads ftEmberGapFormat gapFormatExclusiveEnd
  have name : List.Forall₂ (Reads readEmuleTag) (if snap.fileName.bytes = [] then [] else [writeStringTag ftFilename snap.fileName])
      (if snap.fileName.bytes = [] then [] else [.fileName (decodeMetString (clampedName snap.fileName))]) := by
    split
    · exact .nil
    · exact .cons writeStringTag_reads .nil
  have flags := fits.flags
  obtain ⟨blob,blobWritten,blobReads⟩ := @writeBlobTag_reads (packBits snap.partVerified) (by rw [packBits,length_map,length_range]; omega)
  unfold SaveSnapshot.tags metTags
  rw [gapsWritten,blobWritten]
  generalize snap.partVerified.any id = flagged
  cases flagged with
  | true =>
    refine ⟨_,rfl,?_,by simpa only [append_assoc] using leading_type⟩
    apply rel_append (rel_append (rel_append (rel_append name ?_) gapsRead) (.cons format .nil))
    · exact .cons blobReads .nil
    · exact .cons size (.cons transferred .nil)
  | false =>
    refine ⟨_,rfl,?_,by simpa only [append_assoc] using leading_type⟩
    apply rel_append (rel_append (rel_append (rel_append name ?_) gapsRead) (.cons format .nil))
    · exact .nil
    · exact .cons size (.cons transferred .nil)

end SaveSnapshot.Fits
end Written

section Gathered

variable (snap : SaveSnapshot) (part : Range → Nat) {gaps : List Range}

def filed (part : Range → Nat) : Nat → List Range → Table Nat Nat → Table Nat Nat
  | _, [], table => table
  | i, gap :: rest, table => filed part (i+1) rest (table.insert i (part gap))

theorem lookup_filed {i : Nat} {table : Table Nat Nat} {j : Nat} : (filed part i gaps table).lookup j =
      if i ≤ j ∧ j < i+gaps.length then gaps[j-i]?.map part else table.lookup j := by
  induction gaps generalizing i table with
  | nil =>
    rw [if_neg (by simp)]
    rfl
  | cons gap rest ih =>
    rw [filed,ih,length_cons]
    rcases lt_trichotomy j i with before | rfl | after
    · rw [if_neg (by omega),if_neg (by omega),lookup_insert_ne (by omega)]
    · simp
    · have place : j-i = j-(i+1)+1 := by omega
      by_cases inside : j < i+(rest.length+1)
      · rw [if_pos (by omega),if_pos (by omega),place,getElem?_cons_succ]
      · rw [if_neg (by omega),if_neg (by omega),lookup_insert_ne (by omega)]

theorem lookup_filed_all {j : Nat} : (filed part 0 gaps ∅).lookup j = gaps[j]?.map part := by
  rw [lookup_filed]
  split
  · rfl
  · rw [getElem?_eq_none (by omega),map_none,lookup_empty]

theorem foldl_note_gapMarks {tags : MetTags} {i : Nat} :
    (gapMarks i gaps).foldl MetTags.note tags =
      { tags with
        gapStarts := filed fst i gaps tags.gapStarts
        gapEnds := filed snd i gaps tags.gapEnds
        tagsParsed := tags.tagsParsed+2*gaps.length } := by
  induction gaps generalizing i tags with
  | nil => rfl
  | cons gap rest ih =>
    rw [gapMarks,foldl_cons,foldl_cons,ih,length_cons]
    simp only [MetTags.note,filed,MetTags.mk.injEq,true_and]
    omega

def SaveSnapshot.gathered : MetTags where
  gapStarts := filed fst 0 snap.gaps ∅
  gapEnds := filed snd 0 snap.gaps ∅
  gapEndIsExclusive := true
  fileSizeFromTags := some (snap.fileSize%2^sizedBits snap.useLarge)
  verifiedBitmapBytes := if snap.partVerified.any id then some (packBits snap.partVerified) else none
  fileName := if snap.fileName.bytes = [] then none else some (decodeMetString (clampedName snap.fileName))
  transferred := some (snap.transferred.toNat%2^sizedBits snap.useLarge)
  tagsParsed := snap.metTags.length

theorem foldl_note_metTags : snap.metTags.foldl MetTags.note {} = snap.gathered := by
  unfold SaveSnapshot.gathered SaveSnapshot.metTags
  by_cases unnamed : snap.fileName.bytes = []
  · cases flagged : snap.partVerified.any id
    · simp [unnamed,foldl_note_gapMarks,gapMarks_length,MetTags.note]
      omega
    · simp [unnamed,foldl_note_gapMarks,gapMarks_length,MetTags.note]
      omega
  cases flagged : snap.partVerified.any id
  · simp [unnamed,foldl_note_gapMarks,gapMarks_length,MetTags.note]
    omega
  · simp [unnamed,foldl_note_gapMarks,gapMarks_length,MetTags.note]
    omega

end Gathered

section Loop
variable {tags : List Bytes} {marks : List MetTag} {mark : MetTag}

theorem tag_ne_nil {bytes : Bytes} (read : Reads readEmuleTag bytes mark) : bytes ≠ [] := by
  rintro rfl
  have empty : readEmuleTag [] = .error unexpectedEof := rfl
  exact nomatch empty.symm.trans (read.whole [])

theorem note_tagsParsed {tags : MetTags} : (tags.note mark).tagsParsed = tags.tagsParsed+1 := by
  cases mark with
  | fileName name =>
    simp only [MetTags.note]
    split <;> rfl
  | _ => rfl

theorem readAll_whole (reads : List.Forall₂ (Reads readEmuleTag) tags marks) (gathered : MetTags) :
    MetTags.readAll tags.length tags.flatten gathered = marks.foldl MetTags.note gathered := by
  induction reads generalizing gathered with
  | nil => rfl
  | cons read rest ih =>
    rw [length_cons,flatten_cons,MetTags.readAll,if_neg (by simp [tag_ne_nil read]),read.whole]
    exact ih _

theorem readAll_cut (reads : List.Forall₂ (Reads readEmuleTag) tags marks) {part : Bytes} (inside : part <+: tags.flatten)
    (strict : part ≠ tags.flatten) (gathered : MetTags) :
    (MetTags.readAll tags.length part gathered).tagsParsed < gathered.tagsParsed+tags.length := by
  induction reads generalizing part gathered with
  | nil => exact absurd (List.prefix_nil.1 inside) strict
  | @cons bytes mark tags marks read rest ih =>
    rw [length_cons,MetTags.readAll]
    by_cases empty : part = []
    · rw [if_pos empty]
      omega
    rw [if_neg empty]
    rcases cut_append inside strict with ⟨early,lacking⟩ | ⟨late,rfl,later,lacking⟩
    · obtain ⟨error,failed⟩ := read.cut part early lacking
      rw [failed]
      dsimp only
      omega
    have fewer := ih later lacking (gathered.note mark)
    rw [note_tagsParsed] at fewer
    rw [read.whole]
    dsimp only
    omega

end Loop

end Ember.Ed2k
