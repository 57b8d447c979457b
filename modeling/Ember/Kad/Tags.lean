import Ember.Library.Bytes

/-! Kad tags, what of a tag list may be kept, and what keeping it costs. -/
namespace Ember.Kad

abbrev KadId := BitVec 128

inductive TagName where
  | id (n : UInt8)
  | str (name : Bytes)
  deriving DecidableEq

/-- `Float32` holds the bits of the number. -/
inductive TagValue where
  | hash (value : BitVec 128)
  | string (value : Bytes)
  | uint64 (value : UInt64)
  | uint32 (value : UInt32)
  | uint16 (value : UInt16)
  | uint8 (value : UInt8)
  | float32 (bits : UInt32)
  | bool (value : Bool)
  | blob (value : Bytes)
  | bsob (value : Bytes)
  deriving DecidableEq

structure KadTag where
  name : TagName
  value : TagValue
  deriving DecidableEq

def tagFilename : UInt8 := 0x01
def tagFilesize : UInt8 := 0x02
def tagDescription : UInt8 := 0x0B
def tagFilerating : UInt8 := 0xF7
def tagSourceuport : UInt8 := 0xFC
def tagSourceport : UInt8 := 0xFD
def tagSourceip : UInt8 := 0xFE
def tagSourcetype : UInt8 := 0xFF

def maxRetainedBytesPerEntry : Nat := 64*1024
def maxStoredTags : Nat := 64
def maxStoredTagNameBytes : Nat := 256
def maxStoredStringBytes : Nat := 8*1024
def maxStoredFilenameBytes : Nat := 4*1024
def maxStoredBlobBytes : Nat := 8*1024

/-- `size_of::<StoredEntry>()` and `size_of::<KadTag>()` of a 64-bit build. -/
def storedEntrySize : Nat := 88
def kadTagSize : Nat := 56

namespace KadTag
variable (tag : KadTag)

def named (n : UInt8) : Bool := tag.name == .id n

def asUint : Option Nat :=
  match tag.value with
  | .uint8 v => some v.toNat
  | .uint16 v => some v.toNat
  | .uint32 v => some v.toNat
  | .uint64 v => some v.toNat
  | _ => none

def asFileSize : Option Nat :=
  match tag.value with
  | .bsob b => if b.length = 8 then some (Bytes.littleEndian b) else none
  | _ => tag.asUint

def storable : Bool :=
  (match tag.name with
    | .id _ => true
    | .str name => decide (name.length ≤ maxStoredTagNameBytes)) &&
  match tag.value with
  | .string value => decide (value.length ≤ if tag.named tagFilename then maxStoredFilenameBytes else maxStoredStringBytes)
  | .blob value | .bsob value => decide (value.length ≤ maxStoredBlobBytes)
  | _ => true

def payload : Nat :=
  (match tag.name with
    | .id _ => 0
    | .str name => name.length) +
  match tag.value with
  | .string value | .blob value | .bsob value => value.length
  | _ => 0

end KadTag

variable (tags : List KadTag)

/-- Shrunk to fit, a vector's capacity is its length. -/
def sizeOfTags : Nat := storedEntrySize+tags.length*kadTagSize+(tags.map KadTag.payload).sum

def normalizeAndSizeTags : Option (List KadTag × Nat) :=
  if maxStoredTags < tags.length then none
  else if !tags.all KadTag.storable then none
  else if sizeOfTags tags ≤ maxRetainedBytesPerEntry then some (tags,sizeOfTags tags)
  else none

def keywordEntryHasMinContent : Bool :=
  let hasFilename := tags.any fun t => t.named tagFilename && match t.value with
    | .string s => !s.isEmpty
    | _ => false
  let hasFilesize := tags.any fun t => t.named tagFilesize && t.asFileSize.any (0 < ·)
  !tags.isEmpty && hasFilename && hasFilesize

theorem normalizeAndSizeTags_some {tags tags' : List KadTag} {bytes : Nat}
    (kept : normalizeAndSizeTags tags = some (tags',bytes)) : tags' = tags ∧ bytes = sizeOfTags tags ∧ bytes ≤ maxRetainedBytesPerEntry := by
  unfold normalizeAndSizeTags at kept
  split at kept
  · cases kept
  split at kept
  · cases kept
  split at kept
  next small =>
    obtain ⟨rfl,rfl⟩ := kept
    exact ⟨rfl,rfl,small⟩
  next => cases kept

theorem sizeOfTags_pos : 0 < sizeOfTags tags := by
  unfold sizeOfTags storedEntrySize
  omega

end Ember.Kad
