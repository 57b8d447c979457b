import Ember.Dht.SearchHarvest
import Ember.Library.Utf8

/-! A record read out of a `FOUND_VALUE` blob, and the verdict a search gives the blob unread. The two frame the same layout by
hand. -/
namespace Ember.Dht
open Bytes List Option

def channelTrailerVersion : UInt8 := 1
def mediaTrailerVersion : UInt8 := 1
def sourceContactFlagQuicPort : UInt8 := 0x80
def sourceQuicPortLen : Nat := 2
def sourceCallbackTrailerV1Len : Nat := 16+4+2+32+16
def sourceCallbackTrailerLen : Nat := sourceCallbackTrailerV1Len+(32+8+64)

structure SourceBuddy where
  ip : Ipv4Addr
  udpPort : Nat
  noisePub : BitVec 256
  ed25519Pub : PublisherKey
  endorsedUntil : Int
  endorsement : Signature

structure SourceContact where
  ip : Ipv4Addr
  tcpPort : Nat
  udpPort : Nat
  flags : UInt8
  noisePub : BitVec 256
  userHash : Option (BitVec 128)
  buddy : Option SourceBuddy
  callbackToken : Option (BitVec 128)
  quicPort : Option Nat

structure ChannelRecordMeta where
  kind : UInt8
  flags : UInt8
  extra : Bytes

structure MediaMetadata where
  duration : Option Nat := none
  bitrate : Option Nat := none
  codec : Option Bytes := none
  artist : Option Bytes := none
  album : Option Bytes := none
  title : Option Bytes := none
deriving DecidableEq

structure SignedRecord where
  recordType : UInt8
  keywordHash : Key
  fileHash : FileHash
  emberFileHash : Digest
  fileSize : Nat
  fileName : Bytes
  publisherKey : PublisherKey
  timestamp : Int
  data : Bytes
  signature : Signature
  media : Option MediaMetadata
  sourceContact : Option SourceContact
  channel : Option ChannelRecordMeta

namespace MediaMetadata

def text (cap : Nat) (value : Bytes) : Option Bytes :=
  if value.length ≤ cap && Utf8.wellFormed value && !value.isEmpty then some value else none

/-- A number not four bytes wide leaves what was read before; a text that is not one clears it. -/
def note (media : MediaMetadata) (tag : UInt8) (value : Bytes) : MediaMetadata :=
  match tag with
  | 1 => if value.length = 4 then { media with duration := littleEndian value } else media
  | 2 => if value.length = 4 then { media with bitrate := littleEndian value } else media
  | 3 => { media with codec := text 16 value }
  | 4 => { media with artist := text 64 value }
  | 5 => { media with album := text 64 value }
  | 6 => { media with title := text 64 value }
  | _ => media

def read (media : MediaMetadata) : Bytes → MediaMetadata
  | tag :: len :: rest =>
    if rest.length < len.toNat then media else (media.note tag (rest.take len.toNat)).read (rest.drop len.toNat)
  | _ => media
termination_by tlv => tlv.length

def intoOption (media : MediaMetadata) : Option MediaMetadata := if media = {} then none else some media

end MediaMetadata

variable (data : Bytes)

def decodeMediaTrailer : Option MediaMetadata :=
  if data.head? = some mediaTrailerVersion then (MediaMetadata.read {} data.tail).intoOption else none

def portFlagged (off : Nat) : Bool := (data.drop (off+8)).headD 0 &&& sourceContactFlagQuicPort != 0

/-- The port, when flagged, ends the body; a buddy is inferred from what is left before it. -/
def decodeSourceContact (off : Nat) : Option SourceContact :=
  let rest := off+sourceContactWireLen
  if data.length < rest then none
  else if portFlagged data off && data.length < rest+sourceQuicPortLen then none
  else
    let stop := if portFlagged data off then data.length-sourceQuicPortLen else data.length
    let quicPort := littleEndian (data.drop stop)
    let body := data.take stop
    let field (start len : Nat) := slice body (rest+start) (rest+start+len)
    let endorsed := rest+sourceCallbackTrailerLen ≤ body.length
    let buddy : SourceBuddy :=
      { ip := array 32 (field 16 4)
        udpPort := littleEndian (field 20 2)
        noisePub := array 256 (field 22 32)
        ed25519Pub := if endorsed then array 256 (field 70 32) else 0
        endorsedUntil := if endorsed then i64 (field 102 8) else 0
        endorsement := if endorsed then array 512 (field 110 64) else 0 }
    let named := rest+sourceCallbackTrailerV1Len ≤ body.length && buddy.udpPort != 0 && buddy.ip != 0
    let nonzero (value : BitVec 128) := if named && value != 0 then some value else none
    some
      { ip := array 32 (slice data off (off+4))
        tcpPort := littleEndian (slice data (off+4) (off+6))
        udpPort := littleEndian (slice data (off+6) (off+8))
        flags := (data.drop (off+8)).headD 0 &&& ~~~sourceContactFlagQuicPort
        noisePub := array 256 (slice data (off+9) (off+41))
        userHash := nonzero (array 128 (field 0 16))
        buddy := if named then some buddy else none
        callbackToken := nonzero (array 128 (field 54 16))
        quicPort := if quicPort = 0 then none else some quicPort }

def trailerFramed (nameLen : Nat) : Bool :=
  (channelTrailerLen data nameLen).any (fun n => data.length == 115+nameLen+n) && (data.drop (115+nameLen)).headD 0 == channelTrailerVersion

def carriesTrailer : Bool := isType data recordTypeChannel || isType data recordTypeFeed || isType data recordTypeFeedListing

namespace SignedRecord

def parseUnverified (signature : Signature) : Option SignedRecord :=
  if data.length < 115 then none
  else
    let fileSize := littleEndian (slice data 65 73)
    let nameLen := littleEndian (slice data 113 115)
    let off := 115+nameLen
    if data.length < off then none
    else if isType data recordTypeSource && (decodeSourceContact data off).isNone then none
    else if carriesTrailer data && !trailerFramed data nameLen then none
    else
      let extraLen := littleEndian (slice data (off+1) (off+3))
      some
        { recordType := data.headD 0
          keywordHash := array 128 (slice data 1 17)
          fileHash := array 128 (slice data 17 33)
          emberFileHash := array 256 (slice data 33 65)
          fileSize
          fileName := Utf8.lossy (slice data 115 off)
          publisherKey := array 256 (slice data 73 105)
          timestamp := i64 (slice data 105 113)
          data,signature
          media := if isType data recordTypeKeyword then decodeMediaTrailer (data.drop off) else none
          sourceContact := if isType data recordTypeSource then decodeSourceContact data off else none
          channel := if isType data recordTypeChannel then
            some ⟨.ofNat fileSize,.ofNat (fileSize/256),slice data (off+3) (off+3+extraLen)⟩ else none }

def verify (crypto : Crypto) (record : SignedRecord) : Bool :=
  (crypto.verifyingKeyFromBytes record.publisherKey).any fun key => crypto.verify key record.data record.signature

def fromWire (crypto : Crypto) (signature : Signature) : Option SignedRecord :=
  (parseUnverified data signature).filter (verify crypto)

def fromValueBlob (crypto : Crypto) (blob : Bytes) : Option SignedRecord :=
  if blob.length < 64 then none
  else fromWire (blob.take (blob.length-64)) crypto (array 512 (blob.drop (blob.length-64)))

theorem decodeSourceContact_isSome {off : Nat} : (decodeSourceContact data off).isSome = true ↔
    off+sourceContactWireLen ≤ data.length ∧ (portFlagged data off = true → off+sourceContactWireLen+sourceQuicPortLen ≤ data.length) := by
  unfold decodeSourceContact
  dsimp only
  split
  · next short => exact iff_of_false Bool.false_ne_true fun whole => absurd whole.1 (Nat.not_le.2 short)
  next long =>
  split
  · next cut =>
    rw [Bool.and_eq_true,decide_eq_true_eq] at cut
    exact iff_of_false Bool.false_ne_true fun whole => absurd (whole.2 cut.1) (Nat.not_le.2 cut.2)
  next whole =>
  rw [Bool.and_eq_true,decide_eq_true_eq,not_and,Nat.not_lt] at whole
  exact iff_of_true rfl ⟨Nat.not_lt.1 long,whole⟩

/-- What only the parser looks at: a trailer's version, and the room for a flagged port. -/
@[mk_iff]
structure Mirrored (off : Nat) : Prop where
  version : carriesTrailer data = true → (data.drop off).headD 0 = channelTrailerVersion
  port : isType data recordTypeSource = true → portFlagged data off = true → off+sourceContactWireLen+sourceQuicPortLen ≤ data.length

theorem fromWire_isSome {nameLen : Nat} (named : littleEndian (slice data 113 115) = nameLen) {crypto : Crypto} {signature : Signature} :
    (fromWire data crypto signature).isSome = true ↔ 115 ≤ data.length ∧ 115+nameLen ≤ data.length ∧
      (isType data recordTypeSource = true → (decodeSourceContact data (115+nameLen)).isSome = true) ∧
      (carriesTrailer data = true → trailerFramed data nameLen = true) ∧
      (crypto.verifyingKeyFromBytes (array 256 (slice data 73 105))).any (crypto.verify · data signature) = true := by
  unfold fromWire parseUnverified
  dsimp only
  rw [named]
  split
  · next short => simp [Nat.not_le.2 short]
  split
  · next short => simp [Nat.not_le.2 short]
  next long fits =>
  split
  · next refused =>
    rw [Bool.and_eq_true] at refused
    simp [refused]
  next contact =>
  split
  · next unframed =>
    rw [Bool.and_eq_true,Bool.not_eq_true'] at unframed
    simp [unframed]
  next framed =>
  have known (source : isType data recordTypeSource = true) : (decodeSourceContact data (115+nameLen)).isSome = true := by
    simpa [source,isSome_iff_ne_none] using contact
  have whole : carriesTrailer data = true → trailerFramed data nameLen = true := by simpa using framed
  rw [filter_some,isSome_ite]
  exact ⟨fun signed => ⟨Nat.not_lt.1 long,Nat.not_lt.1 fits,known,whole,signed⟩,fun all => all.2.2.2.2⟩

theorem parses_iff_authentic (crypto : Crypto) (blob : Bytes) :
    let data := blob.take (blob.length-64)
    let mirrored := Mirrored data (115+littleEndian (slice data 113 115))
    ((fromValueBlob crypto blob).isSome = true ↔ valueBlobIsAuthentic crypto blob = true ∧ mirrored) ∧
      ((valueBlobIsAuthentic crypto blob = true ↔ (fromValueBlob crypto blob).isSome = true) ↔
        (valueBlobIsAuthentic crypto blob = true → mirrored)) := by
  have both {a b c : Prop} (parses : a ↔ b ∧ c) : (a ↔ b ∧ c) ∧ ((b ↔ a) ↔ (b → c)) := ⟨parses,by rw [parses]; tauto⟩
  apply both
  have size : (blob.take (blob.length-64)).length = blob.length-64 := by simp
  unfold fromValueBlob valueBlobIsAuthentic
  generalize blob.take (blob.length-64) = data at size ⊢
  generalize named : littleEndian (slice data 113 115) = nameLen
  dsimp only
  split
  · next short =>
    rw [if_pos (by omega)]
    simp
  rw [fromWire_isSome data named,decodeSourceContact_isSome]
  rw [named,mirrored_iff]
  simp only [trailerFramed]
  grind [carriesTrailer]

/-- A trailer of another version, and a flagged port with nothing after the contact, pass for records and do not parse. -/
theorem authentic_unparsed :
    let crypto : Crypto := ⟨fun _ => 0,some,fun _ _ _ => true⟩
    let later := buildData recordTypeChannel 0 0 0 0 0 0 [] [2,0,0]++List.replicate 64 0
    let portless := buildData recordTypeSource 0 0 0 0 0 0 [] (List.replicate 8 0++0x80 :: List.replicate 32 0)++List.replicate 64 0
    (valueBlobIsAuthentic crypto later = true ∧ (fromValueBlob crypto later).isSome = false) ∧
      valueBlobIsAuthentic crypto portless = true ∧ (fromValueBlob crypto portless).isSome = false := by
  decide +kernel

end SignedRecord
end Ember.Dht
