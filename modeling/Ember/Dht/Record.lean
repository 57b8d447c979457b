import Ember.Library.Bytes

/-! Record bodies: the fixed header, what the store and a searcher read at fixed offsets, and how
long a body of each type lives. -/
namespace Ember.Dht
open Bytes

abbrev Key := BitVec 128
abbrev EmberNodeId := BitVec 128
abbrev FileHash := BitVec 128
abbrev PublisherKey := BitVec 256
abbrev Digest := BitVec 256
abbrev Signature := BitVec 512
abbrev Ipv4Addr := BitVec 32
variable (data : Bytes) (recordType : UInt8)

def recordTypeKeyword : UInt8 := 0x01
def recordTypeSource : UInt8 := 0x02
def recordTypeChannel : UInt8 := 0x03
def recordTypeFeed : UInt8 := 0x04
def recordTypeFeedListing : UInt8 := 0x05

def channelKindIndex : UInt8 := 1
def channelKindPresence : UInt8 := 2
def channelKindModeration : UInt8 := 3
def channelKindHandoff : UInt8 := 4
def channelKindEpoch : UInt8 := 5
def channelKindClaim : UInt8 := 6
def channelKindOwnedRooms : UInt8 := 7
def channelKindSettings : UInt8 := 8

def channelFlagDeparted : UInt8 := 0x02
def feedHeadVersion : UInt8 := 2

def recordHeaderLen : Nat := 1+16+16+32+8+32+8+2
def sourceContactWireLen : Nat := 4+2+2+1+32

def frameOverhead : Nat := 22+32+2+64
def transportOverhead : Nat := 3+8+16
def maxUnfragmentedDatagram : Nat := 1400
def maxUnfragmentedPayload : Nat := maxUnfragmentedDatagram-transportOverhead-frameOverhead
def foundValueHeaderLen : Nat := 16+2+2+2
def maxFoundValueRecordBytes : Nat := maxUnfragmentedPayload-foundValueHeaderLen
def foundValueBlobLenPrefix : Nat := 2
def foundValueBlobSignatureLen : Nat := 64
def maxStoreRecordBytes : Nat :=
  maxFoundValueRecordBytes-foundValueBlobLenPrefix-foundValueBlobSignatureLen
def minStoreRecordBytes : Nat := recordHeaderLen
def minFoundValueRecordBytes : Nat :=
  foundValueBlobLenPrefix+minStoreRecordBytes+foundValueBlobSignatureLen
def maxFoundValueRecords : Nat := 300

def buildData (keywordHash : Key) (fileHash : FileHash) (emberFileHash : Digest)
    (fileSize : Nat) (publisherKey : PublisherKey) (timestamp : Int) (name trailer : Bytes) : Bytes :=
  recordType :: (ofArray keywordHash++ofArray fileHash++ofArray emberFileHash++
    ofNatLittleEndian 8 fileSize++ofArray publisherKey++ofI64 timestamp++
    ofNatLittleEndian 2 name.length++name++trailer)

def isType : Bool := data.head? == some recordType

def channelKindFromData : Option UInt8 :=
  if isType data recordTypeChannel then data[65]? else none

def channelFlagsFromData : Option UInt8 :=
  if isType data recordTypeChannel then data[66]? else none

def departedFlag : Bool :=
  (channelFlagsFromData data).any (fun flags => flags &&& channelFlagDeparted != 0)

def isPresence : Bool := channelKindFromData data == some channelKindPresence

def isPresenceDeparture : Bool := isPresence data && departedFlag data

def isFeedHead : Bool := isType data recordTypeFeed

def isFeedListing : Bool := isType data recordTypeFeedListing

/-- Zero for a body too short to hold one, as the store reads it. -/
def fileHashFromRecordData : FileHash :=
  if data.length < 33 then 0 else array 128 (slice data 17 33)

def emberDigestFromRecordData : Digest :=
  if 65 ≤ data.length then array 256 (slice data 33 65) else 0

def signedIdentityFromRecordData : Option (Key × PublisherKey × Int) :=
  if data.length < 115 then none
  else if data.length < 115+littleEndian (slice data 113 115) then none
  else some (array 128 (slice data 1 17),array 256 (slice data 73 105),i64 (slice data 105 113))

def headSequence (extra : Bytes) : Option Nat :=
  if extra.head?.all (fun version => version < feedHeadVersion) then none
  else (get extra 1 9).map littleEndian

def feedHeadSequenceOf : Option Nat := do
  if isType data recordTypeFeed then
    let off := 115+littleEndian (← get data 113 115)
    let extraLen := littleEndian (← get data (off+1) (off+3))
    headSequence (← get data (off+3) (off+3+extraLen))
  else none

def sourceIpFromRecordData : Option Ipv4Addr :=
  if !isType data recordTypeSource || decide (data.length < recordHeaderLen) then none
  else
    let off := recordHeaderLen+littleEndian (slice data (recordHeaderLen-2) recordHeaderLen)
    if data.length < off+sourceContactWireLen then none
    else some (array 32 (slice data off (off+4)))

def keywordRecordTtl : Int := 24*3600
def sourceRecordTtl : Int := 6*3600
def channelPresenceTtl : Int := 45*60
def channelPresenceDepartedTtl : Int := channelPresenceTtl
def channelIndexTtl : Int := 7*24*3600
def channelHandoffTtl : Int := 30*24*3600
def channelGovernanceTtl : Int := channelHandoffTtl
def feedListingTtl : Int := 7*24*3600

def channelTtl (kind : Option UInt8) (departed : Bool) : Int :=
  if kind = some channelKindPresence then
    if departed then channelPresenceDepartedTtl else channelPresenceTtl
  else if kind = some channelKindIndex then channelIndexTtl
  else if kind = some channelKindHandoff ∨ kind = some channelKindClaim then channelHandoffTtl
  else if kind = some channelKindModeration ∨ kind = some channelKindEpoch ∨
      kind = some channelKindOwnedRooms ∨ kind = some channelKindSettings then channelGovernanceTtl
  else keywordRecordTtl

def recordTtl : Int :=
  if isType data recordTypeSource then sourceRecordTtl
  else if isType data recordTypeChannel then channelTtl (channelKindFromData data) (departedFlag data)
  else if isType data recordTypeFeed then channelGovernanceTtl
  else if isType data recordTypeFeedListing then feedListingTtl
  else keywordRecordTtl

def clockSkewToleranceSecs : Int := 3600

def skewToleranceSecs (ttlSecs : Int) : Int := min clockSkewToleranceSecs (ttlSecs/2)

end Ember.Dht
