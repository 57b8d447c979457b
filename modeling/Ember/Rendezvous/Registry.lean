import Ember.Library.Index
import Ember.Search.Terms

/-! The rendezvous server's registry of Channel usernames and room names, and its requests. -/
namespace Ember.Rendezvous
open Prod
open Ember.Search (Chars utf8Len trim)

def usernameMax : Nat := 12
def channelNameMax : Nat := 64
def usernameMin : Nat := 2
def channelDirectoryStaleSecs : Int := 7*24*60*60
def nameReleaseSecs : Int := 365*24*60*60
def nomineeGraceSecs : Int := 30*24*60*60
def retiredNameHoldSecs : Int := 30*24*60*60
def renameIntervalSecs : Int := 24*60*60
def maxRetiredNames : Nat := 3
def usernameIdleSecs : Int := 365*24*60*60
def claimAfterDaysMin : Nat := 7
def claimAfterDaysMax : Nat := 365
def maxUsernames : Nat := 100000
def maxChannelNames : Nat := 100000
def maxDeleted : Nat := 100000
def maxDirectoryListings : Nat := 5000

/-- What the registry takes from Unicode tables and from a key's hash. -/
structure Env where
  lowercase : Chars → Chars
  skeleton : Chars → Chars
  channelIdOfKey : Chars → Option Chars

section Text
variable (c : Char) (env : Env) (raw : Chars)

def toAsciiLowercase (s : Chars) : Chars := s.map Char.toLower

def eqIgnoreAsciiCase (a b : Chars) : Bool := toAsciiLowercase a == toAsciiLowercase b

def isHexDigit : Bool := c.isDigit || 'a' ≤ c && c ≤ 'f' || 'A' ≤ c && c ≤ 'F'

def isHexOf (bytes : Nat) (s : Chars) : Bool := utf8Len s == 2*bytes && s.all isHexDigit

def isControl : Bool := c.toNat < 0x20 || 0x7F ≤ c.toNat && c.toNat ≤ 0x9F

def isBidiOrZeroWidth : Bool :=
  [0x200B,0x200C,0x200D,0x200E,0x200F,0x202A,0x202B,0x202C,0x202D,0x202E,0x2066,0x2067,0x2068,0x2069,0xFEFF,0x061C,
    0x2028,0x2029].contains c.toNat

def stripInvisible : Chars := trim (raw.filter fun c => !isControl c && !isBidiOrZeroWidth c)

def anonymous : Chars := "anonymous".toList

def normalizeUsername : Option Chars :=
  let cleaned := stripInvisible raw
  if utf8Len cleaned < usernameMin || usernameMax < utf8Len cleaned then none
  else if !cleaned.all Char.isAlphanum then none
  else if eqIgnoreAsciiCase cleaned anonymous then none
  else some (env.lowercase cleaned)

def normalizeChannelName : Option Chars :=
  let cleaned := stripInvisible raw
  if cleaned.isEmpty || channelNameMax < utf8Len cleaned then none
  else if eqIgnoreAsciiCase cleaned anonymous then none
  else some (env.lowercase cleaned)

def confusableKey (name : Chars) : Chars := env.skeleton (env.lowercase name)

end Text

structure ChannelNameRecord where
  channelId : Chars
  pubkey : Chars
  isPrivate : Bool
  deleted : Bool := false
  display : Chars
  refreshedAt : Int
  nominee : Chars := []
  claimAfterDays : Nat := 0
  createdAt : Int
  handedOverFrom : Chars := []
  retiredAt : Int := 0
  renamedAt : Int := 0
  inheritor : Chars := []
  deriving DecidableEq

namespace ChannelNameRecord
variable (self : ChannelNameRecord)

def hasNominee : Bool := 0 < self.claimAfterDays && !self.nominee.isEmpty

def isCurrent : Bool := !self.deleted && self.retiredAt == 0

def releaseAfterSecs : Int :=
  if !self.hasNominee then nameReleaseSecs else max nameReleaseSecs (self.claimAfterDays*86400+nomineeGraceSecs)

def abandoned (now : Int) : Bool :=
  if self.deleted then false
  else if 0 < self.retiredAt then retiredNameHoldSecs < now-self.retiredAt
  else self.releaseAfterSecs < now-(if 0 < self.refreshedAt then self.refreshedAt else now)

end ChannelNameRecord

inductive RegistryError where
  | invalidName | taken | forbidden | full | readOnly | renameTooSoon
  deriving DecidableEq

structure RegistryFile where
  usernames : Table Chars Chars := ∅
  names : Table Chars ChannelNameRecord := ∅
  deleted : Finset Chars := ∅
  usernameActivity : Table Chars Int := ∅

structure ChannelRegistry where
  usernames : Table Chars Chars := ∅
  byPubkey : Table Chars Chars := ∅
  names : Table Chars ChannelNameRecord := ∅
  deleted : Finset Chars := ∅
  usernameActivity : Table Chars Int := ∅
  byChannel : Table Chars (List Chars) := ∅
  bySkeleton : Table Chars (List Chars) := ∅
  readOnly : Bool := false
  closed : Bool := false

abbrev Answer := Except RegistryError Unit

namespace ChannelRegistry
variable (env : Env) (self : ChannelRegistry) (now : Int) (normalized id : Chars) (name : Chars) (rec : ChannelNameRecord)
  (channelId : Chars)

def insertName : ChannelRegistry :=
  { self with
    byChannel := Index.post self.byChannel (toAsciiLowercase rec.channelId) name
    bySkeleton := Index.post self.bySkeleton (confusableKey env name) name
    names := self.names.insert name rec }

def removeName : ChannelRegistry :=
  match self.names.lookup name with
  | none => self
  | some rec =>
    { self with
      names := self.names.erase name
      byChannel := Index.detach self.byChannel (toAsciiLowercase rec.channelId) name
      bySkeleton := Index.detach self.bySkeleton (confusableKey env name) name }

def setName : ChannelRegistry :=
  { self with names := self.names.insert name rec }

def fromParts (parsed : RegistryFile) (readOnly : Bool) : ChannelRegistry :=
  parsed.names.bindings.foldl (fun reg binding => reg.insertName env binding.1 binding.2)
    { usernames := parsed.usernames
      byPubkey := parsed.usernames.bindings.foldl (fun byPubkey binding => byPubkey.insert (toAsciiLowercase binding.2) binding.1) ∅
      deleted := parsed.deleted
      usernameActivity := parsed.usernameActivity
      readOnly }

def inMemory : ChannelRegistry := fromParts env {} false

def namesOfChannel : List Chars := Index.listed self.byChannel channelId

def liveNameOfChannel : Option Chars :=
  (self.namesOfChannel channelId).find? fun name => (self.names.lookup name).any (·.isCurrent)

def reapAbandonedNames (candidates : List Chars) (now : Int) : ChannelRegistry :=
  candidates.foldl (fun reg name => if (reg.names.lookup name).any (·.abandoned now) then reg.removeName env name else reg) self

def usernameIdle (pubkey : Chars) (now : Int) : Bool :=
  usernameIdleSecs < now-(self.usernameActivity.lookup pubkey).getD now

def releaseUsername : ChannelRegistry :=
  match self.usernames.lookup name with
  | none => self
  | some pk =>
    { self with
      usernames := self.usernames.erase name
      byPubkey := self.byPubkey.erase pk
      usernameActivity := self.usernameActivity.erase pk }

def writable : Bool := !(self.readOnly || self.closed)

def grandfatherLegacyTimestamps : ChannelRegistry :=
  { self with
    names := self.names.retain fun rec =>
      some (if rec.deleted || 0 < rec.refreshedAt then rec else { rec with refreshedAt := now })
    usernameActivity := self.usernames.values.foldl
      (fun activity pk => if (activity.lookup pk).isSome then activity else activity.insert pk now) self.usernameActivity }

def reapStale : ChannelRegistry :=
  if !self.writable then self
  else
    let reg := self.grandfatherLegacyTimestamps now
    let idle := (reg.usernames.bindings.filter fun binding => reg.usernameIdle binding.2 now).map fst
    let reg := idle.foldl releaseUsername reg
    let abandoned := (reg.names.bindings.filter fun binding => binding.2.abandoned now).map fst
    reg.reapAbandonedNames env abandoned now

def dropHandle (pk : Chars) : ChannelRegistry :=
  match self.byPubkey.lookup pk with
  | none => self
  | some old => { self with byPubkey := self.byPubkey.erase pk, usernames := self.usernames.erase old }

def claimUsernameAt (pubkeyHex name : Chars) (now : Int) : ChannelRegistry × Answer :=
  if !self.writable then (self,.error .readOnly)
  else
    match normalizeUsername env name with
    | none => (self,.error .invalidName)
    | some normalized =>
      let pk := toAsciiLowercase pubkeyHex
      if !isHexOf 32 pk then (self,.error .invalidName)
      else
        let reg :=
          if (self.usernames.lookup normalized).any (self.usernameIdle · now) then self.releaseUsername normalized else self
        match reg.usernames.lookup normalized with
        | some owner =>
          if eqIgnoreAsciiCase owner pk then ({ reg with usernameActivity := reg.usernameActivity.insert pk now },.ok ())
          else (reg,.error .taken)
        | none =>
          let reg := reg.dropHandle pk
          let reg := if maxUsernames ≤ reg.usernames.size then reg.reapStale env now else reg
          if maxUsernames ≤ reg.usernames.size then (reg,.error .full)
          else
            ({ reg with
                usernames := reg.usernames.insert normalized pk
                byPubkey := reg.byPubkey.insert pk normalized
                usernameActivity := reg.usernameActivity.insert pk now },
              .ok ())

/-- The records a claim looks at: the name itself, the room's own names and every lookalike. -/
def candidates : List Chars :=
  normalized :: self.namesOfChannel id++Index.listed self.bySkeleton (confusableKey env normalized)

/-- Whether a name not on record looks like one another room has there. -/
def imitates : Bool :=
  (self.names.lookup normalized).isNone &&
    (Index.listed self.bySkeleton (confusableKey env normalized)).any fun existing =>
      (self.names.lookup existing).any fun rec => !eqIgnoreAsciiCase rec.channelId id

def isOf (id pk : Chars) : Bool :=
  eqIgnoreAsciiCase rec.channelId id && eqIgnoreAsciiCase rec.pubkey pk

def claimReaped (id pk normalized display : Chars) (isPrivate : Bool) (now : Int) :
    ChannelRegistry × Answer :=
  match (self.liveNameOfChannel id).filter (· ≠ normalized) with
  | some existing =>
    -- a claim for another name is refused, but the room's own key shows it alive
    match (self.names.lookup existing).filter fun rec => eqIgnoreAsciiCase rec.pubkey pk with
    | some rec => (self.setName existing { rec with refreshedAt := now },.error .taken)
    | none => (self,.error .taken)
  | none =>
    if self.imitates env normalized id then (self,.error .taken)
    else
      match self.names.lookup normalized with
      | some existing =>
        if existing.deleted || existing.retiredAt != 0 || !isOf existing id pk then (self,.error .taken)
        else (self.setName normalized { existing with isPrivate, display, refreshedAt := now },.ok ())
      | none =>
        let reg := if maxChannelNames ≤ self.names.size then self.reapStale env now else self
        if maxChannelNames ≤ reg.names.size then (reg,.error .full)
        else
          (reg.insertName env normalized
            { channelId := id, pubkey := pk, isPrivate, display, refreshedAt := now, createdAt := now },.ok ())

def claimChannelNameAt (channelId pubkeyHex name : Chars) (isPrivate : Bool) (now : Int) :
    ChannelRegistry × Answer :=
  if !self.writable then (self,.error .readOnly)
  else
    match normalizeChannelName env name with
    | none => (self,.error .invalidName)
    | some normalized =>
      let id := toAsciiLowercase channelId
      let pk := toAsciiLowercase pubkeyHex
      if !isHexOf 16 id || !isHexOf 32 pk then (self,.error .invalidName)
      else if id ∈ self.deleted then (self,.error .taken)
      else
        (self.reapAbandonedNames env (self.candidates env normalized id) now).claimReaped env id pk normalized
          (stripInvisible name) isPrivate now

def applyRename (source target display : Chars) (isPrivate : Bool) (now : Int) : ChannelRegistry :=
  match self.names.lookup source with
  | none => self
  | some old =>
    let reg := self.setName source { old with retiredAt := now }
    let renamed : ChannelNameRecord :=
      { old with isPrivate, deleted := false, display, refreshedAt := now, retiredAt := 0, renamedAt := now }
    if (reg.names.lookup target).isSome then reg.setName target renamed else reg.insertName env target renamed

def surplusRetiredNames : List Chars :=
  let retired := (self.namesOfChannel channelId).filterMap fun name =>
    (self.names.lookup name).bind fun rec => if !rec.deleted && 0 < rec.retiredAt then some (rec.retiredAt,name) else none
  let sorted := retired.mergeSort fun a b => a.1 < b.1 || a.1 == b.1 && a.2 ≤ b.2
  (sorted.take (retired.length-maxRetiredNames)).map snd

def releaseSurplusRetiredNames : ChannelRegistry :=
  (self.surplusRetiredNames channelId).foldl (removeName env) self

/-- A rename from the name `source`, once what it depends on is reaped; no answer yet when it went through. -/
def renameReaped (id pk source normalized display : Chars) (isPrivate : Bool) (now : Int) :
    ChannelRegistry × Option Answer :=
  match self.names.lookup source with
  | none => (self,some (.error .invalidName))
  | some current =>
    if !eqIgnoreAsciiCase current.pubkey pk then (self,some (.error .forbidden))
    else if 0 < current.renamedAt && now-current.renamedAt < renameIntervalSecs then (self,some (.error .renameTooSoon))
    else if self.imitates env normalized id then (self,some (.error .taken))
    else
      match self.names.lookup normalized with
      | some existing =>
        -- the room may take back one of its own retired names; a lookalike another room has by then is not asked for
        if existing.deleted || existing.retiredAt == 0 || !isOf existing id pk then (self,some (.error .taken))
        else (self.applyRename env source normalized display isPrivate now,none)
      | none =>
        let reg := if maxChannelNames ≤ self.names.size then self.reapStale env now else self
        if maxChannelNames ≤ reg.names.size then (reg,some (.error .full))
        else (reg.applyRename env source normalized display isPrivate now,none)

def moveName (channelId pubkeyHex name : Chars) (isPrivate : Bool) (now : Int) :
    ChannelRegistry × Option Answer :=
  if !self.writable then (self,some (.error .readOnly))
  else
    match normalizeChannelName env name with
    | none => (self,some (.error .invalidName))
    | some normalized =>
      let id := toAsciiLowercase channelId
      let pk := toAsciiLowercase pubkeyHex
      if !isHexOf 16 id || !isHexOf 32 pk then (self,some (.error .invalidName))
      else if id ∈ self.deleted then (self,some (.error .taken))
      else
        let reg := self.reapAbandonedNames env (self.candidates env normalized id) now
        match (reg.liveNameOfChannel id).filter (· ≠ normalized) with
        | some source => reg.renameReaped env id pk source normalized (stripInvisible name) isPrivate now
        | none =>
          let claimed := reg.claimChannelNameAt env channelId pubkeyHex name isPrivate now
          (claimed.1,some claimed.2)

def renameChannelNameAt (channelId pubkeyHex name : Chars) (isPrivate : Bool) (now : Int) :
    ChannelRegistry × Answer :=
  match self.moveName env channelId pubkeyHex name isPrivate now with
  | (reg,some answer) => (reg,answer)
  | (reg,none) => (reg.releaseSurplusRetiredNames env (toAsciiLowercase channelId),.ok ())

def setChannelNominee (channelId pubkeyHex nomineeHex : Chars) (claimAfterDays : Nat) :
    ChannelRegistry × Answer :=
  if !self.writable then (self,.error .readOnly)
  else
    let id := toAsciiLowercase channelId
    let nominee := toAsciiLowercase nomineeHex
    let clearing := nominee.isEmpty || claimAfterDays == 0
    if !clearing && (!isHexOf 32 nominee || !(claimAfterDaysMin ≤ claimAfterDays && claimAfterDays ≤ claimAfterDaysMax)) then
      (self,.error .invalidName)
    else
      match self.liveNameOfChannel id with
      | none => (self,.error .invalidName)
      | some name =>
        match self.names.lookup name with
        | none => (self,.error .invalidName)
        | some rec =>
          if !eqIgnoreAsciiCase rec.pubkey (toAsciiLowercase pubkeyHex) then (self,.error .forbidden)
          else
            (self.setName name { rec with
              nominee := if clearing then [] else nominee
              claimAfterDays := if clearing then 0 else claimAfterDays },.ok ())

/-- Whether the nominee on record may move the name by now. -/
def byNominee (signer : Chars) (now : Int) : Bool :=
  rec.hasNominee && eqIgnoreAsciiCase rec.nominee signer && rec.claimAfterDays*86400 ≤ now-rec.refreshedAt

/-- The successor room already holds a name: a repeat of the handover that gave it is a sign of life. -/
def repeatHandover (oldId newId newPk signer held : Chars) (now : Int) : ChannelRegistry × Answer :=
  match self.names.lookup held with
  | none => (self,.error .taken)
  | some rec =>
    if !(eqIgnoreAsciiCase rec.pubkey newPk && eqIgnoreAsciiCase rec.handedOverFrom oldId) then (self,.error .taken)
    else if env.channelIdOfKey signer == some newId || !rec.inheritor.isEmpty && rec.inheritor == signer then
      (self.setName held { rec with refreshedAt := now },.ok ())
    else (self,.ok ())

def handOver (newId newPk signer : Chars) (now : Int) : ChannelRegistry :=
  let previousId := toAsciiLowercase rec.channelId
  { self with
    names := self.names.insert name { rec with
      inheritor := if byNominee rec signer now then signer else []
      channelId := newId
      pubkey := newPk
      refreshedAt := now
      handedOverFrom := previousId
      nominee := []
      claimAfterDays := 0 }
    byChannel := Index.post (Index.detach self.byChannel previousId name) newId name }

def handoverChannelName (oldChannelId newChannelId newPubkeyHex signerHex : Chars) (now : Int) :
    ChannelRegistry × Answer :=
  if !self.writable then (self,.error .readOnly)
  else
    let oldId := toAsciiLowercase oldChannelId
    let newId := toAsciiLowercase newChannelId
    let newPk := toAsciiLowercase newPubkeyHex
    let signer := toAsciiLowercase signerHex
    if !isHexOf 16 newId || !isHexOf 32 newPk then (self,.error .invalidName)
    else if newId == oldId then (self,.error .invalidName)
    else if oldId ∈ self.deleted ∨ newId ∈ self.deleted then (self,.error .taken)
    else
      match self.liveNameOfChannel newId with
      | some held => self.repeatHandover env oldId newId newPk signer held now
      | none =>
        match self.liveNameOfChannel oldId with
        | none => (self,.error .invalidName)
        | some name =>
          match self.names.lookup name with
          | none => (self,.error .invalidName)
          | some rec =>
            if !eqIgnoreAsciiCase rec.pubkey signer && !byNominee rec signer now then (self,.error .forbidden)
            else (self.handOver name rec newId newPk signer now,.ok ())

def markDeleted : ChannelRegistry :=
  match self.names.lookup name with
  | none => self
  | some rec => self.setName name { rec with deleted := true }

def deleteChannel (channelId pubkeyHex : Chars) : ChannelRegistry × Answer :=
  if !self.writable then (self,.error .readOnly)
  else
    let id := toAsciiLowercase channelId
    let pk := toAsciiLowercase pubkeyHex
    let held := self.namesOfChannel id
    if held.any fun name => (self.names.lookup name).any fun rec => !eqIgnoreAsciiCase rec.pubkey pk then
      (self,.error .forbidden)
    else
      let found := held.any fun name => (self.names.lookup name).isSome
      let reg := held.foldl markDeleted self
      if !found && decide (id ∈ reg.deleted) then (reg,.ok ())
      else if !found && decide (maxDeleted ≤ reg.deleted.card) then (reg,.error .full)
      else ({ reg with deleted := insert id reg.deleted },.ok ())

def isDeleted : Bool :=
  let id := toAsciiLowercase channelId
  decide (id ∈ self.deleted) || (self.namesOfChannel id).any fun name => (self.names.lookup name).any (·.deleted)

def closeForShutdown : ChannelRegistry := { self with closed := true }

end ChannelRegistry

structure DirectoryCursor where
  createdAt : Int
  channelId : Chars

structure DirectoryListing where
  channelId : Chars
  pubkey : Chars
  name : Chars

def DirectoryCursor.le (a b : DirectoryCursor) : Bool :=
  a.createdAt < b.createdAt || a.createdAt == b.createdAt && decide (a.channelId ≤ b.channelId)

namespace ChannelRegistry

def rankedDirectory (self : ChannelRegistry) (now : Int) : List (DirectoryCursor × DirectoryListing) :=
  let out := (self.names.bindings.filter fun (_,rec) =>
      !rec.isPrivate && rec.isCurrent && decide (rec.channelId ∉ self.deleted) &&
        decide (now-rec.refreshedAt ≤ channelDirectoryStaleSecs)).map fun (name,rec) =>
    (({ createdAt := max rec.createdAt 0, channelId := toAsciiLowercase rec.channelId } : DirectoryCursor),
      ({ channelId := rec.channelId, pubkey := rec.pubkey, name := if rec.display.isEmpty then name else rec.display } :
        DirectoryListing))
  (out.mergeSort fun a b => a.1.le b.1).take maxDirectoryListings

end ChannelRegistry

inductive Request where
  | claimUsername (pubkey name : Chars)
  | claimChannelName (channelId pubkey name : Chars) (isPrivate : Bool)
  | renameChannelName (channelId pubkey name : Chars) (isPrivate : Bool)
  | setChannelNominee (channelId pubkey nominee : Chars) (claimAfterDays : Nat)
  | handoverChannelName (oldChannelId newChannelId newPubkey signer : Chars)
  | deleteChannel (channelId pubkey : Chars)
  | reapStale
  | closeForShutdown

namespace ChannelRegistry
variable (env : Env) (self : ChannelRegistry) (now : Int)

def serve : Request → ChannelRegistry × Answer
  | .claimUsername pubkey name => self.claimUsernameAt env pubkey name now
  | .claimChannelName channelId pubkey name isPrivate => self.claimChannelNameAt env channelId pubkey name isPrivate now
  | .renameChannelName channelId pubkey name isPrivate => self.renameChannelNameAt env channelId pubkey name isPrivate now
  | .setChannelNominee channelId pubkey nominee days => self.setChannelNominee channelId pubkey nominee days
  | .handoverChannelName oldId newId newPubkey signer => self.handoverChannelName env oldId newId newPubkey signer now
  | .deleteChannel channelId pubkey => self.deleteChannel channelId pubkey
  | .reapStale => (self.reapStale env now,.ok ())
  | .closeForShutdown => (self.closeForShutdown,.ok ())

/-- The names a request frees for being too many of its room's. -/
def surplusReleased : Request → List Chars
  | .renameChannelName channelId pubkey name isPrivate =>
    match self.moveName env channelId pubkey name isPrivate now with
    | (_,some _) => []
    | (reg,none) => reg.surplusRetiredNames (toAsciiLowercase channelId)
  | _ => []

end ChannelRegistry

end Ember.Rendezvous
