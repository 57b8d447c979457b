import Ember.Security.Names

/-! File names of peers, as text: one component is taken, its unsafe characters replaced, and the rest cut to 255 bytes,
trimmed and kept from naming a device. -/
namespace Ember.Security
open List

/-- Windows and shell metacharacters, control characters, and what is invisible or turns the text round. -/
def isUnsafe (c : Char) : Bool :=
  let n := c.toNat
  "/\\:*?\"<>|".toList.contains c || n < 0x20 || 0x7F ≤ n && n ≤ 0x9F || n == 0x061C || n == 0x180E || 0x200B ≤ n && n ≤ 0x200F ||
    0x2028 ≤ n && n ≤ 0x202E || 0x2060 ≤ n && n ≤ 0x2064 || 0x2066 ≤ n && n ≤ 0x2069 || n == 0xFEFF || 0xFE00 ≤ n && n ≤ 0xFE0F ||
    0xE0100 ≤ n && n ≤ 0xE01EF

def byteLength (name : Chars) : Nat := (name.map Char.utf8Size).sum

def takeBytes : Nat → Chars → Chars
  | _, [] => []
  | limit, c :: rest => if c.utf8Size ≤ limit then c :: takeBytes (limit-c.utf8Size) rest else []

def unnamedFile : Chars := "unnamed_file".toList

def lastComponent (path : Chars) : Chars :=
  (((path.splitOn '/').filter fun c => c != [] && c != ['.'] && c != ['.','.']).getLast?).getD unnamedFile

def trimmed (safe : Chars) : Chars := (takeBytes 255 safe).rdropWhile fun c => c = '.' || c = ' '

def component (name : Chars) : Chars := lastComponent ((name.filter (· != '\x00')).map fun c => if c = '\\' then '/' else c)

def safeChar (c : Char) : Char := if isUnsafe c then '_' else c

def replaced (name : Chars) : Chars := (component name).map safeChar

variable (upper : Uppercase (id : Char → Char))

def isReservedWindowsDeviceName (name : Chars) : Bool := isReservedName upper name

structure SafeName (name : Chars) : Prop where
  nonempty : name ≠ []
  short : byteLength name ≤ 255
  plain : ∀ c ∈ name, isUnsafe c = false
  here : name ≠ ['.']
  parent : name ≠ ['.','.']
  ending : ∀ c ∈ name.getLast?, c ≠ '.' ∧ c ≠ ' '
  device : isReservedWindowsDeviceName upper name = false

variable {upper} {name : Chars}

theorem byteLength_takeBytes (limit : Nat) (name : Chars) : byteLength (takeBytes limit name) ≤ limit ∧ takeBytes limit name <+: name := by
  induction name generalizing limit with
  | nil => exact ⟨Nat.zero_le _,List.prefix_rfl⟩
  | cons c rest ih =>
    rw [takeBytes]
    split
    next fits =>
      obtain ⟨short,start⟩ := ih (limit-c.utf8Size)
      refine ⟨?_,(List.prefix_cons_inj c).2 start⟩
      rw [byteLength,map_cons,sum_cons,← byteLength]
      omega
    next => exact ⟨Nat.zero_le _, List.nil_prefix⟩

theorem forall_chars {p : Char → Prop} [DecidablePred p] {cs : Chars} (all : (cs.all fun c => p c) = true) : ∀ c ∈ cs, p c := by
  simpa using all

theorem isReservedName_unnamedFile : isReservedWindowsDeviceName upper unnamedFile = false := by
  have ascii : ∀ c ∈ unnamedFile, asDigit id c = c ∧ c.toNat < 128 := forall_chars (by decide)
  have stem : (unnamedFile.takeWhile (· ≠ id '.')).flatMap (fun c => upper.map (asDigit id c)) = unnamedFile.map Char.toUpper := by
    rw [← flatMap_singleton' (unnamedFile.map Char.toUpper),flatMap_map]
    refine flatMap_congr fun c member => ?_
    rw [(ascii c member).1]
    exact upper.ascii c (ascii c member).2
  rw [isReservedWindowsDeviceName,isReservedName,stem]
  decide

theorem SafeName.unnamedFile : SafeName upper unnamedFile :=
  ⟨by decide,by decide,forall_chars (by decide),by decide,by decide,
    fun c last => by obtain rfl : 'e' = c := Option.some.inj last; decide,isReservedName_unnamedFile⟩

end Ember.Security
