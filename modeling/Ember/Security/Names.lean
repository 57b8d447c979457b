import Ember.Library.Utf8

/-! Names from strangers, and what is left of them to name a file: the entries of a recovered ZIP archive, which become
paths below a folder, and the files of peers, which become single components. -/
namespace Ember.Security
open List

abbrev Chars := List Char

/-- `char::to_uppercase`, of which only the ASCII part is looked at. A character is spelt by `char`. -/
structure Uppercase {α : Type} (char : Char → α) where
  map : α → List α
  ascii : ∀ c : Char, c.toNat < 128 → map (char c) = [char c.toUpper]

def deviceNames : List String :=
  ["CON","PRN","AUX","NUL","COM0","COM1","COM2","COM3","COM4","COM5","COM6","COM7","COM8","COM9",
    "LPT0","LPT1","LPT2","LPT3","LPT4","LPT5","LPT6","LPT7","LPT8","LPT9"]

section Devices
variable {α : Type} [DecidableEq α] {char : Char → α} (upper : Uppercase char)

def asDigit (char : Char → α) (c : α) : α :=
  if c = char '¹' then char '1' else if c = char '²' then char '2' else if c = char '³' then char '3' else c

/-- The device check of both sanitisers, each on its own spelling of characters. -/
def isReservedName (name : List α) : Bool :=
  let stem := (name.takeWhile (· ≠ char '.')).flatMap fun c => upper.map (asDigit char c)
  deviceNames.any fun device => stem.rdropWhile (fun c => c = char '.' || c = char ' ') == device.toList.map char

theorem isReservedName_underscore (plain : asDigit char (char '_') = char '_') (dot : char '_' ≠ char '.')
    (foreign : ∀ device ∈ deviceNames, (device.toList.map char).head?.any (· ≠ char '_') = true) (name : List α) :
    isReservedName upper (char '_' :: name) = false := by
  rw [isReservedName,any_eq_false]
  intro device member
  obtain ⟨c,first,other⟩ := (Option.any_eq_true ..).1 (foreign device member)
  obtain ⟨rest,spelt⟩ := head?_eq_some_iff.1 first
  rw [beq_iff_eq,spelt,takeWhile_cons_of_pos (by simpa using dot),flatMap_cons,plain,upper.ascii '_' (by decide),
    show Char.toUpper '_' = '_' from rfl]
  intro same
  have start := List.rdropWhile_prefix (fun c => c = char '.' || c = char ' ')
    ([char '_']++(name.takeWhile (· ≠ char '.')).flatMap fun c => upper.map (asDigit char c))
  obtain ⟨tail,whole⟩ := start
  rw [same,cons_append,cons_append,List.cons.injEq] at whole
  exact of_decide_eq_true other whole.1

end Devices

section Components
variable {α : Type} {p : α → Bool} {sep : α} {parts : List (List α)}

theorem not_mem_of_splitOnP {text seg : List α} (member : seg ∈ text.splitOnP p) : ∀ c ∈ seg, c ∈ text ∧ p c = false := by
  induction text generalizing seg with
  | nil => simp_all
  | cons first rest ih =>
    rw [splitOnP_cons_eq_if_modifyHead] at member
    have known {seg : List α} (later : seg ∈ rest.splitOnP p) c inside : c ∈ first :: rest ∧ p c = false :=
      (ih later c inside).imp (mem_cons_of_mem _) id
    split at member
    · obtain rfl | later := mem_cons.1 member
      · simp
      · exact known later
    next keep =>
    obtain ⟨head,others,shape⟩ := exists_cons_of_ne_nil (splitOnP_ne_nil p rest)
    rw [shape] at member
    obtain rfl | later := mem_cons.1 member
    · exact forall_mem_cons.2 ⟨⟨mem_cons_self,Bool.eq_false_of_not_eq_true keep⟩,known (shape ▸ mem_cons_self)⟩
    · exact known (shape ▸ mem_cons_of_mem _ later)

theorem splitOnP_intercalate (some : parts ≠ []) (apart : p sep = true)
    (free : ∀ part ∈ parts, ∀ c ∈ part, p c = false) : ([sep].intercalate parts).splitOnP p = parts := by
  induction parts with
  | nil => exact absurd rfl some
  | cons first rest ih =>
    have own := free first mem_cons_self
    cases rest with
    | nil => simpa using splitOnP_eq_singleton own
    | cons second others =>
      rw [intercalate_cons_cons,append_assoc,singleton_append,
        splitOnP_append_cons_of_forall_mem own sep apart,ih (cons_ne_nil _ _) fun part member => free part (mem_cons_of_mem _ member)]

theorem mem_intercalate {c : α} (member : c ∈ [sep].intercalate parts) : c = sep ∨ ∃ part ∈ parts, c ∈ part := by
  induction parts with
  | nil => simp at member
  | cons first rest ih =>
    cases rest with
    | nil => exact .inr ⟨first,mem_cons_self,by simpa using member⟩
    | cons second others =>
      rw [intercalate_cons_cons,append_assoc,mem_append,mem_append,mem_singleton] at member
      obtain own | same | later := member
      · exact .inr ⟨first,mem_cons_self,own⟩
      · exact .inl same
      · exact (ih later).imp id fun ⟨part,listed,inside⟩ => ⟨part,mem_cons_of_mem _ listed,inside⟩

end Components

/-! The entries of an archive, a character by its bytes. -/

abbrev spelt (c : Char) : Bytes := String.utf8EncodeChar c

def isControl : Bytes → Bool
  | [b] => b < 0x20 || b == 0x7F
  | [0xC2,b] => b ≤ 0x9F
  | _ => false

def cleaned (seg : List Bytes) : List Bytes := seg.filter fun c => !isControl c && c != spelt ':'

section Entries
variable (upper : Uppercase spelt)

def isWindowsReservedBase (name : Bytes) : Bool := isReservedName upper (Utf8.characters name)

def zipPart (seg : List Bytes) : Option (List Bytes) :=
  if seg = [] ∨ seg = [spelt '.'] ∨ seg = [spelt '.',spelt '.'] then none
  else if cleaned seg = [] then none
  else some (if isWindowsReservedBase upper (cleaned seg).flatten then spelt '_' :: cleaned seg else cleaned seg)

def isSeparator (c : Bytes) : Bool := c = spelt '/' || c = spelt '\\'

def segments (raw : Bytes) : List (List Bytes) := (Utf8.characters raw).splitOnP isSeparator

def sanitizeZipEntryName (raw : Bytes) : Bytes :=
  let joined := ([spelt '/'].intercalate ((segments raw).filterMap (zipPart upper))).flatten
  if joined = [] then spelt '_' else joined

def Plain (c : Bytes) : Prop := Utf8.Standing c ∧ isSeparator c = false ∧ isControl c = false ∧ c ≠ spelt ':'

structure Confined (part : List Bytes) : Prop where
  some : part ≠ []
  here : part ≠ [spelt '.']
  parent : part ≠ [spelt '.',spelt '.']
  plain : ∀ c ∈ part, Plain c
  device : isWindowsReservedBase upper part.flatten = false

variable {upper} {part : List Bytes}

theorem plain_underscore : Plain (spelt '_') :=
  ⟨⟨by decide,by decide⟩,by decide,by decide,by decide⟩

theorem cleaned_eq (plain : ∀ c ∈ part, isControl c = false ∧ c ≠ spelt ':') : cleaned part = part := by
  rw [cleaned,filter_eq_self]
  intro c member
  simp [plain c member]

theorem Confined.zipPart (confined : Confined upper part) : zipPart upper part = .some part := by
  have clean : cleaned part = part := cleaned_eq fun c member => (confined.plain c member).2.2
  rw [Security.zipPart,if_neg (by simp [confined.some,confined.here,confined.parent]),clean,if_neg confined.some,if_neg (by simp [confined.device])]

theorem zipPart_plain {raw : Bytes} {seg : List Bytes} (member : seg ∈ segments raw) (made : zipPart upper seg = some part) :
    ∀ c ∈ part, Plain c := by
  have pure : ∀ c ∈ cleaned seg, Plain c := by
    intro c inside
    obtain ⟨old,keep⟩ := mem_filter.1 inside
    obtain ⟨read,apart⟩ := not_mem_of_splitOnP member c old
    simp only [Bool.and_eq_true,Bool.not_eq_true',bne_iff_ne] at keep
    exact ⟨Utf8.standing_of_mem read,apart,keep⟩
  unfold zipPart at made
  split at made
  · cases made
  split at made
  · cases made
  obtain rfl := Option.some.inj made
  split
  · exact forall_mem_cons.2 ⟨plain_underscore,pure⟩
  · exact pure

/-- A segment that is not itself one dot or two and turns into them when colons and control characters go. -/
def TurnsIntoDots (seg : List Bytes) : Prop :=
  (cleaned seg = [spelt '.'] ∨ cleaned seg = [spelt '.',spelt '.']) ∧ seg ≠ [spelt '.'] ∧ seg ≠ [spelt '.',spelt '.']

theorem zipPart_confined {raw : Bytes} {seg : List Bytes} (member : seg ∈ segments raw) (steady : ¬TurnsIntoDots seg)
    (made : zipPart upper seg = some part) : Confined upper part := by
  have plain := zipPart_plain member made
  unfold zipPart at made
  split at made
  · cases made
  next proper =>
  split at made
  · cases made
  next some =>
  rw [not_or,not_or] at proper
  obtain rfl := Option.some.inj made
  split at plain
  next reserved =>
    rw [if_pos reserved]
    refine ⟨cons_ne_nil _ _,fun same => absurd (List.cons.inj same).1 (by decide),
      fun same => absurd (List.cons.inj same).1 (by decide),plain,?_⟩
    exact isReservedName_underscore upper (by decide) (by decide) (by decide) _
  next free =>
    rw [if_neg free]
    exact ⟨some,fun one => steady ⟨.inl one,proper.2⟩,fun two => steady ⟨.inr two,proper.2⟩,plain,Bool.eq_false_of_not_eq_true free⟩

theorem zipPart_dots {seg : List Bytes} (turns : TurnsIntoDots seg) : zipPart upper seg = some (cleaned seg) := by
  obtain ⟨dots,proper⟩ := turns
  have filled : seg ≠ [] := by
    rintro rfl
    exact absurd dots (by decide)
  rw [zipPart,if_neg (by simp [filled,proper])]
  rcases dots with one | two
  · rw [one]
    rfl
  · rw [two]
    rfl

/-- A joined path is read back as the parts it was joined from. -/
theorem characters_joined {parts : List (List Bytes)} (plain : ∀ part ∈ parts, ∀ c ∈ part, Plain c) :
    Utf8.characters ([spelt '/'].intercalate parts).flatten = [spelt '/'].intercalate parts := by
  apply Utf8.characters_flatten
  intro c member
  obtain rfl | ⟨part,listed,inside⟩ := mem_intercalate member
  · exact ⟨by decide,by decide⟩
  · exact (plain part listed c inside).1

theorem splitOn_joined {parts : List (List Bytes)} (some : parts ≠ []) (plain : ∀ part ∈ parts, ∀ c ∈ part, Plain c) :
    (Utf8.characters ([spelt '/'].intercalate parts).flatten).splitOn (spelt '/') = parts := by
  rw [characters_joined plain]
  refine splitOnP_intercalate some (by decide) fun part listed c inside => ?_
  have apart := (plain part listed c inside).2.1
  rw [isSeparator,Bool.or_eq_false_iff] at apart
  simpa using apart.1

theorem sanitizeZipEntryName_joined {parts : List (List Bytes)} (some : parts ≠ []) (confined : ∀ part ∈ parts, Confined upper part) :
    let name := ([spelt '/'].intercalate parts).flatten
    name ≠ [] ∧ sanitizeZipEntryName upper name = name := by
  have plain : ∀ part ∈ parts, ∀ c ∈ part, Plain c := fun part listed => (confined part listed).plain
  have parted : segments ([spelt '/'].intercalate parts).flatten = parts := by
    rw [segments,characters_joined plain]
    exact splitOnP_intercalate some (by decide) fun part listed c inside => (plain part listed c inside).2.1
  have kept : parts.filterMap (zipPart upper) = parts := by
    simp [filterMap_congr (g := Option.some) fun part listed => (confined part listed).zipPart]
  have full : ([spelt '/'].intercalate parts).flatten ≠ [] := by
    intro empty
    rw [empty] at parted
    obtain rfl : [[]] = parts := parted
    exact (confined [] mem_cons_self).some rfl
  refine ⟨full,?_⟩
  rw [sanitizeZipEntryName,parted,kept,if_neg full]

def ConfinedName (upper : Uppercase spelt) (name : Bytes) : Prop :=
  name ≠ [] ∧ (∀ part ∈ (Utf8.characters name).splitOn (spelt '/'), Confined upper part) ∧ sanitizeZipEntryName upper name = name

theorem confinedName_joined {parts : List (List Bytes)} (some : parts ≠ []) (confined : ∀ part ∈ parts, Confined upper part) :
    ConfinedName upper ([spelt '/'].intercalate parts).flatten := by
  obtain ⟨full,same⟩ := sanitizeZipEntryName_joined some confined
  have read := splitOn_joined some fun part listed => (confined part listed).plain
  exact ⟨full,fun part member => confined part (read ▸ member),same⟩

theorem confinedName_underscore : ConfinedName upper (spelt '_') := by
  have confined : ∀ part ∈ [[spelt '_']], Confined upper part := by
    intro part member
    obtain rfl := mem_singleton.1 member
    refine ⟨by decide,by decide,by decide,fun c inside => mem_singleton.1 inside ▸ plain_underscore,?_⟩
    exact isReservedName_underscore upper (by decide) (by decide) (by decide) []
  exact confinedName_joined (by decide) confined

/-- The sanitised name is a path of confined components, which sanitising again does not change, exactly when no segment
turns into one dot or two. -/
theorem entry_names_confined (upper : Uppercase spelt) (raw : Bytes) :
    ConfinedName upper (sanitizeZipEntryName upper raw) ↔ ∀ seg ∈ segments raw, ¬TurnsIntoDots seg := by
  have plain : ∀ part ∈ (segments raw).filterMap (zipPart upper), ∀ c ∈ part, Plain c := by
    intro part member
    obtain ⟨seg,listed,made⟩ := mem_filterMap.1 member
    exact zipPart_plain listed made
  constructor
  · intro confined seg listed turns
    have kept : cleaned seg ∈ (segments raw).filterMap (zipPart upper) := mem_filterMap.2 ⟨seg,listed,zipPart_dots turns⟩
    have read := splitOn_joined (ne_nil_of_mem kept) plain
    have full : ([spelt '/'].intercalate ((segments raw).filterMap (zipPart upper))).flatten ≠ [] := by
      intro empty
      rw [empty] at read
      rw [← read] at kept
      have blank : cleaned seg = [] := mem_singleton.1 kept
      have dots := turns.1
      rw [blank] at dots
      exact absurd dots (by decide)
    rw [sanitizeZipEntryName,if_neg full] at confined
    have own := confined.2.1 (cleaned seg) (by rwa [read])
    exact turns.1.elim own.here own.parent
  · intro steady
    have confined : ∀ part ∈ (segments raw).filterMap (zipPart upper), Confined upper part := by
      intro part member
      obtain ⟨seg,listed,made⟩ := mem_filterMap.1 member
      exact zipPart_confined listed (steady seg listed) made
    rw [sanitizeZipEntryName]
    generalize (segments raw).filterMap (zipPart upper) = parts at confined
    split
    · exact confinedName_underscore
    next some => exact confinedName_joined (fun none => some (by rw [none]; rfl)) confined

end Entries

def plainUpper : Uppercase spelt where
  map c := [c.map fun b => if 0x61 ≤ b && b ≤ 0x7A then b-0x20 else b]
  ascii := by
    have table : ∀ n : Fin 128, [(spelt (Char.ofNat n)).map fun b => if 0x61 ≤ b && b ≤ 0x7A then b-0x20 else b] =
      [spelt (Char.ofNat n).toUpper] := by decide +kernel
    intro c small
    have known := table ⟨c.toNat,small⟩
    rwa [Char.ofNat_toNat] at known

/-- The colon of `.:./x` goes only after the dots were found harmless. -/
theorem entry_name_escapes : sanitizeZipEntryName plainUpper [0x2E,0x3A,0x2E,0x2F,0x78] = [0x2E,0x2E,0x2F,0x78] ∧
      [spelt '.',spelt '.'] ∈ (Utf8.characters (sanitizeZipEntryName plainUpper [0x2E,0x3A,0x2E,0x2F,0x78])).splitOn (spelt '/') := by
  decide +kernel

end Ember.Security
