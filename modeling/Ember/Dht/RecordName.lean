import Ember.Dht.Record
import Ember.Security.Filenames

/-! A file name too long for its record is shortened before its extension, at the end of a word. -/
namespace Ember.Dht
open List Ember.Security

structure CharClasses where
  isAlphanumeric : Char → Bool
  isWhitespace : Char → Bool
  dot : isAlphanumeric '.' = false

def maxEncodedNameBytes (contactBytes : Nat) : Nat := maxStoreRecordBytes-recordHeaderLen-contactBytes
def maxKeptExtensionBytes : Nat := 16
def wordBackoffBytes : Nat := 64

/-- The longest block a record builder appends: a moderation snapshot with its lists full and three pins. -/
def largestTrailerBytes : Nat := (1+2)+(2+256)+(2+12*32)+(2+6*32)+(32+8+32+2+1+2+1+64+1+1)+3*16

def recordNameMayBeClamped (dataLen : Nat) : Bool := maxStoreRecordBytes ≤ dataLen+3+wordBackoffBytes

variable (cls : CharClasses) (name : Chars) (contactBytes : Nat)

def keptExtension : Chars :=
  let tail := name.rtakeWhile (· != '.')
  let ext := '.' :: tail
  if '.' ∈ name ∧ 1 < byteLength ext ∧ byteLength ext ≤ maxKeptExtensionBytes ∧ tail.all cls.isAlphanumeric then ext else []

/-- A cut inside a word goes back to the end of the word before, if that is near. -/
def backToWord (cut rest : Chars) : Chars :=
  let boundary := (cut.rdropWhile cls.isAlphanumeric).dropLast
  if rest.head?.any cls.isAlphanumeric ∧ boundary ≠ [] ∧ byteLength cut-byteLength boundary ≤ wordBackoffBytes then boundary else cut

def cutName : Chars :=
  let ext := byteLength (keptExtension cls name)
  takeBytes (min (maxEncodedNameBytes contactBytes-ext) (byteLength name-ext)) name

def keptStem : Chars :=
  let cut := cutName cls name contactBytes
  backToWord cls cut (name.drop cut.length)

def clampNameToRecordBudget : Chars :=
  if byteLength name ≤ maxEncodedNameBytes contactBytes then name
  else (keptStem cls name contactBytes).rdropWhile cls.isWhitespace++keptExtension cls name

theorem byteLength_append {a b : Chars} : byteLength (a++b) = byteLength a+byteLength b := by
  rw [byteLength,map_append,sum_append]
  rfl

theorem byteLength_le_of_start {a b : Chars} (start : a <+: b) : byteLength a ≤ byteLength b := by
  obtain ⟨rest,rfl⟩ := start
  rw [byteLength_append]
  exact Nat.le_add_right ..

theorem byteLength_cons {c : Char} {rest : Chars} : byteLength (c :: rest) = c.utf8Size+byteLength rest := sum_cons

theorem takeBytes_next (limit : Nat) (name : Chars) :
    ∀ c ∈ (name.drop (takeBytes limit name).length).head?, limit < byteLength (takeBytes limit name)+c.utf8Size := by
  induction name generalizing limit with
  | nil => simp
  | cons first rest ih =>
    rw [takeBytes]
    split
    next fits =>
      intro c next
      have later := ih (limit-first.utf8Size) c next
      rw [byteLength_cons]
      omega
    next large =>
      intro c next
      cases next
      exact Nat.lt_add_left _ (Nat.not_le.1 large)

theorem takeBytes_longest {limit : Nat} {p rest : Chars} (fits : byteLength p ≤ limit)
    (next : ∀ c ∈ rest.head?, limit < byteLength p+c.utf8Size) : takeBytes limit (p++rest) = p := by
  induction p generalizing limit with
  | nil =>
    cases rest with
    | nil => rfl
    | cons c rest =>
      have large := next c rfl
      rw [nil_append,takeBytes,if_neg (by rw [byteLength] at large; simpa using large)]
  | cons first p ih =>
    rw [byteLength_cons] at fits
    rw [cons_append,takeBytes,if_pos (by omega),ih (by omega)]
    intro c member
    have large := next c member
    rw [byteLength_cons] at large
    omega

/-- The end of a beginning of the name that the clamp takes off to get back to a word. -/
def BrokenWord (tail rest : Chars) : Prop :=
  ∃ before word, tail = before :: word ∧ cls.isAlphanumeric before = false ∧ (∀ c ∈ word, cls.isAlphanumeric c = true) ∧
    rest.head?.any cls.isAlphanumeric = true ∧ byteLength tail ≤ wordBackoffBytes

theorem backToWord_broken {stem tail rest : Chars} (broken : BrokenWord cls tail rest) (some : stem ≠ []) :
    backToWord cls (stem++tail) rest = stem := by
  obtain ⟨before,word,rfl,apart,plain,next,near⟩ := broken
  have boundary : ((stem++before :: word).rdropWhile cls.isAlphanumeric).dropLast = stem := by
    have reversed : ∀ c ∈ word.reverse, cls.isAlphanumeric c = true := fun c member => plain c (mem_reverse.1 member)
    rw [rdropWhile,reverse_append,reverse_cons,append_assoc,dropWhile_append_of_pos reversed,singleton_append,
      dropWhile_cons_of_neg (by simp [apart])]
    simp
  rw [backToWord,boundary,if_pos ⟨next,some,by rw [byteLength_append]; omega⟩]

theorem backToWord_cases (cut rest : Chars) : ∃ tail, cut = backToWord cls cut rest++tail ∧ (tail = [] ∨ BrokenWord cls tail rest) := by
  unfold backToWord
  dsimp only
  split
  next near =>
    obtain ⟨next,some,close⟩ := near
    have parts : cut = cut.rdropWhile cls.isAlphanumeric++cut.rtakeWhile cls.isAlphanumeric := by
      rw [rdropWhile,rtakeWhile,← reverse_append,takeWhile_append_dropWhile,reverse_reverse]
    have filled : cut.rdropWhile cls.isAlphanumeric ≠ [] := fun none => some (by rw [none]; rfl)
    have whole : cut = (cut.rdropWhile cls.isAlphanumeric).dropLast++
        (cut.rdropWhile cls.isAlphanumeric).getLast filled :: cut.rtakeWhile cls.isAlphanumeric := by
      rw [← singleton_append,← append_assoc,dropLast_append_getLast]
      exact parts
    refine ⟨_,whole,.inr ⟨_,_,rfl,Bool.eq_false_of_not_eq_true (rdropWhile_last_not _ _ filled),fun c => mem_rtakeWhile_imp,next,?_⟩⟩
    have sizes := congrArg byteLength whole
    rw [byteLength_append] at sizes
    omega
  · exact ⟨[],(append_nil cut).symm,.inl rfl⟩

theorem byteLength_trimmed {head blanks stem : Chars} {blank : Char → Bool} (all : ∀ c ∈ blanks, blank c = true)
    (start : stem <+: head++blanks) : byteLength (stem.rdropWhile blank) ≤ byteLength head := by
  obtain short | ⟨more,rfl⟩ := List.prefix_or_prefix_of_prefix start (List.prefix_append head blanks)
  · exact byteLength_le_of_start ((List.rdropWhile_prefix ..).trans short)
  · have within := ( prefix_append_right_inj head).1 start
    have blank : ∀ c ∈ more.reverse, blank c = true := fun c member => all c (within.subset (mem_reverse.1 member))
    rw [rdropWhile,reverse_append,dropWhile_append_of_pos blank]
    exact byteLength_le_of_start (List.rdropWhile_prefix ..)

theorem backToWord_start (cut rest : Chars) : backToWord cls cut rest <+: cut := by
  unfold backToWord
  dsimp only
  split
  · exact ( dropLast_prefix _).trans (List.rdropWhile_prefix ..)
  · exact List.prefix_rfl

theorem keptExtension_short : byteLength (keptExtension cls name) ≤ maxKeptExtensionBytes := by
  unfold keptExtension
  dsimp only
  split
  next kept => exact kept.2.2.1
  · exact Nat.zero_le _

theorem keptExtension_eq {stem tail : Chars} (some : tail ≠ []) (plain : ∀ c ∈ tail, cls.isAlphanumeric c = true)
    (short : byteLength ('.' :: tail) ≤ maxKeptExtensionBytes) : keptExtension cls (stem ++ '.' :: tail) = '.' :: tail := by
  have undotted : ∀ c ∈ tail.reverse, (c != '.') = true := by
    intro c member
    rw [bne_iff_ne]
    rintro rfl
    have class_ := plain '.' (mem_reverse.1 member)
    rw [cls.dot] at class_
    cases class_
  have last : (stem ++ '.' :: tail).rtakeWhile (· != '.') = tail := by
    rw [rtakeWhile,reverse_append,reverse_cons,append_assoc,takeWhile_append_of_pos undotted]
    simp
  have long : 1 < byteLength ('.' :: tail) := by
    obtain ⟨c,rest,rfl⟩ := exists_cons_of_ne_nil some
    have dot : ('.').utf8Size = 1 := rfl
    have positive := c.utf8Size_pos
    rw [byteLength_cons,byteLength_cons]
    omega
  unfold keptExtension
  rw [last,if_pos]
  exact ⟨by simp,long,short,all_eq_true.2 plain⟩

/-- The beginning of the name that fits before its extension ends in blanks, or in blanks and the end the clamp takes off,
and what stands before the blanks is more bytes short than the predicate allows for. -/
def BlankEnd : Prop :=
  ∃ head blanks tail rest, name = (head++blanks)++tail++rest ∧ (∀ c ∈ blanks, cls.isWhitespace c = true) ∧
    byteLength ((head++blanks)++tail)+byteLength (keptExtension cls name) ≤ maxEncodedNameBytes contactBytes ∧
    (∀ c ∈ rest.head?, maxEncodedNameBytes contactBytes <
      byteLength ((head++blanks)++tail)+c.utf8Size+byteLength (keptExtension cls name)) ∧
    (tail = [] ∨ BrokenWord cls tail rest) ∧
    byteLength head+byteLength (keptExtension cls name)+3+wordBackoffBytes < maxEncodedNameBytes contactBytes

section
variable {cls name contactBytes} (long : maxEncodedNameBytes contactBytes < byteLength name)
include long

theorem cutName_long : cutName cls name contactBytes = takeBytes (maxEncodedNameBytes contactBytes-byteLength (keptExtension cls name)) name := by
  unfold cutName
  dsimp only
  rw [Nat.min_eq_left (by omega)]

theorem clampNameToRecordBudget_long : clampNameToRecordBudget cls name contactBytes =
    (keptStem cls name contactBytes).rdropWhile cls.isWhitespace++keptExtension cls name :=
  if_neg (Nat.not_le.2 long)

theorem BlankEnd.short (ends : BlankEnd cls name contactBytes) :
    byteLength ((keptStem cls name contactBytes).rdropWhile cls.isWhitespace)+byteLength (keptExtension cls name)+3+wordBackoffBytes <
      maxEncodedNameBytes contactBytes := by
  obtain ⟨head,blanks,tail,rest,parts,blank,fits,next,broken,short⟩ := ends
  have cut : cutName cls name contactBytes = (head++blanks)++tail := by
    rw [cutName_long long]
    generalize byteLength (keptExtension cls name) = ext at fits next
    rw [parts]
    exact takeBytes_longest (by omega) fun c member => by have := next c member; omega
  have left : name.drop (cutName cls name contactBytes).length = rest := by
    rw [cut]
    nth_rewrite 1 [parts]
    exact drop_left
  have start : keptStem cls name contactBytes <+: head++blanks := by
    rw [keptStem,left,cut]
    rcases broken with rfl | broken
    · rw [append_nil]
      exact (backToWord_start cls (head++blanks) rest)
    · -- were there nothing before the word, the beginning would not be that short
      have some : head++blanks ≠ [] := by
        intro none
        obtain ⟨before,word,rfl,-,-,after,near⟩ := broken
        obtain ⟨c,member,-⟩ := (Option.any_eq_true ..).1 after
        have large := next c member
        have small := c.utf8Size_le_four
        rw [none,nil_append] at large
        omega
      rw [backToWord_broken cls broken some]
  have trimmed := byteLength_trimmed blank start
  omega

theorem blankEnd_of_short (short : byteLength ((keptStem cls name contactBytes).rdropWhile cls.isWhitespace)+
    byteLength (keptExtension cls name)+3+wordBackoffBytes < maxEncodedNameBytes contactBytes) : BlankEnd cls name contactBytes := by
  have stem : keptStem cls name contactBytes = (keptStem cls name contactBytes).rdropWhile cls.isWhitespace++
      (keptStem cls name contactBytes).rtakeWhile cls.isWhitespace := by
    rw [rdropWhile,rtakeWhile,← reverse_append,takeWhile_append_dropWhile,reverse_reverse]
  obtain ⟨tail,cut,broken⟩ := backToWord_cases cls (cutName cls name contactBytes) (name.drop (cutName cls name contactBytes).length)
  rw [← keptStem,stem] at cut
  have fits := (byteLength_takeBytes (maxEncodedNameBytes contactBytes-byteLength (keptExtension cls name)) name)
  have next := takeBytes_next (maxEncodedNameBytes contactBytes-byteLength (keptExtension cls name)) name
  rw [← cutName_long long] at fits next
  have whole : name = cutName cls name contactBytes++name.drop (cutName cls name contactBytes).length :=
    (List.prefix_iff_eq_append.1 fits.2).symm
  refine ⟨_,_,tail,_,whole.trans (congrArg (· ++ _) cut),fun c => mem_rtakeWhile_imp,?_,fun c member => ?_,broken,short⟩
  · rw [← cut]
    omega
  · have large := next c member
    rw [← cut]
    omega

end

/-- A clamped name keeps its extension and fits its record, and is recognised exactly when it does not end in too many
blanks where it is cut. -/
theorem clamped_names_recognised (cls : CharClasses) (name : Chars) (contactBytes : Nat) :
    let max := maxEncodedNameBytes contactBytes
    let clamped := clampNameToRecordBudget cls name contactBytes
    (byteLength name ≤ max → clamped = name) ∧
    (contactBytes ≤ largestTrailerBytes → byteLength clamped ≤ max) ∧
    (∀ stem tail, name = stem ++ '.' :: tail → tail ≠ [] → (∀ c ∈ tail, cls.isAlphanumeric c = true) →
      byteLength ('.' :: tail) ≤ maxKeptExtensionBytes → '.' :: tail <:+ clamped) ∧
    (max < byteLength name →
      (recordNameMayBeClamped (recordHeaderLen+byteLength clamped+contactBytes) = true ↔ ¬BlankEnd cls name contactBytes)) := by
  by_cases fits : byteLength name ≤ maxEncodedNameBytes contactBytes
  · have same : clampNameToRecordBudget cls name contactBytes = name := if_pos fits
    rw [same]
    exact ⟨fun _ => rfl,fun _ => fits,fun stem tail split _ _ _ => ⟨stem,split.symm⟩,fun long => absurd fits (Nat.not_le.2 long)⟩
  have long := Nat.not_le.1 fits
  rw [clampNameToRecordBudget_long long]
  refine ⟨fun short => absurd short fits,fun used => ?_,fun stem tail split some plain short => ?_,fun _ => ?_⟩
  · have ext := keptExtension_short cls name
    have room : maxKeptExtensionBytes ≤ maxEncodedNameBytes contactBytes :=
      Nat.le_trans (by decide) (Nat.sub_le_sub_left used (maxStoreRecordBytes-recordHeaderLen))
    have within := (byteLength_takeBytes (maxEncodedNameBytes contactBytes-byteLength (keptExtension cls name)) name).1
    have stem := byteLength_le_of_start ((List.rdropWhile_prefix cls.isWhitespace (keptStem cls name contactBytes)).trans
      (backToWord_start cls (cutName cls name contactBytes) (name.drop (cutName cls name contactBytes).length)))
    rw [← cutName_long long] at within
    rw [byteLength_append]
    omega
  · rw [split,keptExtension_eq cls some plain short]
    exact List.suffix_append ..
  · rw [← not_iff_not,not_not,recordNameMayBeClamped,decide_eq_true_eq,byteLength_append]
    refine ⟨fun unseen => blankEnd_of_short long ?_,fun ends => ?_⟩
    · unfold maxEncodedNameBytes
      omega
    · have short := ends.short long
      unfold maxEncodedNameBytes at short
      omega

def asciiClasses : CharClasses := ⟨Char.isAlphanum,Char.isWhitespace,rfl⟩

/-- All the blanks before a cut are trimmed off, however many. -/
def blankName : Chars := 'a' :: List.replicate 1100 ' ' ++ ".txt".toList

theorem clamped_name_unrecognised : maxEncodedNameBytes 0 < byteLength blankName ∧
    clampNameToRecordBudget asciiClasses blankName 0 = "a.txt".toList ∧
    recordNameMayBeClamped (recordHeaderLen+byteLength (clampNameToRecordBudget asciiClasses blankName 0)+0) = false := by
  decide +kernel

end Ember.Dht
