import Ember.Library.Bytes

/-! UTF-8 text as its bytes: where the next character ends, which byte strings are text, and what a
lenient reader makes of any. -/
namespace Ember
open List

namespace Utf8
variable (fuel : Nat) (data : Bytes) (lead : UInt8) (rest : Bytes)

def continues (byte : UInt8) : Bool := 0x80 ≤ byte && byte ≤ 0xBF

/-- After a lead byte: the bounds of the second byte and how many more follow it. -/
def follow : Option (UInt8 × UInt8 × Nat) :=
  if 0xC2 ≤ lead && lead ≤ 0xDF then some (0x80,0xBF,0)
  else if lead = 0xE0 then some (0xA0,0xBF,1)
  else if lead = 0xED then some (0x80,0x9F,1)
  else if 0xE1 ≤ lead && lead ≤ 0xEF then some (0x80,0xBF,1)
  else if lead = 0xF0 then some (0x90,0xBF,2)
  else if 0xF1 ≤ lead && lead ≤ 0xF3 then some (0x80,0xBF,2)
  else if lead = 0xF4 then some (0x80,0x8F,2)
  else none

/-- Whether a character stands first, and the bytes it takes or to pass over. -/
def character : Bool × Nat :=
  if lead < 0x80 then (true,1)
  else match follow lead, rest with
    | some (low,high,more), second :: tail =>
      if low ≤ second && second ≤ high then
        let held := ((tail.take more).takeWhile continues).length
        (held == more,2+held)
      else (false,1)
    | _, _ => (false,1)

def next : Bytes → Bool × Nat
  | [] => (true,0)
  | lead :: rest => character lead rest

def wellFormedFrom : Nat → Bytes → Bool
  | _, [] => true
  | 0, _ => false
  | fuel+1, data => (next data).1 && wellFormedFrom fuel (data.drop (next data).2)

def wellFormed : Bool := wellFormedFrom data.length data

def replacement : Bytes := [0xEF,0xBF,0xBD]

def lossyFrom : Nat → Bytes → Bytes
  | _, [] => []
  | 0, _ => []
  | fuel+1, data =>
    (if (next data).1 then data.take (next data).2 else replacement)++lossyFrom fuel (data.drop (next data).2)

def lossy : Bytes := lossyFrom data.length data

theorem next_width : 0 < (next (lead :: rest)).2 ∧ (next (lead :: rest)).2 ≤ (lead :: rest).length := by
  dsimp only [next]
  unfold character
  split
  · simp
  split
  · rename_i more second tail _
    split
    · have held : ((tail.take more).takeWhile continues).length ≤ tail.length :=
        ((takeWhile_sublist _).trans (take_sublist ..)).length_le
      simp only [length_cons]
      omega
    · simp
  · simp

theorem character_standing {lead : UInt8} {rest : Bytes} (stands : (character lead rest).1 = true) :
    lead < 0x80 ∧ (character lead rest).2 = 1 ∨
      ¬ lead < 0x80 ∧ ∃ low high more second tail, follow lead = some (low,high,more) ∧ rest = second :: tail ∧
        (low ≤ second && second ≤ high) = true ∧ more ≤ tail.length ∧ (character lead rest).2 = 2+more := by
  unfold character at stands ⊢
  by_cases ascii : lead < 0x80
  · exact .inl ⟨ascii,by rw [if_pos ascii]⟩
  rw [if_neg ascii] at stands ⊢
  refine .inr ⟨ascii,?_⟩
  split at stands
  · rename_i low high more second tail shape
    split at stands
    · rename_i inside
      have held := beq_iff_eq.1 stands
      have most : (tail.take more).length = min more tail.length := length_take ..
      have least : ((tail.take more).takeWhile continues).length ≤ (tail.take more).length :=
        (takeWhile_sublist _).length_le
      refine ⟨low,high,more,second,tail,shape,rfl,inside,by omega,?_⟩
      rw [if_pos inside,held]
    · cases stands
  · cases stands

theorem next_append (rest tail : Bytes) (stands : (next (lead :: rest)).1 = true) :
    next ((lead :: rest).take (next (lead :: rest)).2++tail) = next (lead :: rest) := by
  dsimp only [next] at stands ⊢
  rcases character_standing stands with ⟨ascii,width⟩ | ⟨wide,low,high,more,second,behind,shape,rfl,inside,long,width⟩
  · unfold character
    simp [if_pos ascii]
  have whole : ∀ l : Bytes, (behind.take more++l).take more = behind.take more := fun l => by
    rw [take_append_of_le_length (by rw [length_take]; omega),take_take,Nat.min_self]
  rw [width,Nat.add_comm 2 more,take_succ_cons,take_succ_cons,cons_append,cons_append]
  dsimp only
  unfold character
  rw [if_neg wide,if_neg wide,shape]
  dsimp only
  rw [if_pos inside,if_pos inside,whole]

theorem wellFormedFrom_cons : wellFormedFrom (fuel+1) (lead :: rest) =
    ((next (lead :: rest)).1 && wellFormedFrom fuel ((lead :: rest).drop (next (lead :: rest)).2)) := rfl

theorem wellFormedFrom_eq {fuel : Nat} {data : Bytes} (enough : data.length ≤ fuel) :
    wellFormedFrom fuel data = wellFormed data := by
  induction fuel using Nat.strong_induction_on generalizing data with
  | _ fuel ih =>
    cases data with
    | nil =>
      cases fuel <;> rfl
    | cons lead rest =>
      obtain ⟨fuel,rfl⟩ : ∃ less, fuel = less+1 := ⟨fuel-1,by rw [length_cons] at enough; omega⟩
      have width := next_width lead rest
      have shorter : ((lead :: rest).drop (next (lead :: rest)).2).length ≤ rest.length := by
        rw [length_drop,length_cons]
        omega
      rw [length_cons] at enough
      rw [wellFormed,wellFormedFrom_cons,ih fuel (by omega) (by omega)]
      congr 1
      rcases Nat.lt_or_ge rest.length (fuel+1) with less | more
      · exact (ih rest.length less shorter).symm
      · omega

theorem wellFormed_append {lead : UInt8} {rest tail : Bytes} (stands : (next (lead :: rest)).1 = true)
    (text : wellFormed tail = true) : wellFormed ((lead :: rest).take (next (lead :: rest)).2++tail) = true := by
  obtain ⟨least,most⟩ := next_width lead rest
  have same := next_append lead rest tail stands
  obtain ⟨fewer,width⟩ : ∃ fewer, (next (lead :: rest)).2 = fewer+1 := ⟨(next (lead :: rest)).2-1,by omega⟩
  have size : ((lead :: rest).take (fewer+1)).length = fewer+1 := by
    rw [length_take]
    omega
  rw [width] at same ⊢
  rw [take_succ_cons,cons_append] at same ⊢
  rw [wellFormed,length_cons,wellFormedFrom_cons,same,stands,width,Bool.true_and]
  have behind : (lead :: (rest.take fewer++tail)).drop (fewer+1) = tail := by
    rw [drop_succ_cons,drop_append_of_le_length (by simpa using size.ge),drop_of_length_le (by simp)]
    rfl
  rw [behind,wellFormedFrom_eq (by simp),text]

theorem lossyFrom_wellFormed : wellFormed (lossyFrom fuel data) = true := by
  induction fuel generalizing data with
  | zero => cases data <;> rfl
  | succ fuel ih =>
    cases data with
    | nil => rfl
    | cons lead rest =>
      unfold lossyFrom
      split
      · rename_i stands
        exact wellFormed_append stands (ih _)
      · exact @wellFormed_append 0xEF [0xBF,0xBD] _ (by decide) (ih _)

theorem lossy_of_wellFormed {data : Bytes} (text : wellFormed data = true) : lossy data = data := by
  have reads : ∀ fuel data, data.length ≤ fuel → wellFormedFrom fuel data = true → lossyFrom fuel data = data := by
    intro fuel
    induction fuel with
    | zero =>
      intro data short _
      rw [length_eq_zero_iff.1 (by omega : data.length = 0)]
      rfl
    | succ fuel ih =>
      intro data short text
      cases data with
      | nil => rfl
      | cons lead rest =>
        have width := next_width lead rest
        rw [wellFormedFrom_cons,Bool.and_eq_true] at text
        unfold lossyFrom
        rw [if_pos text.1,ih _ (by rw [length_drop]; rw [length_cons] at short ⊢; omega) text.2,take_append_drop]
  exact reads data.length data le_rfl text

def charactersFrom : Nat → Bytes → List Bytes
  | _, [] => []
  | 0, _ => []
  | fuel+1, data =>
    (if (next data).1 then data.take (next data).2 else replacement) :: charactersFrom fuel (data.drop (next data).2)

def characters : List Bytes := charactersFrom data.length data

def Standing (c : Bytes) : Prop := c ≠ [] ∧ next c = (true,c.length)

theorem standing_of_mem {fuel : Nat} {data c : Bytes} (member : c ∈ charactersFrom fuel data) : Standing c := by
  induction fuel generalizing data with
  | zero => cases data <;> cases member
  | succ fuel ih =>
    cases data with
    | nil => cases member
    | cons lead rest =>
      obtain rfl | later := mem_cons.1 member
      · obtain ⟨some,most⟩ := next_width lead rest
        split
        next stands =>
          have same := next_append lead rest [] stands
          have width : ((lead :: rest).take (next (lead :: rest)).2).length = (next (lead :: rest)).2 := length_take_of_le most
          refine ⟨ne_nil_of_length_pos (width.symm ▸ some),?_⟩
          rw [append_nil] at same
          rw [same,width,← stands]
        next => exact ⟨by decide,by decide⟩
      · exact ih later

theorem characters_flatten {text : List Bytes} (standing : ∀ c ∈ text, Standing c) : characters text.flatten = text := by
  have reads : ∀ fuel, text.flatten.length ≤ fuel → charactersFrom fuel text.flatten = text := by
    induction text with
    | nil => intro fuel _; cases fuel <;> rfl
    | cons c rest ih =>
      intro fuel enough
      obtain ⟨some,width⟩ := standing c mem_cons_self
      obtain ⟨lead,tail,rfl⟩ := exists_cons_of_ne_nil some
      have first := next_append lead tail rest.flatten (by rw [width])
      rw [width,take_length] at first
      rw [flatten_cons,length_append] at enough
      cases fuel with
      | zero => simp at enough
      | succ fuel =>
        have others := ih (fun c member => standing c (mem_cons_of_mem _ member)) fuel (by simp only [length_cons] at enough; omega)
        rw [flatten_cons,cons_append]
        unfold charactersFrom
        rw [← cons_append,first,if_pos rfl,take_left,drop_left,others]
  exact reads _ le_rfl

end Utf8

/-- A string: bytes that are UTF-8. -/
@[ext] structure Text where
  bytes : Bytes := []
  text : Utf8.wellFormed bytes = true := by decide
  deriving DecidableEq

namespace Text

def fromUtf8Lossy (data : Bytes) : Text := ⟨Utf8.lossy data,Utf8.lossyFrom_wellFormed ..⟩

theorem fromUtf8Lossy_bytes {name : Text} : fromUtf8Lossy name.bytes = name := by
  cases name with
  | mk bytes text =>
    unfold fromUtf8Lossy
    congr 1
    exact Utf8.lossy_of_wellFormed text

end Text
end Ember
