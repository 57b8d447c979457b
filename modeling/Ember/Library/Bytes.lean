import Mathlib

/-! Byte strings and their fixed-width readings, and words that stop at the largest. A fixed byte array is the
bit vector it spells big-endian, so lexicographic order is numeric. -/
namespace Ember
open List Option

-- dates are compared by an order that can be evaluated
instance (priority := 10000) evaluableOrder : Preorder Int := Int.instLinearOrder.toPreorder

abbrev Bytes := List UInt8

def saturatingAdd (a b : Nat) : Nat := min (a+b) (2^64-1)
def saturatingMul (a b : Nat) : Nat := min (a*b) (2^64-1)

namespace Bytes
variable {bits : Nat} (len value : Nat) (data : Bytes)

variable (data : Bytes) (start stop : Nat) {data' : Bytes}

def slice : Bytes := (data.drop start).take (stop-start)

/-- `get(start..stop)`: the slice when all of it is there. -/
def get : Option Bytes :=
  if stop ≤ data.length then some (slice data start stop) else none

def bigEndian : Nat := data.foldl (fun acc byte => acc*256+byte.toNat) 0

def littleEndian : Nat := data.foldr (fun byte acc => byte.toNat+256*acc) 0

def array (bits : Nat) (data : Bytes) : BitVec bits := BitVec.ofNat bits (bigEndian data)

def i64 : Int := (BitVec.ofNat 64 (littleEndian data)).toInt

def ofNatLittleEndian : Nat → Nat → Bytes
  | 0, _ => []
  | len+1, value => UInt8.ofNat value :: ofNatLittleEndian len (value/256)

def ofArray {bits : Nat} (value : BitVec bits) : Bytes := (ofNatLittleEndian (bits/8) value.toNat).reverse

def ofI64 (value : Int) : Bytes := ofNatLittleEndian 8 (BitVec.ofInt 64 value).toNat

theorem i64_bounds : -2^63 ≤ i64 data ∧ i64 data < 2^63 := by
  have low := BitVec.le_toInt (BitVec.ofNat 64 (littleEndian data))
  have high := BitVec.toInt_lt (x := BitVec.ofNat 64 (littleEndian data))
  exact ⟨low,high⟩

theorem bigEndian_concat {byte : UInt8} : bigEndian (data++[byte]) = bigEndian data*256+byte.toNat := by
  rw [bigEndian,foldl_append]
  rfl

theorem bigEndian_lt : bigEndian data < 256^data.length := by
  induction data using List.reverseRecOn with
  | nil => exact Nat.one_pos
  | append_singleton data byte ih =>
    have small := byte.toNat_lt
    rw [bigEndian_concat,length_append,length_singleton]
    omega

theorem bigEndian_injective {data : Bytes} (size : data.length = data'.length)
    (same : bigEndian data = bigEndian data') : data = data' := by
  induction data using List.reverseRecOn generalizing data' with
  | nil => exact (length_eq_zero_iff.1 size.symm).symm
  | append_singleton data byte ih =>
    rcases data'.eq_nil_or_concat with rfl | ⟨rest,last,rfl⟩
    · simp at size
    rw [concat_eq_append] at size same ⊢
    rw [bigEndian_concat,bigEndian_concat] at same
    have small := byte.toNat_lt
    have small' := last.toNat_lt
    have bytes : byte = last := UInt8.toNat_inj.1 (by omega)
    rw [ih (by simpa using size) (by omega),bytes]

theorem array_injective {data : Bytes} (size : data.length = data'.length)
    (fits : 256^data.length ≤ 2^bits) (same : array bits data = array bits data') : data = data' := by
  refine bigEndian_injective size ?_
  have values := congrArg BitVec.toNat same
  have low := bigEndian_lt data
  have low' := bigEndian_lt data'
  rw [← size] at low'
  rwa [array,array,BitVec.toNat_ofNat,BitVec.toNat_ofNat,Nat.mod_eq_of_lt (low.trans_le fits),
    Nat.mod_eq_of_lt (low'.trans_le fits)] at values

@[simp] theorem length_ofNatLittleEndian : (ofNatLittleEndian len value).length = len := by
  induction len generalizing value with
  | zero => rfl
  | succ len ih => rw [ofNatLittleEndian,length_cons,ih]

theorem littleEndian_ofNatLittleEndian : littleEndian (ofNatLittleEndian len value) = value%256^len := by
  induction len generalizing value with
  | zero => exact (Nat.mod_one value).symm
  | succ len ih =>
    have head : littleEndian (ofNatLittleEndian (len+1) value) = value%256+256*littleEndian (ofNatLittleEndian len (value/256)) := by
      simp [ofNatLittleEndian,littleEndian]
    rw [head,ih,Nat.pow_succ',Nat.mod_mul]

theorem bigEndian_eq_littleEndian_reverse : bigEndian data = littleEndian data.reverse := by
  rw [bigEndian,littleEndian,foldr_reverse]
  congr
  funext acc byte
  omega

@[simp] theorem length_ofArray (value : BitVec bits) : (ofArray value).length = bits/8 := by
  simp [ofArray]

theorem array_ofArray {bytes : Nat} (whole : bits = 8*bytes) (value : BitVec bits) : array bits (ofArray value) = value := by
  have size : 256^(bits/8) = 2^bits := by
    rw [whole,Nat.mul_div_cancel_left bytes (by norm_num),Nat.pow_mul]
  rw [array,ofArray,bigEndian_eq_littleEndian_reverse,reverse_reverse,littleEndian_ofNatLittleEndian,size,
    Nat.mod_eq_of_lt value.isLt,BitVec.ofNat_toNat,BitVec.setWidth_eq]

theorem slice_take (start stop count : Nat) (short : start+count ≤ stop) :
    (slice data start stop).take count = slice data start (start+count) := by
  rw [slice,take_take]
  congr 1
  omega

theorem slice_length (inside : stop ≤ data.length) : (slice data start stop).length = stop-start := by
  rw [slice,length_take,length_drop]
  omega

theorem slice_middle (before data after : Bytes) {start stop : Nat} (inside : stop ≤ data.length) :
    slice (before++data++after) (before.length+start) (before.length+stop) = slice data start stop := by
  unfold slice
  rw [append_assoc,drop_append,drop_eq_nil_of_le (by omega),nil_append,Nat.add_sub_cancel_left,
    Nat.add_sub_add_left]
  by_cases proper : start ≤ stop
  · rw [drop_append_of_le_length (by omega),take_append_of_le_length (by rw [length_drop]; omega)]
  · rw [Nat.sub_eq_zero_of_le (by omega),take_zero,take_zero]

section Records
variable {α β : Type*} {write : α → Bytes} {width : Nat}

theorem length_flatMap_width (fixed : ∀ a, (write a).length = width) (items : List α) :
    (items.flatMap write).length = items.length*width := by
  induction items with
  | nil => simp
  | cons a rest ih => rw [flatMap_cons,length_append,ih,fixed,length_cons,Nat.succ_mul,Nat.add_comm]

theorem slice_flatMap (fixed : ∀ a, (write a).length = width) {items : List α} {i : Nat} {a : α} (listed : items[i]? = some a) :
    slice (items.flatMap write) (i*width) (i*width+width) = write a := by
  induction items generalizing i with
  | nil => cases listed
  | cons first rest ih =>
    cases i with
    | zero =>
      obtain rfl := some.inj listed
      unfold slice
      rw [flatMap_cons,Nat.zero_mul,drop_zero,Nat.zero_add,Nat.sub_zero,← fixed first,take_left]
    | succ i =>
      have later := ih listed
      unfold slice at later ⊢
      rw [Nat.add_sub_cancel_left] at later ⊢
      rw [flatMap_cons,Nat.succ_mul,Nat.add_comm (i*width),← drop_drop,← fixed first,drop_left,fixed first,later]

theorem map_slice_flatMap (fixed : ∀ a, (write a).length = width) (read : Bytes → β) (items : List α) :
    (List.range items.length).map (fun i => read (slice (items.flatMap write) (i*width) (i*width+width))) =
      items.map fun a => read (write a) := by
  apply ext_getElem?
  intro i
  rw [getElem?_map,getElem?_map]
  by_cases inside : i < items.length
  · rw [getElem?_range inside,getElem?_eq_getElem inside,map_some,map_some,
      slice_flatMap fixed (getElem?_eq_getElem inside)]
  · rw [getElem?_eq_none (by rw [length_range]; omega),getElem?_eq_none (by omega)]
    rfl

end Records

def chunk (size : Nat) (data : Bytes) (i : Nat) : Bytes := slice data (i*size) ((i+1)*size)

/-- `chunks(size)`: the pieces of one size, the last perhaps short. -/
def chunks (size : Nat) (data : Bytes) : List Bytes := (List.range ((data.length+size-1)/size)).map (chunk size data)

end Bytes

/-- Saturation of an exact result to the range of `i64`. -/
def clampI64 (value : Int) : Int := max (-2^63) (min (2^63-1) value)

theorem clampI64_of_bounds {value : Int} (low : -2^63 ≤ value) (high : value < 2^63) : clampI64 value = value := by
  unfold clampI64
  omega

end Ember
