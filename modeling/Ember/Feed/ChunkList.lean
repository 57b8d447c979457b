import Ember.Library.Bytes

/-! The chunk list of a feed file. It names every 256 KiB of the file by the node above them in the file's own BLAKE3 tree, so the
list is checked against the BLAKE3 of the whole and each chunk against the list. -/
namespace Ember.Feed
open List Bytes

/-- The compressions of BLAKE3: of a chunk with its counter, and of two subtrees, each below another node and as the root. -/
structure Blake3 (H : Type) where
  chunk : Nat → Bytes → H
  chunkRoot : Bytes → H
  mergeSubtreesNonRoot : H → H → H
  mergeSubtreesRoot : H → H → H

def feedChunkSize : Nat := 256*1024

def leftSubtrees (count : Nat) : Nat := 1 <<< (count-1).log2

theorem leftSubtrees_bounds {count : Nat} (many : 1 < count) : 0 < leftSubtrees count ∧ leftSubtrees count < count := by
  have low := Nat.log2_self_le (show count-1 ≠ 0 by omega)
  have power := Nat.two_pow_pos (count-1).log2
  rw [leftSubtrees]
  omega

/-- Counted in larger units, the last perhaps short, the split is the same. -/
theorem leftSubtrees_units {k count last : Nat} (many : 0 < last) (least : 2^k*last < count) (most : count ≤ 2^k*last+2^k) :
    leftSubtrees count = 2^k*leftSubtrees (last+1) := by
  have whole : (count-1)/2^k = last := by
    rw [Nat.div_eq_iff (Nat.two_pow_pos k),mul_comm]
    omega
  have deep : k ≤ Nat.log 2 (count-1) := by
    have more := Nat.le_mul_of_pos_right (2^k) many
    exact Nat.le_log_of_pow_le one_lt_two (by omega)
  simp only [leftSubtrees,Nat.one_shiftLeft,Nat.log2_eq_log_two,Nat.add_sub_cancel]
  rw [← whole,Nat.log_div_base_pow,← pow_add,Nat.add_sub_cancel' deep]

/-- BLAKE3's tree puts on the left the largest power of two of chunks that leaves something for the right. -/
def leftBytes (size : Nat) : Nat := 1024*2^Nat.findGreatest (fun k => 1024*2^k < size) size

theorem leftBytes_eq {size : Nat} (large : 1024 < size) : leftBytes size = 1024*leftSubtrees ((size+1023)/1024) := by
  have full := Nat.pow_log_le_self 2 (show (size+1023)/1024-1 ≠ 0 by omega)
  have low := Nat.log_le_self 2 ((size+1023)/1024-1)
  rw [leftBytes,leftSubtrees,Nat.one_shiftLeft,Nat.log2_eq_log_two]
  congr 2
  refine Nat.findGreatest_eq_iff.2 ⟨by omega,fun _ => by omega,fun k above _ => ?_⟩
  have beyond := Nat.lt_pow_of_log_lt one_lt_two above
  omega

theorem leftBytes_bounds {size : Nat} (large : 1024 < size) : 0 < leftBytes size ∧ leftBytes size < size := by
  have bounds := leftSubtrees_bounds (show 1 < (size+1023)/1024 by omega)
  rw [leftBytes_eq large]
  omega

variable {H : Type} [Inhabited H] (blake3 : Blake3 H)

/-- The value of the subtree above `data`, whose first chunk has the counter `counter`. -/
def Blake3.nonRoot (counter : Nat) (data : Bytes) : H :=
  if large : 1024 < data.length then
    let left := leftBytes data.length
    blake3.mergeSubtreesNonRoot (nonRoot counter (data.take left)) (nonRoot (counter+left/1024) (data.drop left))
  else blake3.chunk counter data
termination_by data.length
decreasing_by all_goals have := leftBytes_bounds large; simp; omega

def Blake3.hash (data : Bytes) : H :=
  if 1024 < data.length then
    let left := leftBytes data.length
    blake3.mergeSubtreesRoot (blake3.nonRoot 0 (data.take left)) (blake3.nonRoot (left/1024) (data.drop left))
  else blake3.chunkRoot data

def chunkValue (index count : Nat) (chunk : Bytes) : H :=
  if count ≤ 1 then blake3.hash chunk else blake3.nonRoot (index*feedChunkSize/1024) chunk

def mergeChunkValues (values : List H) : H :=
  if 1 < values.length then
    let left := leftSubtrees values.length
    blake3.mergeSubtreesNonRoot (mergeChunkValues (values.take left)) (mergeChunkValues (values.drop left))
  else values.headD default
termination_by values.length
decreasing_by all_goals have := leftSubtrees_bounds ‹_›; simp; omega

def rootOfChunkValues : List H → Option H
  | [] => none
  | [only] => some only
  | values =>
    let left := leftSubtrees values.length
    some (blake3.mergeSubtreesRoot (mergeChunkValues blake3 (values.take left)) (mergeChunkValues blake3 (values.drop left)))

def chunkValues (data : Bytes) : List H :=
  let count := (data.length+feedChunkSize-1)/feedChunkSize
  (range' 0 count).map fun i => chunkValue blake3 i count (chunk feedChunkSize data i)

def span (data : Bytes) (first count : Nat) : Bytes := slice data (first*feedChunkSize) ((first+count)*feedChunkSize)

variable {blake3} {values values' : List H} {data : Bytes} {count first : Nat}

/-- BLAKE3 splits a run of chunks where their values are split. -/
theorem span_halves (many : 1 < count) (inside : (first+count-1)*feedChunkSize < data.length) :
    1024 < (span data first count).length ∧
    ∃ left right, leftSubtrees count = left ∧ count = left+right ∧ 0 < left ∧ 0 < right ∧
    leftBytes (span data first count).length/1024 = 256*left ∧
    (span data first count).take (leftBytes (span data first count).length) = span data first left ∧
    (span data first count).drop (leftBytes (span data first count).length) = span data (first+left) right := by
  obtain ⟨low,high⟩ := leftSubtrees_bounds many
  obtain ⟨last,rfl⟩ := Nat.exists_eq_add_one_of_ne_zero (show count ≠ 0 by omega)
  have size : (span data first (last+1)).length = min ((last+1)*feedChunkSize) (data.length-first*feedChunkSize) := by
    rw [span,slice,length_take,length_drop,add_mul,Nat.add_sub_cancel_left]
  have units : leftSubtrees (((span data first (last+1)).length+1023)/1024) = 2^8*leftSubtrees (last+1) := by
    unfold feedChunkSize at *
    exact leftSubtrees_units (by omega) (by omega) (by omega)
  have large : 1024 < (span data first (last+1)).length := by
    unfold feedChunkSize at *
    omega
  have bytes : leftBytes (span data first (last+1)).length = leftSubtrees (last+1)*feedChunkSize := by
    rw [leftBytes_eq large,feedChunkSize]
    omega
  refine ⟨large,leftSubtrees (last+1),last+1-leftSubtrees (last+1),rfl,by omega,low,by omega,?_,?_,?_⟩
  · rw [bytes,feedChunkSize]
    omega
  · rw [bytes,span,slice_take _ _ _ _ (by unfold feedChunkSize; omega),span,add_mul]
  · rw [bytes,span,slice,drop_take,drop_drop,← add_mul]
    congr 1
    rw [add_assoc,Nat.add_sub_cancel' (by omega),Nat.sub_sub,← add_mul]

omit [Inhabited H] in
theorem halves_range' (value : Nat → H) (first left right : Nat) :
    ((range' first (left+right)).map value).take left = (range' first left).map value ∧
    ((range' first (left+right)).map value).drop left = (range' (first+left) right).map value := by
  simp [← range'_append_1]

theorem mergeChunkValues_many (many : 1 < values.length) : mergeChunkValues blake3 values = blake3.mergeSubtreesNonRoot
    (mergeChunkValues blake3 (values.take (leftSubtrees values.length))) (mergeChunkValues blake3 (values.drop (leftSubtrees values.length))) := by
  rw [mergeChunkValues,if_pos many]

theorem rootOfChunkValues_many (many : 1 < values.length) : rootOfChunkValues blake3 values = some (blake3.mergeSubtreesRoot
    (mergeChunkValues blake3 (values.take (leftSubtrees values.length))) (mergeChunkValues blake3 (values.drop (leftSubtrees values.length)))) := by
  match values, many with
  | _ :: _ :: _, _ => simp only [rootOfChunkValues]

section
variable {value : Nat → H} (named : ∀ i, value i = blake3.nonRoot (256*i) (chunk feedChunkSize data i))
include named

theorem mergeChunkValues_span (some : 0 < count) (inside : (first+count-1)*feedChunkSize < data.length) :
    mergeChunkValues blake3 ((range' first count).map value) = blake3.nonRoot (256*first) (span data first count) := by
  induction count using Nat.strongRecOn generalizing first with
  | ind count ih =>
    by_cases many : 1 < count
    · obtain ⟨large,left,right,is,rfl,low,high,counter,front,back⟩ := span_halves many inside
      obtain ⟨take,drop⟩ := halves_range' value first left right
      have one := Nat.mul_le_mul_right feedChunkSize (show first+left-1 ≤ first+(left+right)-1 by omega)
      rw [mergeChunkValues_many (by simpa using many),length_map,length_range',is,take,drop,Blake3.nonRoot,dif_pos large,
        ih left (by omega) low (by omega),ih right (by omega) high (by rwa [add_assoc])]
      simp only [counter,front,back,mul_add]
    obtain rfl : count = 1 := by omega
    simp [mergeChunkValues,named,span,chunk]

end

theorem rootOfChunkValues_chunkValues (some : data ≠ []) :
    rootOfChunkValues blake3 (chunkValues blake3 data) = .some (blake3.hash data) := by
  have full := length_pos_of_ne_nil some
  generalize units : (data.length+feedChunkSize-1)/feedChunkSize = count
  have inside : (0+count-1)*feedChunkSize < data.length := by unfold feedChunkSize at *; omega
  have whole : span data 0 count = data := by
    rw [span,slice]
    unfold feedChunkSize at *
    simp
    omega
  rw [chunkValues,units]
  by_cases many : 1 < count
  · have named i : chunkValue blake3 i count (chunk feedChunkSize data i) = blake3.nonRoot (256*i) (chunk feedChunkSize data i) := by
      rw [chunkValue,if_neg (by omega),show i*feedChunkSize/1024 = 256*i by unfold feedChunkSize; omega]
    obtain ⟨large,left,right,is,rfl,low,high,counter,front,back⟩ := span_halves many inside
    obtain ⟨take,drop⟩ := halves_range' (fun i => chunkValue blake3 i (left+right) (chunk feedChunkSize data i)) 0 left right
    have one := Nat.mul_le_mul_right feedChunkSize (show 0+left-1 ≤ 0+(left+right)-1 by omega)
    rw [rootOfChunkValues_many (by simpa using many),length_map,length_range',is,take,drop,
      mergeChunkValues_span named low (by omega),mergeChunkValues_span named high (by rwa [add_assoc]),Blake3.hash]
    rw [whole] at *
    simp only [large,if_true,counter,front,back,zero_add]
  obtain rfl : count = 1 := by unfold feedChunkSize at *; omega
  have only : chunk feedChunkSize data 0 = data := whole
  simp [chunkValue,only,rootOfChunkValues]

theorem mergeChunkValues_injective (distinct : Function.Injective2 blake3.mergeSubtreesNonRoot) (length : values.length = values'.length)
    (same : mergeChunkValues blake3 values = mergeChunkValues blake3 values') : values = values' := by
  induction size : values.length using Nat.strongRecOn generalizing values values' with
  | ind count ih =>
    subst size
    by_cases many : 1 < values.length
    · obtain ⟨low,high⟩ := leftSubtrees_bounds many
      rw [mergeChunkValues_many many,mergeChunkValues_many (length ▸ many :)] at same
      obtain ⟨front,back⟩ := distinct same
      rw [← take_append_drop (leftSubtrees values.length) values,ih _ high (by simp [length]) front (by simp [high.le]),
        ih _ (by omega) (by simp [length]) back (length_drop ..),take_append_drop]
    match values, values' with
    | [], [] => rfl
    | [_], [_] => simpa [mergeChunkValues] using same
    | _ :: _ :: _, _ => simp at many

/-- A chunk list commits to its file: its root is the BLAKE3 of the whole, and no other list of its length has it. -/
theorem chunk_list_commits (blake3 : Blake3 H) :
    (∀ data, data ≠ [] → rootOfChunkValues blake3 (chunkValues blake3 data) = some (blake3.hash data)) ∧
    (Function.Injective2 blake3.mergeSubtreesNonRoot → Function.Injective2 blake3.mergeSubtreesRoot →
      ∀ values values' : List H, values.length = values'.length → values ≠ values' →
        rootOfChunkValues blake3 values ≠ rootOfChunkValues blake3 values') := by
  refine ⟨fun _ => rootOfChunkValues_chunkValues,fun inner top values values' length differ same => differ ?_⟩
  by_cases many : 1 < values.length
  · rw [rootOfChunkValues_many many,rootOfChunkValues_many (length ▸ many :),Option.some.injEq] at same
    obtain ⟨front,back⟩ := top same
    rw [← take_append_drop (leftSubtrees values.length) values,mergeChunkValues_injective inner (by simp [length]) front,
      mergeChunkValues_injective inner (by simp [length]) back,take_append_drop]
  match values, values' with
  | [], [] => rfl
  | [_], [_] => simpa [rootOfChunkValues] using same
  | _ :: _ :: _, _ => simp at many

theorem chunk_list_commits_pairing : rootOfChunkValues (⟨fun _ _ => 0,fun _ => 0,Nat.pair,Nat.pair⟩ : Blake3 Nat) [1,2] ≠
    rootOfChunkValues ⟨fun _ _ => 0,fun _ => 0,Nat.pair,Nat.pair⟩ [2,1] := by
  refine (chunk_list_commits ⟨fun _ _ => 0,fun _ => 0,Nat.pair,Nat.pair⟩).2 ?_ ?_ [1,2] [2,1] rfl (by simp)
  all_goals exact fun _ _ _ _ same => Nat.pair_eq_pair.mp same

end Ember.Feed
