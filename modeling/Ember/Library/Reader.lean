import Ember.Library.Bytes

/-! Reading fields off the front of a byte string. A reader is right about a field when it gives the
field's value whatever follows, and fails on every beginning that lacks some of its bytes. -/
namespace Ember
open List

abbrev Reader (ε : Type) := StateT Bytes (Except ε)

namespace Reader
variable {ε α β : Type}

def fail (error : ε) : Reader ε α := fun _ => .error error

def exact (short : ε) (count : Nat) : Reader ε Bytes := fun rest =>
  if count ≤ rest.length then .ok (rest.take count,rest.drop count) else .error short

def byte (short : ε) : Reader ε UInt8
  | [] => .error short
  | byte :: rest => .ok (byte,rest)

def little (short : ε) (count : Nat) : Reader ε Nat := do
  let bytes ← exact short count
  return bytes.littleEndian

/-- Items as long as they can be read, at most so many, and what is left. -/
def upTo (r : Reader ε α) : Nat → Bytes → List α × Bytes
  | 0, data => ([],data)
  | count+1, data =>
    match r data with
    | .ok (a,rest) =>
      let later := upTo r count rest
      (a :: later.1,later.2)
    | .error _ => ([],data)

theorem cut_append {part first second : Bytes} (inside : part <+: first++second) (strict : part ≠ first++second) :
    (part <+: first ∧ part ≠ first) ∨ ∃ late, part = first++late ∧ late <+: second ∧ late ≠ second := by
  rcases lt_or_ge part.length first.length with short | long
  · left
    exact ⟨List.prefix_of_prefix_length_le inside (List.prefix_append ..) short.le,fun same => by simp [same] at short⟩
  right
  obtain ⟨late,rfl⟩ := List.prefix_of_prefix_length_le (List.prefix_append ..) inside long
  exact ⟨late,rfl,(List.prefix_append_right_inj first).1 inside,fun same => strict (by rw [same])⟩

structure Reads (r : Reader ε α) (bytes : Bytes) (value : α) : Prop where
  whole : ∀ rest, r (bytes++rest) = .ok (value,rest)
  cut : ∀ part, part <+: bytes → part ≠ bytes → ∃ error, r part = .error error

variable {r : Reader ε α} {next : α → Reader ε β} {bytes more : Bytes} {a : α} {b : β} {data : Bytes}

theorem bind_ok {rest : Bytes} (first : r data = .ok (a,rest)) : (r >>= next) data = next a rest := by
  change (r data >>= fun out => next out.1 out.2) = _
  rw [first]
  rfl

theorem bind_error {error : ε} (first : r data = .error error) : (r >>= next) data = .error error := by
  change (r data >>= fun out => next out.1 out.2) = _
  rw [first]
  rfl

namespace Reads

theorem pure : Reads (Pure.pure a : Reader ε α) [] a where
  whole := fun _ => rfl
  cut := fun _ inside strict => absurd (List.prefix_nil.1 inside) strict

theorem bind (first : Reads r bytes a) (second : Reads (next a) more b) : Reads (r >>= next) (bytes++more) b where
  whole := fun rest => by
    rw [append_assoc,bind_ok (first.whole _)]
    exact second.whole rest
  cut := fun part inside strict => by
    rcases cut_append inside strict with ⟨early,lacking⟩ | ⟨late,rfl,later,lacking⟩
    · obtain ⟨error,failed⟩ := first.cut part early lacking
      exact ⟨error,bind_error failed⟩
    · obtain ⟨error,failed⟩ := second.cut late later lacking
      exact ⟨error,(bind_ok (first.whole late)).trans failed⟩

theorem map (first : Reads r bytes a) (f : α → β) : Reads (r >>= fun a => Pure.pure (f a)) bytes (f a) := by
  have read : Reads (r >>= fun a => Pure.pure (f a)) (bytes++[]) (f a) := first.bind (.pure)
  rwa [append_nil] at read

end Reads

theorem exact_reads (short : ε) (bytes : Bytes) : Reads (exact short bytes.length) bytes bytes where
  whole := fun rest => by
    unfold exact
    simp
  cut := fun part inside strict => by
    have shorter : part.length < bytes.length := lt_of_le_of_ne inside.length_le fun same => strict (inside.eq_of_length same)
    exact ⟨short,if_neg (by omega)⟩

theorem byte_reads (short : ε) (value : UInt8) : Reads (byte short) [value] value where
  whole := fun _ => rfl
  cut := fun part inside strict => by
    rcases List.prefix_cons_iff.1 inside with rfl | ⟨tail,rfl,rest⟩
    · exact ⟨short,rfl⟩
    · exact absurd (by rw [List.prefix_nil.1 rest]) strict

theorem little_reads_mod (short : ε) (count value : Nat) :
    Reads (little short count) (Bytes.ofNatLittleEndian count value) (value%256^count) := by
  have read := (exact_reads short (Bytes.ofNatLittleEndian count value)).map Bytes.littleEndian
  rw [Bytes.length_ofNatLittleEndian,Bytes.littleEndian_ofNatLittleEndian] at read
  exact read

theorem little_reads (short : ε) {count value : Nat} (fits : value < 256^count) :
    Reads (little short count) (Bytes.ofNatLittleEndian count value) value := by
  have read := little_reads_mod short count value
  rwa [Nat.mod_eq_of_lt fits] at read

section Items
variable {ι : Type} {write : ι → Bytes} {value : ι → α} {items : List ι}

theorem upTo_whole (reads : ∀ i ∈ items, Reads r (write i) (value i)) (rest : Bytes) :
    upTo r items.length (items.flatMap write++rest) = (items.map value,rest) := by
  induction items with
  | nil => rfl
  | cons i others ih =>
    have first := (reads i (.head _)).whole (others.flatMap write++rest)
    rw [length_cons,flatMap_cons,append_assoc,upTo,first]
    dsimp only
    rw [ih fun i listed => reads i (.tail _ listed)]
    rfl

theorem upTo_cut (reads : ∀ i ∈ items, Reads r (write i) (value i)) {part : Bytes} (inside : part <+: items.flatMap write)
    (strict : part ≠ items.flatMap write) : ∃ j < items.length, (upTo r items.length part).1 = (items.take j).map value := by
  induction items generalizing part with
  | nil => exact absurd (List.prefix_nil.1 inside) strict
  | cons i others ih =>
    have first := reads i (.head _)
    rcases cut_append inside strict with ⟨early,lacking⟩ | ⟨late,rfl,later,lacking⟩
    · obtain ⟨error,failed⟩ := first.cut part early lacking
      exact ⟨0,by simp,by rw [length_cons,upTo,failed]; rfl⟩
    obtain ⟨j,less,read⟩ := ih (fun i listed => reads i (.tail _ listed)) later lacking
    refine ⟨j+1,by simpa using less,?_⟩
    rw [length_cons,upTo,first.whole]
    dsimp only
    rw [read]
    rfl

end Items
end Reader
end Ember
