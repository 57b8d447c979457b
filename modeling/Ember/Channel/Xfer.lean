import Ember.Library.Bytes
import Ember.Library.Table

/-! Files sent between members block by block. Requests and data are datagrams, which get lost, come twice and in any
order; what is late is asked for again. -/
namespace Ember.Channel
open List Table AList

def xferBlockSize : Nat := 1008
def xferWindowBlocks : Nat := 64
def xferBlockTimeoutMs : Nat := 4000

def xferBlockCount (size : Nat) : Nat := (size+(xferBlockSize-1))/xferBlockSize

structure SendState where
  size : Nat
  queue : List Nat := []
  queued : Finset Nat := ∅

namespace SendState

def totalBlocks (s : SendState) : Nat := xferBlockCount s.size

/-- The loop of `enqueue`, which a full queue ends. -/
def enqueueAll (s : SendState) : List Nat → SendState
  | [] => s
  | block :: rest =>
    if s.totalBlocks ≤ block ∨ block ∈ s.queued then s.enqueueAll rest
    else if xferWindowBlocks ≤ s.queue.length then s
    else enqueueAll { s with queue := s.queue++[block], queued := insert block s.queued } rest

def enqueue (s : SendState) (start count : Nat) : SendState := s.enqueueAll (range' start count)

def nextBlock (s : SendState) : Option Nat × SendState :=
  match s.queue with
  | [] => (none,s)
  | block :: rest => (some block,{ s with queue := rest, queued := s.queued.erase block })

structure Sound (bytes : Nat) (s : SendState) : Prop where
  size : s.size = bytes
  distinct : s.queue.Nodup
  few : s.queue.length ≤ xferWindowBlocks
  inside : ∀ b ∈ s.queue, b < xferBlockCount bytes
  listed : ∀ b, b ∈ s.queued ↔ b ∈ s.queue

theorem Sound.enqueueAll {bytes : Nat} {s : SendState} (sound : s.Sound bytes) (blocks : List Nat) :
    (s.enqueueAll blocks).Sound bytes := by
  induction blocks generalizing s with
  | nil => exact sound
  | cons block rest ih =>
    unfold SendState.enqueueAll
    split
    · exact ih sound
    next fresh =>
    rw [not_or,totalBlocks,sound.size,Nat.not_le,sound.listed] at fresh
    split
    · exact sound
    next room =>
    apply ih
    refine ⟨sound.size,?_,?_,?_,?_⟩
    · simpa using sound.distinct.concat fresh.2
    · simpa using Nat.lt_of_not_le room
    · simpa [or_imp,forall_and] using ⟨sound.inside,fresh.1⟩
    · simp [sound.listed,or_comm]

theorem Sound.nextBlock {bytes : Nat} {s : SendState} (sound : s.Sound bytes) : s.nextBlock.2.Sound bytes := by
  obtain ⟨size,distinct,few,inside,listed⟩ := sound
  unfold SendState.nextBlock
  split
  · exact ⟨size,distinct,few,inside,listed⟩
  next first rest shape =>
  rw [shape] at distinct few inside listed
  have apart := nodup_cons.1 distinct
  refine ⟨size,apart.2,(Nat.le_succ _).trans few,fun b member => inside b (mem_cons_of_mem _ member),fun b => ?_⟩
  rw [Finset.mem_erase,listed,mem_cons]
  constructor
  · intro both
    exact both.2.resolve_left both.1
  · intro member
    exact ⟨fun same => apart.1 (same ▸ member),.inr member⟩

end SendState

structure RecvState where
  size : Nat
  /-- The part file, by offset. -/
  file : Nat → UInt8
  /-- Where its handle stands, which a stream's clone of the handle shares. -/
  cursor : Nat := 0
  writePos : Option Nat := none
  held : Finset Nat := ∅
  haveBlocks : Nat := 0
  inflight : Table Nat Nat := ∅
  streaming : Bool := false
  firstMissing : Nat := 0

/-- The locals of the loop of `next_requests`. -/
structure Asking where
  budget : Nat
  inflight : Table Nat Nat
  run : Option (Nat × Nat) := none
  runs : List (Nat × Nat) := []

namespace RecvState
variable (r : RecvState)

def totalBlocks : Nat := xferBlockCount r.size

def advanceFirstMissing : RecvState :=
  let missing := (range' r.firstMissing (r.totalBlocks-r.firstMissing)).find? fun block => block ∉ r.held
  { r with firstMissing := missing.getD (max r.firstMissing r.totalBlocks) }

/-- `set`, and the counter beside it. -/
def hold (block : Nat) : RecvState :=
  if block ∈ r.held then r else { r with held := insert block r.held, haveBlocks := r.haveBlocks+1 }

def adoptVerified (verified : Nat) : RecvState :=
  let verified := min verified r.size
  let upto := if verified = r.size ∧ 0 < r.totalBlocks then r.totalBlocks else min (verified/xferBlockSize) r.totalBlocks
  { (range upto).foldl hold r with inflight := ∅, writePos := none }.advanceFirstMissing

/-- Whether a datagram is a whole block of the file, and no stream writes it. -/
def takes (offset : Nat) (data : Bytes) : Bool :=
  !r.streaming && data ≠ [] && offset < r.size && offset%xferBlockSize = 0 && offset+data.length ≤ r.size &&
    data.length = if offset/xferBlockSize+1 = r.totalBlocks then r.size-offset else xferBlockSize

def seek (offset : Nat) : RecvState := { r with cursor := offset }

/-- `write_all`, which starts where the cursor stands. -/
def writeAll (data : Bytes) : RecvState :=
  { r with file := fun i => if r.cursor ≤ i ∧ i < r.cursor+data.length then data.getD (i-r.cursor) 0 else r.file i
           cursor := r.cursor+data.length }

/-- No seek if the last block ended where this one starts. -/
def place (offset : Nat) (data : Bytes) : RecvState :=
  let placed := (if r.writePos = some offset then r else r.seek offset).writeAll data
  { placed with writePos := some (offset+data.length) }

def streamHandle : RecvState := { r with writePos := none }

def writeBlock (offset : Nat) (data : Bytes) : RecvState × Bool :=
  let block := offset/xferBlockSize
  if r.takes offset data then
    let inflight := r.inflight.erase block
    if block ∈ r.held then ({ r with inflight },false)
    else (((place { r with inflight } offset data).hold block).advanceFirstMissing,true)
  else (r,false)

def isComplete : Bool := r.totalBlocks ≤ r.haveBlocks

/-- One turn of the loop of `next_requests`, which an empty budget ends. -/
def askFor (now : Nat) (a : Asking) (block : Nat) : Asking :=
  if a.budget = 0 then a
  else if block ∈ r.held ∨ block ∈ a.inflight then { a with run := none, runs := a.runs++a.run.toList }
  else
    let a := { a with inflight := a.inflight.insert block now, budget := a.budget-1 }
    match a.run with
    | some (first,length) =>
      if length < xferWindowBlocks then { a with run := some (first,length+1) }
      else { a with run := some (block,1), runs := a.runs++[(first,length)] }
    | none => { a with run := some (block,1) }

def nextRequests (now : Nat) : RecvState × List (Nat × Nat) :=
  if r.streaming then (r,[])
  else
    let inflight := r.inflight.retain fun asked => if now-asked ≤ xferBlockTimeoutMs*1000000 then some asked else none
    let budget := xferWindowBlocks-inflight.keys.length
    if budget = 0 then ({ r with inflight },[])
    else
      let a := (range' r.firstMissing (r.totalBlocks-r.firstMissing)).foldl (r.askFor now) { budget, inflight }
      ({ r with inflight := a.inflight },a.runs++a.run.toList)

/-- What is waited for is part of the file and missing, and fits the window. -/
structure Waits (total : Nat) (held : Finset Nat) (inflight : Table Nat Nat) : Prop where
  few : inflight.keys.length ≤ xferWindowBlocks
  asked : ∀ b ∈ inflight, b < total ∧ b ∉ held

structure Sound (file : Bytes) : Prop where
  size : r.size = file.length
  counted : r.haveBlocks = r.held.card
  inside : ∀ b ∈ r.held, b < r.totalBlocks
  below : ∀ b < r.firstMissing, b ∈ r.held
  missing : r.firstMissing ∉ r.held
  right : ∀ i < file.length, i/xferBlockSize ∈ r.held → r.file i = file.getD i 0
  stands : ∀ pos, r.writePos = some pos → r.cursor = pos
  yields : r.streaming = true → r.writePos = none
  waits : Waits r.totalBlocks r.held r.inflight

theorem hold_all (blocks : List Nat) {r : RecvState} (counted : r.haveBlocks = r.held.card) :
    blocks.foldl hold r = { r with held := r.held ∪ blocks.toFinset, haveBlocks := (r.held ∪ blocks.toFinset).card } := by
  induction blocks generalizing r with
  | nil => simp [← counted]
  | cons block rest ih =>
    rw [foldl_cons,hold]
    split
    next there => rw [ih counted]; simp [there]
    next fresh =>
      rw [ih (by simp [counted,fresh])]
      simp

variable {r} {file : Bytes}

theorem advance_spec (below : ∀ b < r.firstMissing, b ∈ r.held) (inside : ∀ b ∈ r.held, b < r.totalBlocks) :
    (∀ b < r.advanceFirstMissing.firstMissing, b ∈ r.held) ∧ r.advanceFirstMissing.firstMissing ∉ r.held := by
  unfold advanceFirstMissing
  dsimp only
  cases found : (range' r.firstMissing (r.totalBlocks-r.firstMissing)).find? fun block => block ∉ r.held with
  | none =>
    rw [find?_range'_eq_none] at found
    rw [Option.getD_none]
    refine ⟨fun b low => ?_,fun member => ?_⟩
    · by_cases before : b < r.firstMissing
      · exact below b before
      · simpa using found b (by omega) (by omega)
    · have := inside _ member
      omega
  | some first =>
    obtain ⟨missing,-,between⟩ := find?_range'_eq_some.1 found
    refine ⟨fun b low => ?_,by simpa using missing⟩
    by_cases before : b < r.firstMissing
    · exact below b before
    · simpa using between b (Nat.le_of_not_lt before) low

/-- Where the handle is believed to stand, it does, and writing there is writing at the offset. -/
theorem place_eq (stands : ∀ pos, r.writePos = some pos → r.cursor = pos) (offset : Nat) (data : Bytes) :
    r.place offset data = { r with
      file := fun i => if offset ≤ i ∧ i < offset+data.length then data.getD (i-offset) 0 else r.file i
      cursor := offset+data.length
      writePos := some (offset+data.length) } := by
  unfold place writeAll seek
  split
  next resumed =>
    obtain rfl := stands offset resumed
    rfl
  · rfl

/-- Blocks come in with their bytes, and are no longer waited for. -/
theorem Sound.gain (sound : r.Sound file) {gained : Finset Nat} {part : Nat → UInt8} {inflight : Table Nat Nat} {cursor : Nat}
    {writePos : Option Nat} (inside : ∀ b ∈ gained, b < r.totalBlocks)
    (right : ∀ i < file.length, i/xferBlockSize ∈ r.held ∪ gained → part i = file.getD i 0)
    (stands : ∀ pos, writePos = some pos → cursor = pos) (yields : r.streaming = true → writePos = none)
    (waits : Waits r.totalBlocks (r.held ∪ gained) inflight) :
    (advanceFirstMissing { r with file := part, held := r.held ∪ gained, haveBlocks := (r.held ∪ gained).card, inflight := inflight,
                                  cursor := cursor, writePos := writePos }).Sound file := by
  have within : ∀ b ∈ r.held ∪ gained, b < r.totalBlocks := fun b member => (Finset.mem_union.1 member).elim (sound.inside b) (inside b)
  have passed := advance_spec (r := { r with file := part, held := r.held ∪ gained, haveBlocks := (r.held ∪ gained).card,
                                             inflight := inflight, cursor := cursor, writePos := writePos })
    (fun b low => Finset.mem_union_left _ (sound.below b low)) within
  exact ⟨sound.size,rfl,within,passed.1,passed.2,right,stands,yields,waits⟩

theorem Sound.isComplete_iff (sound : r.Sound file) : r.isComplete = true ↔ ∀ b < r.totalBlocks, b ∈ r.held := by
  have within : r.held ⊆ Finset.range r.totalBlocks := fun b held => Finset.mem_range.2 (sound.inside b held)
  have full := Finset.eq_iff_card_ge_of_superset within
  rw [Finset.card_range,← sound.counted] at full
  rw [isComplete,decide_eq_true_eq,full]
  constructor
  · exact fun same b low => same ▸ Finset.mem_range.2 low
  · exact fun all => Finset.Subset.antisymm (fun b low => all b (Finset.mem_range.1 low)) within

theorem Sound.adoptVerified (sound : r.Sound file) {verified : Nat}
    (checked : ∀ i < min verified file.length, r.file i = file.getD i 0) : (r.adoptVerified verified).Sound file := by
  unfold RecvState.adoptVerified
  dsimp only
  rw [hold_all _ sound.counted]
  refine sound.gain (fun b member => ?_) (fun i low member => ?_) (fun _ none => by cases none) (fun _ => rfl)
    ⟨Nat.zero_le _,fun b none => absurd none (notMem_empty b)⟩
  · rw [mem_toFinset,mem_range] at member
    split at member <;> omega
  · rw [Finset.mem_union,mem_toFinset,mem_range] at member
    rcases member with old | new
    · exact sound.right i low old
    apply checked
    rw [← sound.size] at low ⊢
    split at new
    · omega
    · have := Nat.div_add_mod i xferBlockSize
      have := Nat.mod_lt i (show 0 < xferBlockSize by decide)
      have := Nat.div_mul_le_self (min verified r.size) xferBlockSize
      unfold xferBlockSize at *
      omega

theorem chunk_getD {block i : Nat} (here : i/xferBlockSize = block) (low : i < file.length) :
    i-block*xferBlockSize < (Bytes.chunk xferBlockSize file block).length ∧
      (Bytes.chunk xferBlockSize file block).getD (i-block*xferBlockSize) 0 = file.getD i 0 := by
  have bounds : block*xferBlockSize ≤ i ∧ i < (block+1)*xferBlockSize := by
    unfold xferBlockSize at *
    omega
  have inside : i-block*xferBlockSize < (block+1)*xferBlockSize-block*xferBlockSize := by omega
  constructor
  · rw [Bytes.chunk,Bytes.slice,length_take,length_drop]
    omega
  · rw [Bytes.chunk,Bytes.slice,getD_eq_getElem?_getD,getElem?_take_of_lt inside,getElem?_drop,Nat.add_sub_cancel' bounds.1,getD_eq_getElem?_getD]

theorem Sound.writeBlock (sound : r.Sound file) (block : Nat) :
    (r.writeBlock (block*xferBlockSize) (Bytes.chunk xferBlockSize file block)).1.Sound file := by
  have few : (r.inflight.erase block).keys.length ≤ xferWindowBlocks := by
    rw [keys_erase]
    exact (erase_sublist ..).length_le.trans sound.waits.few
  unfold RecvState.writeBlock
  dsimp only
  rw [Nat.mul_div_cancel _ (by decide)]
  split
  next whole =>
    split
    · exact { sound with waits := ⟨few,fun b member => sound.waits.asked b (AList.mem_erase.1 member).2⟩ }
    next fresh =>
    rw [place_eq (r := { r with inflight := r.inflight.erase block }) sound.stands,
      show ∀ r : RecvState, r.hold block = [block].foldl hold r from fun _ => rfl,hold_all]
    swap
    · exact sound.counted
    have short : (Bytes.chunk xferBlockSize file block).length ≤ xferBlockSize := by
      rw [Bytes.chunk,Bytes.slice,length_take,Nat.add_mul,Nat.add_sub_cancel_left,Nat.one_mul]
      exact Nat.min_le_left ..
    have still : r.streaming = false := by
      simp only [takes,Bool.and_eq_true,Bool.not_eq_true'] at whole
      exact whole.1.1.1.1.1
    refine sound.gain (fun b member => ?_) (fun i low member => ?_) (fun _ same => Option.some.inj same)
      (fun streams => by rw [still] at streams; cases streams) ⟨few,fun b member => ?_⟩
    · simp only [takes,Bool.and_eq_true,decide_eq_true_eq] at whole
      rw [mem_toFinset,mem_singleton] at member
      have size := whole.1.1.1.2
      unfold totalBlocks xferBlockCount
      unfold xferBlockSize at *
      omega
    · rw [Finset.mem_union,mem_toFinset,mem_singleton] at member
      by_cases here : i/xferBlockSize = block
      · obtain ⟨inside,same⟩ := chunk_getD here low
        have bound : block*xferBlockSize ≤ i := here ▸ Nat.div_mul_le_self ..
        exact (if_pos ⟨bound,by omega⟩).trans same
      · refine (if_neg ?_).trans ?_
        · unfold xferBlockSize at *
          omega
        · exact sound.right i low (member.resolve_right here)
    · obtain ⟨other,waiting⟩ := AList.mem_erase.1 member
      obtain ⟨inside,missing⟩ := sound.waits.asked b waiting
      exact ⟨inside,by simp [missing,other]⟩
  · exact sound

theorem askFor_cases (now : Nat) (a : Asking) (block : Nat) :
    a.inflight = (r.askFor now a block).inflight ∧ a.budget = (r.askFor now a block).budget ∧
        (a.budget = 0 ∨ block ∈ r.held ∨ block ∈ a.inflight) ∨
      (r.askFor now a block).inflight = a.inflight.insert block now ∧ a.budget = (r.askFor now a block).budget+1 ∧
        block ∉ r.held ∧ block ∉ a.inflight := by
  unfold askFor
  split
  next spent => exact .inl ⟨rfl,rfl,.inl spent⟩
  next left =>
  split
  next known => exact .inl ⟨rfl,rfl,.inr known⟩
  next wanted =>
  rw [not_or] at wanted
  have paid : a.budget = a.budget-1+1 := by omega
  right
  dsimp only
  split
  · split <;> exact ⟨rfl,paid,wanted⟩
  · exact ⟨rfl,paid,wanted⟩

theorem askFor_all (now : Nat) (blocks : List Nat) (a : Asking) (inside : ∀ b ∈ blocks, b < r.totalBlocks)
    (few : a.budget+a.inflight.keys.length ≤ xferWindowBlocks) (asked : ∀ b ∈ a.inflight, b < r.totalBlocks ∧ b ∉ r.held) :
    Waits r.totalBlocks r.held (blocks.foldl (r.askFor now) a).inflight ∧
      ∀ b, b ∈ a.inflight ∨ blocks.head? = some b ∧ 0 < a.budget ∧ b ∉ r.held → b ∈ (blocks.foldl (r.askFor now) a).inflight := by
  induction blocks generalizing a with
  | nil => exact ⟨⟨(Nat.le_add_left ..).trans few,asked⟩,fun b wanted => by simpa using wanted⟩
  | cons block rest ih =>
    rw [forall_mem_cons] at inside
    simp only [foldl_cons,head?_cons,Option.some.injEq]
    obtain ⟨same,budget,known⟩ | ⟨more,paid,missing,unasked⟩ := askFor_cases (r := r) now a block
    · obtain ⟨waits,kept⟩ := ih (r.askFor now a block) inside.2 (same ▸ budget ▸ few) (same ▸ asked)
      refine ⟨waits,fun b wanted => kept b (.inl ?_)⟩
      rw [← same]
      obtain old | ⟨rfl,left,missing⟩ := wanted
      · exact old
      · exact (known.resolve_left left.ne').resolve_left missing
    rw [paid] at few
    obtain ⟨waits,kept⟩ := ih (r.askFor now a block) inside.2
      (by rw [more,keys_insert,erase_of_not_mem unasked,length_cons]; omega) (by
        rw [more]
        intro b member
        obtain rfl | old := (mem_insert _).1 member
        · exact ⟨inside.1,missing⟩
        · exact asked b old)
    refine ⟨waits,fun b wanted => kept b (.inl ?_)⟩
    rw [more]
    exact (mem_insert _).2 (wanted.symm.imp (fun first => first.1.symm) id)

def Recent (now : Nat) (inflight : Table Nat Nat) : Prop :=
  ∀ b asked, inflight.lookup b = some asked → now-asked ≤ xferBlockTimeoutMs*1000000

theorem askFor_recent {now : Nat} (blocks : List Nat) {a : Asking} (recent : Recent now a.inflight) :
    Recent now (blocks.foldl (r.askFor now) a).inflight := by
  induction blocks generalizing a with
  | nil => exact recent
  | cons block rest ih =>
    apply ih
    obtain ⟨same,-⟩ | ⟨more,-⟩ := askFor_cases (r := r) now a block
    · exact same ▸ recent
    · intro b asked found
      rw [more] at found
      grind [Recent,lookup_insert,lookup_insert_ne]

/-- Asking changes only what is waited for. -/
theorem nextRequests_keeps (r : RecvState) (now : Nat) :
    (r.nextRequests now).1.size = r.size ∧ (r.nextRequests now).1.held = r.held := by
  unfold RecvState.nextRequests
  split
  · exact ⟨rfl,rfl⟩
  dsimp only
  split <;> exact ⟨rfl,rfl⟩

theorem Sound.nextRequests (sound : r.Sound file) (now : Nat) : (r.nextRequests now).1.Sound file ∧ (r.streaming = true ∨
    Recent now (r.nextRequests now).1.inflight ∧ (r.isComplete = true ∨ ∃ b, b ∈ (r.nextRequests now).1.inflight)) := by
  unfold RecvState.nextRequests
  split
  next streams => exact ⟨sound,.inl streams⟩
  dsimp only
  generalize still : r.inflight.retain _ = inflight
  have stays : ∀ b asked, inflight.lookup b = some asked → b ∈ r.inflight ∧ now-asked ≤ xferBlockTimeoutMs*1000000 := by
    intro b asked found
    rw [← still,lookup_retain,Option.bind_eq_some_iff] at found
    rw [← lookup_isSome]
    grind
  have kept : ∀ b ∈ inflight, b ∈ r.inflight := by
    intro b member
    obtain ⟨asked,found⟩ := Option.isSome_iff_exists.1 (lookup_isSome.2 member)
    exact (stays b asked found).1
  have recent : Recent now inflight := fun b asked found => (stays b asked found).2
  have few : inflight.keys.length ≤ xferWindowBlocks :=
    ((keys_nodup _).subperm fun b member => kept b member).length_le.trans sound.waits.few
  have asked := fun b member => sound.waits.asked b (kept b member)
  split
  next full =>
    refine ⟨{ sound with waits := ⟨few,asked⟩ },.inr ⟨recent,.inr ?_⟩⟩
    obtain ⟨b,member⟩ := exists_mem_of_length_pos (l := inflight.keys) (by unfold xferWindowBlocks at full; omega)
    exact ⟨b,member⟩
  next spare =>
  have inside : ∀ b ∈ range' r.firstMissing (r.totalBlocks-r.firstMissing), b < r.totalBlocks := by
    intro b member
    rw [mem_range'_1] at member
    omega
  obtain ⟨waits,kept⟩ := askFor_all now _ { budget := xferWindowBlocks-inflight.keys.length, inflight } inside (by simp; omega) asked
  refine ⟨{ sound with waits },.inr ⟨askFor_recent _ recent,?_⟩⟩
  by_cases done : r.totalBlocks ≤ r.firstMissing
  · exact .inl (sound.isComplete_iff.2 fun b low => sound.below b (low.trans_le done))
  refine .inr ⟨r.firstMissing,kept _ (.inr ⟨?_,Nat.pos_of_ne_zero spare,sound.missing⟩)⟩
  rw [head?_range',if_neg (by omega)]

end RecvState

/-- Both ends of a transfer and every datagram ever sent, any of which may arrive any number of times. -/
structure Transfer where
  sender : SendState
  receiver : RecvState
  requests : List (Nat × Nat) := []
  blocks : List Nat := []

inductive Transfer.Event where
  | ask (now : Nat)
  | request (asked : Nat × Nat)
  | send
  | deliver (block : Nat)
  | openStream
  | stream (writes : Nat → Bool) (cursor : Nat)
  | endStream
  | adopt (verified : Nat)

namespace Transfer
variable (file : Bytes)

/-- A stream writes bytes of the file anywhere while it is open and leaves the cursor anywhere; what is adopted of
its work is right. -/
def perform (t : Transfer) : Event → Transfer
  | .ask now =>
    let asked := t.receiver.nextRequests now
    { t with receiver := asked.1, requests := t.requests++asked.2 }
  | .request asked => if asked ∈ t.requests then { t with sender := t.sender.enqueue asked.1 asked.2 } else t
  | .send => { t with sender := t.sender.nextBlock.2, blocks := t.blocks++t.sender.nextBlock.1.toList }
  | .deliver block =>
    if block ∈ t.blocks then
      { t with receiver := (t.receiver.writeBlock (block*xferBlockSize) (Bytes.chunk xferBlockSize file block)).1 }
    else t
  | .openStream => { t with receiver := { t.receiver.streamHandle with streaming := true } }
  | .stream writes cursor =>
    if t.receiver.streaming then
      { t with receiver := { t.receiver with cursor, file := fun i => if writes i then file.getD i 0 else t.receiver.file i } }
    else t
  | .endStream => { t with receiver := { t.receiver with streaming := false } }
  | .adopt verified =>
    if ∀ i < min verified file.length, t.receiver.file i = file.getD i 0 then
      { t with receiver := t.receiver.adoptVerified verified }
    else t

def start (part : Nat → UInt8) : Transfer := ⟨{ size := file.length },{ size := file.length, file := part },[],[]⟩

structure Sound (t : Transfer) : Prop where
  sender : t.sender.Sound file.length
  receiver : t.receiver.Sound file

variable {file}

theorem Sound.perform {t : Transfer} (sound : t.Sound file) (e : Event) : (t.perform file e).Sound file := by
  obtain ⟨sender,receiver⟩ := sound
  cases e with
  | ask now => exact ⟨sender,(receiver.nextRequests now).1⟩
  | request asked =>
    dsimp only [Transfer.perform]
    split
    · exact ⟨sender.enqueueAll _,receiver⟩
    · exact ⟨sender,receiver⟩
  | send => exact ⟨sender.nextBlock,receiver⟩
  | deliver block =>
    dsimp only [Transfer.perform]
    split
    · exact ⟨sender,receiver.writeBlock block⟩
    · exact ⟨sender,receiver⟩
  | openStream =>
    refine ⟨sender,{ receiver with stands := fun pos none => ?_, yields := fun _ => rfl }⟩
    cases none
  | stream writes cursor =>
    dsimp only [Transfer.perform]
    split
    next streams =>
      refine ⟨sender,{ receiver with right := fun i low held => ?_, stands := fun pos stood => ?_ }⟩
      · change (if writes i then _ else _) = _
        split
        · rfl
        · exact receiver.right i low held
      · have none := (receiver.yields streams).symm.trans stood
        cases none
    · exact ⟨sender,receiver⟩
  | endStream =>
    refine ⟨sender,{ receiver with yields := fun streams => ?_ }⟩
    cases streams
  | adopt verified =>
    dsimp only [Transfer.perform]
    split
    next checked => exact ⟨sender,receiver.adoptVerified checked⟩
    · exact ⟨sender,receiver⟩

theorem sound_after (file : Bytes) (part : Nat → UInt8) (events : List Event) :
    (events.foldl (perform file) (start file part)).Sound file := by
  induction events using List.reverseRecOn with
  | nil =>
    refine ⟨⟨rfl,nodup_nil,Nat.zero_le _,?_,?_⟩,⟨rfl,rfl,?_,?_,?_,?_,?_,fun _ => rfl,Nat.zero_le _,?_⟩⟩ <;> simp [start]
  | append_singleton events e ih =>
    rw [foldl_append]
    exact ih.perform e

/-- Whatever the network does, the blocks counted are held and have the sender's bytes, and a complete transfer is the file. -/
theorem transfer_exact (file : Bytes) (part : Nat → UInt8) (events : List Event) :
    let t := events.foldl (perform file) (start file part)
    t.Sound file ∧ (t.receiver.isComplete = true ↔ ∀ b < t.receiver.totalBlocks, b ∈ t.receiver.held) ∧
      (t.receiver.isComplete = true → ∀ i < file.length, t.receiver.file i = file.getD i 0) := by
  intro t
  have sound : t.Sound file := sound_after file part events
  have received := sound.receiver
  refine ⟨sound,received.isComplete_iff,fun done i low => ?_⟩
  apply received.right i low
  apply received.isComplete_iff.1 done
  unfold RecvState.totalBlocks xferBlockCount
  rw [received.size]
  unfold xferBlockSize
  omega

/-- A receiver that asks waits, before its file is complete, for a missing block it asked for no longer than the timeout
ago. -/
theorem asked_while_incomplete (file : Bytes) (part : Nat → UInt8) (events : List Event) (now : Nat) :
    let t := events.foldl (perform file) (start file part)
    t.receiver.isComplete = true ∨ t.receiver.streaming = true ∨
      ∃ b asked, b < t.receiver.totalBlocks ∧ b ∉ t.receiver.held ∧
        (t.receiver.nextRequests now).1.inflight.lookup b = some asked ∧ now-asked ≤ xferBlockTimeoutMs*1000000 := by
  intro t
  obtain ⟨sound,streams | ⟨recent,done | ⟨b,waits⟩⟩⟩ := (sound_after file part events).receiver.nextRequests now
  · exact .inr (.inl streams)
  · exact .inl done
  · obtain ⟨asked,found⟩ := Option.isSome_iff_exists.1 (lookup_isSome.2 waits)
    obtain ⟨inside,missing⟩ := sound.waits.asked b waits
    obtain ⟨size,held⟩ := RecvState.nextRequests_keeps t.receiver now
    rw [held] at missing
    rw [RecvState.totalBlocks,size] at inside
    exact .inr (.inr ⟨b,asked,inside,missing,found,recent b asked found⟩)

end Transfer
end Ember.Channel
