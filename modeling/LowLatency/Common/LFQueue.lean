import LowLatency.Common.Types
import LowLatency.Lib.RingBuffer

/-!
# `LFQueue`: the single-producer single-consumer queue

`src/common/lf_queue.h`. The pointer that `getNextToWriteTo` or
`getNextToRead` returns is the index of its slot. The three atomics are updated
one after the other, and each side of the queue is interrupted between any two
of them, so the operations are given here access by access; `updateWriteIndex`
and `updateReadIndex` run their accesses in sequence for callers whose other
side is at rest.

`Spsc` runs one producer against one consumer in any order. The producer starts
an element only after `size() < capacity`; the consumer tests `size()`, reads
the slot, stores the read index, evaluates the `ASSERT` and decrements the
count. What relates the indices, the count and the slots in the middle of an
operation is `Tracks`: the queue after the producer has filled
`written.length` slots, moved its index `i` and counted `p` of them, and the
consumer moved its index `j` and given back `d`. Every access moves one of these
five numbers, and `lfQueue_fifo` only has to say which numbers agree at each
point of the two programs (`ProducerAt`, `ConsumerAt`).

No producer of the system makes that test. `Counted.intact_iff` says what a
burst sent to an empty queue comes to: it can be read back if and only if it is
no longer than the capacity.
-/

namespace LowLatency

structure LFQueue (T : Type) where
  store_ : Nat → T
  capacity : Nat
  next_write_index_ : Nat
  next_read_index_ : Nat
  num_elements_ : Nat

namespace LFQueue

variable {T : Type}

/-- The constructor: `num_elems` default elements. -/
def init (num_elems : Nat) (dflt : T) : LFQueue T where
  store_ := fun _ => dflt
  capacity := num_elems
  next_write_index_ := 0
  next_read_index_ := 0
  num_elements_ := 0

def size (q : LFQueue T) : Nat := q.num_elements_

def getNextToWriteTo (q : LFQueue T) : Nat := q.next_write_index_

def getNextToRead (q : LFQueue T) : Option Nat :=
  if q.size ≠ 0 then some q.next_read_index_ else none

/-- `*ptr = x` through the pointer `getNextToWriteTo` returned. -/
def write (q : LFQueue T) (ptr : Nat) (x : T) : LFQueue T :=
  { q with store_ := Function.update q.store_ ptr x }

/-- The store of `next_write_index_` in `updateWriteIndex`. -/
def storeWriteIndex (q : LFQueue T) : LFQueue T :=
  { q with next_write_index_ := (q.next_write_index_ + 1) % q.capacity }

/-- `num_elements_++`. -/
def countUp (q : LFQueue T) : LFQueue T := { q with num_elements_ := q.num_elements_ + 1 }

def updateWriteIndex (q : LFQueue T) : LFQueue T := q.storeWriteIndex.countUp

/-- The store of `next_read_index_` in `updateReadIndex`. -/
def storeReadIndex (q : LFQueue T) : LFQueue T :=
  { q with next_read_index_ := (q.next_read_index_ + 1) % q.capacity }

/-- The `ASSERT` of `updateReadIndex`, a load of its own. -/
def checkCount (q : LFQueue T) : Exec Unit :=
  ASSERT (decide (q.num_elements_ ≠ 0)) "Read an invalid element from LFQueue."

/-- `num_elements_--`. -/
def countDown (q : LFQueue T) : LFQueue T := { q with num_elements_ := q.num_elements_ - 1 }

def updateReadIndex (q : LFQueue T) : Exec (LFQueue T) := do
  let q := q.storeReadIndex
  q.checkCount
  return q.countDown

/-! ## The queue in the middle of its operations -/

/-- The queue after `W` has been written slot by slot, the write index stored
`i` times, the count raised `p` times, the read index stored `j` times and the
count lowered `d` times. -/
structure Tracks (q : LFQueue T) (W : List T) (i p j d : Nat) : Prop where
  write_index : q.next_write_index_ = i % q.capacity
  read_index : q.next_read_index_ = j % q.capacity
  count : q.num_elements_ + d = p
  /-- everything not yet given back is still in its slot -/
  slots : Lib.Window q.capacity q.store_ W d
  counted_le : p ≤ i
  stored_le : i ≤ W.length
  given_le : d ≤ j
  /-- the producer never gets further ahead than the capacity -/
  room : W.length ≤ d + q.capacity

theorem Tracks.init (N : Nat) (dflt : T) : Tracks (LFQueue.init N dflt) [] 0 0 0 0 where
  write_index := (Nat.zero_mod N).symm
  read_index := (Nat.zero_mod N).symm
  count := rfl
  slots := Lib.Window.nil _ _ _
  counted_le := le_rfl
  stored_le := le_rfl
  given_le := le_rfl
  room := Nat.zero_le _

section Accesses

variable {q : LFQueue T} {W : List T} {i p j d : Nat}

/-- Filling the slot under the write index, with room for one more. -/
theorem Tracks.write (h : Tracks q W i p j d) (x : T) (hi : i = W.length)
    (hroom : W.length < d + q.capacity) :
    Tracks (q.write q.getNextToWriteTo x) (W ++ [x]) i p j d := by
  refine { h with slots := ?_, stored_le := ?_, room := ?_ }
  · show Lib.Window q.capacity (Function.update q.store_ q.next_write_index_ x) (W ++ [x]) d
    rw [h.write_index, hi]
    exact h.slots.write x hroom
  · rw [List.length_append]
    exact h.stored_le.trans (Nat.le_add_right _ _)
  · show (W ++ [x]).length ≤ d + q.capacity
    simp only [List.length_append, List.length_singleton]
    omega

theorem Tracks.storeWriteIndex (h : Tracks q W i p j d) (hi : i < W.length) :
    Tracks q.storeWriteIndex W (i + 1) p j d := by
  refine { h with write_index := ?_, counted_le := ?_, stored_le := hi }
  · show (q.next_write_index_ + 1) % q.capacity = (i + 1) % q.capacity
    rw [h.write_index, Nat.mod_add_mod]
  · exact h.counted_le.trans (Nat.le_succ i)

theorem Tracks.countUp (h : Tracks q W i p j d) (hp : p < i) :
    Tracks q.countUp W i (p + 1) j d := by
  refine { h with count := ?_, counted_le := hp }
  show q.num_elements_ + 1 + d = p + 1
  have := h.count
  omega

/-- The slot under the read index, when something not given back is in it. -/
theorem Tracks.read (h : Tracks q W i p j d) (hj : j < W.length) :
    W[j]? = some (q.store_ q.next_read_index_) := by
  obtain ⟨x, hx⟩ : ∃ x, W[j]? = some x := ⟨W[j], List.getElem?_eq_getElem hj⟩
  rw [hx, h.read_index, h.slots j x h.given_le hx]

theorem Tracks.storeReadIndex (h : Tracks q W i p j d) :
    Tracks q.storeReadIndex W i p (j + 1) d := by
  refine { h with read_index := ?_, given_le := h.given_le.trans (Nat.le_succ j) }
  show (q.next_read_index_ + 1) % q.capacity = (j + 1) % q.capacity
  rw [h.read_index, Nat.mod_add_mod]

theorem Tracks.countDown (h : Tracks q W i p j d) (hd : d < j) (hp : d < p) :
    Tracks q.countDown W i p j (d + 1) := by
  refine { h with count := ?_, slots := h.slots.mono (Nat.le_succ d), given_le := hd, room := ?_ }
  · show q.num_elements_ - 1 + (d + 1) = p
    have := h.count
    omega
  · show W.length ≤ d + 1 + q.capacity
    have := h.room
    omega

theorem Tracks.checkCount (h : Tracks q W i p j d) (hp : d < p) : q.checkCount = .ok () := by
  have hne : q.num_elements_ ≠ 0 := by
    have := h.count
    omega
  simp [LFQueue.checkCount, hne]

theorem Tracks.num_le (h : Tracks q W i p j d) : q.num_elements_ ≤ q.capacity := by
  have h1 := h.count
  have h2 := h.counted_le
  have h3 := h.stored_le
  have h4 := h.room
  omega

end Accesses

/-! ## One side at rest -/

/-- Fill the next slot and publish it, as every producer of the system does. -/
def send (q : LFQueue T) (x : T) : LFQueue T := (q.write q.getNextToWriteTo x).updateWriteIndex

/-- Read up to `fuel` elements while there are any. -/
def drain : Nat → LFQueue T → Exec (List T × LFQueue T)
  | 0, q => .ok ([], q)
  | fuel + 1, q =>
    match q.getNextToRead with
    | none => .ok ([], q)
    | some ptr => do
      let q' ← q.updateReadIndex
      let (xs, q') ← drain fuel q'
      return (q.store_ ptr :: xs, q')

/-- The queue is within its capacity, and reading all of it gives `xs`. -/
def Intact (q : LFQueue T) (xs : List T) : Prop :=
  q.size ≤ q.capacity ∧ ∃ q', q.drain q.size = .ok (xs, q')

/-- The write index is as far ahead of the read index as the count says, which
holds whether or not elements have been overwritten. -/
structure Counted (q : LFQueue T) : Prop where
  lt : q.next_read_index_ < q.capacity
  ahead : q.next_write_index_ = (q.next_read_index_ + q.num_elements_) % q.capacity

theorem Counted.init {N : Nat} (hN : 0 < N) (dflt : T) : Counted (LFQueue.init N dflt) where
  lt := hN
  ahead := (Nat.zero_mod N).symm

theorem Counted.send {q : LFQueue T} (h : Counted q) (x : T) : Counted (q.send x) where
  lt := h.lt
  ahead := by
    show (q.next_write_index_ + 1) % q.capacity
      = (q.next_read_index_ + (q.num_elements_ + 1)) % q.capacity
    rw [h.ahead, Nat.mod_add_mod]
    rfl

theorem Counted.sendAll {q : LFQueue T} (h : Counted q) (xs : List T) :
    Counted (xs.foldl LFQueue.send q) := by
  induction xs generalizing q with
  | nil => exact h
  | cons x xs ih => exact ih (h.send x)

theorem Counted.updateReadIndex {q q' : LFQueue T} (h : Counted q)
    (hr : q.updateReadIndex = .ok q') :
    Counted q' ∧ q'.num_elements_ + 1 = q.num_elements_ ∧ q'.capacity = q.capacity := by
  have hcap : 0 < q.capacity := Nat.zero_lt_of_lt h.lt
  unfold LFQueue.updateReadIndex at hr
  obtain ⟨_, hcheck, hr⟩ := exec_bind_ok hr
  have hne : q.num_elements_ ≠ 0 := by
    intro hz
    simp [checkCount, storeReadIndex, hz] at hcheck
  obtain rfl : q.storeReadIndex.countDown = q' := by simpa using hr
  refine ⟨⟨Nat.mod_lt _ hcap, ?_⟩, ?_, rfl⟩
  · show q.next_write_index_
      = ((q.next_read_index_ + 1) % q.capacity + (q.num_elements_ - 1)) % q.capacity
    rw [Nat.mod_add_mod, h.ahead]
    congr 1
    omega
  · show q.num_elements_ - 1 + 1 = q.num_elements_
    omega

theorem updateReadIndex_ok {q : LFQueue T} (h : q.size ≠ 0) : ∃ q', q.updateReadIndex = .ok q' := by
  refine ⟨q.storeReadIndex.countDown, ?_⟩
  unfold LFQueue.size at h
  simp [updateReadIndex, checkCount, storeReadIndex, h]

@[simp] theorem capacity_send (q : LFQueue T) (x : T) : (q.send x).capacity = q.capacity := rfl

@[simp] theorem size_send (q : LFQueue T) (x : T) : (q.send x).size = q.size + 1 := rfl

theorem sendAll_counts (xs : List T) (q : LFQueue T) :
    (xs.foldl send q).size = q.size + xs.length ∧ (xs.foldl send q).capacity = q.capacity := by
  induction xs generalizing q with
  | nil => exact ⟨rfl, rfl⟩
  | cons x xs ih =>
    obtain ⟨hsize, hcap⟩ := ih (q.send x)
    refine ⟨?_, hcap⟩
    rw [List.foldl_cons, hsize, size_send, List.length_cons]
    omega

/-- The consumer at rest after `j` elements, the producer after all of `W`. -/
abbrev AtRest (q : LFQueue T) (W : List T) (j : Nat) : Prop := Tracks q W W.length W.length j j

/-- An empty queue has given back all there ever was. -/
theorem Counted.atRest {q : LFQueue T} (h : Counted q) (hz : q.size = 0) :
    ∃ W, AtRest q W W.length := by
  have hlen : ((List.range q.next_read_index_).map q.store_).length = q.next_read_index_ := by simp
  unfold LFQueue.size at hz
  have hmod : q.next_read_index_ % q.capacity = q.next_read_index_ := Nat.mod_eq_of_lt h.lt
  refine ⟨(List.range q.next_read_index_).map q.store_, ?_, ?_, ?_, ?_, le_rfl, le_rfl, le_rfl, ?_⟩
  · rw [hlen, h.ahead, hz, Nat.add_zero]
  · rw [hlen, hmod]
  · omega
  · intro k x hk hx
    rw [List.getElem?_eq_none hk] at hx
    exact absurd hx (by simp)
  · omega

theorem Tracks.send {q : LFQueue T} {W : List T} {j : Nat} (h : AtRest q W j) (x : T)
    (hroom : W.length < j + q.capacity) : AtRest (q.send x) (W ++ [x]) j := by
  have hw := h.write x rfl hroom
  have hs := hw.storeWriteIndex (by simp)
  have hc := hs.countUp (by omega)
  unfold AtRest
  rw [List.length_append, List.length_singleton]
  exact hc

theorem Tracks.sendAll {q : LFQueue T} {W : List T} {j : Nat} (xs : List T) (h : AtRest q W j)
    (hroom : W.length + xs.length ≤ j + q.capacity) :
    AtRest (xs.foldl LFQueue.send q) (W ++ xs) j := by
  induction xs generalizing q W with
  | nil => simpa using h
  | cons x xs ih =>
    rw [List.length_cons] at hroom
    have h₁ := h.send x (by omega)
    have h₂ := ih h₁ (by
      rw [List.length_append, List.length_singleton, capacity_send]
      omega)
    rwa [List.append_assoc, List.singleton_append] at h₂

/-- **Draining** a queue at rest gives what was not yet read, in order. -/
theorem Tracks.drain {q : LFQueue T} {W : List T} {j : Nat} (n : Nat) (h : AtRest q W j)
    (hn : j + n = W.length) : ∃ q', q.drain n = .ok (W.drop j, q') := by
  induction n generalizing q j with
  | zero => exact ⟨q, by rw [List.drop_eq_nil_of_le (by omega)]; rfl⟩
  | succ n ih =>
    have hj : j < W.length := by omega
    have hne : q.size ≠ 0 := by
      have := h.count
      unfold LFQueue.size
      omega
    have hread : W[j] = q.store_ q.next_read_index_ := by
      have hr := h.read hj
      rw [List.getElem?_eq_getElem hj] at hr
      exact Option.some.inj hr
    have h₁ := h.storeReadIndex
    have hcheck := h₁.checkCount hj
    have h₂ := h₁.countDown (by omega) hj
    obtain ⟨q', hq'⟩ := ih h₂ (by omega)
    refine ⟨q', ?_⟩
    rw [List.drop_eq_getElem_cons hj, hread]
    simp only [LFQueue.drain, getNextToRead, if_pos hne, updateReadIndex, hcheck, exec_ok_bind,
      exec_pure, hq']

/-- **A burst survives exactly when it fits**: `xs` written to an empty queue
before its consumer runs. -/
theorem Counted.intact_iff {q : LFQueue T} (h : Counted q) (hz : q.size = 0) (xs : List T) :
    (xs.foldl LFQueue.send q).Intact xs ↔ xs.length ≤ q.capacity := by
  obtain ⟨hsize, hcap⟩ := sendAll_counts xs q
  rw [hz, Nat.zero_add] at hsize
  unfold Intact
  rw [hsize, hcap]
  refine ⟨fun hi => hi.1, fun hle => ⟨hle, ?_⟩⟩
  obtain ⟨W, hW⟩ := h.atRest hz
  obtain ⟨q', hq'⟩ := (hW.sendAll xs (by omega)).drain xs.length (by rw [List.length_append])
  exact ⟨q', by rw [hq', List.drop_left]⟩

end LFQueue

/-! ## The producer -/

/-- Where the producer is: between two elements, or at one of the three
accesses of an element it has found room for. -/
inductive ProducerPc (T : Type)
  | idle
  | filling (x : T)
  | storing
  | counting
deriving DecidableEq

namespace LFQueue

variable {T : Type}

/-- `x` is taken up if the producer is free and `size() < capacity`. -/
def beginWrite (q : LFQueue T) (pc : ProducerPc T) (x : T) : ProducerPc T :=
  match pc with
  | .idle => if q.size < q.capacity then .filling x else .idle
  | pc => pc

/-- The producer's next access, with what has been written into slots so far. -/
def producerStep (q : LFQueue T) (pc : ProducerPc T) (W : List T) :
    LFQueue T × ProducerPc T × List T :=
  match pc with
  | .idle => (q, .idle, W)
  | .filling x => (q.write q.getNextToWriteTo x, .storing, W ++ [x])
  | .storing => (q.storeWriteIndex, .counting, W)
  | .counting => (q.countUp, .idle, W)

/-- Which of the producer's numbers agree at each point of its program. -/
def ProducerAt (q : LFQueue T) (W : List T) (i p d : Nat) : ProducerPc T → Prop
  | .idle => p = i ∧ i = W.length
  | .filling _ => p = i ∧ i = W.length ∧ W.length < d + q.capacity
  | .storing => p = i ∧ i + 1 = W.length
  | .counting => p + 1 = i ∧ i = W.length

variable {q : LFQueue T} {pc : ProducerPc T} {W : List T} {i p j d : Nat}

theorem ProducerAt.beginWrite (h : Tracks q W i p j d) (hp : ProducerAt q W i p d pc) (x : T) :
    ProducerAt q W i p d (q.beginWrite pc x) := by
  cases pc with
  | idle =>
    obtain ⟨hpi, hiW⟩ := hp
    unfold LFQueue.beginWrite
    dsimp only
    split
    · next hlt =>
      have hcount := h.count
      exact ⟨hpi, hiW, by unfold LFQueue.size at hlt; omega⟩
    · exact ⟨hpi, hiW⟩
  | filling y => exact hp
  | storing => exact hp
  | counting => exact hp

/-- The consumer giving slots back does not disturb the producer. -/
theorem ProducerAt.mono {q' : LFQueue T} {d' : Nat} (h : ProducerAt q W i p d pc)
    (hcap : q'.capacity = q.capacity) (hd : d ≤ d') : ProducerAt q' W i p d' pc := by
  cases pc with
  | idle => exact h
  | filling x =>
    obtain ⟨hpi, hiW, hroom⟩ := h
    exact ⟨hpi, hiW, by omega⟩
  | storing => exact h
  | counting => exact h

/-- **One access of the producer** moves one of its numbers and leaves the
consumer's alone. -/
theorem Tracks.producerStep {q' : LFQueue T} {pc' : ProducerPc T} {W' : List T}
    (h : Tracks q W i p j d) (hp : ProducerAt q W i p d pc)
    (hstep : q.producerStep pc W = (q', pc', W')) :
    ∃ i' p', Tracks q' W' i' p' j d ∧ ProducerAt q' W' i' p' d pc' ∧ p ≤ p' ∧ W <+: W' := by
  cases pc with
  | idle =>
    cases hstep
    exact ⟨i, p, h, hp, le_rfl, List.prefix_refl W⟩
  | filling x =>
    cases hstep
    obtain ⟨hpi, hiW, hroom⟩ := hp
    refine ⟨i, p, h.write x hiW hroom, ⟨hpi, ?_⟩, le_rfl, List.prefix_append W [x]⟩
    simp [hiW]
  | storing =>
    cases hstep
    obtain ⟨hpi, hiW⟩ := hp
    exact ⟨i + 1, p, h.storeWriteIndex (by omega), ⟨by omega, hiW⟩, le_rfl, List.prefix_refl W⟩
  | counting =>
    cases hstep
    obtain ⟨hpi, hiW⟩ := hp
    exact ⟨i, p + 1, h.countUp (by omega), ⟨hpi, hiW⟩, Nat.le_succ p, List.prefix_refl W⟩

theorem capacity_producerStep (q : LFQueue T) (pc : ProducerPc T) (W : List T) :
    (q.producerStep pc W).1.capacity = q.capacity := by
  cases pc <;> rfl

/-- A producer about to fill a slot and a consumer that has not given back the
one under its index work on different slots. -/
theorem Tracks.slots_ne {x : T} (h : Tracks q W i p j d) (hp : ProducerAt q W i p d (.filling x))
    (hj : j = d) (hd : d < p) : q.getNextToWriteTo ≠ q.next_read_index_ := by
  obtain ⟨hpi, hiW, hroom⟩ := hp
  show q.next_write_index_ ≠ q.next_read_index_
  rw [h.write_index, h.read_index]
  exact (Lib.mod_ne_of_lt (by omega) (by omega)).symm

end LFQueue

/-! ## One producer against one consumer -/

/-- Where the consumer is: about to test `size()`, or at one of the four
accesses that follow a successful test. -/
inductive ConsumerPc
  | idle
  | reading (ptr : Nat)
  | storing
  | checking
  | counting
deriving DecidableEq

/-- The queue, both programs, what has been written into slots and what has been
read from them. -/
structure Spsc (T : Type) where
  queue : LFQueue T
  producer : ProducerPc T
  consumer : ConsumerPc
  written : List T
  read : List T

/-- Which side makes its next access; `produce x` is the producer testing
`size() < capacity` with `x` to send. -/
inductive SpscAction (T : Type)
  | produce (x : T)
  | producer
  | consumer

namespace Spsc

variable {T : Type}

def init (N : Nat) (dflt : T) : Spsc T := ⟨LFQueue.init N dflt, .idle, .idle, [], []⟩

def consumerStep (s : Spsc T) : Exec (Spsc T) :=
  match s.consumer with
  | .idle =>
    match s.queue.getNextToRead with
    | none => .ok s
    | some ptr => .ok { s with consumer := .reading ptr }
  | .reading ptr =>
    .ok { s with consumer := .storing, read := s.read ++ [s.queue.store_ ptr] }
  | .storing => .ok { s with queue := s.queue.storeReadIndex, consumer := .checking }
  | .checking => do
    s.queue.checkCount
    return { s with consumer := .counting }
  | .counting => .ok { s with queue := s.queue.countDown, consumer := .idle }

def step (s : Spsc T) : SpscAction T → Exec (Spsc T)
  | .produce x => .ok { s with producer := s.queue.beginWrite s.producer x }
  | .producer =>
    let (q, pc, W) := s.queue.producerStep s.producer s.written
    .ok { s with queue := q, producer := pc, written := W }
  | .consumer => s.consumerStep

def run : List (SpscAction T) → Spsc T → Exec (Spsc T)
  | [], s => .ok s
  | a :: as, s => do
    let s ← s.step a
    run as s

/-- Which of the consumer's numbers agree at each point of its program, and how
much it has read by then. -/
def ConsumerAt (s : Spsc T) (p j d : Nat) : Prop :=
  match s.consumer with
  | .idle => j = d ∧ d ≤ p ∧ s.read = s.written.take d
  | .reading ptr => j = d ∧ d < p ∧ s.read = s.written.take d ∧ ptr = s.queue.next_read_index_
  | .storing => j = d ∧ d < p ∧ s.read = s.written.take (d + 1)
  | .checking => j = d + 1 ∧ d < p ∧ s.read = s.written.take (d + 1)
  | .counting => j = d + 1 ∧ d < p ∧ s.read = s.written.take (d + 1)

structure Inv (N : Nat) (s : Spsc T) : Prop where
  capacity : s.queue.capacity = N
  tracked : ∃ i p j d, s.queue.Tracks s.written i p j d ∧
    LFQueue.ProducerAt s.queue s.written i p d s.producer ∧ s.ConsumerAt p j d

theorem Inv.init (N : Nat) (dflt : T) : Inv N (Spsc.init N dflt) :=
  ⟨rfl, 0, 0, 0, 0, LFQueue.Tracks.init N dflt, ⟨rfl, rfl⟩, rfl, le_rfl, rfl⟩

/-- What has been read does not depend on what the producer adds. -/
theorem take_eq_of_prefixed {W W' : List T} {n : Nat} (h : W <+: W') (hn : n ≤ W.length) :
    W'.take n = W.take n := by
  obtain ⟨V, rfl⟩ := h
  rw [List.take_append_of_le_length hn]

/-- The producer's accesses leave the consumer where it is. -/
theorem ConsumerAt.producer {s s' : Spsc T} {i p p' j d : Nat}
    (h : s.queue.Tracks s.written i p j d) (hc : s.ConsumerAt p j d) (hp : p ≤ p')
    (hW : s.written <+: s'.written) (hpc : s'.consumer = s.consumer) (hread : s'.read = s.read)
    (hidx : s'.queue.next_read_index_ = s.queue.next_read_index_) : s'.ConsumerAt p' j d := by
  have hlen : p ≤ s.written.length := h.counted_le.trans h.stored_le
  unfold ConsumerAt at hc ⊢
  rw [hpc, hread, hidx]
  cases hs : s.consumer with
  | idle =>
    rw [hs] at hc
    obtain ⟨hj, hd, hr⟩ := hc
    exact ⟨hj, hd.trans hp, by rw [take_eq_of_prefixed hW (by omega), hr]⟩
  | reading ptr =>
    rw [hs] at hc
    obtain ⟨hj, hd, hr, hptr⟩ := hc
    exact ⟨hj, by omega, by rw [take_eq_of_prefixed hW (by omega), hr], hptr⟩
  | storing | checking | counting =>
    rw [hs] at hc
    obtain ⟨hj, hd, hr⟩ := hc
    exact ⟨hj, by omega, by rw [take_eq_of_prefixed hW (by omega), hr]⟩

theorem Inv.produce {N : Nat} {s : Spsc T} (h : Inv N s) (x : T) :
    Inv N { s with producer := s.queue.beginWrite s.producer x } := by
  obtain ⟨i, p, j, d, ht, hp, hc⟩ := h.tracked
  exact ⟨h.capacity, i, p, j, d, ht, LFQueue.ProducerAt.beginWrite ht hp x, hc⟩

theorem read_index_producerStep (q : LFQueue T) (pc : ProducerPc T) (W : List T) :
    (q.producerStep pc W).1.next_read_index_ = q.next_read_index_ := by
  cases pc <;> rfl

theorem Inv.producer {N : Nat} {s s' : Spsc T} (h : Inv N s)
    (hs : s.step .producer = .ok s') : Inv N s' := by
  obtain ⟨i, p, j, d, ht, hp, hc⟩ := h.tracked
  cases hs
  obtain ⟨i', p', ht', hp', hle, hW⟩ := ht.producerStep hp rfl
  refine ⟨?_, i', p', j, d, ht', hp', ?_⟩
  · exact (LFQueue.capacity_producerStep _ _ _).trans h.capacity
  · exact hc.producer ht hle hW rfl rfl (read_index_producerStep _ _ _)

/-- **One access of the consumer** keeps the invariant, and its `ASSERT` does
not fire. -/
theorem Inv.consumer {N : Nat} {s : Spsc T} (h : Inv N s) :
    ∃ s', s.consumerStep = .ok s' ∧ Inv N s' := by
  obtain ⟨queue, producer, consumer, written, read⟩ := s
  obtain ⟨hcap, i, p, j, d, ht, hp, hc⟩ := h
  have hlen : p ≤ written.length := ht.counted_le.trans ht.stored_le
  cases consumer with
  | idle =>
    obtain ⟨hj, hd, hr⟩ := hc
    by_cases hsize : queue.num_elements_ = 0
    · refine ⟨_, ?_, hcap, i, p, j, d, ht, hp, hj, hd, hr⟩
      simp [consumerStep, LFQueue.getNextToRead, LFQueue.size, hsize]
    · have hcount := ht.count
      dsimp only at hcount
      refine ⟨⟨queue, producer, .reading queue.next_read_index_, written, read⟩, ?_, hcap,
        i, p, j, d, ht, hp, hj, by omega, hr, rfl⟩
      simp [consumerStep, LFQueue.getNextToRead, LFQueue.size, hsize]
  | reading ptr =>
    obtain ⟨hj, hd, hr, hptr⟩ := hc
    dsimp only at hptr
    subst hptr
    refine ⟨_, rfl, hcap, i, p, j, d, ht, hp, hj, hd, ?_⟩
    -- the slot still holds the element at the read position
    have hget := ht.read (by dsimp only; omega)
    dsimp only at hget hr ⊢
    rw [hj] at hget
    rw [List.take_add_one, hget, hr]
    rfl
  | storing =>
    obtain ⟨hj, hd, hr⟩ := hc
    exact ⟨_, rfl, hcap, i, p, j + 1, d, ht.storeReadIndex, hp.mono rfl le_rfl,
      by omega, hd, hr⟩
  | checking =>
    obtain ⟨hj, hd, hr⟩ := hc
    refine ⟨⟨queue, producer, .counting, written, read⟩, ?_, hcap, i, p, j, d, ht, hp, hj, hd, hr⟩
    have hok := ht.checkCount hd
    dsimp only at hok
    simp [consumerStep, hok]
  | counting =>
    obtain ⟨hj, hd, hr⟩ := hc
    refine ⟨_, rfl, hcap, i, p, j, d + 1, ht.countDown (by omega) hd,
      hp.mono rfl (Nat.le_succ d), hj, hd, hr⟩

theorem Inv.step {N : Nat} {s : Spsc T} (h : Inv N s) (a : SpscAction T) :
    ∃ s', s.step a = .ok s' ∧ Inv N s' := by
  cases a with
  | produce x => exact ⟨_, rfl, h.produce x⟩
  | producer => exact ⟨_, rfl, h.producer rfl⟩
  | consumer => exact h.consumer

theorem Inv.run {N : Nat} (as : List (SpscAction T)) {s : Spsc T} (h : Inv N s) :
    ∃ s', run as s = .ok s' ∧ Inv N s' := by
  induction as generalizing s with
  | nil => exact ⟨s, rfl, h⟩
  | cons a as ih =>
    obtain ⟨s₁, hs₁, h₁⟩ := h.step a
    obtain ⟨s', hs', h'⟩ := ih h₁
    exact ⟨s', by rw [Spsc.run, hs₁]; exact hs', h'⟩

theorem Inv.read_prefix {N : Nat} {s : Spsc T} (h : Inv N s) : s.read <+: s.written := by
  obtain ⟨i, p, j, d, -, -, hc⟩ := h.tracked
  unfold ConsumerAt at hc
  split at hc
  · rw [hc.2.2]; exact List.take_prefix _ _
  · rw [hc.2.2.1]; exact List.take_prefix _ _
  all_goals rw [hc.2.2]; exact List.take_prefix _ _

theorem Inv.num_le {N : Nat} {s : Spsc T} (h : Inv N s) : s.queue.num_elements_ ≤ N := by
  obtain ⟨i, p, j, d, ht, -, -⟩ := h.tracked
  exact ht.num_le.trans h.capacity.le

/-- The slot being filled is never the one being read. -/
theorem Inv.exclusive {N : Nat} {s : Spsc T} (h : Inv N s) {x : T} {ptr : Nat}
    (hp : s.producer = .filling x) (hc : s.consumer = .reading ptr) :
    s.queue.getNextToWriteTo ≠ ptr := by
  obtain ⟨i, p, j, d, ht, hpa, hca⟩ := h.tracked
  rw [hp] at hpa
  simp only [ConsumerAt, hc] at hca
  obtain ⟨hj, hd, -, rfl⟩ := hca
  exact ht.slots_ne hpa hj hd

end Spsc

/-- **`LFQueue` is a FIFO for one producer and one consumer.** Whatever the
capacity and however the accesses of the two sides interleave, no access faults
(in particular the `ASSERT` of `updateReadIndex` holds whenever it is
evaluated), what has been read is what was written first, in order, the count
never exceeds the capacity, and a slot is never filled while it is being
read. -/
theorem lfQueue_fifo {T : Type} (N : Nat) (dflt : T) (as : List (SpscAction T)) :
    ∃ s, Spsc.run as (Spsc.init N dflt) = .ok s ∧
      s.read <+: s.written ∧
      s.queue.num_elements_ ≤ N ∧
      ∀ x ptr, s.producer = .filling x → s.consumer = .reading ptr →
        s.queue.getNextToWriteTo ≠ ptr := by
  obtain ⟨s, hs, h⟩ := (Spsc.Inv.init N dflt).run as
  exact ⟨s, hs, h.read_prefix, h.num_le, fun x ptr hp hc => h.exclusive hp hc⟩

end LowLatency
