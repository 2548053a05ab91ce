import LowLatency.Lib.Buffer
import Mathlib.Algebra.Order.Group.Nat
import Mathlib.Data.List.Basic

/-!
# Messages of a fixed size in a byte stream

A `Codec` writes a message as a fixed number of bytes and reads it back. A
sender writes message after message; a receiver sees the stream in pieces cut
anywhere, reads the complete messages at the front of what it has (`decode`) and
keeps the rest. `decode_stream` is the step of such a receiver: if what it has,
followed by what is still to come, is the encoding of some messages, then it
reads the first of these, and what it keeps, followed by what is still to come,
is the encoding of the others. Nothing else about the cuts matters: a receiver
(`Receiver`) is where one read of the whole stream would have brought it
(`Receiver.read_append`). `frames` is the loop that reads the messages out of a
buffer.

Numbers are written little-endian (`leBytes`).

If the sender also numbers its messages and the receiver counts along, the two
counters and the bytes on the way always fit together (`Channel`). `Channel.send`
and `Channel.recv` are the two moves.
-/

namespace LowLatency.Lib

/-! ## Numbers -/

/-- The `w` low bytes of a number, lowest first. -/
def leBytes : Nat → Nat → List UInt8
  | 0, _ => []
  | w + 1, n => UInt8.ofNat n :: leBytes w (n / 256)

/-- The number that bytes stand for, lowest first. -/
def ofLE : List UInt8 → Nat
  | [] => 0
  | b :: bs => b.toNat + 256 * ofLE bs

@[simp] theorem length_leBytes (w n : Nat) : (leBytes w n).length = w := by
  induction w generalizing n with
  | zero => rfl
  | succ w ih => simp [leBytes, ih]

theorem ofLE_leBytes (w n : Nat) : ofLE (leBytes w n) = n % 256 ^ w := by
  induction w generalizing n with
  | zero => simp [leBytes, ofLE, Nat.mod_one]
  | succ w ih =>
    have hlow : (UInt8.ofNat n).toNat = n % 256 := UInt8.toNat_ofNat'
    rw [leBytes, ofLE, ih, hlow, Nat.pow_succ, Nat.mul_comm (256 ^ w), Nat.mod_mul]

/-- A number that fits is read back. -/
theorem ofLE_leBytes_of_lt {w n : Nat} (h : n < 256 ^ w) : ofLE (leBytes w n) = n := by
  rw [ofLE_leBytes, Nat.mod_eq_of_lt h]

/-- The number in the first `w` bytes, and the bytes behind it. -/
def readLE (w : Nat) (bs : List UInt8) : Nat × List UInt8 := (ofLE (bs.take w), bs.drop w)

theorem readLE_append {w n : Nat} (h : n < 256 ^ w) (bs : List UInt8) :
    readLE w (leBytes w n ++ bs) = (n, bs) := by
  unfold readLE
  rw [List.take_left' (length_leBytes w n), List.drop_left' (length_leBytes w n),
    ofLE_leBytes_of_lt h]

/-! ## Messages -/

/-- Messages of type `α` as `size` bytes each. Those that satisfy `Ok` are read
back as they were written. -/
structure Codec (α : Type) where
  size : Nat
  size_pos : 0 < size
  enc : α → List UInt8
  dec : List UInt8 → α
  Ok : α → Prop
  length_enc : ∀ a, (enc a).length = size
  dec_enc : ∀ a, Ok a → dec (enc a) = a

namespace Codec

variable {α : Type} (c : Codec α)

/-- The bytes of messages sent one after the other. -/
def encode (as : List α) : List UInt8 := as.flatMap c.enc

@[simp] theorem encode_nil : c.encode [] = [] := rfl

@[simp] theorem encode_cons (a : α) (as : List α) : c.encode (a :: as) = c.enc a ++ c.encode as :=
  rfl

theorem encode_append (as as' : List α) : c.encode (as ++ as') = c.encode as ++ c.encode as' :=
  List.flatMap_append

@[simp] theorem length_encode (as : List α) : (c.encode as).length = as.length * c.size := by
  induction as with
  | nil => simp
  | cons a as ih =>
    rw [encode_cons, List.length_append, c.length_enc, ih, List.length_cons, Nat.succ_mul,
      Nat.add_comm]

/-- The first `n` messages of some bytes. -/
def decodeN : Nat → List UInt8 → List α
  | 0, _ => []
  | n + 1, bs => c.dec (bs.take c.size) :: decodeN n (bs.drop c.size)

/-- All the complete messages of some bytes. -/
def decode (bs : List UInt8) : List α := c.decodeN (bs.length / c.size) bs

/-- The bytes behind the complete messages. -/
def rest (bs : List UInt8) : List UInt8 := bs.drop (bs.length / c.size * c.size)

@[simp] theorem length_decodeN (n : Nat) (bs : List UInt8) : (c.decodeN n bs).length = n := by
  induction n generalizing bs with
  | zero => rfl
  | succ n ih => simp [decodeN, ih]

theorem decodeN_stream {c : Codec α} {n : Nat} {bs future : List UInt8} {as : List α}
    (hn : n * c.size ≤ bs.length) (hok : ∀ a ∈ as, c.Ok a) (h : bs ++ future = c.encode as) :
    c.decodeN n bs = as.take n ∧ bs.drop (n * c.size) ++ future = c.encode (as.drop n) := by
  induction n generalizing bs as with
  | zero => exact ⟨by simp [decodeN], by simpa using h⟩
  | succ n ih =>
    rw [Nat.succ_mul] at hn
    cases as with
    | nil =>
      -- no message, no bytes
      have hpos := c.size_pos
      have hlen := congrArg List.length h
      simp only [List.length_append, encode_nil, List.length_nil] at hlen
      omega
    | cons a as =>
      -- the first message is the first `size` bytes
      have hsplit : bs.take c.size ++ (bs.drop c.size ++ future) = c.enc a ++ c.encode as := by
        rw [← List.append_assoc, List.take_append_drop, h, encode_cons]
      have hlen : (bs.take c.size).length = (c.enc a).length := by
        rw [List.length_take, c.length_enc]
        omega
      obtain ⟨hhead, htail⟩ := List.append_inj hsplit hlen
      obtain ⟨hdec, hrest⟩ := ih (by rw [List.length_drop]; omega)
        (fun b hb => hok b (List.mem_cons_of_mem a hb)) htail
      constructor
      · rw [decodeN, hhead, c.dec_enc a (hok a (List.mem_cons_self ..)), hdec, List.take_succ_cons]
      · rw [List.drop_drop] at hrest
        rw [Nat.succ_mul, Nat.add_comm (n * c.size), List.drop_succ_cons]
        exact hrest

/-- **One step of a receiver.** -/
theorem decode_stream {c : Codec α} {bs future : List UInt8} {as : List α}
    (hok : ∀ a ∈ as, c.Ok a) (h : bs ++ future = c.encode as) :
    ∃ k, c.decode bs = as.take k ∧ (c.decode bs).length = k ∧
      c.rest bs ++ future = c.encode (as.drop k) := by
  obtain ⟨hdec, hrest⟩ := decodeN_stream (Nat.div_mul_le_self bs.length c.size) hok h
  exact ⟨_, hdec, length_decodeN .., hrest⟩

/-- Messages written in one piece are read back. -/
theorem decode_encode {c : Codec α} {as : List α} (hok : ∀ a ∈ as, c.Ok a) :
    c.decode (c.encode as) = as := by
  have hlen := c.length_encode as
  have hread := decodeN_stream (n := as.length) (Nat.le_of_eq hlen.symm) hok
    (List.append_nil (c.encode as))
  unfold decode
  rw [hlen, Nat.mul_div_cancel _ c.size_pos, hread.1, List.take_length]

/-- Nothing is left of them. -/
theorem rest_encode (as : List α) : c.rest (c.encode as) = [] := by
  rw [rest, c.length_encode, Nat.mul_div_cancel _ c.size_pos]
  exact List.drop_of_length_le (Nat.le_of_eq (c.length_encode as))

theorem decodeN_append {n : Nat} {bs : List UInt8} (hn : n * c.size ≤ bs.length) (m : Nat)
    (more : List UInt8) :
    c.decodeN (n + m) (bs ++ more) =
      c.decodeN n bs ++ c.decodeN m (bs.drop (n * c.size) ++ more) := by
  induction n generalizing bs with
  | zero => simp [decodeN]
  | succ n ih =>
    rw [Nat.succ_mul] at hn
    have hrest : n * c.size ≤ (bs.drop c.size).length := by
      rw [List.length_drop]
      omega
    rw [Nat.succ_add, decodeN, decodeN, List.take_append_of_le_length (by omega),
      List.drop_append_of_le_length (by omega), ih hrest, List.drop_drop, Nat.succ_mul,
      Nat.add_comm c.size]
    rfl

/-- The bytes of the complete messages, and what is behind them. -/
theorem length_append_rest (bs more : List UInt8) :
    (bs ++ more).length = (c.rest bs ++ more).length + bs.length / c.size * c.size := by
  have hle := Nat.div_mul_le_self bs.length c.size
  unfold rest
  rw [List.length_append, List.length_append, List.length_drop]
  omega

/-- **The cuts do not matter**: what is read of a piece, and then of the rest of
it with the next piece, is what is read of both at once. -/
theorem decode_append (bs more : List UInt8) :
    c.decode (bs ++ more) = c.decode bs ++ c.decode (c.rest bs ++ more) := by
  have hcount : (bs ++ more).length / c.size =
      bs.length / c.size + (c.rest bs ++ more).length / c.size := by
    rw [length_append_rest, Nat.add_mul_div_right _ _ c.size_pos, Nat.add_comm]
  unfold decode
  rw [hcount, decodeN_append c (Nat.div_mul_le_self bs.length c.size)]
  rfl

/-- What is kept is less than a message. -/
theorem length_rest_lt (bs : List UInt8) : (c.rest bs).length < c.size := by
  unfold rest
  rw [List.length_drop]
  have hmod := Nat.mod_lt bs.length c.size_pos
  have hdiv := Nat.div_add_mod bs.length c.size
  rw [Nat.mul_comm] at hdiv
  omega

theorem rest_append (bs more : List UInt8) :
    c.rest (bs ++ more) = c.rest (c.rest bs ++ more) := by
  have hfront : c.rest bs ++ more = (bs ++ more).drop (bs.length / c.size * c.size) := by
    rw [List.drop_append_of_le_length (Nat.div_mul_le_self bs.length c.size)]
    rfl
  rw [rest, length_append_rest, Nat.add_mul_div_right _ _ c.size_pos, Nat.add_mul, Nat.add_comm,
    ← List.drop_drop, ← hfront]
  rfl

/-- Less than a message is kept as it is. -/
theorem rest_of_lt {bs : List UInt8} (h : bs.length < c.size) : c.rest bs = bs := by
  rw [rest, Nat.div_eq_of_lt h, Nat.zero_mul, List.drop_zero]

theorem decode_of_lt {bs : List UInt8} (h : bs.length < c.size) : c.decode bs = [] := by
  rw [decode, Nat.div_eq_of_lt h]
  rfl

/-! ## A receiver -/

/-- A receiver between two reads: the state its messages have brought it to, and
the bytes it keeps. -/
structure Receiver (σ : Type) where
  state : σ
  tail : List UInt8

variable {σ : Type} (step : σ → α → σ)

/-- A read: the complete messages are taken, in order, and the rest is kept. -/
def Receiver.read (r : Receiver σ) (bytes : List UInt8) : Receiver σ where
  state := (c.decode (r.tail ++ bytes)).foldl step r.state
  tail := c.rest (r.tail ++ bytes)

theorem Receiver.read_nil {r : Receiver σ} (h : r.tail.length < c.size) :
    r.read c step [] = r := by
  unfold read
  rw [List.append_nil, c.decode_of_lt h, c.rest_of_lt h]
  rfl

/-- **However the stream is cut**, two reads are a read of both pieces at once. -/
theorem Receiver.read_append (r : Receiver σ) (bytes more : List UInt8) :
    (r.read c step bytes).read c step more = r.read c step (bytes ++ more) := by
  unfold read
  rw [← List.append_assoc, c.decode_append (r.tail ++ bytes), c.rest_append (r.tail ++ bytes),
    List.foldl_append]

/-! ## The loop over a buffer -/

/-- The loop `for (; i + size <= valid; i += size)`: the messages it reads, and
where it ends. -/
def frames (buf : Nat → UInt8) (valid i : Nat) : List α × Nat :=
  if i + c.size ≤ valid then
    let (ms, last) := frames buf valid (i + c.size)
    (c.dec (slice buf i c.size) :: ms, last)
  else ([], i)
termination_by valid - i
decreasing_by
  have hpos := c.size_pos
  omega

variable (buf : Nat → UInt8)

theorem decode_slice_append (i n : Nat) :
    c.decode (slice buf i c.size ++ slice buf (i + c.size) n) =
      c.dec (slice buf i c.size) :: c.decode (slice buf (i + c.size) n) := by
  have hlen : (slice buf i c.size).length = c.size := length_slice ..
  have hone : c.decode (slice buf i c.size) = [c.dec (slice buf i c.size)] := by
    unfold decode
    rw [hlen, Nat.div_self c.size_pos, decodeN, List.take_of_length_le (Nat.le_of_eq hlen)]
    rfl
  have hnone : c.rest (slice buf i c.size) = [] := by
    unfold rest
    rw [hlen, Nat.div_self c.size_pos, Nat.one_mul]
    exact List.drop_of_length_le (Nat.le_of_eq hlen)
  rw [c.decode_append, hone, hnone]
  rfl

/-- The loop reads the complete messages, and ends behind them. -/
theorem frames_eq {valid i : Nat} (h : i ≤ valid) :
    c.frames buf valid i =
      (c.decode (slice buf i (valid - i)), i + (valid - i) / c.size * c.size) := by
  induction i using frames.induct c buf valid with
  | case1 i hfit ms last _ ih =>
    have hcut : valid - i = c.size + (valid - (i + c.size)) := by omega
    rw [frames, if_pos hfit, ih hfit, hcut, slice_add, decode_slice_append,
      Nat.add_div_left _ c.size_pos, Nat.succ_mul]
    simp only [Prod.mk.injEq, true_and]
    omega
  | case2 i hstop =>
    have hshort : valid - i < c.size := by omega
    rw [frames, if_neg hstop, c.decode_of_lt (by rw [length_slice]; exact hshort),
      Nat.div_eq_of_lt hshort, Nat.zero_mul, Nat.add_zero]

/-- **What is kept is moved clear of where it was**, once a message was read: it
is shorter than a message, and starts behind one. -/
theorem frames_apart {valid : Nat} (h : c.size ≤ valid) :
    Apart 0 (c.frames buf valid 0).2 (valid - (c.frames buf valid 0).2) := by
  rw [c.frames_eq buf (Nat.zero_le valid)]
  have hcount : 1 ≤ valid / c.size := Nat.div_pos h c.size_pos
  have hfront := Nat.mul_le_mul_right c.size hcount
  have hmod := Nat.mod_lt valid c.size_pos
  have hdiv := Nat.div_add_mod valid c.size
  rw [Nat.mul_comm] at hdiv
  intro k hk l hl
  simp only [Nat.sub_zero, Nat.zero_add] at hk hl ⊢
  omega

end Codec

/-! ## Numbered messages -/

section Numbered

variable {ρ α : Type} (next : Nat → Nat) (mk : Nat → ρ → α)

/-- The messages for some contents, numbered from `s` on. -/
def numberFrom : Nat → List ρ → List α
  | _, [] => []
  | s, r :: rs => mk s r :: numberFrom (next s) rs

/-- The number that comes after `n` more messages. -/
def after (s : Nat) : Nat → Nat
  | 0 => s
  | n + 1 => after (next s) n

theorem after_succ (s n : Nat) : after next s (n + 1) = next (after next s n) := by
  induction n generalizing s with
  | zero => rfl
  | succ n ih => exact ih (next s)

theorem after_add (s m n : Nat) : after next s (m + n) = after next (after next s m) n := by
  induction m generalizing s with
  | zero => rw [Nat.zero_add]; rfl
  | succ m ih =>
    rw [Nat.succ_add]
    exact ih (next s)

theorem numberFrom_append (s : Nat) (rs rs' : List ρ) :
    numberFrom next mk s (rs ++ rs') =
      numberFrom next mk s rs ++ numberFrom next mk (after next s rs.length) rs' := by
  induction rs generalizing s with
  | nil => rfl
  | cons r rs ih =>
    show mk s r :: numberFrom next mk (next s) (rs ++ rs') = _
    rw [ih]
    rfl

@[simp] theorem length_numberFrom (s : Nat) (rs : List ρ) :
    (numberFrom next mk s rs).length = rs.length := by
  induction rs generalizing s with
  | nil => rfl
  | cons r rs ih => simp [numberFrom, ih]

/-- Numbering leaves the contents as they are. -/
theorem map_numberFrom {proj : α → ρ} (h : ∀ s r, proj (mk s r) = r) (s : Nat) (rs : List ρ) :
    (numberFrom next mk s rs).map proj = rs := by
  induction rs generalizing s with
  | nil => rfl
  | cons r rs ih => rw [numberFrom, List.map_cons, ih, h]

/-- A channel that carries `sent`, of which `taken` has been received: the next
message to be written has the number `seqOut`, the next one expected `seqIn`, and
`pipe` is all that is on the way. -/
def Channel (c : Codec α) (sent taken : List ρ) (seqOut seqIn : Nat) (pipe : List UInt8) : Prop :=
  ∃ rest, sent = taken ++ rest ∧ seqOut = after next seqIn rest.length ∧
    pipe = c.encode (numberFrom next mk seqIn rest) ∧
    ∀ m ∈ numberFrom next mk seqIn rest, c.Ok m

variable {next mk} {c : Codec α} {sent taken : List ρ} {seqOut seqIn : Nat} {pipe : List UInt8}

theorem Channel.init (s : Nat) : Channel next mk c [] [] s s [] :=
  ⟨[], rfl, rfl, rfl, by simp [numberFrom]⟩

/-- What was received is the first part of what was sent. -/
theorem Channel.prefix_sent (h : Channel next mk c sent taken seqOut seqIn pipe) :
    taken <+: sent := by
  obtain ⟨rest, hsent, -⟩ := h
  exact ⟨rest, hsent.symm⟩

/-- Nothing is on the way of nothing that was sent. -/
theorem Channel.sent_ne_nil (h : Channel next mk c sent taken seqOut seqIn pipe)
    (hpipe : pipe ≠ []) : sent ≠ [] := by
  obtain ⟨rest, rfl, -, rfl, -⟩ := h
  intro hsent
  rw [(List.append_eq_nil_iff.mp hsent).2] at hpipe
  exact hpipe rfl

/-- With less than a message on the way, everything has been received. -/
theorem Channel.all_taken (h : Channel next mk c sent taken seqOut seqIn pipe)
    (hpipe : pipe.length < c.size) : taken = sent := by
  obtain ⟨rest, rfl, -, rfl, -⟩ := h
  rw [Codec.length_encode, length_numberFrom] at hpipe
  cases rest with
  | nil => exact (List.append_nil taken).symm
  | cons r rest =>
    rw [List.length_cons, Nat.succ_mul] at hpipe
    omega

/-- **Sending** puts a message with the sender's number behind the others. -/
theorem Channel.send (h : Channel next mk c sent taken seqOut seqIn pipe) {r : ρ}
    (hok : c.Ok (mk seqOut r)) :
    Channel next mk c (sent ++ [r]) taken (next seqOut) seqIn (pipe ++ c.enc (mk seqOut r)) := by
  obtain ⟨rest, hsent, hout, hpipe, hall⟩ := h
  have hnum : numberFrom next mk seqIn (rest ++ [r]) =
      numberFrom next mk seqIn rest ++ [mk seqOut r] := by
    rw [numberFrom_append, ← hout]
    rfl
  refine ⟨rest ++ [r], ?_, ?_, ?_, ?_⟩
  · rw [hsent, List.append_assoc]
  · rw [List.length_append, List.length_singleton, after_succ, hout]
  · rw [hnum, Codec.encode_append, hpipe]
    simp
  · intro m hm
    rw [hnum, List.mem_append, List.mem_singleton] at hm
    rcases hm with hm | rfl
    · exact hall m hm
    · exact hok

/-- **Receiving** reads messages that have the expected numbers, one after the
other, whatever part `bs` of the bytes on the way has arrived. -/
theorem Channel.recv {bs future : List UInt8}
    (h : Channel next mk c sent taken seqOut seqIn (bs ++ future)) :
    ∃ rs, c.decode bs = numberFrom next mk seqIn rs ∧ (∀ r ∈ rs, r ∈ sent) ∧
      Channel next mk c sent (taken ++ rs) seqOut (after next seqIn rs.length)
        (c.rest bs ++ future) := by
  obtain ⟨rest, hsent, hout, hpipe, hall⟩ := h
  obtain ⟨k, hdec, hlen, hrest⟩ := Codec.decode_stream hall hpipe
  have hk : k ≤ rest.length := by
    rw [hdec, List.length_take, length_numberFrom] at hlen
    omega
  have hnum := numberFrom_append next mk seqIn (rest.take k) (rest.drop k)
  rw [List.take_append_drop, List.length_take, Nat.min_eq_left hk] at hnum
  have hnumlen : (numberFrom next mk seqIn (rest.take k)).length = k := by
    rw [length_numberFrom, List.length_take, Nat.min_eq_left hk]
  have htaken : (rest.take k).length = k := by rw [List.length_take, Nat.min_eq_left hk]
  refine ⟨rest.take k, ?_, ?_, rest.drop k, ?_, ?_, ?_, ?_⟩
  · rw [hdec, hnum, List.take_left' hnumlen]
  · intro r hr
    rw [hsent]
    exact List.mem_append_right _ (List.mem_of_mem_take hr)
  · rw [List.append_assoc, List.take_append_drop, hsent]
  · rw [htaken, ← after_add, hout, List.length_drop, Nat.add_sub_cancel' hk]
  · rw [htaken, hrest, hnum, List.drop_left' hnumlen]
  · rw [htaken]
    intro m hm
    apply hall
    rw [hnum]
    exact List.mem_append_right _ hm

end Numbered

end LowLatency.Lib
