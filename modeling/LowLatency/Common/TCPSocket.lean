import LowLatency.Common.Types
import LowLatency.Lib.Buffer
import LowLatency.Lib.Framing

/-!
# `TCPSocket`: the buffers of an open connection

`src/common/tcp_socket.{h,cpp}`. `send` only copies into `outbound_data_`.
`sendAndRecv` reads from the kernel as long as it has bytes, calling
`recv_callback_` after each `recvmsg`, then hands the kernel as much of
`outbound_data_` as it takes, in as many `::send`s as it takes, and starts over
at the front of the buffer once everything is gone. Its pieces are `recv`, `sent`
and `rewind`; how many bytes each call moves is up to the kernel.

Both callbacks walk over `inbound_data_` in steps of the size of a message and
move what is left of it to the front: `messages` and `keepTail`.

The lemmas say what each of these does to the two byte sequences a socket
stands for: `unsent`, what the kernel has not taken yet, and `received`, what no
callback has consumed yet.
-/

namespace LowLatency

open Lib

/-- Size of our send and receive buffers in bytes. -/
def TCPBufferSize : Nat := 64 * 1024 * 1024

structure TCPSocket where
  outbound_data_ : Nat → UInt8
  next_send_index_ : Nat
  next_send_valid_index_ : Nat
  inbound_data_ : Nat → UInt8
  next_rcv_valid_index_ : Nat
  send_le : next_send_index_ ≤ next_send_valid_index_

namespace TCPSocket

def init : TCPSocket := ⟨fun _ => 0, 0, 0, fun _ => 0, 0, Nat.le_refl 0⟩

/-- What the kernel has not taken yet. -/
def unsent (s : TCPSocket) : List UInt8 :=
  slice s.outbound_data_ s.next_send_index_ (s.next_send_valid_index_ - s.next_send_index_)

/-- What no callback has consumed yet. -/
def received (s : TCPSocket) : List UInt8 := slice s.inbound_data_ 0 s.next_rcv_valid_index_

@[simp] theorem init_unsent : init.unsent = [] := rfl

@[simp] theorem init_received : init.received = [] := rfl

/-! ## Sending -/

/-- Move the pending bytes to the front of the buffer. -/
def compact (s : TCPSocket) : TCPSocket :=
  let pending := s.next_send_valid_index_ - s.next_send_index_
  { s with
    outbound_data_ := memmove s.outbound_data_ s.next_send_index_ pending
    next_send_index_ := 0
    next_send_valid_index_ := pending
    send_le := Nat.zero_le _ }

/-- Copy data behind the pending bytes. -/
def append (s : TCPSocket) (data : List UInt8) : Exec TCPSocket := do
  ASSERT (decide (s.next_send_valid_index_ + data.length ≤ TCPBufferSize))
    "TCPSocket outbound buffer capacity exceeded."
  return { s with
    outbound_data_ := memcpy s.outbound_data_ s.next_send_valid_index_ data
    next_send_valid_index_ := s.next_send_valid_index_ + data.length
    send_le := Nat.le_trans s.send_le (Nat.le_add_right ..) }

/-- Write outgoing data to the send buffers. -/
def send (s : TCPSocket) (data : List UInt8) : Exec TCPSocket :=
  if s.next_send_valid_index_ + data.length > TCPBufferSize ∧ s.next_send_index_ > 0 then
    s.compact.append data
  else s.append data

/-- The kernel took `n` of the pending bytes. -/
def sent (s : TCPSocket) (n : Nat) (h : n ≤ s.unsent.length) : TCPSocket :=
  { s with
    next_send_index_ := s.next_send_index_ + n
    send_le := by
      have hle := s.send_le
      rw [unsent, length_slice] at h
      omega }

/-- The end of `sendAndRecv`. -/
def rewind (s : TCPSocket) : TCPSocket :=
  if s.next_send_index_ = s.next_send_valid_index_ then
    { s with next_send_index_ := 0, next_send_valid_index_ := 0, send_le := Nat.le_refl 0 }
  else s

theorem compact_unsent (s : TCPSocket) : s.compact.unsent = s.unsent :=
  slice_memmove ..

theorem append_unsent {s s' : TCPSocket} {data : List UInt8} (h : s.append data = .ok s') :
    s'.unsent = s.unsent ++ data ∧ s'.received = s.received := by
  obtain ⟨_, _, hret⟩ := exec_bind_ok h
  rw [← Except.ok.inj hret]
  refine ⟨?_, rfl⟩
  have hle := s.send_le
  have hcopy := slice_memcpy s.outbound_data_ s.next_send_index_
    (s.next_send_valid_index_ - s.next_send_index_) data
  rw [Nat.add_sub_cancel' hle] at hcopy
  unfold unsent
  rw [← hcopy]
  congr 1
  show s.next_send_valid_index_ + data.length - s.next_send_index_ = _
  omega

/-- **Sent data goes behind what is pending**, whether or not the buffer had to
be compacted for it. -/
theorem send_unsent {s s' : TCPSocket} {data : List UInt8} (h : s.send data = .ok s') :
    s'.unsent = s.unsent ++ data ∧ s'.received = s.received := by
  unfold send at h
  split at h
  · obtain ⟨hunsent, hreceived⟩ := append_unsent h
    exact ⟨by rw [hunsent, compact_unsent], hreceived⟩
  · exact append_unsent h

/-- Copying behind the pending bytes: there is room for it, or the `ASSERT`
fires. -/
theorem append_cases (s : TCPSocket) (data : List UInt8) :
    (s.next_send_valid_index_ + data.length ≤ TCPBufferSize ∧ ∃ s', s.append data = .ok s' ∧
      s'.next_send_valid_index_ = s.next_send_valid_index_ + data.length) ∨
    (TCPBufferSize < s.next_send_valid_index_ + data.length ∧
      s.append data = .error (.assertion "TCPSocket outbound buffer capacity exceeded.")) := by
  by_cases hroom : s.next_send_valid_index_ + data.length ≤ TCPBufferSize
  · left
    refine ⟨hroom, { s with
      outbound_data_ := memcpy s.outbound_data_ s.next_send_valid_index_ data
      next_send_valid_index_ := s.next_send_valid_index_ + data.length
      send_le := Nat.le_trans s.send_le (Nat.le_add_right ..) }, ?_, rfl⟩
    simp only [append, hroom, decide_true, ASSERT_true]
    rfl
  · right
    refine ⟨Nat.lt_of_not_le hroom, ?_⟩
    simp only [append, hroom, decide_false, ASSERT_false]
    rfl

/-- **Nothing but a full buffer is in the way of a `send`**, and whether the
buffer is full is decided by the unsent bytes alone. -/
theorem send_cases (s : TCPSocket) (data : List UInt8) :
    (s.unsent.length + data.length ≤ TCPBufferSize ∧ ∃ s', s.send data = .ok s' ∧
      s'.next_send_valid_index_ ≤ TCPBufferSize) ∨
    (TCPBufferSize < s.unsent.length + data.length ∧
      s.send data = .error (.assertion "TCPSocket outbound buffer capacity exceeded.")) := by
  have hlen : s.unsent.length = s.next_send_valid_index_ - s.next_send_index_ := length_slice ..
  have hle := s.send_le
  have hpending : s.compact.next_send_valid_index_ = s.unsent.length := hlen.symm
  unfold send
  split
  next hfull =>
    rcases append_cases s.compact data with ⟨hroom, s', hs', hvalid⟩ | ⟨hover, herr⟩
    · exact Or.inl ⟨by omega, s', hs', by omega⟩
    · exact Or.inr ⟨by omega, herr⟩
  next hfit =>
    rcases append_cases s data with ⟨hroom, s', hs', hvalid⟩ | ⟨hover, herr⟩
    · exact Or.inl ⟨by omega, s', hs', by omega⟩
    · -- the pending bytes start at the front, so they alone fill the buffer
      exact Or.inr ⟨by omega, herr⟩

theorem send_stops {s : TCPSocket} {data : List UInt8} {f : Fault} (h : s.send data = .error f) :
    f = .assertion "TCPSocket outbound buffer capacity exceeded." := by
  rcases send_cases s data with ⟨_, s', hs', _⟩ | ⟨_, herr⟩
  · rw [hs'] at h
    exact absurd h (by simp)
  · rw [herr] at h
    exact (Except.error.inj h).symm

theorem sent_unsent (s : TCPSocket) {n : Nat} (h : n ≤ s.unsent.length) :
    s.unsent = s.unsent.take n ++ (s.sent n h).unsent := by
  have hdrop : (s.sent n h).unsent = s.unsent.drop n := by
    unfold unsent sent
    rw [drop_slice _ _ (by simpa [unsent] using h)]
    congr 1
    show s.next_send_valid_index_ - (s.next_send_index_ + n) = _
    omega
  rw [hdrop, List.take_append_drop]

theorem rewind_unsent (s : TCPSocket) : s.rewind.unsent = s.unsent := by
  unfold rewind
  split
  · next heq =>
    unfold unsent
    simp [heq, slice]
  · rfl

@[simp] theorem sent_received (s : TCPSocket) {n : Nat} (h : n ≤ s.unsent.length) :
    (s.sent n h).received = s.received := rfl

@[simp] theorem rewind_received (s : TCPSocket) : s.rewind.received = s.received := by
  unfold rewind
  split <;> rfl

/-! ## Receiving -/

theorem length_received (s : TCPSocket) : s.received.length = s.next_rcv_valid_index_ :=
  length_slice ..

/-- A `recvmsg` that returned these bytes. -/
def recv (s : TCPSocket) (bytes : List UInt8) : TCPSocket :=
  { s with
    inbound_data_ := memcpy s.inbound_data_ s.next_rcv_valid_index_ bytes
    next_rcv_valid_index_ := s.next_rcv_valid_index_ + bytes.length }

theorem recv_received (s : TCPSocket) (bytes : List UInt8) :
    (s.recv bytes).received = s.received ++ bytes := by
  have hcopy := slice_memcpy s.inbound_data_ 0 s.next_rcv_valid_index_ bytes
  rw [Nat.zero_add] at hcopy
  exact hcopy

@[simp] theorem recv_unsent (s : TCPSocket) (bytes : List UInt8) :
    (s.recv bytes).unsent = s.unsent := rfl

section Messages

variable {α : Type} (c : Codec α)

/-- The messages at `i = 0, sizeof, 2 * sizeof, ...`, as long as they are
complete. -/
def messages (s : TCPSocket) : List α :=
  (List.range (s.next_rcv_valid_index_ / c.size)).map fun k =>
    c.dec (slice s.inbound_data_ (k * c.size) c.size)

/-- Move what is behind the messages to the front. -/
def keepTail (s : TCPSocket) : TCPSocket :=
  if s.next_rcv_valid_index_ ≥ c.size then
    let i := s.next_rcv_valid_index_ / c.size * c.size
    { s with
      inbound_data_ := memmove s.inbound_data_ i (s.next_rcv_valid_index_ - i)
      next_rcv_valid_index_ := s.next_rcv_valid_index_ - i }
  else s

/-- The messages are those of the byte sequence. -/
theorem messages_eq (s : TCPSocket) : s.messages c = c.decode s.received := by
  have hgen : ∀ n i m, n * c.size ≤ m →
      (List.range n).map (fun k => c.dec (slice s.inbound_data_ (i + k * c.size) c.size)) =
        c.decodeN n (slice s.inbound_data_ i m) := by
    intro n
    induction n with
    | zero => intro i m _; rfl
    | succ n ih =>
      intro i m hm
      rw [Nat.succ_mul] at hm
      rw [List.range_succ_eq_map, List.map_cons, List.map_map, Codec.decodeN,
        take_slice _ _ (by omega), drop_slice _ _ (by omega), ← ih _ _ (by omega)]
      congr 1
      · rw [Nat.zero_mul, Nat.add_zero]
      · apply List.map_congr_left
        intro k _
        show c.dec (slice _ (i + (k + 1) * c.size) _) = _
        rw [Nat.succ_mul, Nat.add_comm (k * c.size), Nat.add_assoc]
  unfold messages Codec.decode received
  rw [length_slice, ← hgen _ _ _ (Nat.div_mul_le_self ..)]
  simp

theorem keepTail_received (s : TCPSocket) : (s.keepTail c).received = c.rest s.received := by
  have hlen := s.length_received
  unfold keepTail
  split
  · rw [Codec.rest, hlen, received, received,
      drop_slice _ _ (Nat.div_mul_le_self s.next_rcv_valid_index_ c.size), Nat.zero_add]
    exact slice_memmove ..
  next hshort => rw [c.rest_of_lt (by omega)]

@[simp] theorem keepTail_unsent (s : TCPSocket) : (s.keepTail c).unsent = s.unsent := by
  unfold keepTail
  split <;> rfl

end Messages

end TCPSocket

end LowLatency
