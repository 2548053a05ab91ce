import LowLatency.Common.TCPSocket

/-!
# `sendAndRecv`, system call by system call

`src/common/tcp_socket.cpp`. `Connection` is a socket together with the point of
`sendAndRecv` it is at, and a `SocketEvent` is what happens to it next: a call from
outside, the end of the receive callback, or the result of the system call the
code is waiting for. Nothing is assumed about their order. A result that is not
waited for changes nothing, and neither does a call that does not fit the point
of the program, so every list of events is a run.

Two ghosts record the outbound side: `accepted`, the bytes the kernel took, and
`passed`, what was given to `send` as long as the socket was not closed.
`outbound_intact` is that the one followed by what is still in the buffer is the
other, in every state of every run.
-/

namespace LowLatency

/-- The result of `recvmsg`, with `errno` where it failed. -/
inductive RecvResult
  | data (bytes : List UInt8)
  | peerClosed
  | EINTR
  | EAGAIN
  | failed
deriving DecidableEq

/-- The result of `::send`. A count of zero is an error like any other. -/
inductive SendResult
  | accepted (n : Nat)
  | EINTR
  | EAGAIN
  | failed
deriving DecidableEq

/-- Outside of `sendAndRecv`; at the head of its first loop; in
`recv_callback_`; at the head of its second loop. -/
inductive SocketPc
  | idle
  | receiving
  | callback
  | sending
deriving DecidableEq

structure Connection where
  socket : TCPSocket
  socket_fd_ : Int
  closed_ : Bool
  pc : SocketPc
  accepted : List UInt8
  passed : List UInt8

inductive SocketEvent
  | send (data : List UInt8)
  | closeSocket
  | sendAndRecv
  | recvmsg (r : RecvResult)
  /-- the callback returns, and this is what it left of the inbound buffer -/
  | callbackReturns (inbound_data_ : Nat → UInt8) (next_rcv_valid_index_ : Nat)
  | kernelSend (r : SendResult)

namespace Connection

/-- A connected socket. -/
def opened (fd : Int) : Connection := ⟨TCPSocket.init, fd, decide (fd < 0), .idle, [], []⟩

def closeSocket (c : Connection) : Connection := { c with socket_fd_ := -1, closed_ := true }

/-- Write outgoing data to the send buffers, unless the socket is closed. -/
def send (c : Connection) (data : List UInt8) : Exec Connection :=
  if c.closed_ then .ok c
  else do
    let socket ← c.socket.send data
    return { c with socket := socket, passed := c.passed ++ data }

/-- The call of `sendAndRecv`. -/
def enter (c : Connection) : Connection :=
  if c.closed_ ∨ c.socket_fd_ < 0 then c else { c with pc := .receiving }

/-- One turn of the receive loop, which ends when the socket is closed, when the
inbound buffer is full or when there is nothing to read. -/
def receive (c : Connection) (r : RecvResult) : Connection :=
  if c.closed_ ∨ c.socket.next_rcv_valid_index_ = TCPBufferSize then { c with pc := .sending }
  else
    match r with
    | .data bytes =>
      -- `recvmsg` was given what is left of the buffer
      if 0 < bytes.length ∧ bytes.length ≤ TCPBufferSize - c.socket.next_rcv_valid_index_ then
        { c with socket := c.socket.recv bytes, pc := .callback }
      else c
    | .EINTR => c
    | .EAGAIN => { c with pc := .sending }
    | .peerClosed | .failed => { c.closeSocket with pc := .sending }

/-- The end of `sendAndRecv`. -/
def leave (c : Connection) : Connection := { c with socket := c.socket.rewind, pc := .idle }

/-- One turn of the send loop, which ends when the socket is closed, when
nothing is pending or when the kernel takes no more. -/
def transmit (c : Connection) (r : SendResult) : Connection :=
  if c.closed_ ∨ ¬ c.socket.next_send_index_ < c.socket.next_send_valid_index_ then c.leave
  else
    match r with
    | .accepted n =>
      -- `::send` was given what is pending
      if h : 0 < n ∧ n ≤ c.socket.unsent.length then
        { c with socket := c.socket.sent n h.2, accepted := c.accepted ++ c.socket.unsent.take n }
      else c
    | .EINTR => c
    | .EAGAIN => c.leave
    | .failed => c.closeSocket.leave

def step (c : Connection) : SocketEvent → Exec Connection
  | .send data => if c.pc = .idle ∨ c.pc = .callback then c.send data else .ok c
  | .closeSocket => .ok (if c.pc = .idle ∨ c.pc = .callback then c.closeSocket else c)
  | .sendAndRecv => .ok (if c.pc = .idle then c.enter else c)
  | .recvmsg r => .ok (if c.pc = .receiving then c.receive r else c)
  | .callbackReturns inbound n =>
    .ok (if c.pc = .callback ∧ n ≤ TCPBufferSize then
        { c with
          socket := { c.socket with inbound_data_ := inbound, next_rcv_valid_index_ := n }
          pc := .receiving }
      else c)
  | .kernelSend r => .ok (if c.pc = .sending then c.transmit r else c)

def run (c : Connection) : List SocketEvent → Exec Connection
  | [] => .ok c
  | e :: es => do
    let c ← c.step e
    c.run es

/-! ## The outbound side -/

/-- Nothing is lost, repeated or reordered, and the indices are in the
buffer. (`next_send_index_ ≤ next_send_valid_index_` is a field of the
socket.) -/
structure Outbound (c : Connection) : Prop where
  intact : c.accepted ++ c.socket.unsent = c.passed
  valid_le : c.socket.next_send_valid_index_ ≤ TCPBufferSize

variable {c c' : Connection}

theorem Outbound.opened (fd : Int) : Outbound (opened fd) := ⟨rfl, Nat.zero_le _⟩

/-- Whatever the rest of a step is, the outbound side was left alone. -/
theorem Outbound.of_same (h : Outbound c) (haccepted : c'.accepted = c.accepted)
    (hpassed : c'.passed = c.passed) (hunsent : c'.socket.unsent = c.socket.unsent)
    (hvalid : c'.socket.next_send_valid_index_ ≤ c.socket.next_send_valid_index_) : Outbound c' where
  intact := by rw [haccepted, hpassed, hunsent]; exact h.intact
  valid_le := hvalid.trans h.valid_le

theorem Outbound.closeSocket (h : Outbound c) : Outbound c.closeSocket :=
  h.of_same rfl rfl rfl le_rfl

theorem Outbound.leave (h : Outbound c) : Outbound c.leave := by
  refine h.of_same rfl rfl (TCPSocket.rewind_unsent _) ?_
  show c.socket.rewind.next_send_valid_index_ ≤ _
  unfold TCPSocket.rewind
  split
  · exact Nat.zero_le _
  · exact le_rfl

theorem Outbound.receive (h : Outbound c) (r : RecvResult) : Outbound (c.receive r) := by
  unfold Connection.receive
  split
  · exact h.of_same rfl rfl rfl le_rfl
  · cases r with
    | data bytes =>
      dsimp only
      split
      · exact h.of_same rfl rfl (TCPSocket.recv_unsent ..) le_rfl
      · exact h
    | peerClosed => exact h.of_same rfl rfl rfl le_rfl
    | EINTR => exact h
    | EAGAIN => exact h.of_same rfl rfl rfl le_rfl
    | failed => exact h.of_same rfl rfl rfl le_rfl

theorem Outbound.transmit (h : Outbound c) (r : SendResult) : Outbound (c.transmit r) := by
  unfold Connection.transmit
  split
  · exact h.leave
  · cases r with
    | accepted n =>
      dsimp only
      split
      next hn =>
        -- the bytes taken move from the buffer to the kernel
        refine ⟨?_, h.valid_le⟩
        show (c.accepted ++ c.socket.unsent.take n) ++ (c.socket.sent n hn.2).unsent = c.passed
        rw [List.append_assoc, ← TCPSocket.sent_unsent c.socket hn.2]
        exact h.intact
      next => exact h
    | EINTR => exact h
    | EAGAIN => exact h.leave
    | failed => exact h.closeSocket.leave

theorem Outbound.send (h : Outbound c) {data : List UInt8} (hrun : c.send data = .ok c') :
    Outbound c' := by
  unfold Connection.send at hrun
  split at hrun
  next =>
    obtain rfl := Except.ok.inj hrun
    exact h
  next =>
    obtain ⟨socket, hsend, hrun⟩ := exec_bind_ok hrun
    obtain rfl := Except.ok.inj hrun
    obtain ⟨hunsent, _⟩ := TCPSocket.send_unsent hsend
    constructor
    · show c.accepted ++ socket.unsent = c.passed ++ data
      rw [hunsent, ← List.append_assoc, h.intact]
    · rcases TCPSocket.send_cases c.socket data with ⟨_, s', hs', hvalid⟩ | ⟨_, herr⟩
      · rw [hsend] at hs'
        obtain rfl := Except.ok.inj hs'
        exact hvalid
      · rw [hsend] at herr
        exact absurd herr (by simp)

/-- **One step** keeps the outbound side intact. -/
theorem Outbound.step (h : Outbound c) {e : SocketEvent} (hstep : c.step e = .ok c') :
    Outbound c' := by
  cases e with
  | send data =>
    unfold Connection.step at hstep
    dsimp only at hstep
    split at hstep
    next => exact h.send hstep
    next =>
      obtain rfl := Except.ok.inj hstep
      exact h
  | closeSocket =>
    obtain rfl := Except.ok.inj hstep
    split
    next => exact h.closeSocket
    next => exact h
  | sendAndRecv =>
    obtain rfl := Except.ok.inj hstep
    unfold Connection.enter
    split
    next =>
      split
      next => exact h
      next => exact h.of_same rfl rfl rfl le_rfl
    next => exact h
  | recvmsg r =>
    obtain rfl := Except.ok.inj hstep
    split
    next => exact h.receive r
    next => exact h
  | callbackReturns inbound n =>
    obtain rfl := Except.ok.inj hstep
    split
    next => exact h.of_same rfl rfl rfl le_rfl
    next => exact h
  | kernelSend r =>
    obtain rfl := Except.ok.inj hstep
    split
    next => exact h.transmit r
    next => exact h

theorem Outbound.run {es : List SocketEvent} (h : Outbound c) (hrun : c.run es = .ok c') :
    Outbound c' := by
  induction es generalizing c with
  | nil =>
    obtain rfl := Except.ok.inj hrun
    exact h
  | cons e es ih =>
    obtain ⟨c₁, hstep, hrest⟩ := exec_bind_ok hrun
    exact ih (h.step hstep) hrest

/-- A step stops in the `ASSERT` of `send` and nowhere else. -/
theorem step_error_iff (c : Connection) (e : SocketEvent) (f : Fault) :
    c.step e = .error f ↔ ∃ data, e = .send data ∧ (c.pc = .idle ∨ c.pc = .callback) ∧
      c.closed_ = false ∧ TCPBufferSize < c.socket.unsent.length + data.length ∧
      f = .assertion "TCPSocket outbound buffer capacity exceeded." := by
  constructor
  · intro herr
    cases e with
    | send data =>
      unfold step at herr
      dsimp only at herr
      split at herr
      next hpc =>
        unfold send at herr
        split at herr
        next => exact absurd herr (by simp)
        next hopen =>
          rcases TCPSocket.send_cases c.socket data with ⟨_, s', hs', _⟩ | ⟨hfull, hs⟩
          · rw [hs'] at herr
            exact absurd herr (by simp)
          · rw [hs] at herr
            exact ⟨data, rfl, hpc, by simpa using hopen, hfull, (Except.error.inj herr).symm⟩
      next => exact absurd herr (by simp)
    | closeSocket => exact absurd herr (by simp [step])
    | sendAndRecv => exact absurd herr (by simp [step])
    | recvmsg r => exact absurd herr (by simp [step])
    | callbackReturns inbound n => exact absurd herr (by simp [step])
    | kernelSend r => exact absurd herr (by simp [step])
  · rintro ⟨data, rfl, hpc, hopen, hfull, rfl⟩
    rcases TCPSocket.send_cases c.socket data with ⟨hle, _⟩ | ⟨_, hs⟩
    · omega
    · simp [step, hpc, send, hopen, hs]

/-- **`TCPSocket`'s outbound path loses, repeats and reorders nothing.** After
any events, what the kernel accepted and what is still in the buffer are
together what was passed to `send` while the socket was open, and the indices
are in order and in the buffer. The next event ends the process exactly when it
is a `send` for which the unsent bytes leave no room. -/
theorem outbound_intact (fd : Int) (es : List SocketEvent) {c : Connection}
    (hrun : (opened fd).run es = .ok c) :
    c.accepted ++ c.socket.unsent = c.passed ∧
      c.socket.next_send_index_ ≤ c.socket.next_send_valid_index_ ∧
      c.socket.next_send_valid_index_ ≤ TCPBufferSize ∧
      ∀ e f, c.step e = .error f ↔ ∃ data, e = .send data ∧ (c.pc = .idle ∨ c.pc = .callback) ∧
        c.closed_ = false ∧ TCPBufferSize < c.socket.unsent.length + data.length ∧
        f = .assertion "TCPSocket outbound buffer capacity exceeded." := by
  have h := (Outbound.opened fd).run hrun
  exact ⟨h.intact, c.socket.send_le, h.valid_le, step_error_iff c⟩

/-- A partial `::send`, after an interrupted one, and more data before the
rest. -/
theorem outbound_intact_partial : ∃ c, (opened 3).run
    [.send [1, 2, 3], .sendAndRecv, .recvmsg .EAGAIN, .kernelSend .EINTR,
      .kernelSend (.accepted 2), .kernelSend .EAGAIN, .send [4]] = .ok c ∧
    c.accepted = [1, 2] ∧ c.accepted ++ c.socket.unsent = c.passed := by
  obtain ⟨c, hrun, haccepted⟩ : ∃ c, (opened 3).run
      [.send [1, 2, 3], .sendAndRecv, .recvmsg .EAGAIN, .kernelSend .EINTR,
        .kernelSend (.accepted 2), .kernelSend .EAGAIN, .send [4]] = .ok c ∧
      c.accepted = [1, 2] := ⟨_, rfl, rfl⟩
  exact ⟨c, hrun, haccepted, (outbound_intact 3 _ hrun).1⟩

end Connection

end LowLatency
