import LowLatency.OrderServer.Burst
import LowLatency.OrderGw.OrderGateway
import LowLatency.MarketData.Datagrams

/-!
# Where a stream is cut does not matter

The three callbacks that read messages out of a socket's buffer:
`OrderServer::recvCallback`, `OrderGateway::recvCallback` and
`MarketDataConsumer::recvCallback`. The kernel cuts a stream where it likes, also
in the middle of a sequence number, and each callback keeps what is behind the
last complete message.

A socket with what its messages have led to is a `Codec.Receiver`
(`Connections.Fed.receiver`, `OrderGateway.Fed.receiver`): whatever the reads were,
the server and the gateway are where the checks, applied to the messages of the
whole stream one after the other, lead. `Checks` are those of the server, without
the receive times. Nothing but a full sequencer can end a callback of the server
(`Connections.Framed.returns_iff`).
-/

namespace LowLatency

open Lib

/-! ## The server -/

namespace OrderServer

/-- What the owner and sequence checks look at, and the messages that have passed
them. -/
structure Checks where
  cid_tcp_socket_ : Nat → Option Nat
  cid_next_exp_seq_num_ : Nat → Nat
  handed : List OMClientRequest

namespace Checks

/-- The socket is the client's own, or the first one it uses, and the number is
the next. -/
def Admits (socket : Nat) (s : Checks) (m : OMClientRequest) : Prop :=
  (s.cid_tcp_socket_ m.me_client_request_.client_id_).getD socket = socket ∧
    m.seq_num_ = s.cid_next_exp_seq_num_ m.me_client_request_.client_id_

instance (socket : Nat) (s : Checks) (m : OMClientRequest) : Decidable (s.Admits socket m) :=
  inferInstanceAs (Decidable (_ ∧ _))

/-- The checks on a message: its client gets a socket if it has none, and the
message is handed on if it is admitted. -/
def step (socket : Nat) (s : Checks) (m : OMClientRequest) : Checks :=
  let client_id := m.me_client_request_.client_id_
  { cid_tcp_socket_ := Function.update s.cid_tcp_socket_ client_id
      (some ((s.cid_tcp_socket_ client_id).getD socket))
    cid_next_exp_seq_num_ :=
      if s.Admits socket m then
        Function.update s.cid_next_exp_seq_num_ client_id
          (nextSeqNum (s.cid_next_exp_seq_num_ client_id))
      else s.cid_next_exp_seq_num_
    handed := if s.Admits socket m then s.handed ++ [m] else s.handed }

variable {s : Checks} {socket : Nat}

theorem handed_foldl (ms : List OMClientRequest) :
    s.handed.length ≤ (ms.foldl (Checks.step socket) s).handed.length := by
  induction ms generalizing s with
  | nil => exact Nat.le_refl _
  | cons m ms ih =>
    have hone : s.handed.length ≤ (s.step socket m).handed.length := by
      unfold step
      dsimp only
      split
      · rw [List.length_append]
        omega
      · exact Nat.le_refl _
    exact Nat.le_trans hone ih

end Checks

def checks (s : OrderServer) : Checks :=
  ⟨s.cid_tcp_socket_, s.cid_next_exp_seq_num_, s.accepted⟩

/-- The server with this sequencer. -/
def Checks.server (c : Checks) (f : FIFOSequencer) : OrderServer :=
  ⟨c.cid_tcp_socket_, c.cid_next_exp_seq_num_, f, c.handed⟩

@[simp] theorem Checks.checks_server (c : Checks) (f : FIFOSequencer) : (c.server f).checks = c :=
  rfl

variable {s s' : OrderServer} {socket : Nat} {t : Int}

theorem bindSocket_checks (m : OMClientRequest) :
    s.bindSocket m.me_client_request_.client_id_ socket =
      { s with cid_tcp_socket_ := (s.checks.step socket m).cid_tcp_socket_ } := by
  unfold bindSocket Checks.step checks
  dsimp only
  split
  next hnone => rw [hnone, Option.getD_none]
  next hsome =>
    obtain ⟨k, hk⟩ := Option.ne_none_iff_exists'.mp hsome
    rw [hk, Option.getD_some, ← hk, Function.update_eq_self]

/-- **One message of `recvCallback`** is its checks, and the sequencer for those
that pass. -/
theorem recvRequest_eq {m : OMClientRequest}
    (hm : m.me_client_request_.client_id_ < ME_MAX_NUM_CLIENTS) :
    s.recvRequest socket t m =
      if s.checks.Admits socket m then
        (s.fifo_sequencer_.addClientRequest t m.me_client_request_).map
          (s.checks.step socket m).server
      else .ok ((s.checks.step socket m).server s.fifo_sequencer_) := by
  have howner : (s.checks.step socket m).cid_tcp_socket_ m.me_client_request_.client_id_ =
      some ((s.cid_tcp_socket_ m.me_client_request_.client_id_).getD socket) :=
    Function.update_self ..
  unfold recvRequest
  dsimp only
  rw [if_neg (by omega), bindSocket_checks]
  by_cases hadmit : s.checks.Admits socket m
  · have hown := howner.trans (congrArg some hadmit.1)
    have hseq : m.seq_num_ = s.cid_next_exp_seq_num_ m.me_client_request_.client_id_ := hadmit.2
    rw [if_pos hadmit, if_neg (not_not.mpr hown), if_neg (not_not.mpr hseq)]
    dsimp only
    cases s.fifo_sequencer_.addClientRequest t m.me_client_request_ with
    | error f => rfl
    | ok f =>
      simp only [exec_ok_bind, exec_pure, Except.map, Checks.server, Checks.step, if_pos hadmit]
      rfl
  · have hdrop : (s.checks.step socket m).server s.fifo_sequencer_ =
        { s with cid_tcp_socket_ := (s.checks.step socket m).cid_tcp_socket_ } := by
      simp only [Checks.server, Checks.step, if_neg hadmit]
      rfl
    rw [if_neg hadmit, hdrop]
    by_cases hown : (s.cid_tcp_socket_ m.me_client_request_.client_id_).getD socket = socket
    · have hseq : m.seq_num_ ≠ s.cid_next_exp_seq_num_ m.me_client_request_.client_id_ :=
        fun hseq => hadmit ⟨hown, hseq⟩
      rw [if_neg (not_not.mpr (howner.trans (congrArg some hown))), if_pos hseq]
    · have hother : (s.checks.step socket m).cid_tcp_socket_ m.me_client_request_.client_id_ ≠
          some socket := fun hsome => hown (Option.some.inj (howner.symm.trans hsome))
      rw [if_pos hother]

/-- A message is handed on, or dropped, or there is no room for it. -/
theorem recvRequest_room {m : OMClientRequest}
    (hm : m.me_client_request_.client_id_ < ME_MAX_NUM_CLIENTS)
    (hroom : s.fifo_sequencer_.pending_client_requests_.length ≤ ME_MAX_PENDING_REQUESTS) :
    (s.recvRequest socket t m = .error (.assertion "Too many pending requests") ∧
      s.fifo_sequencer_.pending_client_requests_.length = ME_MAX_PENDING_REQUESTS ∧
      (s.checks.step socket m).handed.length = s.accepted.length + 1) ∨
    ∃ f, s.recvRequest socket t m = .ok ((s.checks.step socket m).server f) ∧
      f.pending_client_requests_.length + s.accepted.length =
        s.fifo_sequencer_.pending_client_requests_.length +
          (s.checks.step socket m).handed.length ∧
      f.pending_client_requests_.length ≤ ME_MAX_PENDING_REQUESTS := by
  have hone := @recvRequest_eq s socket t m hm
  by_cases hadmit : s.checks.Admits socket m
  · have hhanded : (s.checks.step socket m).handed.length = s.accepted.length + 1 := by
      show (if s.checks.Admits socket m then s.accepted ++ [m] else s.accepted).length = _
      rw [if_pos hadmit, List.length_append, List.length_singleton]
    rw [if_pos hadmit] at hone
    unfold FIFOSequencer.addClientRequest at hone
    split at hone
    next hfull => exact Or.inl ⟨hone, Nat.le_antisymm hroom hfull, hhanded⟩
    next hfits =>
      refine Or.inr ⟨_, hone, ?_, ?_⟩
      · rw [List.length_append, List.length_singleton]
        omega
      · rw [List.length_append, List.length_singleton]
        omega
  · have hhanded : (s.checks.step socket m).handed = s.accepted := if_neg hadmit
    rw [if_neg hadmit] at hone
    exact Or.inr ⟨_, hone, by rw [hhanded], hroom⟩

/-- A client id outside the arrays is not read. -/
theorem recvRequest_client {m : OMClientRequest} (h : s.recvRequest socket t m = .ok s') :
    m.me_client_request_.client_id_ < ME_MAX_NUM_CLIENTS := by
  by_contra hm
  unfold recvRequest at h
  dsimp only at h
  rw [if_pos (Nat.le_of_not_lt hm)] at h
  exact absurd h (by simp)

theorem recvRequests_clients {ms : List OMClientRequest} (h : recvRequests socket t ms s = .ok s') :
    ∀ m ∈ ms, m.me_client_request_.client_id_ < ME_MAX_NUM_CLIENTS := by
  induction ms generalizing s with
  | nil => exact fun m hm => absurd hm (by simp)
  | cons m ms ih =>
    obtain ⟨s₁, hone, hrest⟩ := exec_bind_ok h
    intro m' hm'
    rcases List.mem_cons.mp hm' with rfl | hm'
    · exact recvRequest_client hone
    · exact ih hrest m' hm'

/-- **The loop of `recvCallback`** is the checks on its messages, one after the
other, as long as what they let through fits into the sequencer. -/
theorem recvRequests_room {ms : List OMClientRequest}
    (hms : ∀ m ∈ ms, m.me_client_request_.client_id_ < ME_MAX_NUM_CLIENTS)
    (hroom : s.fifo_sequencer_.pending_client_requests_.length ≤ ME_MAX_PENDING_REQUESTS) :
    (recvRequests socket t ms s = .error (.assertion "Too many pending requests") ∧
      ME_MAX_PENDING_REQUESTS + s.accepted.length <
        s.fifo_sequencer_.pending_client_requests_.length +
          (ms.foldl (Checks.step socket) s.checks).handed.length) ∨
    ∃ f, recvRequests socket t ms s = .ok ((ms.foldl (Checks.step socket) s.checks).server f) ∧
      f.pending_client_requests_.length + s.accepted.length =
        s.fifo_sequencer_.pending_client_requests_.length +
          (ms.foldl (Checks.step socket) s.checks).handed.length ∧
      f.pending_client_requests_.length ≤ ME_MAX_PENDING_REQUESTS := by
  induction ms generalizing s with
  | nil => exact Or.inr ⟨s.fifo_sequencer_, rfl, rfl, hroom⟩
  | cons m ms ih =>
    have hm := hms m (List.mem_cons_self ..)
    have hms' := fun m' hm' => hms m' (List.mem_cons_of_mem m hm')
    have hmore := @Checks.handed_foldl (s.checks.step socket m) socket ms
    rw [recvRequests, List.foldl_cons]
    rcases @recvRequest_room s socket t m hm hroom with
      ⟨hone, hfull, hhanded⟩ | ⟨f, hone, hcount, hfits⟩
    · -- the message is one too many, and no later one takes it back
      rw [hone]
      exact Or.inl ⟨rfl, by omega⟩
    · rw [hone, exec_ok_bind]
      have hrest := @ih ((s.checks.step socket m).server f) hms' hfits
      have hacc : ((s.checks.step socket m).server f).accepted =
          (s.checks.step socket m).handed := rfl
      have hfifo : ((s.checks.step socket m).server f).fifo_sequencer_ = f := rfl
      rw [Checks.checks_server, hacc, hfifo] at hrest
      rcases hrest with ⟨hstop, hover⟩ | ⟨f', hrun, hcount', hfits'⟩
      · exact Or.inl ⟨hstop, by omega⟩
      · exact Or.inr ⟨f', hrun, by omega, hfits'⟩

theorem recvRequests_checks {ms : List OMClientRequest}
    (hroom : s.fifo_sequencer_.pending_client_requests_.length ≤ ME_MAX_PENDING_REQUESTS)
    (h : recvRequests socket t ms s = .ok s') :
    s'.checks = ms.foldl (Checks.step socket) s.checks ∧
      s'.fifo_sequencer_.pending_client_requests_.length ≤ ME_MAX_PENDING_REQUESTS := by
  rcases @recvRequests_room s socket t ms (recvRequests_clients h) hroom with
    ⟨hstop, _⟩ | ⟨f, hrun, _, hfits⟩
  · rw [hstop] at h
    exact absurd h (by simp)
  · rw [hrun] at h
    rw [← Except.ok.inj h]
    exact ⟨rfl, hfits⟩

end OrderServer

namespace TCPSocket

/-- Where the loop ends, the kept bytes begin, and the `memmove` to the front does
not write where it reads. -/
def MovesApart {α : Type} (c : Codec α) (s : TCPSocket) : Prop :=
  c.size ≤ s.next_rcv_valid_index_ →
    let i := (c.frames s.inbound_data_ s.next_rcv_valid_index_ 0).2
    (s.keepTail c).inbound_data_ = memmove s.inbound_data_ i (s.next_rcv_valid_index_ - i) ∧
      Apart 0 i (s.next_rcv_valid_index_ - i)

theorem movesApart {α : Type} (c : Codec α) (s : TCPSocket) : s.MovesApart c := by
  intro hread
  refine ⟨?_, c.frames_apart s.inbound_data_ hread⟩
  rw [c.frames_eq _ (Nat.zero_le _), Nat.sub_zero, Nat.zero_add, keepTail, if_pos hread]

end TCPSocket

namespace McastSocket

/-- So does the `memcpy`, unless everything is thrown away. -/
def CopiesApart (s : McastSocket) (is_snapshot : Bool) (c : MarketDataConsumer) : Prop :=
  (is_snapshot && !c.in_recovery_) = false → updateCodec.size ≤ s.next_rcv_valid_index_ →
    let i := (updateCodec.frames s.inbound_data_ s.next_rcv_valid_index_ 0).2
    (s.recvCallback is_snapshot c).1.inbound_data_ =
        memcpy s.inbound_data_ 0 (slice s.inbound_data_ i (s.next_rcv_valid_index_ - i)) ∧
      Apart 0 i (s.next_rcv_valid_index_ - i)

theorem copiesApart (s : McastSocket) (is_snapshot : Bool) (c : MarketDataConsumer) :
    s.CopiesApart is_snapshot c := by
  intro hneeded hread
  refine ⟨?_, updateCodec.frames_apart s.inbound_data_ hread⟩
  unfold recvCallback
  rw [hneeded, if_neg (by simp), if_pos hread]

theorem recvCallback_short (s : McastSocket) (is_snapshot : Bool) (c : MarketDataConsumer) :
    (s.recvCallback is_snapshot c).1.next_rcv_valid_index_ < updateCodec.size := by
  have hlen : (s.recvCallback is_snapshot c).1.received.length =
      (s.recvCallback is_snapshot c).1.next_rcv_valid_index_ := length_slice ..
  rw [← hlen, (s.recvCallback_eq is_snapshot c).2]
  split
  · exact updateCodec.size_pos
  · exact Codec.length_rest_lt ..

end McastSocket

namespace Connections

open OrderServer (Checks)

variable {x x' y : Connections} {k : Nat}

/-- A read of a socket: the complete messages go through the loop, and the rest is
kept. -/
theorem drainSocket_read (x : Connections) (k : Nat) (r : Read) :
    x.drainSocket k [r] =
      (OrderServer.recvRequests k r.rx_time (requestCodec.decode ((x.sockets k).received ++ r.bytes))
        x.server).map fun server =>
          { x with
            server := server
            sockets := Function.update x.sockets k
              (((x.sockets k).recv r.bytes).keepTail requestCodec) } := by
  unfold drainSocket recvCallback
  dsimp only
  rw [Function.update_self, TCPSocket.messages_eq, TCPSocket.recv_received, Function.update_idem]
  cases OrderServer.recvRequests k r.rx_time
    (requestCodec.decode ((x.sockets k).received ++ r.bytes)) x.server with
  | error f => rfl
  | ok server => rfl

theorem drainSocket_cons (x : Connections) (k : Nat) (r : Read) (rs : List Read) :
    x.drainSocket k (r :: rs) = x.drainSocket k [r] >>= drainSocket k rs := by
  rw [drainSocket, drainSocket]
  cases recvCallback { x with
      sockets := Function.update x.sockets k ((x.sockets k).recv r.bytes) } k r.rx_time with
  | error f => rfl
  | ok y => rfl

/-- What holds of the server between any two callbacks. -/
structure Framed (x : Connections) : Prop where
  room : x.server.fifo_sequencer_.pending_client_requests_.length ≤ ME_MAX_PENDING_REQUESTS
  tail : ∀ k, (x.sockets k).received.length < requestCodec.size

/-- **A callback** applies the checks to the messages that are complete now. -/
theorem Framed.read {r : Read} (hx : x.Framed) (h : x.drainSocket k [r] = .ok y) :
    y.Framed ∧
      y.server.checks = (requestCodec.decode ((x.sockets k).received ++ r.bytes)).foldl
        (Checks.step k) x.server.checks ∧
      (y.sockets k).received = requestCodec.rest ((x.sockets k).received ++ r.bytes) := by
  rw [drainSocket_read] at h
  cases hrun : OrderServer.recvRequests k r.rx_time
      (requestCodec.decode ((x.sockets k).received ++ r.bytes)) x.server with
  | error f =>
    rw [hrun] at h
    exact absurd h (by simp [Except.map])
  | ok server =>
    rw [hrun] at h
    obtain rfl := Except.ok.inj h
    obtain ⟨hchecks, hroom⟩ := OrderServer.recvRequests_checks hx.room hrun
    have hkept : (((x.sockets k).recv r.bytes).keepTail requestCodec).received =
        requestCodec.rest ((x.sockets k).received ++ r.bytes) := by
      rw [TCPSocket.keepTail_received, TCPSocket.recv_received]
    refine ⟨⟨hroom, ?_⟩, hchecks, ?_⟩
    · intro k'
      by_cases hk : k' = k
      · subst hk
        show (Function.update x.sockets k' _ k').received.length < _
        rw [Function.update_self, hkept]
        exact Codec.length_rest_lt ..
      · show (Function.update x.sockets k _ k').received.length < _
        rw [Function.update_of_ne hk]
        exact hx.tail k'
    · show (Function.update x.sockets k _ k).received = _
      rw [Function.update_self, hkept]

theorem Framed.drainSocket {rs : List Read} (hx : x.Framed) (h : x.drainSocket k rs = .ok y) :
    y.Framed := by
  induction rs generalizing x with
  | nil =>
    obtain rfl := Except.ok.inj h
    exact hx
  | cons r rs ih =>
    rw [drainSocket_cons] at h
    obtain ⟨x₁, hone, hrest⟩ := exec_bind_ok h
    exact ih (hx.read hone).1 hrest

theorem Framed.drainAll {ds : List Drain} (hx : x.Framed) (h : x.drainAll ds = .ok y) :
    y.Framed := by
  induction ds generalizing x with
  | nil =>
    obtain rfl := Except.ok.inj h
    exact hx
  | cons d ds ih =>
    obtain ⟨x₁, hone, hrest⟩ := exec_bind_ok h
    exact ih (hx.drainSocket hone) hrest

theorem Framed.published {f : FIFOSequencer} (hx : x.Framed)
    (h : x.server.fifo_sequencer_.SequenceAndPublish f) :
    Framed { x with server := { x.server with fifo_sequencer_ := f } } := by
  obtain ⟨sorted, _, rfl⟩ := h
  exact ⟨Nat.zero_le _, hx.tail⟩

theorem sent_received (k : Nat) {n : Nat} (h : n ≤ (x.sockets k).unsent.length) (k' : Nat) :
    (Function.update x.sockets k (((x.sockets k).sent n h).rewind) k').received =
      (x.sockets k').received := by
  by_cases hk : k' = k
  · subst hk
    rw [Function.update_self, TCPSocket.rewind_received, TCPSocket.sent_received]
  · rw [Function.update_of_ne hk]

theorem Framed.congr (hx : x.Framed) (hserver : y.server = x.server)
    (hreceived : ∀ k, (y.sockets k).received = (x.sockets k).received) : y.Framed where
  room := by
    rw [hserver]
    exact hx.room
  tail := by
    intro k
    rw [hreceived]
    exact hx.tail k

theorem Served.framed (h : Served x) : x.Framed := by
  induction h with
  | init => exact ⟨Nat.zero_le _, fun _ => requestCodec.size_pos⟩
  | round _ hround ih =>
    obtain ⟨y, hy, hfin⟩ := hround
    split at hfin
    · obtain ⟨f, hf, rfl⟩ := hfin
      exact (ih.drainAll hy).published hf
    · subst hfin
      exact ih.drainAll hy
  | respond _ hrun ih =>
    obtain ⟨hserver, hreceived⟩ := sendResponse_received hrun
    exact ih.congr hserver hreceived
  | sent _ ih => exact ih.congr rfl (sent_received _ _)

/-- The server with the reads of one socket, which have brought the bytes `bs`
since `x`. Whatever else it does meanwhile reads nothing. -/
inductive Fed (k : Nat) (x : Connections) : List UInt8 → Connections → Prop
  | start : Fed k x [] x
  | read {bs : List UInt8} {y y' : Connections} {r : Read} : Fed k x bs y →
      y.drainSocket k [r] = .ok y' → Fed k x (bs ++ r.bytes) y'
  | published {bs : List UInt8} {y : Connections} {f : FIFOSequencer} : Fed k x bs y →
      y.server.fifo_sequencer_.SequenceAndPublish f →
      Fed k x bs { y with server := { y.server with fifo_sequencer_ := f } }
  | respond {bs : List UInt8} {y y' : Connections} {r : MEClientResponse} : Fed k x bs y →
      y.sendResponse r = .ok y' → Fed k x bs y'
  | sent {bs : List UInt8} {y : Connections} {k' n : Nat}
      {h : n ≤ (y.sockets k').unsent.length} : Fed k x bs y →
      Fed k x bs
        { y with sockets := Function.update y.sockets k' (((y.sockets k').sent n h).rewind) }

/-- The socket and what its messages have led to. -/
def receiver (x : Connections) (k : Nat) : Codec.Receiver Checks :=
  ⟨x.server.checks, (x.sockets k).received⟩

/-- **Whatever the reads were**, the server is where a single read leads. -/
theorem Fed.receiver {bs : List UInt8} (hx : x.Framed) (h : Fed k x bs y) :
    y.Framed ∧ y.receiver k = (x.receiver k).read requestCodec (Checks.step k) bs := by
  induction h with
  | start => exact ⟨hx, (Codec.Receiver.read_nil requestCodec (Checks.step k) (hx.tail k)).symm⟩
  | @read bs y y' r _ hread ih =>
    obtain ⟨hy, heq⟩ := ih
    obtain ⟨hy', hchecks, htail⟩ := hy.read hread
    refine ⟨hy', ?_⟩
    rw [← Codec.Receiver.read_append, ← heq]
    unfold Connections.receiver Codec.Receiver.read
    rw [hchecks, htail]
  | published _ hf ih => exact ⟨ih.1.published hf, ih.2⟩
  | respond _ hrun ih =>
    obtain ⟨hserver, hreceived⟩ := sendResponse_received hrun
    refine ⟨ih.1.congr hserver hreceived, ?_⟩
    rw [← ih.2]
    unfold Connections.receiver
    rw [hserver, hreceived]
  | sent _ ih =>
    refine ⟨ih.1.congr rfl (sent_received _ _), ?_⟩
    rw [← ih.2]
    unfold Connections.receiver
    rw [sent_received]

end Connections

/-! ## The gateway -/

namespace OrderGateway

/-- What the checks of `recvCallback` look at, and the responses that have passed
them. -/
structure Checks where
  next_exp_seq_num_ : Nat
  handed : List MEClientResponse

/-- The checks on a message: it is handed on if it is for this client and has the
next number. -/
def Checks.step (client_id : Nat) (s : Checks) (m : OMClientResponse) : Checks :=
  if m.me_client_response_.client_id_ = client_id ∧ m.seq_num_ = s.next_exp_seq_num_ then
    ⟨nextSeqNum s.next_exp_seq_num_, s.handed ++ [m.me_client_response_]⟩
  else s

def checks (g : OrderGateway) : Checks := ⟨g.next_exp_seq_num_, g.incoming_responses_⟩

theorem recvResponse_checks (g : OrderGateway) (m : OMClientResponse) :
    (g.recvResponse m).checks = g.checks.step g.client_id_ m ∧
      (g.recvResponse m).client_id_ = g.client_id_ := by
  unfold recvResponse Checks.step checks
  split
  next hclient => exact ⟨(if_neg fun h => hclient h.1).symm, rfl⟩
  next hclient =>
    split
    next hseq => exact ⟨(if_neg fun h => hseq h.2).symm, rfl⟩
    next hseq => exact ⟨(if_pos ⟨not_not.mp hclient, not_not.mp hseq⟩).symm, rfl⟩

theorem recvResponses_checks (ms : List OMClientResponse) (g : OrderGateway) :
    (ms.foldl recvResponse g).checks = ms.foldl (Checks.step g.client_id_) g.checks ∧
      (ms.foldl recvResponse g).client_id_ = g.client_id_ := by
  induction ms generalizing g with
  | nil => exact ⟨rfl, rfl⟩
  | cons m ms ih =>
    obtain ⟨hchecks, hclient⟩ := recvResponse_checks g m
    obtain ⟨hchecks', hclient'⟩ := ih (g.recvResponse m)
    rw [hclient] at hchecks' hclient'
    rw [hchecks] at hchecks'
    exact ⟨hchecks', hclient'⟩

/-- The gateway with its reads, which have brought the bytes `bs` since `g`. -/
inductive Fed (g : OrderGateway) : List UInt8 → OrderGateway → Prop
  | start : Fed g [] g
  | read {bs bytes : List UInt8} {g' : OrderGateway} : Fed g bs g' →
      Fed g (bs ++ bytes) { g' with tcp_socket_ := g'.tcp_socket_.recv bytes }.recvCallback
  | request {bs : List UInt8} {g' g'' : OrderGateway} {r : MEClientRequest} : Fed g bs g' →
      g'.sendRequest r = .ok g'' → Fed g bs g''
  | sent {bs : List UInt8} {g' : OrderGateway} {n : Nat} {h : n ≤ g'.tcp_socket_.unsent.length} :
      Fed g bs g' → Fed g bs { g' with tcp_socket_ := (g'.tcp_socket_.sent n h).rewind }

/-- The socket and what its messages have led to. -/
def receiver (g : OrderGateway) : Codec.Receiver Checks := ⟨g.checks, g.tcp_socket_.received⟩

theorem recvCallback_receiver (g : OrderGateway) (bytes : List UInt8) :
    { g with tcp_socket_ := g.tcp_socket_.recv bytes }.recvCallback.receiver =
        g.receiver.read responseCodec (Checks.step g.client_id_) bytes ∧
      { g with tcp_socket_ := g.tcp_socket_.recv bytes }.recvCallback.client_id_ =
        g.client_id_ := by
  obtain ⟨hchecks, hclient⟩ := recvResponses_checks
    ((g.tcp_socket_.recv bytes).messages responseCodec)
    { g with tcp_socket_ := g.tcp_socket_.recv bytes }
  refine ⟨?_, hclient⟩
  unfold receiver Codec.Receiver.read
  congr 1
  · refine hchecks.trans ?_
    rw [TCPSocket.messages_eq, TCPSocket.recv_received]
    rfl
  · show ((g.tcp_socket_.recv bytes).keepTail responseCodec).received = _
    rw [TCPSocket.keepTail_received, TCPSocket.recv_received]

/-- **Whatever the reads were**, the gateway is where a single read leads. -/
theorem Fed.receiver {g g' : OrderGateway} {bs : List UInt8}
    (hg : g.tcp_socket_.received.length < responseCodec.size) (h : Fed g bs g') :
    g'.receiver = g.receiver.read responseCodec (Checks.step g.client_id_) bs ∧
      g'.client_id_ = g.client_id_ := by
  induction h with
  | start => exact ⟨(Codec.Receiver.read_nil responseCodec _ hg).symm, rfl⟩
  | @read bs bytes g' _ ih =>
    obtain ⟨hreceiver, hclient⟩ := recvCallback_receiver g' bytes
    refine ⟨?_, hclient.trans ih.2⟩
    rw [hreceiver, ih.1, ih.2, Codec.Receiver.read_append]
  | request _ hrun ih =>
    obtain ⟨socket, rfl, -, hsame⟩ := sendRequest_ok hrun
    refine ⟨?_, ih.2⟩
    rw [← ih.1]
    unfold OrderGateway.receiver
    dsimp only
    rw [hsame]
    rfl
  | sent _ ih =>
    refine ⟨?_, ih.2⟩
    rw [← ih.1]
    unfold OrderGateway.receiver
    dsimp only
    rw [TCPSocket.rewind_received, TCPSocket.sent_received]
    rfl

end OrderGateway

/-! ## All three -/

section Cuts

open Connections
open OrderServer (Checks)

variable {x y : Connections} {k : Nat} {bs : List UInt8}

/-- Nothing but a full sequencer ends a callback early. -/
theorem Connections.Framed.returns_iff (hy : y.Framed) {r : Read}
    (hids : ∀ m ∈ requestCodec.decode ((y.sockets k).received ++ r.bytes),
      m.me_client_request_.client_id_ < ME_MAX_NUM_CLIENTS) :
    ((∃ y', y.drainSocket k [r] = .ok y') ↔
      y.server.fifo_sequencer_.pending_client_requests_.length +
          ((requestCodec.decode ((y.sockets k).received ++ r.bytes)).foldl (Checks.step k)
            y.server.checks).handed.length ≤
        ME_MAX_PENDING_REQUESTS + y.server.accepted.length) ∧
    ∀ f, y.drainSocket k [r] = .error f → f = .assertion "Too many pending requests" := by
  rw [drainSocket_read]
  rcases @OrderServer.recvRequests_room y.server k r.rx_time _ hids hy.room with
    ⟨hstop, hover⟩ | ⟨f, hrun, hcount, hfits⟩
  · rw [hstop]
    refine ⟨iff_of_false ?_ (by omega), fun f h => (Except.error.inj h).symm⟩
    rintro ⟨y', h⟩
    exact absurd h (by simp [Except.map])
  · rw [hrun]
    exact ⟨iff_of_true ⟨_, rfl⟩ (by omega), fun f h => absurd h (by simp [Except.map])⟩

/-- **Where a stream is cut does not matter.** However the bytes of a socket come
in, the server has handed on, and the gateway has passed on, what the checks let
through of the messages of the whole stream; both keep what is behind the last
message, which is less than one. A callback of the server stops early only if its
sequencer is full. And no tail is moved onto itself. -/
theorem framing_ignores_cuts (hx : Served x) (h : Fed k x bs y) {g g' : OrderGateway}
    {bs' : List UInt8} (hg : g.tcp_socket_.next_rcv_valid_index_ < responseCodec.size)
    (h' : OrderGateway.Fed g bs' g') :
    (y.server.checks = (requestCodec.decode ((x.sockets k).received ++ bs)).foldl
        (Checks.step k) x.server.checks ∧
      (y.sockets k).received = requestCodec.rest ((x.sockets k).received ++ bs) ∧
      (y.sockets k).next_rcv_valid_index_ < requestCodec.size) ∧
    (∀ r : Read, (∀ m ∈ requestCodec.decode ((y.sockets k).received ++ r.bytes),
        m.me_client_request_.client_id_ < ME_MAX_NUM_CLIENTS) →
      ((∃ y', y.drainSocket k [r] = .ok y') ↔
        y.server.fifo_sequencer_.pending_client_requests_.length +
            ((requestCodec.decode ((y.sockets k).received ++ r.bytes)).foldl (Checks.step k)
              y.server.checks).handed.length ≤
          ME_MAX_PENDING_REQUESTS + y.server.accepted.length) ∧
      ∀ f, y.drainSocket k [r] = .error f → f = .assertion "Too many pending requests") ∧
    (g'.checks = (responseCodec.decode (g.tcp_socket_.received ++ bs')).foldl
        (OrderGateway.Checks.step g.client_id_) g.checks ∧
      g'.tcp_socket_.received = responseCodec.rest (g.tcp_socket_.received ++ bs') ∧
      g'.tcp_socket_.next_rcv_valid_index_ < responseCodec.size) ∧
    (∀ s : TCPSocket, s.MovesApart requestCodec ∧ s.MovesApart responseCodec) ∧
    ∀ (s : McastSocket) (is_snapshot : Bool) (c : MarketDataConsumer),
      (s.recvCallback is_snapshot c).1.next_rcv_valid_index_ < updateCodec.size ∧
        ((is_snapshot && !c.in_recovery_) = false →
          (s.recvCallback is_snapshot c).1.received = updateCodec.rest s.received) ∧
        s.CopiesApart is_snapshot c := by
  obtain ⟨hy, hreceiver⟩ := h.receiver hx.framed
  have htail : (y.sockets k).received = requestCodec.rest ((x.sockets k).received ++ bs) :=
    congrArg Codec.Receiver.tail hreceiver
  obtain ⟨hreceiver', -⟩ := h'.receiver (by rw [TCPSocket.length_received]; exact hg)
  have htail' : g'.tcp_socket_.received =
      responseCodec.rest (g.tcp_socket_.received ++ bs') :=
    congrArg Codec.Receiver.tail hreceiver'
  refine ⟨⟨congrArg Codec.Receiver.state hreceiver, htail, ?_⟩, fun r => hy.returns_iff,
    ⟨congrArg Codec.Receiver.state hreceiver', htail', ?_⟩, ?_, ?_⟩
  · rw [← TCPSocket.length_received, htail]
    exact Codec.length_rest_lt ..
  · rw [← TCPSocket.length_received, htail']
    exact Codec.length_rest_lt ..
  · exact fun s => ⟨s.movesApart requestCodec, s.movesApart responseCodec⟩
  · intro s is_snapshot c
    refine ⟨s.recvCallback_short is_snapshot c, ?_, s.copiesApart is_snapshot c⟩
    intro hneeded
    rw [(s.recvCallback_eq is_snapshot c).2, hneeded, if_neg (by simp)]

def oneRequest : OMClientRequest :=
  ⟨1, { type_ := .NEW, client_id_ := 3, ticker_id_ := 0, order_id_ := 7, side_ := .BUY,
        price_ := 100, qty_ := 10 }⟩

def oneResponse : OMClientResponse :=
  ⟨1, { type_ := .ACCEPTED, client_id_ := 3, ticker_id_ := 0, client_order_id_ := 7,
        market_order_id_ := 1, side_ := .BUY, price_ := 100, exec_qty_ := 0, leaves_qty_ := 10 }⟩

/-- A request and its response, both cut in the middle of their numbers. -/
theorem framing_ignores_cuts_number :
    ∃ (y : Connections) (g' : OrderGateway),
      y.server.checks = Checks.step 0 OrderServer.init.checks oneRequest ∧
      (y.sockets 0).received = [] ∧
      g'.checks = OrderGateway.Checks.step 3 ⟨1, []⟩ oneResponse ∧
      g'.tcp_socket_.received = [] := by
  obtain ⟨y₁, y₂, h₁, h₂⟩ : ∃ y₁ y₂,
      Connections.init.drainSocket 0 [⟨(requestCodec.enc oneRequest).take 3, 5⟩] = .ok y₁ ∧
        y₁.drainSocket 0 [⟨(requestCodec.enc oneRequest).drop 3, 6⟩] = .ok y₂ :=
    ⟨_, _, rfl, rfl⟩
  have hfed : ∃ g', OrderGateway.Fed (OrderGateway.init 3)
      (([] ++ (responseCodec.enc oneResponse).take 3) ++ (responseCodec.enc oneResponse).drop 3)
      g' := ⟨_, .read (.read .start)⟩
  obtain ⟨g', hg'⟩ := hfed
  have h := framing_ignores_cuts .init (.read (.read .start h₁) h₂) responseCodec.size_pos hg'
  exact ⟨_, _, h.1.1, h.1.2.1, h.2.2.1.1, h.2.2.1.2.1⟩

end Cuts

end LowLatency
