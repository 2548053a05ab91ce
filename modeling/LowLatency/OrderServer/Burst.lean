import LowLatency.OrderServer.Connections

/-!
# A receive round

`src/common/tcp_server.cpp` and the receive loop of `src/common/tcp_socket.cpp`.
`TCPServer::sendAndRecv` goes over `receive_sockets_`. Each socket reads until the
kernel has no more data, calling `recvCallback` after every `recvmsg`, and only
when all sockets are done does `recvFinishedCallback` publish what has come in. A
`Drain` is what the kernel has for one socket: the bytes of each `recvmsg` with
their time. After every callback less than a message is left in the buffer, so
the exit for a full buffer is never taken. The send half of the loop does not touch
what is received (`Served.sent`).

Between rounds nothing is pending, so what the sequencer has to hold is the
messages of one round, from all sockets together, in `ME_MAX_PENDING_REQUESTS`
places. **`burst_absorbed_iff`**: a round of correctly sequenced requests is
accepted and published to the last one exactly when there are not more of them
than that. One more, and the round ends in the `FATAL` of `addClientRequest`
(`drainAll_overflow`).
-/

namespace LowLatency

open Lib

/-! ## Messages in sequence -/

namespace OrderServer

/-- A message that gets past all checks. -/
def pass (s : OrderServer) (socket : Nat) (rx_time : Int) (m : OMClientRequest) : OrderServer :=
  let client_id := m.me_client_request_.client_id_
  { cid_tcp_socket_ := Function.update s.cid_tcp_socket_ client_id (some socket)
    cid_next_exp_seq_num_ := Function.update s.cid_next_exp_seq_num_ client_id
      (nextSeqNum (s.cid_next_exp_seq_num_ client_id))
    fifo_sequencer_ := { s.fifo_sequencer_ with
      pending_client_requests_ := s.fifo_sequencer_.pending_client_requests_ ++
        [⟨rx_time, m.me_client_request_⟩] }
    accepted := s.accepted ++ [m] }

/-- The message is the next one of its client, on the socket the client is bound
to or will be. -/
structure Next (s : OrderServer) (socket : Nat) (m : OMClientRequest) : Prop where
  client : m.me_client_request_.client_id_ < ME_MAX_NUM_CLIENTS
  bound : s.cid_tcp_socket_ m.me_client_request_.client_id_ = none ∨
    s.cid_tcp_socket_ m.me_client_request_.client_id_ = some socket
  seq_num : m.seq_num_ = s.cid_next_exp_seq_num_ m.me_client_request_.client_id_

/-- **The next message of a client** is passed on, or there is no room for it. -/
theorem recvRequest_next {s : OrderServer} {socket : Nat} {m : OMClientRequest}
    (h : s.Next socket m) (t : Int) :
    s.recvRequest socket t m =
      if s.fifo_sequencer_.pending_client_requests_.length ≥ ME_MAX_PENDING_REQUESTS then
        .error (.assertion "Too many pending requests")
      else .ok (s.pass socket t m) := by
  obtain ⟨seq, r⟩ := m
  obtain rfl : seq = s.cid_next_exp_seq_num_ r.client_id_ := h.seq_num
  rw [recvRequest_passes rfl h.client h.bound]
  unfold FIFOSequencer.addClientRequest
  split <;> rfl

/-- A message, where it came from and when. -/
structure Arrival where
  socket : Nat
  rx_time : Int
  request : OMClientRequest

/-- Messages in a row. -/
def recvArrivals : List Arrival → OrderServer → Exec OrderServer
  | [], s => .ok s
  | a :: as, s => do
    let s ← s.recvRequest a.socket a.rx_time a.request
    recvArrivals as s

def passAll (as : List Arrival) (s : OrderServer) : OrderServer :=
  as.foldl (fun s a => s.pass a.socket a.rx_time a.request) s

/-- Each message is the next one of its client when its turn comes. -/
def Sequenced : OrderServer → List Arrival → Prop
  | _, [] => True
  | s, a :: as => s.Next a.socket a.request ∧ Sequenced (s.pass a.socket a.rx_time a.request) as

theorem passAll_fields (as : List Arrival) (s : OrderServer) :
    (passAll as s).accepted = s.accepted ++ as.map Arrival.request ∧
    (passAll as s).fifo_sequencer_.pending_client_requests_ =
      s.fifo_sequencer_.pending_client_requests_ ++
        as.map (fun a => ⟨a.rx_time, a.request.me_client_request_⟩) ∧
    (passAll as s).fifo_sequencer_.incoming_requests_ = s.fifo_sequencer_.incoming_requests_ := by
  induction as generalizing s with
  | nil => simp [passAll]
  | cons a as ih =>
    obtain ⟨hacc, hpend, hinc⟩ := ih (s.pass a.socket a.rx_time a.request)
    refine ⟨hacc.trans ?_, hpend.trans ?_, hinc⟩
    · rw [pass, List.append_assoc]
      rfl
    · rw [pass, List.append_assoc]
      rfl

/-- **Messages in sequence** fill the sequencer, up to its last place. -/
theorem recvArrivals_sequenced {as : List Arrival} {s : OrderServer} (h : Sequenced s as)
    (hroom : s.fifo_sequencer_.pending_client_requests_.length ≤ ME_MAX_PENDING_REQUESTS) :
    recvArrivals as s =
      if s.fifo_sequencer_.pending_client_requests_.length + as.length ≤ ME_MAX_PENDING_REQUESTS
      then .ok (passAll as s) else .error (.assertion "Too many pending requests") := by
  induction as generalizing s with
  | nil =>
    rw [List.length_nil, Nat.add_zero, if_pos hroom]
    rfl
  | cons a as ih =>
    rw [recvArrivals, recvRequest_next h.1, List.length_cons]
    by_cases hfull : s.fifo_sequencer_.pending_client_requests_.length ≥ ME_MAX_PENDING_REQUESTS
    · rw [if_pos hfull, if_neg (by omega)]
      rfl
    · have hlen : (s.pass a.socket a.rx_time a.request).fifo_sequencer_.pending_client_requests_.length
          = s.fifo_sequencer_.pending_client_requests_.length + 1 := by
        unfold pass
        rw [List.length_append, List.length_singleton]
      rw [if_neg hfull, exec_ok_bind, ih h.2 (by omega), hlen]
      have hcount : s.fifo_sequencer_.pending_client_requests_.length + 1 + as.length =
          s.fifo_sequencer_.pending_client_requests_.length + (as.length + 1) := by omega
      rw [hcount]
      rfl

theorem recvArrivals_append (as as' : List Arrival) (s : OrderServer) :
    recvArrivals (as ++ as') s = recvArrivals as s >>= recvArrivals as' := by
  induction as generalizing s with
  | nil => rfl
  | cons a as ih =>
    show (s.recvRequest a.socket a.rx_time a.request >>= recvArrivals (as ++ as')) = _
    rw [recvArrivals]
    cases s.recvRequest a.socket a.rx_time a.request with
    | error f => rfl
    | ok s₁ => exact ih s₁

/-- `recvRequests` is the messages of one callback. -/
theorem recvRequests_eq (socket : Nat) (t : Int) (ms : List OMClientRequest) (s : OrderServer) :
    recvRequests socket t ms s = recvArrivals (ms.map fun m => ⟨socket, t, m⟩) s := by
  induction ms generalizing s with
  | nil => rfl
  | cons m ms ih =>
    rw [recvRequests, List.map_cons, recvArrivals]
    cases s.recvRequest socket t m with
    | error f => rfl
    | ok s₁ => exact ih s₁

end OrderServer

/-! ## A round -/

/-- One `recvmsg` that returned bytes. -/
structure Read where
  bytes : List UInt8
  rx_time : Int

/-- What the kernel has for a socket, as it is read. -/
structure Drain where
  socket : Nat
  reads : List Read

namespace Connections

/-- The receive loop of `TCPSocket::sendAndRecv`. -/
def drainSocket (socket : Nat) : List Read → Connections → Exec Connections
  | [], x => .ok x
  | r :: rs, x => do
    let x := { x with
      sockets := Function.update x.sockets socket ((x.sockets socket).recv r.bytes) }
    let x ← x.recvCallback socket r.rx_time
    drainSocket socket rs x

/-- The first loop of `TCPServer::sendAndRecv`. -/
def drainAll : List Drain → Connections → Exec Connections
  | [], x => .ok x
  | d :: ds, x => do
    let x ← x.drainSocket d.socket d.reads
    drainAll ds x

/-- `TCPServer::sendAndRecv`: if something was received, the round is published. -/
def SendAndRecv (ds : List Drain) (x x' : Connections) : Prop :=
  ∃ y, x.drainAll ds = .ok y ∧
    if ds.any (fun d => !d.reads.isEmpty) then
      ∃ f, y.server.fifo_sequencer_.SequenceAndPublish f ∧
        x' = { y with server := { y.server with fifo_sequencer_ := f } }
    else x' = y

/-! ## What a round decodes -/

/-- The messages of a socket's reads. -/
def arrivals (socket : Nat) : TCPSocket → List Read → List OrderServer.Arrival
  | _, [] => []
  | s, r :: rs =>
    ((s.recv r.bytes).messages requestCodec).map (fun m => ⟨socket, r.rx_time, m⟩) ++
      arrivals socket ((s.recv r.bytes).keepTail requestCodec) rs

/-- The socket after its reads. -/
def drained : TCPSocket → List Read → TCPSocket
  | s, [] => s
  | s, r :: rs => drained ((s.recv r.bytes).keepTail requestCodec) rs

/-- The messages of a round, in the order in which they are decoded. -/
def burst : (Nat → TCPSocket) → List Drain → List OrderServer.Arrival
  | _, [] => []
  | sockets, d :: ds =>
    arrivals d.socket (sockets d.socket) d.reads ++
      burst (Function.update sockets d.socket (drained (sockets d.socket) d.reads)) ds

/-- The sockets after a round. -/
def drainedAll : (Nat → TCPSocket) → List Drain → Nat → TCPSocket
  | sockets, [] => sockets
  | sockets, d :: ds =>
    drainedAll (Function.update sockets d.socket (drained (sockets d.socket) d.reads)) ds

theorem drainSocket_eq (socket : Nat) (rs : List Read) (x : Connections) :
    x.drainSocket socket rs =
      (OrderServer.recvArrivals (arrivals socket (x.sockets socket) rs) x.server).map fun server =>
        { x with
          server := server
          sockets := Function.update x.sockets socket (drained (x.sockets socket) rs) } := by
  induction rs generalizing x with
  | nil =>
    rw [drainSocket, arrivals, drained, Function.update_eq_self]
    rfl
  | cons r rs ih =>
    rw [drainSocket, arrivals, OrderServer.recvArrivals_append]
    unfold recvCallback
    dsimp only
    rw [Function.update_self, OrderServer.recvRequests_eq]
    cases OrderServer.recvArrivals (((x.sockets socket).recv r.bytes).messages requestCodec |>.map
        fun m => ⟨socket, r.rx_time, m⟩) x.server with
    | error f => rfl
    | ok server =>
      rw [exec_ok_bind, exec_ok_bind, exec_pure, exec_ok_bind, ih]
      dsimp only
      rw [Function.update_self, Function.update_idem, Function.update_idem]
      rfl

theorem drainAll_eq (ds : List Drain) (x : Connections) :
    x.drainAll ds =
      (OrderServer.recvArrivals (burst x.sockets ds) x.server).map fun server =>
        { x with server := server, sockets := drainedAll x.sockets ds } := by
  induction ds generalizing x with
  | nil => rfl
  | cons d ds ih =>
    rw [drainAll, burst, OrderServer.recvArrivals_append, drainSocket_eq]
    cases OrderServer.recvArrivals (arrivals d.socket (x.sockets d.socket) d.reads) x.server with
    | error f => rfl
    | ok server =>
      show drainAll ds _ = _
      rw [ih]
      rfl

/-- Nothing read, nothing decoded. -/
theorem burst_idle {ds : List Drain} (h : ¬ ds.any (fun d => !d.reads.isEmpty) = true)
    (sockets : Nat → TCPSocket) : burst sockets ds = [] := by
  induction ds generalizing sockets with
  | nil => rfl
  | cons d ds ih =>
    rw [List.any_cons, Bool.or_eq_true, not_or] at h
    have hreads : d.reads = [] := by simpa using h.1
    rw [burst, hreads, ih h.2]
    rfl

/-! ## Bursts -/

/-- The server between two rounds. -/
inductive Served : Connections → Prop
  | init : Served init
  | round {x x' : Connections} {ds : List Drain} : Served x → SendAndRecv ds x x' → Served x'
  | respond {x x' : Connections} {r : MEClientResponse} : Served x → x.sendResponse r = .ok x' →
      Served x'
  | sent {x : Connections} {k n : Nat} {h : n ≤ (x.sockets k).unsent.length} : Served x →
      Served { x with sockets := Function.update x.sockets k (((x.sockets k).sent n h).rewind) }

/-- **Between rounds nothing is pending.** -/
theorem Served.pending {x : Connections} (h : Served x) :
    x.server.fifo_sequencer_.pending_client_requests_ = [] := by
  induction h with
  | init => rfl
  | @round x x' ds _ hround ih =>
    obtain ⟨y, hy, hfin⟩ := hround
    split at hfin
    · obtain ⟨f, ⟨sorted, _, rfl⟩, rfl⟩ := hfin
      rfl
    · next hidle =>
      subst hfin
      rw [drainAll_eq, burst_idle hidle x.sockets] at hy
      rw [← Except.ok.inj hy]
      exact ih
  | respond _ hrun ih =>
    rw [(sendResponse_received hrun).1]
    exact ih
  | sent _ ih => exact ih

/-- The round goes through, and everything it decodes is accepted and published
by its end. -/
def Absorbed (ds : List Drain) (x : Connections) : Prop :=
  (∃ x', SendAndRecv ds x x') ∧
  ∀ x', SendAndRecv ds x x' →
    x'.server.accepted = x.server.accepted ++ (burst x.sockets ds).map (fun a => a.request) ∧
    x'.server.fifo_sequencer_.pending_client_requests_ = [] ∧
    ∃ published, published.Perm
        ((burst x.sockets ds).map fun a => a.request.me_client_request_) ∧
      x'.server.fifo_sequencer_.incoming_requests_ =
        x.server.fifo_sequencer_.incoming_requests_ ++ published

variable {x : Connections} {ds : List Drain}

/-- A burst that fits is passed on. -/
theorem drainAll_fits (hx : Served x) (hseq : OrderServer.Sequenced x.server (burst x.sockets ds))
    (hfit : (burst x.sockets ds).length ≤ ME_MAX_PENDING_REQUESTS) :
    x.drainAll ds = .ok { x with
      server := OrderServer.passAll (burst x.sockets ds) x.server
      sockets := drainedAll x.sockets ds } := by
  have hlen : x.server.fifo_sequencer_.pending_client_requests_.length = 0 := by
    rw [hx.pending]
    rfl
  rw [drainAll_eq, OrderServer.recvArrivals_sequenced hseq (by omega), if_pos (by omega)]
  rfl

/-- **A burst that does not fit** ends the process. -/
theorem drainAll_overflow (hx : Served x)
    (hseq : OrderServer.Sequenced x.server (burst x.sockets ds))
    (hover : ME_MAX_PENDING_REQUESTS < (burst x.sockets ds).length) :
    x.drainAll ds = .error (.assertion "Too many pending requests") := by
  have hlen : x.server.fifo_sequencer_.pending_client_requests_.length = 0 := by
    rw [hx.pending]
    rfl
  rw [drainAll_eq, OrderServer.recvArrivals_sequenced hseq (by omega), if_neg (by omega)]
  rfl

/-- Once everything is drained the round ends: the sort has some outcome. -/
theorem exists_sendAndRecv {y : Connections} (hy : x.drainAll ds = .ok y) :
    ∃ x', SendAndRecv ds x x' := by
  by_cases hread : ds.any (fun d => !d.reads.isEmpty) = true
  · obtain ⟨sorted, hsorted⟩ := exists_sortedBy RecvTimeClientRequest.recv_time_
      y.server.fifo_sequencer_.pending_client_requests_
    let f : FIFOSequencer := ⟨[], y.server.fifo_sequencer_.incoming_requests_ ++
      sorted.map RecvTimeClientRequest.request_⟩
    refine ⟨{ y with server := { y.server with fifo_sequencer_ := f } }, y, hy, ?_⟩
    rw [if_pos hread]
    exact ⟨f, ⟨sorted, hsorted, rfl⟩, rfl⟩
  · refine ⟨y, y, hy, ?_⟩
    rw [if_neg hread]

/-- What a round that fits leaves behind. -/
theorem absorbed_of_fits (hx : Served x)
    (hseq : OrderServer.Sequenced x.server (burst x.sockets ds))
    (hfit : (burst x.sockets ds).length ≤ ME_MAX_PENDING_REQUESTS) : Absorbed ds x := by
  have hrun := drainAll_fits hx hseq hfit
  obtain ⟨hacc, hpend, hinc⟩ := OrderServer.passAll_fields (burst x.sockets ds) x.server
  rw [hx.pending, List.nil_append] at hpend
  refine ⟨exists_sendAndRecv hrun, ?_⟩
  rintro x' ⟨y, hy, hfin⟩
  obtain rfl := Except.ok.inj (hrun.symm.trans hy)
  split at hfin
  · obtain ⟨f, ⟨sorted, hsorted, rfl⟩, rfl⟩ := hfin
    refine ⟨hacc, rfl, _, ?_, by rw [← hinc]⟩
    have hperm := hsorted.perm.map RecvTimeClientRequest.request_
    rw [hpend, List.map_map] at hperm
    exact hperm
  · next hidle =>
    subst hfin
    have hnone := burst_idle hidle x.sockets
    refine ⟨hacc, ?_, [], ?_, ?_⟩
    · rw [hpend, hnone]
      rfl
    · rw [hnone]
      rfl
    · rw [List.append_nil]
      exact hinc

/-- **Bursts of valid traffic** are absorbed, between any two rounds, exactly as
long as they fit into the sequencer; a larger one ends in its `FATAL`. -/
theorem burst_absorbed_iff (hx : Served x) (ds : List Drain)
    (hseq : OrderServer.Sequenced x.server (burst x.sockets ds)) :
    (Absorbed ds x ↔ (burst x.sockets ds).length ≤ ME_MAX_PENDING_REQUESTS) ∧
    (ME_MAX_PENDING_REQUESTS < (burst x.sockets ds).length →
      x.drainAll ds = .error (.assertion "Too many pending requests")) := by
  refine ⟨⟨?_, absorbed_of_fits hx hseq⟩, drainAll_overflow hx hseq⟩
  rintro ⟨⟨x', y, hy, _⟩, _⟩
  by_contra hover
  rw [drainAll_overflow hx hseq (by omega)] at hy
  exact absurd hy (by simp)

/-! ## One client's burst -/

/-- Requests of one client, numbered from the one that is expected, are in
sequence. -/
theorem sequenced_numberFrom {k c : Nat} {t : Int} {rs : List MEClientRequest} {s : OrderServer}
    (hc : c < ME_MAX_NUM_CLIENTS) (hrs : ∀ r ∈ rs, r.client_id_ = c)
    (hbound : s.cid_tcp_socket_ c = none ∨ s.cid_tcp_socket_ c = some k) :
    OrderServer.Sequenced s
      ((numberFrom nextSeqNum OMClientRequest.mk (s.cid_next_exp_seq_num_ c) rs).map
        fun m => ⟨k, t, m⟩) := by
  induction rs generalizing s with
  | nil => trivial
  | cons r rs ih =>
    obtain rfl : r.client_id_ = c := hrs r (List.mem_cons_self ..)
    refine ⟨⟨hc, hbound, rfl⟩, ?_⟩
    have hrest := ih (s := s.pass k t ⟨s.cid_next_exp_seq_num_ r.client_id_, r⟩)
      (fun r' hr' => hrs r' (List.mem_cons_of_mem _ hr'))
      (Or.inr (Function.update_self ..))
    have hnext : (s.pass k t ⟨s.cid_next_exp_seq_num_ r.client_id_, r⟩).cid_next_exp_seq_num_
        r.client_id_ = nextSeqNum (s.cid_next_exp_seq_num_ r.client_id_) :=
      Function.update_self ..
    rw [hnext] at hrest
    exact hrest

/-- `n` orders that client 1 sends on socket 7, read in one piece. -/
def orders (n : Nat) : List OMClientRequest :=
  numberFrom nextSeqNum OMClientRequest.mk 1 (List.replicate n ⟨.NEW, 1, 0, 7, .BUY, 100, 10⟩)

def ordersDrain (n : Nat) : List Drain := [⟨7, [⟨requestCodec.encode (orders n), 0⟩]⟩]

theorem orders_ok (n : Nat) : ∀ m ∈ orders n, requestCodec.Ok m := by
  have hfits : (⟨.NEW, 1, 0, 7, .BUY, 100, 10⟩ : MEClientRequest).Fits :=
    ⟨by decide, by decide, by decide, by unfold PriceFits; decide, by decide⟩
  unfold orders
  have hgen : ∀ seq, seq < 2 ^ 64 → ∀ m ∈ numberFrom nextSeqNum OMClientRequest.mk seq
      (List.replicate n ⟨.NEW, 1, 0, 7, .BUY, 100, 10⟩), requestCodec.Ok m := by
    induction n with
    | zero => intro _ _ m hm; exact absurd hm List.not_mem_nil
    | succ n ih =>
      intro seq hseq m hm
      rcases List.mem_cons.mp hm with rfl | hm
      · exact ⟨hseq, hfits⟩
      · exact ih _ (nextSeqNum_lt seq) m hm
  exact hgen 1 (by decide)

theorem burst_ordersDrain (n : Nat) :
    burst init.sockets (ordersDrain n) = (orders n).map fun m => ⟨7, 0, m⟩ := by
  have hread : (TCPSocket.init.recv (requestCodec.encode (orders n))).messages requestCodec
      = orders n := by
    rw [TCPSocket.messages_eq, TCPSocket.recv_received, TCPSocket.init_received, List.nil_append,
      Codec.decode_encode (orders_ok n)]
  unfold ordersDrain
  rw [burst, burst, arrivals, arrivals, List.append_nil, List.append_nil]
  exact congrArg (List.map _) hread

theorem sequenced_ordersDrain (n : Nat) :
    OrderServer.Sequenced init.server (burst init.sockets (ordersDrain n)) := by
  rw [burst_ordersDrain]
  refine sequenced_numberFrom (c := 1) (by decide) ?_ (Or.inl rfl)
  intro r hr
  rw [List.eq_of_mem_replicate hr]

theorem length_ordersDrain (n : Nat) : (burst init.sockets (ordersDrain n)).length = n := by
  rw [burst_ordersDrain, List.length_map, orders, length_numberFrom, List.length_replicate]

/-- A thousand orders at once. -/
theorem burst_absorbed_thousand : Absorbed (ordersDrain 1000) init := by
  have hgen : ∀ n, n ≤ ME_MAX_PENDING_REQUESTS → Absorbed (ordersDrain n) init := by
    intro n hn
    refine (burst_absorbed_iff Served.init (ordersDrain n) (sequenced_ordersDrain n)).1.mpr ?_
    rw [length_ordersDrain]
    exact hn
  exact hgen 1000 (by decide)

/-- One order more than there are places. -/
theorem burst_overflows : OrderServer.Sequenced init.server (burst init.sockets (ordersDrain 1025)) ∧
    init.drainAll (ordersDrain 1025) = .error (.assertion "Too many pending requests") ∧
    ¬ Absorbed (ordersDrain 1025) init := by
  have hgen : ∀ n, ME_MAX_PENDING_REQUESTS < n →
      OrderServer.Sequenced init.server (burst init.sockets (ordersDrain n)) ∧
      init.drainAll (ordersDrain n) = .error (.assertion "Too many pending requests") ∧
      ¬ Absorbed (ordersDrain n) init := by
    intro n hn
    have hrun := drainAll_overflow Served.init (sequenced_ordersDrain n)
      (by rw [length_ordersDrain]; exact hn)
    refine ⟨sequenced_ordersDrain n, hrun, ?_⟩
    rintro ⟨⟨x', y, hy, _⟩, _⟩
    rw [hrun] at hy
    exact absurd hy (by simp)
  exact hgen 1025 (by decide)

end Connections

end LowLatency
