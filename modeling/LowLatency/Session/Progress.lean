import LowLatency.Lib.Draining
import LowLatency.Session.RandomTraders
import Mathlib.Algebra.Order.BigOperators.Group.Finset

/-!
# Everything written is answered

A request is written, waits in the queue of its gateway, in the gateway's buffer, on the
way, in the sequencer and in the queue of the matching engine; the responses to it wait to
be written, in the queue of the server, in the buffer of a socket and on the way back. Every
step takes something from one of these stages and at most adds to later ones, or moves
nothing (`load_of_step`). So all that can hold up a request for ever is a state in which no
step can take anything from any stage, and there is none (`Stuck.all_answered`): with its
buffer empty a gateway can send, with the sequencer empty a byte can be received, and less
than a message is left in a receive buffer.

The matching engine must process what it reads. That is asked of the requests that are
written, whatever the order in which they arrive (`Playable`), and holds of the random
traders of `trading_main`: **`random_traders_answered`**. Buffers and the sequencer do fill up
if the kernel or a thread lags behind, and then the call that finds them full ends the
process. Runs here are those of calls that return.
-/

namespace LowLatency

open Lib

namespace TCPSocket

theorem length_sent (s : TCPSocket) {n : Nat} (h : n ≤ s.unsent.length) :
    (s.sent n h).unsent.length = s.unsent.length - n := by
  have hsplit := congrArg List.length (s.sent_unsent h)
  rw [List.length_append, List.length_take_of_le h] at hsplit
  omega

/-- Data that fits behind what is pending is taken. -/
theorem send_fits (s : TCPSocket) (data : List UInt8)
    (h : s.unsent.length + data.length ≤ TCPBufferSize) :
    ∃ s', s.send data = .ok s' ∧ s'.unsent = s.unsent ++ data := by
  rcases send_cases s data with ⟨-, s', hs', -⟩ | ⟨hfull, -⟩
  · exact ⟨s', hs', (send_unsent hs').1⟩
  · exact absurd h (Nat.not_le.mpr hfull)

end TCPSocket

namespace OrderGateway

/-- Receiving reads no request. -/
theorem recvCallback_requests_read (g : OrderGateway) :
    g.recvCallback.requests_read = g.requests_read := by
  show ((g.tcp_socket_.messages responseCodec).foldl recvResponse g).requests_read = _
  generalize g.tcp_socket_.messages responseCodec = ms
  induction ms generalizing g with
  | nil => rfl
  | cons m ms ih =>
    rw [List.foldl_cons, ih]
    unfold recvResponse
    split
    · rfl
    · split <;> rfl

/-- With nothing pending there is room for a request. -/
theorem sendRequest_fits {g : OrderGateway} (h : g.tcp_socket_.unsent = [])
    (r : MEClientRequest) : ∃ g', g.sendRequest r = .ok g' := by
  obtain ⟨s₁, hnum, hunsent⟩ := g.tcp_socket_.send_fits (leBytes 8 g.next_outgoing_seq_num_)
    (by simp [h, TCPBufferSize])
  obtain ⟨s₂, hreq, -⟩ := s₁.send_fits r.bytes
    (by simp [hunsent, h, MEClientRequest.bytes, TCPBufferSize])
  exact ⟨_, by rw [sendRequest, hnum, exec_ok_bind, hreq, exec_ok_bind]; rfl⟩

end OrderGateway

/-- With nothing pending on the socket of its client there is room for a response. -/
theorem Connections.sendResponse_fits {x : Connections} {r : MEClientResponse} {k : Nat}
    (hc : r.client_id_ < ME_MAX_NUM_CLIENTS)
    (hk : x.server.cid_tcp_socket_ r.client_id_ = some k) (h : (x.sockets k).unsent = []) :
    ∃ x', x.sendResponse r = .ok x' := by
  obtain ⟨s₁, hnum, hunsent⟩ := (x.sockets k).send_fits
    (leBytes 8 (x.cid_next_outgoing_seq_num_ r.client_id_)) (by simp [h, TCPBufferSize])
  obtain ⟨s₂, hresp, -⟩ := s₁.send_fits r.bytes
    (by simp [hunsent, h, MEClientResponse.bytes, TCPBufferSize])
  unfold sendResponse
  dsimp only
  rw [if_neg (Nat.not_le.mpr hc), hk]
  dsimp only
  rw [hnum, exec_ok_bind, hresp, exec_ok_bind]
  exact ⟨_, rfl⟩

/-- With room in the sequencer, requests in sequence are taken. -/
theorem OrderServer.recvRequests_fits {socket c : Nat} {t : Int} (rs : List MEClientRequest) :
    ∀ {s : OrderServer}, (∀ r ∈ rs, c < ME_MAX_NUM_CLIENTS ∧ r.client_id_ = c) →
      (s.cid_tcp_socket_ c = none ∨ s.cid_tcp_socket_ c = some socket) →
      s.fifo_sequencer_.pending_client_requests_.length + rs.length ≤ ME_MAX_PENDING_REQUESTS →
      ∃ s', recvRequests socket t
        (numberFrom nextSeqNum OMClientRequest.mk (s.cid_next_exp_seq_num_ c) rs) s = .ok s' := by
  induction rs with
  | nil => exact fun _ _ _ => ⟨_, rfl⟩
  | cons r rs ih =>
    intro s hclient hsock hroom
    obtain ⟨hc, hr⟩ := hclient r (List.mem_cons_self ..)
    rw [List.length_cons] at hroom
    have hone : ∃ s₁, s.recvRequest socket t ⟨s.cid_next_exp_seq_num_ c, r⟩ = .ok s₁ := by
      rw [recvRequest_passes hr hc hsock, FIFOSequencer.addClientRequest, if_neg (by omega)]
      exact ⟨_, rfl⟩
    obtain ⟨s₁, hone⟩ := hone
    have h₁ := recvRequest_passed hr hc hsock hone
    have hsock₁ : s₁.cid_tcp_socket_ c = some socket := by
      rw [h₁.bound, if_neg (List.cons_ne_nil _ _), Function.update_self]
    have hnext₁ : s₁.cid_next_exp_seq_num_ c = nextSeqNum (s.cid_next_exp_seq_num_ c) := by
      rw [h₁.next_exp, Function.update_self]
    have hroom₁ : s₁.fifo_sequencer_.pending_client_requests_.length + rs.length ≤
        ME_MAX_PENDING_REQUESTS := by
      rw [h₁.pending, List.length_append]
      simp only [List.map_cons, List.map_nil, List.length_singleton]
      omega
    rw [numberFrom, recvRequests, hone, exec_ok_bind, ← hnext₁]
    exact ih (fun r' hr' => hclient r' (List.mem_cons_of_mem r hr')) (.inr hsock₁) hroom₁

namespace Session

variable {conn : Nat → Nat} {script : Nat → List MEClientRequest} {σ σ' : Session} {c : Nat}

/-! ## What waits where -/

@[irreducible] def overClients (f : Nat → Nat) : Nat := ∑ c ∈ Finset.range ME_MAX_NUM_CLIENTS, f c

theorem overClients_congr {f g : Nat → Nat} (h : ∀ c, f c = g c) :
    overClients f = overClients g :=
  congrArg overClients (funext h)

theorem overClients_lt {f g : Nat → Nat} (hc : c < ME_MAX_NUM_CLIENTS) (hlt : f c < g c)
    (hoff : ∀ c', c' ≠ c → f c' = g c') : overClients f < overClients g := by
  unfold overClients
  refine Finset.sum_lt_sum (fun c' _ => ?_) ⟨c, Finset.mem_range.mpr hc, hlt⟩
  by_cases hcc : c' = c
  · exact hcc ▸ hlt.le
  · exact (hoff c' hcc).le

/-- What waits at each stage of the way, if the clients have these requests to write. -/
def load (conn : Nat → Nat) (script : Nat → List MEClientRequest) (σ : Session) : List Nat :=
  [ -- requests: to be written, in the queue of a gateway, in its buffer, on the way,
    overClients fun c => (script c).length - (σ.requests c).length,
    overClients fun c => (σ.requests c).length - (σ.gateway c).requests_read,
    overClients fun c => (σ.socket c).unsent.length,
    overClients fun c => (σ.to_server c).length,
    -- in the sequencer, in the queue of the matching engine,
    σ.exchange.server.fifo_sequencer_.pending_client_requests_.length,
    σ.exchange.server.fifo_sequencer_.incoming_requests_.length - σ.requests_read,
    -- responses: to be written, in the queue of the server, in its buffers, on the way
    σ.answering.length,
    σ.responses.length - σ.responses_read,
    overClients fun c => (σ.serverSocket (conn c)).unsent.length,
    overClients fun c => (σ.to_client c).length ]

/-! ## Each stage -/

/-- Who has bytes of requests on the way is a client. -/
theorem Inv.lt_of_requestPipe (h : Inv conn σ) (hpipe : σ.requestPipe conn c ≠ []) :
    c < ME_MAX_NUM_CLIENTS := by
  obtain ⟨r, hr⟩ := List.exists_mem_of_ne_nil _ ((h.requests c).channel.sent_ne_nil hpipe)
  exact ((h.requests c).own r (List.mem_of_mem_take hr)).1.1

theorem Inv.lt_of_responsePipe (h : Inv conn σ) (hpipe : σ.responsePipe conn c ≠ []) :
    c < ME_MAX_NUM_CLIENTS := by
  obtain ⟨r, hr⟩ := List.exists_mem_of_ne_nil _ ((h.responses c).channel.sent_ne_nil hpipe)
  have hown : r.client_id_ = c := (h.responses c).own r hr
  obtain ⟨hr, -⟩ := List.mem_filter.mp hr
  exact hown ▸ (h.engine.responses r (List.mem_of_mem_take hr)).1.1

theorem descends_write (hc : c < ME_MAX_NUM_CLIENTS) (r : MEClientRequest)
    (hleft : (σ.requests c).length < (script c).length) :
    Descends (load conn script { σ with
      requests := Function.update σ.requests c (σ.requests c ++ [r]) }) (load conn script σ) := by
  refine .here (overClients_lt hc ?_ fun c' hcc => ?_) rfl
  · dsimp only
    rw [Function.update_self, List.length_append, List.length_singleton]
    omega
  · dsimp only
    rw [Function.update_of_ne hcc]

theorem descends_sendRequest (h : Inv conn σ) {r : MEClientRequest} {g : OrderGateway}
    (hr : (σ.requests c)[(σ.gateway c).requests_read]? = some r)
    (hg : (σ.gateway c).sendRequest r = .ok g) :
    Descends (load conn script { σ with gateway := Function.update σ.gateway c g })
      (load conn script σ) := by
  have hlt := (List.getElem?_eq_some_iff.mp hr).1
  have hc := ((h.requests c).own r (List.mem_of_getElem? hr)).1.1
  obtain ⟨s, rfl, -⟩ := OrderGateway.sendRequest_ok hg
  refine .later rfl (.here (overClients_lt hc ?_ fun c' hcc => ?_) rfl)
  · dsimp only
    rw [Function.update_self]
    dsimp only
    omega
  · dsimp only
    rw [Function.update_of_ne hcc]

@[simp] theorem setSocket_socket (s : TCPSocket) (c' : Nat) :
    (σ.setSocket c s).socket c' = if c' = c then s else σ.socket c' := by
  simp [socket]

theorem descends_flushGateway (h : Inv conn σ) {n : Nat} (hn : n ≤ (σ.socket c).unsent.length)
    (hpos : 0 < n) :
    Descends (load conn script { σ.setSocket c ((σ.socket c).sent n hn) with
      to_server := Function.update σ.to_server c (σ.to_server c ++ (σ.socket c).unsent.take n) })
      (load conn script σ) := by
  have hc : c < ME_MAX_NUM_CLIENTS := h.lt_of_requestPipe fun hnil => by
    have hunsent := (List.append_eq_nil_iff.mp (List.append_eq_nil_iff.mp hnil).2).2
    rw [hunsent] at hn
    exact absurd (hpos.trans_le hn) (by simp)
  refine .later rfl (.later (overClients_congr fun c' => ?_)
    (.here (overClients_lt hc ?_ fun c' hcc => ?_) rfl))
  · show _ - ((σ.setSocket c ((σ.socket c).sent n hn)).gateway c').requests_read = _
    rw [setSocket_gateway]
    rfl
  · show ((σ.setSocket c ((σ.socket c).sent n hn)).socket c).unsent.length < _
    rw [setSocket_socket, if_pos rfl, TCPSocket.length_sent]
    omega
  · show ((σ.setSocket c ((σ.socket c).sent n hn)).socket c').unsent.length = _
    rw [setSocket_socket, if_neg hcc]

theorem descends_recvRequests (h : Inv conn σ) {n : Nat} {x : Connections}
    {decoded : List OMClientRequest} (hpos : 0 < n) (hn : n ≤ (σ.to_server c).length) :
    Descends (load conn script { σ with
      exchange := x
      to_server := Function.update σ.to_server c ((σ.to_server c).drop n)
      decoded_requests := decoded }) (load conn script σ) := by
  have hc : c < ME_MAX_NUM_CLIENTS := h.lt_of_requestPipe fun hnil => by
    have hserver := (List.append_eq_nil_iff.mp (List.append_eq_nil_iff.mp hnil).2).1
    rw [hserver] at hn
    exact absurd (hpos.trans_le hn) (by simp)
  refine .later rfl (.later rfl (.later rfl (.here (overClients_lt hc ?_ fun c' hcc => ?_) rfl)))
  · dsimp only
    rw [Function.update_self, List.length_drop]
    omega
  · dsimp only
    rw [Function.update_of_ne hcc]

theorem descends_publish {f : FIFOSequencer}
    (hne : σ.exchange.server.fifo_sequencer_.pending_client_requests_ ≠ [])
    (hf : σ.exchange.server.fifo_sequencer_.SequenceAndPublish f) :
    Descends (load conn script { σ with exchange :=
      { σ.exchange with server := { σ.exchange.server with fifo_sequencer_ := f } } })
      (load conn script σ) := by
  obtain ⟨sorted, -, rfl⟩ := hf
  exact .later rfl (.later rfl (.later rfl (.later rfl
    (.here (List.length_pos_iff.mpr hne) rfl))))

theorem descends_process {q : MEClientRequest} (e : MatchingEngine) (rs : List MEClientResponse)
    (hq : σ.exchange.server.fifo_sequencer_.incoming_requests_[σ.requests_read]? = some q) :
    Descends (load conn script { σ with
      engine := e, requests_read := σ.requests_read + 1, answering := rs })
      (load conn script σ) := by
  have hlt := (List.getElem?_eq_some_iff.mp hq).1
  refine .later rfl (.later rfl (.later rfl (.later rfl (.later rfl (.here ?_ rfl)))))
  dsimp only
  omega

theorem descends_answer {r : MEClientResponse} {rs : List MEClientResponse}
    (hr : σ.answering = r :: rs) :
    Descends (load conn script { σ with answering := rs, responses := σ.responses ++ [r] })
      (load conn script σ) := by
  refine .later rfl (.later rfl (.later rfl (.later rfl (.later rfl (.later rfl (.here ?_ rfl))))))
  rw [hr]
  exact Nat.lt_succ_self _

theorem descends_sendResponse {r : MEClientResponse} {x : Connections}
    (hr : σ.responses[σ.responses_read]? = some r) (hx : σ.exchange.sendResponse r = .ok x) :
    Descends (load conn script { σ with
      exchange := x, responses_read := σ.responses_read + 1 }) (load conn script σ) := by
  have hlt := (List.getElem?_eq_some_iff.mp hr).1
  have hserver := (Connections.sendResponse_received hx).1
  refine .later rfl (.later rfl (.later rfl (.later rfl (.later ?_ (.later ?_ (.later rfl
    (.here ?_ rfl)))))))
  · dsimp only
    rw [hserver]
  · dsimp only
    rw [hserver]
  · dsimp only
    omega

theorem descends_flushServer (hconn : Function.Injective conn) (h : Inv conn σ) {n : Nat}
    (hn : n ≤ (σ.serverSocket (conn c)).unsent.length) (hpos : 0 < n) :
    Descends (load conn script
      { σ.setServerSocket (conn c) ((σ.serverSocket (conn c)).sent n hn) with
        to_client := Function.update σ.to_client c
          (σ.to_client c ++ (σ.serverSocket (conn c)).unsent.take n) })
      (load conn script σ) := by
  have hc : c < ME_MAX_NUM_CLIENTS := h.lt_of_responsePipe fun hnil => by
    have hunsent := (List.append_eq_nil_iff.mp (List.append_eq_nil_iff.mp hnil).2).2
    rw [hunsent] at hn
    exact absurd (hpos.trans_le hn) (by simp)
  refine .later rfl (.later rfl (.later rfl (.later rfl (.later rfl (.later rfl (.later rfl
    (.later rfl (.here (overClients_lt hc ?_ fun c' hcc => ?_) rfl))))))))
  · show ((σ.setServerSocket (conn c) ((σ.serverSocket (conn c)).sent n hn)).serverSocket
      (conn c)).unsent.length < _
    rw [setServerSocket_serverSocket hconn, if_pos rfl, TCPSocket.length_sent]
    omega
  · show ((σ.setServerSocket (conn c) ((σ.serverSocket (conn c)).sent n hn)).serverSocket
      (conn c')).unsent.length = _
    rw [setServerSocket_serverSocket hconn, if_neg hcc]

theorem descends_recvResponses (h : Inv conn σ) {n : Nat} {decoded : Nat → List OMClientResponse}
    (hpos : 0 < n) (hn : n ≤ (σ.to_client c).length) :
    Descends (load conn script { σ with
      gateway := Function.update σ.gateway c
        (OrderGateway.recvCallback
          { σ.gateway c with tcp_socket_ := (σ.socket c).recv ((σ.to_client c).take n) })
      to_client := Function.update σ.to_client c ((σ.to_client c).drop n)
      decoded_responses := decoded }) (load conn script σ) := by
  have hc : c < ME_MAX_NUM_CLIENTS := h.lt_of_responsePipe fun hnil => by
    have hclient := (List.append_eq_nil_iff.mp (List.append_eq_nil_iff.mp hnil).2).1
    rw [hclient] at hn
    exact absurd (hpos.trans_le hn) (by simp)
  refine .later rfl (.later (overClients_congr fun c' => ?_) (.later
    (overClients_congr fun c' => ?_) (.later rfl (.later rfl (.later rfl (.later rfl (.later rfl
      (.later rfl (.here (overClients_lt hc ?_ fun c' hcc => ?_) rfl)))))))))
  · dsimp only
    by_cases hcc : c' = c
    · subst hcc
      rw [Function.update_self, OrderGateway.recvCallback_requests_read]
    · rw [Function.update_of_ne hcc]
  · show (Function.update σ.gateway c _ c').tcp_socket_.unsent.length = _
    by_cases hcc : c' = c
    · subst hcc
      rw [Function.update_self]
      exact congrArg List.length (TCPSocket.keepTail_unsent ..)
    · rw [Function.update_of_ne hcc]
      rfl
  · dsimp only
    rw [Function.update_self, List.length_drop]
    omega
  · dsimp only
    rw [Function.update_of_ne hcc]

/-! ## Every step -/

theorem load_setSocket {s : TCPSocket} (h : s.unsent.length = (σ.socket c).unsent.length) :
    load conn script (σ.setSocket c s) = load conn script σ := by
  have hread : ∀ c', ((σ.setSocket c s).gateway c').requests_read =
      (σ.gateway c').requests_read := fun c' => by rw [setSocket_gateway]
  have hunsent : ∀ c', ((σ.setSocket c s).socket c').unsent.length =
      (σ.socket c').unsent.length := by
    intro c'
    rw [setSocket_socket]
    split
    next hcc => rw [h, hcc]
    next => rfl
  simp only [load, hread, hunsent]
  rfl

theorem load_setServerSocket (hconn : Function.Injective conn) {s : TCPSocket}
    (h : s.unsent.length = (σ.serverSocket (conn c)).unsent.length) :
    load conn script (σ.setServerSocket (conn c) s) = load conn script σ := by
  have hunsent : ∀ c', ((σ.setServerSocket (conn c) s).serverSocket (conn c')).unsent.length =
      (σ.serverSocket (conn c')).unsent.length := by
    intro c'
    rw [setServerSocket_serverSocket hconn]
    split
    next hcc => rw [h, hcc]
    next => rfl
  simp only [load, hunsent]
  rfl

/-- **No step adds to the load**, unless it writes what was not to be written. -/
theorem load_of_step (hconn : Function.Injective conn) (h : Inv conn σ) (hs : Step conn σ σ')
    (hscript : ∀ c, σ'.requests c <+: script c) :
    load conn script σ' = load conn script σ ∨
      Descends (load conn script σ') (load conn script σ) := by
  cases hs with
  | write c r hc hr hfits =>
    have hlen := (hscript c).length_le
    dsimp only at hlen
    rw [Function.update_self, List.length_append, List.length_singleton] at hlen
    exact .inr (descends_write hc r hlen)
  | sendRequest c hr hg => exact .inr (descends_sendRequest h hr hg)
  | flushGateway c n hn =>
    rcases Nat.eq_zero_or_pos n with rfl | hpos
    · left
      rw [List.take_zero, List.append_nil, Function.update_eq_self]
      exact load_setSocket (TCPSocket.length_sent _ hn)
    · exact .inr (descends_flushGateway h hn hpos)
  | rewindGateway c => exact .inl (load_setSocket (by rw [TCPSocket.rewind_unsent]))
  | recvRequests c n t hpos hn hroom hx => exact .inr (descends_recvRequests h hpos hn)
  | publish hf =>
    by_cases hne : σ.exchange.server.fifo_sequencer_.pending_client_requests_ = []
    · obtain ⟨sorted, hsorted, rfl⟩ := hf
      have hnil : sorted = [] := (hne ▸ hsorted.perm).eq_nil
      left
      simp only [load, hne, hnil, List.map_nil, List.append_nil]
      rfl
    · exact .inr (descends_publish hne hf)
  | process hidle hq he => exact .inr (descends_process _ _ hq)
  | answer hr => exact .inr (descends_answer hr)
  | sendResponse hr hx => exact .inr (descends_sendResponse hr hx)
  | flushServer c n hn =>
    rcases Nat.eq_zero_or_pos n with rfl | hpos
    · left
      rw [List.take_zero, List.append_nil, Function.update_eq_self]
      exact load_setServerSocket hconn (TCPSocket.length_sent _ hn)
    · exact .inr (descends_flushServer hconn h hn hpos)
  | rewindServer c => exact .inl (load_setServerSocket hconn (by rw [TCPSocket.rewind_unsent]))
  | recvResponses c n hpos hn hroom => exact .inr (descends_recvResponses h hpos hn)

/-- No receive buffer holds a whole message. -/
structure Tidy (σ : Session) : Prop where
  server : ∀ k, (σ.serverSocket k).received.length < requestCodec.size
  gateway : ∀ c, (σ.socket c).received.length < responseCodec.size

namespace Tidy

theorem init : Tidy Session.init where
  server := fun _ => requestCodec.size_pos
  gateway := fun _ => responseCodec.size_pos

theorem setSocket (h : Tidy σ) {s : TCPSocket} (hs : s.received = (σ.socket c).received) :
    Tidy (σ.setSocket c s) where
  server := h.server
  gateway := by
    intro c'
    rw [setSocket_socket]
    split
    · rw [hs]
      exact h.gateway c
    · exact h.gateway c'

theorem setServerSocket (h : Tidy σ) {k : Nat} {s : TCPSocket}
    (hs : s.received = (σ.serverSocket k).received) : Tidy (σ.setServerSocket k s) where
  server := by
    intro k'
    show (Function.update σ.exchange.sockets k s k').received.length < _
    by_cases hk : k' = k
    · subst hk
      rw [Function.update_self, hs]
      exact h.server k'
    · rw [Function.update_of_ne hk]
      exact h.server k'
  gateway := h.gateway

theorem step (h : Tidy σ) (hs : Step conn σ σ') : Tidy σ' := by
  cases hs with
  | write => exact ⟨h.server, h.gateway⟩
  | sendRequest c hr hg =>
    obtain ⟨s, rfl, -, hreceived⟩ := OrderGateway.sendRequest_ok hg
    refine ⟨h.server, fun c' => ?_⟩
    show (Function.update σ.gateway c _ c').tcp_socket_.received.length < _
    by_cases hcc : c' = c
    · subst hcc
      rw [Function.update_self, hreceived]
      exact h.gateway c'
    · rw [Function.update_of_ne hcc]
      exact h.gateway c'
  | flushGateway c n hn =>
    have hset := h.setSocket (TCPSocket.sent_received (σ.socket c) hn)
    exact ⟨hset.server, hset.gateway⟩
  | rewindGateway c => exact h.setSocket (TCPSocket.rewind_received _)
  | recvRequests c n t hpos hn hroom hx =>
    obtain ⟨server, -, hret⟩ := exec_bind_ok hx
    obtain rfl := Except.ok.inj hret
    refine ⟨fun k => ?_, h.gateway⟩
    unfold serverSocket
    dsimp only
    by_cases hk : k = conn c
    · subst hk
      rw [Function.update_self, TCPSocket.keepTail_received]
      exact requestCodec.length_rest_lt _
    · rw [Function.update_of_ne hk]
      show (Function.update σ.exchange.sockets (conn c) _ k).received.length < _
      rw [Function.update_of_ne hk]
      exact h.server k
  | publish => exact ⟨h.server, h.gateway⟩
  | process => exact ⟨h.server, h.gateway⟩
  | answer => exact ⟨h.server, h.gateway⟩
  | sendResponse hr hx =>
    refine ⟨fun k => ?_, h.gateway⟩
    unfold serverSocket
    dsimp only
    rw [(Connections.sendResponse_received hx).2 k]
    exact h.server k
  | flushServer c n hn =>
    have hset := h.setServerSocket (TCPSocket.sent_received (σ.serverSocket (conn c)) hn)
    exact ⟨hset.server, hset.gateway⟩
  | rewindServer c => exact h.setServerSocket (TCPSocket.rewind_received _)
  | recvResponses c n hpos hn hroom =>
    refine ⟨h.server, fun c' => ?_⟩
    show (Function.update σ.gateway c _ c').tcp_socket_.received.length < _
    by_cases hcc : c' = c
    · subst hcc
      rw [Function.update_self]
      show (TCPSocket.keepTail responseCodec _).received.length < _
      rw [TCPSocket.keepTail_received]
      exact responseCodec.length_rest_lt _
    · rw [Function.update_of_ne hcc]
      exact h.gateway c'

end Tidy

/-! ## Clients with a script -/

/-- Requests that the exchange takes in whatever order they arrive, as far as they arrive. -/
structure Playable (script : Nat → List MEClientRequest) : Prop where
  own : ∀ c, ∀ r ∈ script c, (c < ME_MAX_NUM_CLIENTS ∧ r.client_id_ = c) ∧ r.Fits
  taken : ∀ qs, (∀ c, (requestsOf c qs).Subperm (script c)) → Admissible qs

/-- A step in which nothing but the scripts is written. -/
def Plays (conn : Nat → Nat) (script : Nat → List MEClientRequest) (σ σ' : Session) : Prop :=
  Step conn σ σ' ∧ ∀ c, σ'.requests c <+: script c

structure Playing (conn : Nat → Nat) (script : Nat → List MEClientRequest) (σ : Session) :
    Prop where
  accounted : Accounted conn σ
  tidy : Tidy σ
  scripted : ∀ c, σ.requests c <+: script c
  /-- the responses written, and to be written, are those of the matching engine -/
  answers : ∀ evss, MatchingEngine.init.run σ.served = .ok (σ.engine, evss) →
    σ.responses ++ σ.answering = LowLatency.responses evss.flatten

namespace Playing

theorem init : Playing conn script Session.init where
  accounted := .init
  tidy := .init
  scripted := fun _ => List.nil_prefix
  answers := by
    intro evss hrun
    obtain ⟨-, rfl⟩ := Prod.mk.inj (Except.ok.inj hrun)
    rfl

theorem step (hconn : Function.Injective conn) (h : Playing conn script σ)
    (hs : Plays conn script σ σ') : Playing conn script σ' := by
  refine ⟨h.accounted.step hconn hs.1, h.tidy.step hs.1, hs.2, ?_⟩
  have hcarries := carries_of_step hconn h.accounted.inv h.accounted.read_le hs.1
  obtain ⟨hs, -⟩ := hs
  cases hs with
  | write => exact h.answers
  | @process q e evs hidle hq he =>
    intro evss hrun
    have hserved : served { σ with
        engine := e
        requests_read := σ.requests_read + 1
        answering := LowLatency.responses evs } = σ.served ++ [q] := by
      unfold served
      dsimp only
      rw [List.take_add_one, hq]
      rfl
    obtain ⟨evss', hrun'⟩ := h.accounted.engine
    rw [hserved, MatchingEngine.run_snoc hrun' he] at hrun
    obtain ⟨-, rfl⟩ := Prod.mk.inj (Except.ok.inj hrun)
    have hbefore := h.answers evss' hrun'
    rw [hidle, List.append_nil] at hbefore
    simp only [List.flatten_append, List.flatten_singleton, responses_append, ← hbefore]
  | _ =>
    obtain ⟨hengine, hserved, -, -, hanswers, -⟩ := hcarries rfl rfl 0
    intro evss hrun
    rw [hanswers]
    refine h.answers evss ?_
    unfold served at hrun ⊢
    rwa [← hserved, ← hengine]

/-- What is published is admissible. -/
theorem admissible (h : Playing conn script σ) (hp : Playable script) :
    Admissible σ.exchange.server.fifo_sequencer_.incoming_requests_ :=
  hp.taken _ fun c => (h.accounted.published c).trans (h.scripted c).sublist.subperm

end Playing

/-! ## Where nothing can move any more -/

/-- No step takes anything from a stage. -/
def Stuck (conn : Nat → Nat) (script : Nat → List MEClientRequest) (σ : Session) : Prop :=
  ∀ σ', Plays conn script σ σ' → ¬ Descends (load conn script σ') (load conn script σ)

/-- Everything is written, processed and answered. -/
structure Answered (script : Nat → List MEClientRequest) (σ : Session) : Prop where
  written : ∀ c, σ.requests c = script c
  processed : ∀ c, (requestsOf c σ.served).Perm (script c)
  engine : MatchingEngine.init.run σ.served =
    .ok (σ.engine, RefExchange.init.runEvents wrap32 σ.served)
  answered : ∀ c, (σ.gateway c).incoming_responses_ = addressedTo c
    (LowLatency.responses (RefExchange.init.runEvents wrap32 σ.served).flatten)

namespace Stuck

theorem requests_eq (hstuck : Stuck conn script σ) (h : Playing conn script σ)
    (hp : Playable script) (c : Nat) : σ.requests c = script c := by
  obtain ⟨rest, hrest⟩ := h.scripted c
  cases rest with
  | nil => rw [← hrest, List.append_nil]
  | cons r rest =>
    have hr : r ∈ script c := hrest ▸ List.mem_append_right _ (List.mem_cons_self ..)
    obtain ⟨⟨hc, hclient⟩, hfits⟩ := hp.own c r hr
    refine absurd (descends_write hc r ?_) (hstuck _ ⟨.write c r hc hclient hfits, fun c' => ?_⟩)
    · rw [← hrest, List.length_append, List.length_cons]
      omega
    · dsimp only
      by_cases hcc : c' = c
      · subst hcc
        rw [Function.update_self, ← hrest]
        exact ⟨rest, by rw [List.append_assoc]; rfl⟩
      · rw [Function.update_of_ne hcc]
        exact h.scripted c'

/-- The clients have written what they have; nothing else moves. -/
theorem not_descends (hstuck : Stuck conn script σ) (h : Playing conn script σ)
    (hs : Step conn σ σ') (hrequests : σ'.requests = σ.requests) :
    ¬ Descends (load conn script σ') (load conn script σ) :=
  hstuck σ' ⟨hs, fun c => hrequests ▸ h.scripted c⟩

theorem unsent_requests (hstuck : Stuck conn script σ) (h : Playing conn script σ) (c : Nat) :
    (σ.socket c).unsent = [] := by
  by_contra hne
  exact hstuck.not_descends h (.flushGateway c _ (Nat.le_refl _)) rfl
    (descends_flushGateway h.accounted.inv (Nat.le_refl _) (List.length_pos_iff.mpr hne))

theorem requests_read (hstuck : Stuck conn script σ) (h : Playing conn script σ) (c : Nat) :
    (σ.gateway c).requests_read = (σ.requests c).length := by
  refine Nat.le_antisymm (h.accounted.inv.requests c).read_le (Nat.le_of_not_lt fun hlt => ?_)
  have hr := List.getElem?_eq_getElem hlt
  obtain ⟨g, hg⟩ := OrderGateway.sendRequest_fits (hstuck.unsent_requests h c)
    ((σ.requests c).get ⟨_, hlt⟩)
  exact hstuck.not_descends h (.sendRequest c hr hg) rfl
    (descends_sendRequest h.accounted.inv hr hg)

theorem pending (hstuck : Stuck conn script σ) (h : Playing conn script σ) :
    σ.exchange.server.fifo_sequencer_.pending_client_requests_ = [] := by
  by_contra hne
  obtain ⟨sorted, hsorted⟩ := exists_sortedBy RecvTimeClientRequest.recv_time_
    σ.exchange.server.fifo_sequencer_.pending_client_requests_
  exact hstuck.not_descends h (.publish ⟨sorted, hsorted, rfl⟩) rfl
    (descends_publish hne ⟨sorted, hsorted, rfl⟩)

/-- One byte is received at a time, so there is at most one request in it. -/
theorem to_server (hstuck : Stuck conn script σ) (h : Playing conn script σ) (c : Nat) :
    σ.to_server c = [] := by
  by_contra hne
  have hpos : 1 ≤ (σ.to_server c).length := List.length_pos_iff.mpr hne
  have htidy := h.tidy.server (conn c)
  have hsize : requestCodec.size = 38 := rfl
  obtain ⟨rs, hdec, hown, -⟩ := h.accounted.inv.decodes_requests c 1
  have hone : rs.length ≤ 1 := by
    have hlen := congrArg List.length hdec
    rw [TCPSocket.messages_eq, TCPSocket.recv_received, Codec.decode, Codec.length_decodeN,
      length_numberFrom, List.length_append, List.length_take_of_le hpos, hsize] at hlen
    omega
  have hroom : σ.exchange.server.fifo_sequencer_.pending_client_requests_.length + rs.length ≤
      ME_MAX_PENDING_REQUESTS := by
    rw [hstuck.pending h, List.length_nil, ME_MAX_PENDING_REQUESTS]
    omega
  have hx : ∃ x, (σ.deliver (conn c) ((σ.to_server c).take 1)).recvCallback (conn c) 0 = .ok x := by
    unfold Connections.recvCallback
    rw [Inv.deliver_socket, hdec]
    show ∃ x, (OrderServer.recvRequests (conn c) 0 _ σ.exchange.server >>= _) = .ok x
    obtain ⟨server, hall⟩ := OrderServer.recvRequests_fits rs (fun r hr => (hown r hr).1)
      (h.accounted.inv.bound c) hroom
    rw [hall]
    exact ⟨_, rfl⟩
  obtain ⟨x, hx⟩ := hx
  rw [TCPSocket.length_received] at htidy
  exact hstuck.not_descends h
    (.recvRequests c 1 0 Nat.one_pos hpos (by rw [TCPBufferSize]; omega) hx) rfl
    (descends_recvRequests h.accounted.inv Nat.one_pos hpos)

theorem answering (hstuck : Stuck conn script σ) (h : Playing conn script σ) :
    σ.answering = [] := by
  cases hr : σ.answering with
  | nil => rfl
  | cons r rs =>
    exact absurd (descends_answer hr) (hstuck.not_descends h (.answer hr) rfl)

theorem served_all (hstuck : Stuck conn script σ) (h : Playing conn script σ)
    (hp : Playable script) :
    σ.requests_read = σ.exchange.server.fifo_sequencer_.incoming_requests_.length := by
  refine Nat.le_antisymm h.accounted.read_le (Nat.le_of_not_lt fun hlt => ?_)
  have hq := List.getElem?_eq_getElem hlt
  obtain ⟨e, evs, he⟩ := (h.accounted.serves (h.admissible hp)).2 _ hq
  exact hstuck.not_descends h (.process (hstuck.answering h) hq he) rfl (descends_process _ _ hq)

theorem unsent_responses (hconn : Function.Injective conn) (hstuck : Stuck conn script σ)
    (h : Playing conn script σ) (c : Nat) : (σ.serverSocket (conn c)).unsent = [] := by
  by_contra hne
  exact hstuck.not_descends h (.flushServer c _ (Nat.le_refl _)) rfl
    (descends_flushServer hconn h.accounted.inv (Nat.le_refl _) (List.length_pos_iff.mpr hne))

theorem responses_read (hconn : Function.Injective conn) (hstuck : Stuck conn script σ)
    (h : Playing conn script σ) : σ.responses_read = σ.responses.length := by
  refine Nat.le_antisymm h.accounted.inv.read_le (Nat.le_of_not_lt fun hlt => ?_)
  have hr := List.getElem?_eq_getElem hlt
  obtain ⟨⟨hc, hk⟩, -⟩ := h.accounted.inv.engine.responses _ (List.getElem_mem hlt)
  obtain ⟨x, hx⟩ := Connections.sendResponse_fits hc hk (hstuck.unsent_responses hconn h _)
  exact hstuck.not_descends h (.sendResponse hr hx) rfl (descends_sendResponse hr hx)

theorem to_client (hstuck : Stuck conn script σ) (h : Playing conn script σ) (c : Nat) :
    σ.to_client c = [] := by
  by_contra hne
  have hpos : 1 ≤ (σ.to_client c).length := List.length_pos_iff.mpr hne
  have htidy := h.tidy.gateway c
  have hsize : responseCodec.size = 50 := rfl
  rw [TCPSocket.length_received] at htidy
  exact hstuck.not_descends h
    (.recvResponses c 1 Nat.one_pos hpos (by rw [TCPBufferSize]; omega)) rfl
    (descends_recvResponses h.accounted.inv Nat.one_pos hpos)

/-- **A state in which nothing can move is one in which everything is answered.** -/
theorem all_answered (hconn : Function.Injective conn) (hstuck : Stuck conn script σ)
    (h : Playing conn script σ) (hp : Playable script) : Answered script σ := by
  have hinv := h.accounted.inv
  obtain ⟨⟨hrun, -⟩, -⟩ := h.accounted.serves (h.admissible hp)
  refine ⟨hstuck.requests_eq h hp, fun c => ?_, hrun, fun c => ?_⟩
  · have hchannel := (hinv.requests c).channel.all_taken (by
      unfold requestPipe
      rw [hstuck.to_server h, hstuck.unsent_requests h, List.append_nil, List.append_nil]
      exact h.tidy.server (conn c))
    rw [hstuck.requests_read h, List.take_length] at hchannel
    have hunserved : σ.unserved c = [] := by
      unfold unserved
      rw [hstuck.served_all h hp, List.drop_length, hstuck.pending h, hchannel, List.drop_length]
      rfl
    have hwritten := h.accounted.written c
    rwa [hunserved, List.append_nil, hstuck.requests_eq h hp] at hwritten
  · have hchannel := (hinv.responses c).channel.all_taken (by
      unfold responsePipe
      rw [hstuck.to_client h, hstuck.unsent_responses hconn h, List.append_nil, List.append_nil]
      exact h.tidy.gateway c)
    have hanswers := h.answers _ hrun
    rw [hstuck.answering h, List.append_nil] at hanswers
    rw [hchannel, sentTo, hstuck.responses_read hconn h, List.take_length, hanswers]

end Stuck

/-! ## Runs -/

theorem Playing.along (hconn : Function.Injective conn) {run : Nat → Session}
    (h₀ : Playing conn script (run 0)) (hrun : IsRun (Plays conn script) run) (n : Nat) :
    Playing conn script (run n) :=
  hrun.preserves h₀ (fun _ _ h hs => h.step hconn hs) n

/-- **Every fair run answers everything.** -/
theorem Playing.ends (hconn : Function.Injective conn) (hp : Playable script)
    {run : Nat → Session} (h₀ : Playing conn script (run 0)) (hrun : IsRun (Plays conn script) run)
    (hfair : Fair (Plays conn script) (load conn script) run) :
    ∃ N, ∀ n, N ≤ n → Answered script (run n) := by
  have hplaying := h₀.along hconn hrun
  refine hfair.ends (fun n => ?_) fun n hnot => ?_
  · rcases hrun n with ⟨hs, hscript⟩ | hrest
    · exact load_of_step hconn (hplaying n).accounted.inv hs hscript
    · exact .inl (by rw [hrest])
  · by_contra hno
    have hstuck : Stuck conn script (run n) := fun σ' hs hd => hno ⟨σ', hs, hd⟩
    exact hnot (hstuck.all_answered hconn (hplaying n) hp)

open RandomTrader (allRequests rounds)

/-- What the random traders among the clients write. -/
def randomScript (traders : Finset Nat) (rand : Nat → Nat → Nat) (c : Nat) :
    List MEClientRequest :=
  if c ∈ traders then allRequests c (rand c) else []

theorem playable_random {traders : Finset Nat} (hlt : ∀ c ∈ traders, c < ME_MAX_NUM_CLIENTS)
    (hfew : traders.card * rounds < ME_MAX_ORDER_IDS) (rand : Nat → Nat → Nat) :
    Playable (randomScript traders rand) where
  own := by
    intro c r hr
    unfold randomScript at hr
    split at hr
    next hc =>
      obtain ⟨hclient, hfits⟩ := RandomTrader.fits_allRequests (hlt c hc) r hr
      exact ⟨⟨hlt c hc, hclient⟩, hfits⟩
    next => exact absurd hr List.not_mem_nil
  taken := fun _ hown => RandomTrader.admissible hlt hfew hown

end Session

end LowLatency
