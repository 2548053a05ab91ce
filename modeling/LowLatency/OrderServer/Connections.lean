import LowLatency.Common.TCPSocket
import LowLatency.Common.Wire
import LowLatency.OrderServer.OrderServer

/-!
# `OrderServer` and its sockets

The other half of `src/exchange/order_server/order_server.h`: `recvCallback` on
the bytes of a socket, and the loop of `run` that numbers the responses of the
matching engine, client by client, and writes each to the socket its client is
bound to.

`recvRequests_passes`: messages of one client that come from its socket, numbered from
the one expected on, are all passed to the sequencer, unless the sequencer has no
room for them.
-/

namespace LowLatency

open Lib

/-- The server with its sockets, by address. -/
structure Connections where
  server : OrderServer
  cid_next_outgoing_seq_num_ : Nat → Nat
  sockets : Nat → TCPSocket

namespace Connections

def init : Connections := ⟨OrderServer.init, fun _ => 1, fun _ => TCPSocket.init⟩

/-- Read client request from the TCP receive buffer, check for sequence gaps and
forward it to the FIFO sequencer. -/
def recvCallback (x : Connections) (socket : Nat) (rx_time : Int) : Exec Connections := do
  let server ← OrderServer.recvRequests socket rx_time ((x.sockets socket).messages requestCodec)
    x.server
  return { x with
    server := server
    sockets := Function.update x.sockets socket ((x.sockets socket).keepTail requestCodec) }

/-- The body of the loop of `run` over `outgoing_responses_`. -/
def sendResponse (x : Connections) (response : MEClientResponse) : Exec Connections := do
  let client_id := response.client_id_
  if client_id ≥ ME_MAX_NUM_CLIENTS then .error .outOfRange
  else
    match x.server.cid_tcp_socket_ client_id with
    | none => .error (.assertion ("Dont have a TCPSocket for ClientId:" ++ toString client_id))
    | some k =>
      let socket ← (x.sockets k).send (leBytes 8 (x.cid_next_outgoing_seq_num_ client_id))
      let socket ← socket.send response.bytes
      return { x with
        sockets := Function.update x.sockets k socket
        cid_next_outgoing_seq_num_ := Function.update x.cid_next_outgoing_seq_num_ client_id
          (nextSeqNum (x.cid_next_outgoing_seq_num_ client_id)) }

/-- **One response**: its message goes behind what is pending on the socket of
its client. -/
theorem sendResponse_ok {x x' : Connections} {r : MEClientResponse} {k : Nat}
    (hk : x.server.cid_tcp_socket_ r.client_id_ = some k) (h : x.sendResponse r = .ok x') :
    ∃ socket, x' = { x with
        sockets := Function.update x.sockets k socket
        cid_next_outgoing_seq_num_ := Function.update x.cid_next_outgoing_seq_num_ r.client_id_
          (nextSeqNum (x.cid_next_outgoing_seq_num_ r.client_id_)) } ∧
      socket.unsent = (x.sockets k).unsent ++
        responseCodec.enc ⟨x.cid_next_outgoing_seq_num_ r.client_id_, r⟩ ∧
      socket.received = (x.sockets k).received := by
  unfold sendResponse at h
  dsimp only at h
  split at h
  · exact absurd h (by simp)
  · rw [hk] at h
    obtain ⟨s₁, hnum, h⟩ := exec_bind_ok h
    obtain ⟨s₂, hresp, h⟩ := exec_bind_ok h
    obtain ⟨hunsent₁, hreceived₁⟩ := TCPSocket.send_unsent hnum
    obtain ⟨hunsent₂, hreceived₂⟩ := TCPSocket.send_unsent hresp
    refine ⟨s₂, (Except.ok.inj h).symm, ?_, hreceived₂.trans hreceived₁⟩
    rw [hunsent₂, hunsent₁, List.append_assoc]
    rfl

/-- A response changes nothing that was received. -/
theorem sendResponse_received {x x' : Connections} {r : MEClientResponse}
    (h : x.sendResponse r = .ok x') :
    x'.server = x.server ∧ ∀ k, (x'.sockets k).received = (x.sockets k).received := by
  cases hk : x.server.cid_tcp_socket_ r.client_id_ with
  | none =>
    unfold sendResponse at h
    dsimp only at h
    split at h
    · exact absurd h (by simp)
    · rw [hk] at h
      exact absurd h (by simp)
  | some k =>
    obtain ⟨socket, rfl, -, hsame⟩ := sendResponse_ok hk h
    refine ⟨rfl, ?_⟩
    intro k'
    show (Function.update x.sockets k socket k').received = _
    by_cases hk' : k' = k
    · subst hk'
      rw [Function.update_self, hsame]
    · rw [Function.update_of_ne hk']

/-- Nothing but a full buffer is in the way of a response to a bound client. -/
theorem sendResponse_stops {x : Connections} {r : MEClientResponse} {k : Nat} {f : Fault}
    (hc : r.client_id_ < ME_MAX_NUM_CLIENTS)
    (hk : x.server.cid_tcp_socket_ r.client_id_ = some k) (h : x.sendResponse r = .error f) :
    f = .assertion "TCPSocket outbound buffer capacity exceeded." := by
  unfold sendResponse at h
  dsimp only at h
  rw [if_neg (by omega), hk] at h
  dsimp only at h
  cases hnum : (x.sockets k).send (leBytes 8 (x.cid_next_outgoing_seq_num_ r.client_id_)) with
  | error f' =>
    rw [hnum] at h
    rw [← Except.error.inj h]
    exact TCPSocket.send_stops hnum
  | ok s =>
    rw [hnum, exec_ok_bind] at h
    cases hresp : s.send r.bytes with
    | error f' =>
      rw [hresp] at h
      rw [← Except.error.inj h]
      exact TCPSocket.send_stops hresp
    | ok s' =>
      rw [hresp] at h
      exact absurd h (by simp)

end Connections

namespace OrderServer

variable {s s' : OrderServer} {socket : Nat} {t : Int} {c : Nat}

/-- `s'` is `s` after all of these messages of client `c` from `socket` were
passed to the sequencer. -/
structure Passed (s s' : OrderServer) (c socket seqIn : Nat) (t : Int)
    (ms : List OMClientRequest) : Prop where
  bound : s'.cid_tcp_socket_ =
    if ms = [] then s.cid_tcp_socket_ else Function.update s.cid_tcp_socket_ c (some socket)
  next_exp : s'.cid_next_exp_seq_num_ = Function.update s.cid_next_exp_seq_num_ c seqIn
  accepted : s'.accepted = s.accepted ++ ms
  pending : s'.fifo_sequencer_.pending_client_requests_ =
    s.fifo_sequencer_.pending_client_requests_ ++ ms.map fun m => ⟨t, m.me_client_request_⟩
  published : s'.fifo_sequencer_.incoming_requests_ = s.fifo_sequencer_.incoming_requests_

theorem bindSocket_eq (h : s.cid_tcp_socket_ c = none ∨ s.cid_tcp_socket_ c = some socket) :
    s.bindSocket c socket =
      { s with cid_tcp_socket_ := Function.update s.cid_tcp_socket_ c (some socket) } := by
  unfold bindSocket
  split
  · rfl
  · next hne =>
    have hsome : s.cid_tcp_socket_ c = some socket := h.resolve_left hne
    rw [← hsome, Function.update_eq_self]

/-- A message of `c` from its socket with the next number gets past all checks. -/
theorem recvRequest_passes {r : MEClientRequest} (hr : r.client_id_ = c)
    (hc : c < ME_MAX_NUM_CLIENTS)
    (hsock : s.cid_tcp_socket_ c = none ∨ s.cid_tcp_socket_ c = some socket) :
    s.recvRequest socket t ⟨s.cid_next_exp_seq_num_ c, r⟩ =
      (s.fifo_sequencer_.addClientRequest t r).map fun f =>
        { cid_tcp_socket_ := Function.update s.cid_tcp_socket_ c (some socket)
          cid_next_exp_seq_num_ := Function.update s.cid_next_exp_seq_num_ c
            (nextSeqNum (s.cid_next_exp_seq_num_ c))
          fifo_sequencer_ := f
          accepted := s.accepted ++ [⟨s.cid_next_exp_seq_num_ c, r⟩] } := by
  subst hr
  unfold recvRequest
  dsimp only
  rw [if_neg (by omega), bindSocket_eq hsock, if_neg (by simp), if_neg (by simp)]
  cases s.fifo_sequencer_.addClientRequest t r with
  | error f => rfl
  | ok f => rfl

/-- **A message in sequence** is passed to the sequencer. -/
theorem recvRequest_passed {r : MEClientRequest} (hr : r.client_id_ = c)
    (hc : c < ME_MAX_NUM_CLIENTS)
    (hsock : s.cid_tcp_socket_ c = none ∨ s.cid_tcp_socket_ c = some socket)
    (h : s.recvRequest socket t ⟨s.cid_next_exp_seq_num_ c, r⟩ = .ok s') :
    Passed s s' c socket (nextSeqNum (s.cid_next_exp_seq_num_ c)) t
      [⟨s.cid_next_exp_seq_num_ c, r⟩] := by
  rw [recvRequest_passes hr hc hsock] at h
  unfold FIFOSequencer.addClientRequest at h
  split at h
  · exact absurd h (by simp [Except.map])
  · rw [← Except.ok.inj h]
    exact ⟨(if_neg (List.cons_ne_nil _ _)).symm, rfl, rfl, rfl, rfl⟩

/-- **No request in sequence is dropped.** -/
theorem recvRequests_passes (rs : List MEClientRequest) :
    ∀ {s s' : OrderServer}, (∀ r ∈ rs, c < ME_MAX_NUM_CLIENTS ∧ r.client_id_ = c) →
      (s.cid_tcp_socket_ c = none ∨ s.cid_tcp_socket_ c = some socket) →
      recvRequests socket t (numberFrom nextSeqNum OMClientRequest.mk (s.cid_next_exp_seq_num_ c) rs) s =
        .ok s' →
      Passed s s' c socket (after nextSeqNum (s.cid_next_exp_seq_num_ c) rs.length) t
        (numberFrom nextSeqNum OMClientRequest.mk (s.cid_next_exp_seq_num_ c) rs) := by
  induction rs with
  | nil =>
    intro s s' _ _ h
    obtain rfl := Except.ok.inj h
    exact ⟨rfl, (Function.update_eq_self ..).symm, by simp [numberFrom], by simp [numberFrom], rfl⟩
  | cons r rs ih =>
    intro s s' hclient hsock h
    obtain ⟨s₁, hone, hrest⟩ := exec_bind_ok h
    obtain ⟨hc, hr⟩ := hclient r (List.mem_cons_self ..)
    have h₁ := recvRequest_passed hr hc hsock hone
    have hsock₁ : s₁.cid_tcp_socket_ c = some socket := by
      rw [h₁.bound, if_neg (List.cons_ne_nil _ _), Function.update_self]
    have hnext₁ : s₁.cid_next_exp_seq_num_ c = nextSeqNum (s.cid_next_exp_seq_num_ c) := by
      rw [h₁.next_exp, Function.update_self]
    rw [← hnext₁] at hrest
    have h₂ := ih (fun r' hr' => hclient r' (List.mem_cons_of_mem r hr')) (.inr hsock₁) hrest
    rw [hnext₁] at h₂
    refine ⟨?_, ?_, ?_, ?_, h₂.published.trans h₁.published⟩
    · rw [numberFrom, if_neg (List.cons_ne_nil _ _), h₂.bound, h₁.bound,
        if_neg (List.cons_ne_nil _ _), Function.update_idem, ite_self]
    · rw [h₂.next_exp, h₁.next_exp, Function.update_idem]
      rfl
    · rw [h₂.accepted, h₁.accepted, List.append_assoc]
      rfl
    · rw [h₂.pending, h₁.pending, List.append_assoc]
      rfl

/-- Nothing but a full sequencer is in the way of requests in sequence. -/
theorem recvRequests_stops {f : Fault} (rs : List MEClientRequest) :
    ∀ {s : OrderServer}, (∀ r ∈ rs, c < ME_MAX_NUM_CLIENTS ∧ r.client_id_ = c) →
      (s.cid_tcp_socket_ c = none ∨ s.cid_tcp_socket_ c = some socket) →
      recvRequests socket t (numberFrom nextSeqNum OMClientRequest.mk (s.cid_next_exp_seq_num_ c) rs) s =
        .error f →
      f = .assertion "Too many pending requests" := by
  induction rs with
  | nil =>
    intro s _ _ h
    exact absurd h (by simp [numberFrom, recvRequests])
  | cons r rs ih =>
    intro s hclient hsock h
    obtain ⟨hc, hr⟩ := hclient r (List.mem_cons_self ..)
    cases hone : s.recvRequest socket t ⟨s.cid_next_exp_seq_num_ c, r⟩ with
    | ok s₁ =>
      have h₁ := recvRequest_passed hr hc hsock hone
      have hsock₁ : s₁.cid_tcp_socket_ c = some socket := by
        rw [h₁.bound, if_neg (List.cons_ne_nil _ _), Function.update_self]
      have hnext₁ : s₁.cid_next_exp_seq_num_ c = nextSeqNum (s.cid_next_exp_seq_num_ c) := by
        rw [h₁.next_exp, Function.update_self]
      rw [numberFrom, recvRequests, hone, exec_ok_bind, ← hnext₁] at h
      exact ih (fun r' hr' => hclient r' (List.mem_cons_of_mem r hr')) (.inr hsock₁) h
    | error f' =>
      rw [numberFrom, recvRequests, hone] at h
      rw [← Except.error.inj h]
      rw [recvRequest_passes hr hc hsock] at hone
      unfold FIFOSequencer.addClientRequest at hone
      split at hone
      · exact (Except.error.inj hone).symm
      · exact absurd hone (by simp [Except.map])

/-- They are accepted behind those that came before. -/
theorem Passed.acceptedOf {seqIn : Nat} {ms : List OMClientRequest}
    (h : Passed s s' c socket seqIn t ms) (hms : ∀ m ∈ ms, m.me_client_request_.client_id_ = c)
    (c' : Nat) : s'.acceptedOf c' = s.acceptedOf c' ++ if c' = c then ms else [] := by
  unfold OrderServer.acceptedOf
  rw [h.accepted, List.filter_append]
  congr 1
  by_cases hcc : c' = c
  · subst hcc
    rw [if_pos rfl]
    exact List.filter_eq_self.mpr fun m hm => decide_eq_true (hms m hm)
  · rw [if_neg hcc]
    apply List.filter_eq_nil_iff.mpr
    intro m hm
    rw [hms m hm, decide_eq_true_eq]
    exact Ne.symm hcc

end OrderServer

end LowLatency
