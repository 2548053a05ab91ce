import LowLatency.Common.TCPSocket
import LowLatency.Common.Wire

/-!
# `OrderGateway`: the client's end of its connection

`src/trading/order_gw/order_gateway.{h,cpp}`. The gateway numbers the requests of
its trade engine and writes them to its socket, number first. A response is
handed on if it is for this client and has the next number, and dropped
otherwise.

`recvResponses_passes`: responses for this client that are numbered from the one
expected on are all handed on.
-/

namespace LowLatency

open Lib

structure OrderGateway where
  client_id_ : Nat
  tcp_socket_ : TCPSocket
  next_outgoing_seq_num_ : Nat
  next_exp_seq_num_ : Nat
  /-- how many requests have been read from `outgoing_requests_` -/
  requests_read : Nat
  /-- what has been written to the trade engine's queue -/
  incoming_responses_ : List MEClientResponse

namespace OrderGateway

def init (client_id : Nat) : OrderGateway := ⟨client_id, TCPSocket.init, 1, 1, 0, []⟩

/-- The body of the loop of `run`. -/
def sendRequest (g : OrderGateway) (request : MEClientRequest) : Exec OrderGateway := do
  let socket ← g.tcp_socket_.send (leBytes 8 g.next_outgoing_seq_num_)
  let socket ← socket.send request.bytes
  return { g with
    tcp_socket_ := socket
    requests_read := g.requests_read + 1
    next_outgoing_seq_num_ := nextSeqNum g.next_outgoing_seq_num_ }

/-- The body of the loop of `recvCallback`. -/
def recvResponse (g : OrderGateway) (response : OMClientResponse) : OrderGateway :=
  if response.me_client_response_.client_id_ ≠ g.client_id_ then g
  else if response.seq_num_ ≠ g.next_exp_seq_num_ then g
  else { g with
    next_exp_seq_num_ := nextSeqNum g.next_exp_seq_num_
    incoming_responses_ := g.incoming_responses_ ++ [response.me_client_response_] }

/-- Callback when an incoming client response is read: perform some checks and
forward it to the lock free queue connected to the trade engine. -/
def recvCallback (g : OrderGateway) : OrderGateway :=
  { (g.tcp_socket_.messages responseCodec).foldl recvResponse g with
    tcp_socket_ := g.tcp_socket_.keepTail responseCodec }

/-- **One request**: its message goes behind what is pending. -/
theorem sendRequest_ok {g g' : OrderGateway} {r : MEClientRequest}
    (h : g.sendRequest r = .ok g') :
    ∃ socket, g' = { g with
        tcp_socket_ := socket
        requests_read := g.requests_read + 1
        next_outgoing_seq_num_ := nextSeqNum g.next_outgoing_seq_num_ } ∧
      socket.unsent = g.tcp_socket_.unsent ++ requestCodec.enc ⟨g.next_outgoing_seq_num_, r⟩ ∧
      socket.received = g.tcp_socket_.received := by
  obtain ⟨s₁, hnum, h⟩ := exec_bind_ok h
  obtain ⟨s₂, hreq, h⟩ := exec_bind_ok h
  obtain ⟨hunsent₁, hreceived₁⟩ := TCPSocket.send_unsent hnum
  obtain ⟨hunsent₂, hreceived₂⟩ := TCPSocket.send_unsent hreq
  refine ⟨s₂, (Except.ok.inj h).symm, ?_, hreceived₂.trans hreceived₁⟩
  rw [hunsent₂, hunsent₁, List.append_assoc]
  rfl

/-- **No response in sequence is dropped.** -/
theorem recvResponses_passes (rs : List MEClientResponse) :
    ∀ g : OrderGateway, (∀ r ∈ rs, r.client_id_ = g.client_id_) →
      (numberFrom nextSeqNum OMClientResponse.mk g.next_exp_seq_num_ rs).foldl recvResponse g =
        { g with
          next_exp_seq_num_ := after nextSeqNum g.next_exp_seq_num_ rs.length
          incoming_responses_ := g.incoming_responses_ ++ rs } := by
  induction rs with
  | nil =>
    intro g _
    simp [numberFrom, after]
  | cons r rs ih =>
    intro g hclient
    have hr : r.client_id_ = g.client_id_ := hclient r (List.mem_cons_self ..)
    have hstep : g.recvResponse ⟨g.next_exp_seq_num_, r⟩ =
        { g with
          next_exp_seq_num_ := nextSeqNum g.next_exp_seq_num_
          incoming_responses_ := g.incoming_responses_ ++ [r] } := by
      unfold recvResponse
      rw [if_neg (not_not.mpr hr), if_neg (not_not.mpr rfl)]
    rw [numberFrom, List.foldl_cons, hstep]
    have htail := ih
      { g with
        next_exp_seq_num_ := nextSeqNum g.next_exp_seq_num_
        incoming_responses_ := g.incoming_responses_ ++ [r] }
      (fun r' hr' => hclient r' (List.mem_cons_of_mem r hr'))
    rw [htail]
    simp [after]

end OrderGateway

end LowLatency
