import LowLatency.Matcher.MatchingEngine
import LowLatency.Matcher.Widths
import LowLatency.OrderGw.OrderGateway
import LowLatency.OrderServer.Connections

/-!
# Trading clients connected to the exchange

Every client id below `ME_MAX_NUM_CLIENTS` has a trade engine, an order gateway
and one TCP connection to the order server. One that never writes a request is
as good as absent. `conn c` is the address of the `TCPSocket` that the server
accepted for client `c`.

A step is one turn of one of the loops of the threads involved, or one system
call of `TCPSocket::sendAndRecv`. The steps of a thread are not held to the order
in which the thread makes them, so the runs here include all interleavings of
the real ones.

* A trade engine writes any request that carries its client id.
* A connection is a reliable stream of bytes each way. `::send` hands the kernel
  any part of what is pending, `recvmsg` returns any part of what is on the way
  that fits into the buffer.
* The lock free queues are lists: what was written, in order, and how much of it
  has been read.
* The matching engine reads a request, and then writes the responses to it one
  after the other.

A call that does not return takes no step: a full outbound buffer, a full
sequencer, a request that the matching engine cannot process.

`decoded_requests` and `decoded_responses` record every message that the two
`recvCallback`s decode, before their checks.
-/

namespace LowLatency

structure Session where
  /-- what each trade engine has written for its gateway -/
  requests : Nat → List MEClientRequest
  gateway : Nat → OrderGateway
  /-- bytes on the way from each client to the server -/
  to_server : Nat → List UInt8
  /-- bytes on the way from the server to each client -/
  to_client : Nat → List UInt8
  exchange : Connections
  engine : MatchingEngine
  /-- how many requests the matching engine has read -/
  requests_read : Nat
  /-- responses of the request in progress that are still to be written -/
  answering : List MEClientResponse
  /-- what the matching engine has written for the order server -/
  responses : List MEClientResponse
  /-- how many of these the order server has read -/
  responses_read : Nat
  decoded_requests : List OMClientRequest
  decoded_responses : Nat → List OMClientResponse

namespace Session

def init : Session where
  requests := fun _ => []
  gateway := OrderGateway.init
  to_server := fun _ => []
  to_client := fun _ => []
  exchange := Connections.init
  engine := MatchingEngine.init
  requests_read := 0
  answering := []
  responses := []
  responses_read := 0
  decoded_requests := []
  decoded_responses := fun _ => []

/-- The socket of a client's gateway. -/
def socket (σ : Session) (c : Nat) : TCPSocket := (σ.gateway c).tcp_socket_

def setSocket (σ : Session) (c : Nat) (s : TCPSocket) : Session :=
  { σ with gateway := Function.update σ.gateway c { σ.gateway c with tcp_socket_ := s } }

/-- The server's socket at an address. -/
def serverSocket (σ : Session) (k : Nat) : TCPSocket := σ.exchange.sockets k

def setServerSocket (σ : Session) (k : Nat) (s : TCPSocket) : Session :=
  { σ with exchange :=
      { σ.exchange with sockets := Function.update σ.exchange.sockets k s } }

/-- The server's socket at an address has received these bytes. -/
def deliver (σ : Session) (k : Nat) (bytes : List UInt8) : Connections :=
  (σ.setServerSocket k ((σ.serverSocket k).recv bytes)).exchange

inductive Step (conn : Nat → Nat) : Session → Session → Prop
  /-- A trade engine writes a request. -/
  | write {σ : Session} (c : Nat) (r : MEClientRequest) (hc : c < ME_MAX_NUM_CLIENTS)
      (hr : r.client_id_ = c) (hfits : r.Fits) :
      Step conn σ { σ with requests := Function.update σ.requests c (σ.requests c ++ [r]) }
  /-- A gateway sends the next request. -/
  | sendRequest {σ : Session} (c : Nat) {r : MEClientRequest} {g : OrderGateway}
      (hr : (σ.requests c)[(σ.gateway c).requests_read]? = some r)
      (hg : (σ.gateway c).sendRequest r = .ok g) :
      Step conn σ { σ with gateway := Function.update σ.gateway c g }
  /-- The kernel takes `n` bytes from a gateway. -/
  | flushGateway {σ : Session} (c n : Nat) (hn : n ≤ (σ.socket c).unsent.length) :
      Step conn σ { σ.setSocket c ((σ.socket c).sent n hn) with
        to_server := Function.update σ.to_server c (σ.to_server c ++ (σ.socket c).unsent.take n) }
  | rewindGateway {σ : Session} (c : Nat) :
      Step conn σ (σ.setSocket c (σ.socket c).rewind)
  /-- A `recvmsg` of the server returns `n` bytes of a client. -/
  | recvRequests {σ : Session} (c n : Nat) (rx_time : Int) {x : Connections}
      (hpos : 0 < n) (hn : n ≤ (σ.to_server c).length)
      (hroom : (σ.serverSocket (conn c)).next_rcv_valid_index_ + n ≤ TCPBufferSize)
      (hx : (σ.deliver (conn c) ((σ.to_server c).take n)).recvCallback (conn c) rx_time = .ok x) :
      Step conn σ { σ with
        exchange := x
        to_server := Function.update σ.to_server c ((σ.to_server c).drop n)
        decoded_requests := σ.decoded_requests ++
          ((σ.serverSocket (conn c)).recv ((σ.to_server c).take n)).messages requestCodec }
  /-- The end of a receive round. -/
  | publish {σ : Session} {f : FIFOSequencer}
      (hf : σ.exchange.server.fifo_sequencer_.SequenceAndPublish f) :
      Step conn σ { σ with exchange :=
        { σ.exchange with server := { σ.exchange.server with fifo_sequencer_ := f } } }
  /-- The matching engine processes the next request. -/
  | process {σ : Session} {q : MEClientRequest} {e : MatchingEngine} {evs : List Event}
      (hidle : σ.answering = [])
      (hq : σ.exchange.server.fifo_sequencer_.incoming_requests_[σ.requests_read]? = some q)
      (he : σ.engine.processClientRequest q = .ok (e, evs)) :
      Step conn σ { σ with
        engine := e
        requests_read := σ.requests_read + 1
        answering := LowLatency.responses evs }
  /-- The matching engine writes the next response. -/
  | answer {σ : Session} {r : MEClientResponse} {rs : List MEClientResponse}
      (hr : σ.answering = r :: rs) :
      Step conn σ { σ with answering := rs, responses := σ.responses ++ [r] }
  /-- The server sends the next response. -/
  | sendResponse {σ : Session} {r : MEClientResponse} {x : Connections}
      (hr : σ.responses[σ.responses_read]? = some r) (hx : σ.exchange.sendResponse r = .ok x) :
      Step conn σ { σ with exchange := x, responses_read := σ.responses_read + 1 }
  /-- The kernel takes `n` bytes from the server's socket for a client. -/
  | flushServer {σ : Session} (c n : Nat) (hn : n ≤ (σ.serverSocket (conn c)).unsent.length) :
      Step conn σ { σ.setServerSocket (conn c) ((σ.serverSocket (conn c)).sent n hn) with
        to_client := Function.update σ.to_client c
          (σ.to_client c ++ (σ.serverSocket (conn c)).unsent.take n) }
  | rewindServer {σ : Session} (c : Nat) :
      Step conn σ (σ.setServerSocket (conn c) (σ.serverSocket (conn c)).rewind)
  /-- A `recvmsg` of a gateway returns `n` bytes. -/
  | recvResponses {σ : Session} (c n : Nat) (hpos : 0 < n) (hn : n ≤ (σ.to_client c).length)
      (hroom : (σ.socket c).next_rcv_valid_index_ + n ≤ TCPBufferSize) :
      Step conn σ { σ with
        gateway := Function.update σ.gateway c
          (OrderGateway.recvCallback
            { σ.gateway c with tcp_socket_ := (σ.socket c).recv ((σ.to_client c).take n) })
        to_client := Function.update σ.to_client c ((σ.to_client c).drop n)
        decoded_responses := Function.update σ.decoded_responses c (σ.decoded_responses c ++
          ((σ.socket c).recv ((σ.to_client c).take n)).messages responseCodec) }

/-- The states of all runs. -/
inductive Reachable (conn : Nat → Nat) : Session → Prop
  | init : Reachable conn init
  | step {σ σ' : Session} : Reachable conn σ → Step conn σ σ' → Reachable conn σ'

/-- The requests of a client that were passed to `addClientRequest`. -/
def passed (σ : Session) (c : Nat) : List MEClientRequest :=
  (σ.exchange.server.acceptedOf c).map OMClientRequest.me_client_request_

/-- The responses of the matching engine that are addressed to a client. -/
def addressedTo (c : Nat) (rs : List MEClientResponse) : List MEClientResponse :=
  rs.filter fun r => decide (r.client_id_ = c)

/-- **What the two sides agree on.** -/
structure Agreement (σ : Session) : Prop where
  /-- a client's requests arrive in order and without loss -/
  requests : ∀ c, σ.passed c <+: σ.requests c
  /-- and so do the responses addressed to it -/
  responses : ∀ c, (σ.gateway c).incoming_responses_ <+: addressedTo c σ.responses
  /-- the server has passed on every message that it decoded -/
  kept_requests : σ.exchange.server.accepted = σ.decoded_requests
  /-- and so has every gateway -/
  kept_responses : ∀ c, (σ.gateway c).incoming_responses_ =
    (σ.decoded_responses c).map OMClientResponse.me_client_response_
  /-- the next response has a socket to go to -/
  socket : ∀ r, σ.responses[σ.responses_read]? = some r →
    σ.exchange.server.cid_tcp_socket_ r.client_id_ ≠ none

end Session

end LowLatency
