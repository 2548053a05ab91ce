import LowLatency.Session.Model

/-!
# Both ends of every session agree

`session_agreement`: in every state of every run, a client's requests reach the
sequencer in the order in which its trade engine wrote them, the responses
addressed to it reach its trade engine in the order in which the matching engine
wrote them, nothing is dropped by the checks on either side, and the order server
has a socket for the next response.

The invariant has three parts. `RequestsAt` and `ResponsesAt` say of each
client that the bytes between the two ends, in the sender's buffer, on the way
and in the receiver's buffer, are exactly the messages that were sent and not
yet decoded, numbered as the receiver expects them (`Lib.Channel`). Most steps
only move bytes along and leave this sequence as it is.

`EngineSide` is why there always is a socket: a client is bound when its first
request is decoded, before the sequencer gets it, and the matching engine only
answers clients whose requests it has got, or whose orders came to rest before
(`processClientRequest_owners`). A binding is never undone, so it does not matter
whose request a response is triggered by.
-/

namespace LowLatency

open Lib

namespace Session

variable {conn : Nat → Nat} {σ σ' : Session} {c c' k : Nat}

/-! ## The bytes between the two ends -/

/-- The bytes of a client's requests that the server has not decoded. -/
def requestPipe (conn : Nat → Nat) (σ : Session) (c : Nat) : List UInt8 :=
  (σ.serverSocket (conn c)).received ++ (σ.to_server c ++ (σ.socket c).unsent)

/-- The bytes of a client's responses that its gateway has not decoded. -/
def responsePipe (conn : Nat → Nat) (σ : Session) (c : Nat) : List UInt8 :=
  (σ.socket c).received ++ (σ.to_client c ++ (σ.serverSocket (conn c)).unsent)

@[simp] theorem setSocket_gateway (s : TCPSocket) : (σ.setSocket c s).gateway c' =
    { σ.gateway c' with tcp_socket_ := if c' = c then s else σ.socket c' } := by
  unfold setSocket
  by_cases h : c' = c
  · subst h
    simp
  · simp [h, socket]

@[simp] theorem setSocket_exchange (s : TCPSocket) : (σ.setSocket c s).exchange = σ.exchange := rfl

@[simp] theorem setSocket_to_client (s : TCPSocket) : (σ.setSocket c s).to_client = σ.to_client :=
  rfl

@[simp] theorem setSocket_decoded (s : TCPSocket) :
    (σ.setSocket c s).decoded_responses = σ.decoded_responses := rfl

theorem setServerSocket_serverSocket (hconn : Function.Injective conn) (s : TCPSocket) :
    (σ.setServerSocket (conn c) s).serverSocket (conn c') =
      if c' = c then s else σ.serverSocket (conn c') := by
  unfold setServerSocket serverSocket
  by_cases h : c' = c
  · subst h
    simp
  · simp [h, hconn.ne h]

/-! ## Requests -/

/-- A client's requests between its trade engine and the sequencer: `read` of
them have been sent, those in `passed` decoded, and `pipe` is on the way. -/
structure RequestsInStep (c : Nat) (requests : List MEClientRequest) (read seqOut seqIn : Nat)
    (passed : List MEClientRequest) (pipe : List UInt8) : Prop where
  own : ∀ r ∈ requests, (c < ME_MAX_NUM_CLIENTS ∧ r.client_id_ = c) ∧ r.Fits
  read_le : read ≤ requests.length
  out_lt : seqOut < 2 ^ 64
  channel : Channel nextSeqNum OMClientRequest.mk requestCodec (requests.take read) passed seqOut
    seqIn pipe

namespace RequestsInStep

variable {requests passed : List MEClientRequest} {read seqOut seqIn : Nat} {pipe : List UInt8}

theorem init (c : Nat) : RequestsInStep c [] 0 1 1 [] [] where
  own := fun _ hr => absurd hr List.not_mem_nil
  read_le := Nat.le_refl 0
  out_lt := by decide
  channel := Channel.init 1

/-- A request that the gateway has not read yet. -/
theorem write (h : RequestsInStep c requests read seqOut seqIn passed pipe) {r : MEClientRequest}
    (hc : c < ME_MAX_NUM_CLIENTS) (hr : r.client_id_ = c) (hfits : r.Fits) :
    RequestsInStep c (requests ++ [r]) read seqOut seqIn passed pipe where
  own := by
    intro r' hr'
    rcases List.mem_append.mp hr' with hr' | hr'
    · exact h.own r' hr'
    · rw [List.mem_singleton.mp hr']
      exact ⟨⟨hc, hr⟩, hfits⟩
  read_le := by
    have hle := h.read_le
    rw [List.length_append]
    omega
  out_lt := h.out_lt
  channel := by
    rw [List.take_append_of_le_length h.read_le]
    exact h.channel

theorem send (h : RequestsInStep c requests read seqOut seqIn passed pipe) {r : MEClientRequest}
    (hr : requests[read]? = some r) :
    RequestsInStep c requests (read + 1) (nextSeqNum seqOut) seqIn passed
      (pipe ++ requestCodec.enc ⟨seqOut, r⟩) where
  own := h.own
  read_le := (List.getElem?_eq_some_iff.mp hr).1
  out_lt := nextSeqNum_lt seqOut
  channel := by
    have hfits : r.Fits := (h.own r (List.mem_of_getElem? hr)).2
    rw [List.take_add_one, hr]
    exact h.channel.send ⟨h.out_lt, hfits⟩

/-- Whatever arrives, the decoded messages carry the numbers expected. -/
theorem recv {bs future : List UInt8}
    (h : RequestsInStep c requests read seqOut seqIn passed (bs ++ future)) :
    ∃ rs, requestCodec.decode bs = numberFrom nextSeqNum OMClientRequest.mk seqIn rs ∧
      (∀ r ∈ rs, (c < ME_MAX_NUM_CLIENTS ∧ r.client_id_ = c) ∧ r.Fits) ∧
      RequestsInStep c requests read seqOut (after nextSeqNum seqIn rs.length) (passed ++ rs)
        (requestCodec.rest bs ++ future) := by
  obtain ⟨rs, hdec, hmem, hch⟩ := h.channel.recv
  refine ⟨rs, hdec, fun r hr => h.own r (List.mem_of_mem_take (hmem r hr)), ?_⟩
  exact { h with channel := hch }

end RequestsInStep

/-- The requests of client `c` in a state of the system. -/
def RequestsAt (conn : Nat → Nat) (σ : Session) (c : Nat) : Prop :=
  RequestsInStep c (σ.requests c) (σ.gateway c).requests_read (σ.gateway c).next_outgoing_seq_num_
    (σ.exchange.server.cid_next_exp_seq_num_ c) (σ.passed c) (σ.requestPipe conn c)

/-- A step that moves bytes along at most. -/
theorem RequestsAt.congr (h : RequestsAt conn σ c) (hreq : σ'.requests c = σ.requests c)
    (hread : (σ'.gateway c).requests_read = (σ.gateway c).requests_read)
    (hout : (σ'.gateway c).next_outgoing_seq_num_ = (σ.gateway c).next_outgoing_seq_num_)
    (hin : σ'.exchange.server.cid_next_exp_seq_num_ c =
      σ.exchange.server.cid_next_exp_seq_num_ c)
    (hpassed : σ'.passed c = σ.passed c)
    (hpipe : σ'.requestPipe conn c = σ.requestPipe conn c) : RequestsAt conn σ' c := by
  unfold RequestsAt
  rw [hreq, hread, hout, hin, hpassed, hpipe]
  exact h

/-! ## Responses -/

/-- A client's responses between the order server and its trade engine: those in
`sent` have been sent, those in `taken` decoded, and `pipe` is on the way. -/
structure ResponsesInStep (c : Nat) (sent taken : List MEClientResponse) (seqOut seqIn : Nat)
    (pipe : List UInt8) : Prop where
  own : ∀ r ∈ sent, r.client_id_ = c
  out_lt : seqOut < 2 ^ 64
  channel : Channel nextSeqNum OMClientResponse.mk responseCodec sent taken seqOut seqIn pipe

namespace ResponsesInStep

variable {sent taken : List MEClientResponse} {seqOut seqIn : Nat} {pipe : List UInt8}

theorem init (c : Nat) : ResponsesInStep c [] [] 1 1 [] where
  own := fun _ hr => absurd hr List.not_mem_nil
  out_lt := by decide
  channel := Channel.init 1

theorem send (h : ResponsesInStep c sent taken seqOut seqIn pipe) {r : MEClientResponse}
    (hr : r.client_id_ = c) (hfits : r.Fits) :
    ResponsesInStep c (sent ++ [r]) taken (nextSeqNum seqOut) seqIn
      (pipe ++ responseCodec.enc ⟨seqOut, r⟩) where
  own := by
    intro r' hr'
    rcases List.mem_append.mp hr' with hr' | hr'
    · exact h.own r' hr'
    · rw [List.mem_singleton.mp hr']
      exact hr
  out_lt := nextSeqNum_lt seqOut
  channel := h.channel.send ⟨h.out_lt, hfits⟩

theorem recv {bs future : List UInt8}
    (h : ResponsesInStep c sent taken seqOut seqIn (bs ++ future)) :
    ∃ rs, responseCodec.decode bs = numberFrom nextSeqNum OMClientResponse.mk seqIn rs ∧
      (∀ r ∈ rs, r.client_id_ = c) ∧
      ResponsesInStep c sent (taken ++ rs) seqOut (after nextSeqNum seqIn rs.length)
        (responseCodec.rest bs ++ future) := by
  obtain ⟨rs, hdec, hmem, hch⟩ := h.channel.recv
  exact ⟨rs, hdec, fun r hr => h.own r (hmem r hr), { h with channel := hch }⟩

end ResponsesInStep

/-- The responses to client `c` that the server has sent. -/
def sentTo (σ : Session) (c : Nat) : List MEClientResponse :=
  addressedTo c (σ.responses.take σ.responses_read)

/-- The responses to client `c` in a state of the system. -/
def ResponsesAt (conn : Nat → Nat) (σ : Session) (c : Nat) : Prop :=
  ResponsesInStep c (σ.sentTo c) (σ.gateway c).incoming_responses_
    (σ.exchange.cid_next_outgoing_seq_num_ c) (σ.gateway c).next_exp_seq_num_
    (σ.responsePipe conn c)

/-- A step that moves bytes along at most. -/
theorem ResponsesAt.congr (h : ResponsesAt conn σ c) (hsent : σ'.sentTo c = σ.sentTo c)
    (htaken : (σ'.gateway c).incoming_responses_ = (σ.gateway c).incoming_responses_)
    (hout : σ'.exchange.cid_next_outgoing_seq_num_ c = σ.exchange.cid_next_outgoing_seq_num_ c)
    (hin : (σ'.gateway c).next_exp_seq_num_ = (σ.gateway c).next_exp_seq_num_)
    (hpipe : σ'.responsePipe conn c = σ.responsePipe conn c) : ResponsesAt conn σ' c := by
  unfold ResponsesAt
  rw [hsent, htaken, hout, hin, hpipe]
  exact h

/-! ## The exchange -/

/-- The server has bound client `c` to its own connection. -/
def Known (conn : Nat → Nat) (server : OrderServer) (c : Nat) : Prop :=
  c < ME_MAX_NUM_CLIENTS ∧ server.cid_tcp_socket_ c = some (conn c)

/-- Whoever is heard of inside the exchange is known to the order server. -/
structure EngineSide (conn : Nat → Nat) (server : OrderServer) (engine : MatchingEngine)
    (answering responses : List MEClientResponse) : Prop where
  pending : ∀ e ∈ server.fifo_sequencer_.pending_client_requests_,
    Known conn server e.request_.client_id_ ∧ e.request_.Fits
  published : ∀ q ∈ server.fifo_sequencer_.incoming_requests_,
    Known conn server q.client_id_ ∧ q.Fits
  owners : ∀ t, Leads (fun k => Known conn server k.client_id_) (engine t).ladder
  fits : ∀ t, (engine t).Fits
  answering : ∀ r ∈ answering, Known conn server r.client_id_ ∧ r.Fits
  responses : ∀ r ∈ responses, Known conn server r.client_id_ ∧ r.Fits

namespace EngineSide

variable {server server' : OrderServer} {engine : MatchingEngine}
  {answering responses : List MEClientResponse}

theorem init : EngineSide conn OrderServer.init MatchingEngine.init [] [] where
  pending := fun _ he => absurd he List.not_mem_nil
  published := fun _ hq => absurd hq List.not_mem_nil
  owners := fun _ => Leads.init
  fits := fun _ => MEOrderBook.fits_init
  answering := fun _ hr => absurd hr List.not_mem_nil
  responses := fun _ hr => absurd hr List.not_mem_nil

/-- **A receive** adds requests of a client that is bound by the first of them. -/
theorem recv (h : EngineSide conn server engine answering responses) {seqIn : Nat} {t : Int}
    {ms : List OMClientRequest} (hp : OrderServer.Passed server server' c (conn c) seqIn t ms)
    (hms : ∀ m ∈ ms, (c < ME_MAX_NUM_CLIENTS ∧ m.me_client_request_.client_id_ = c) ∧
      m.me_client_request_.Fits) :
    EngineSide conn server' engine answering responses := by
  -- a binding made by this receive or before it stays
  have hknown : ∀ c', Known conn server c' → Known conn server' c' := by
    intro c' hc'
    refine ⟨hc'.1, ?_⟩
    rw [hp.bound]
    split
    · exact hc'.2
    · by_cases hcc : c' = c
      · subst hcc
        rw [Function.update_self]
      · rw [Function.update_of_ne hcc]
        exact hc'.2
  refine ⟨?_, ?_, ?_, h.fits, ?_, ?_⟩
  · intro e he
    rw [hp.pending, List.mem_append] at he
    rcases he with he | he
    · exact ⟨hknown _ (h.pending e he).1, (h.pending e he).2⟩
    · obtain ⟨m, hm, rfl⟩ := List.mem_map.mp he
      obtain ⟨⟨hc, hclient⟩, hfits⟩ := hms m hm
      refine ⟨⟨hclient ▸ hc, ?_⟩, hfits⟩
      show server'.cid_tcp_socket_ m.me_client_request_.client_id_ =
        some (conn m.me_client_request_.client_id_)
      rw [hp.bound, if_neg (List.ne_nil_of_mem hm), hclient, Function.update_self]
  · intro q hq
    rw [hp.published] at hq
    exact ⟨hknown _ (h.published q hq).1, (h.published q hq).2⟩
  · exact fun t => (h.owners t).mono fun k hk => hknown _ hk
  · exact fun r hr => ⟨hknown _ (h.answering r hr).1, (h.answering r hr).2⟩
  · exact fun r hr => ⟨hknown _ (h.responses r hr).1, (h.responses r hr).2⟩

/-- The end of a receive round. -/
theorem publish (h : EngineSide conn server engine answering responses) {f : FIFOSequencer}
    (hf : server.fifo_sequencer_.SequenceAndPublish f) :
    EngineSide conn { server with fifo_sequencer_ := f } engine answering responses := by
  obtain ⟨sorted, hsorted, rfl⟩ := hf
  refine { h with pending := ?_, published := ?_ }
  · exact fun _ he => absurd he List.not_mem_nil
  · intro q hq
    rcases List.mem_append.mp hq with hq | hq
    · exact h.published q hq
    · obtain ⟨e, he, rfl⟩ := List.mem_map.mp hq
      exact h.pending e (hsorted.perm.mem_iff.mp he)

/-- **A request of a known client** is answered to known clients. -/
theorem process (h : EngineSide conn server engine answering responses) {q : MEClientRequest}
    {e : MatchingEngine} {evs : List Event}
    (hq : q ∈ server.fifo_sequencer_.incoming_requests_)
    (he : engine.processClientRequest q = .ok (e, evs)) :
    EngineSide conn server e (LowLatency.responses evs) responses := by
  obtain ⟨hknown, hqfits⟩ := h.published q hq
  obtain ⟨_, s, hrun, rfl⟩ := MatchingEngine.processClientRequest_inv he
  -- only the book of the request's ticker changes
  obtain ⟨howners, haddr⟩ := processClientRequest_owners (h.owners q.ticker_id_)
    (fun _ => hknown) hrun
  obtain ⟨hsfits, hevs⟩ := processClientRequest_fits (h.fits q.ticker_id_) hqfits hrun
  refine { h with owners := ?_, fits := ?_, answering := ?_ }
  · intro t
    by_cases ht : t = q.ticker_id_
    · subst ht
      rw [Function.update_self]
      exact howners
    · rw [Function.update_of_ne ht]
      exact h.owners t
  · intro t
    by_cases ht : t = q.ticker_id_
    · subst ht
      rw [Function.update_self]
      exact hsfits
    · rw [Function.update_of_ne ht]
      exact h.fits t
  · intro r hr
    refine ⟨?_, hevs r hr⟩
    rcases haddr r hr with hrc | ⟨k, hk, hrc⟩
    · rw [hrc]
      exact hknown
    · rw [hrc]
      exact hk

theorem answer {r : MEClientResponse}
    (h : EngineSide conn server engine (r :: answering) responses) :
    EngineSide conn server engine answering (responses ++ [r]) := by
  refine { h with answering := ?_, responses := ?_ }
  · exact fun r' hr' => h.answering r' (List.mem_cons_of_mem r hr')
  · intro r' hr'
    rcases List.mem_append.mp hr' with hr' | hr'
    · exact h.responses r' hr'
    · rw [List.mem_singleton.mp hr']
      exact h.answering r (List.mem_cons_self ..)

end EngineSide

/-! ## All together -/

structure Inv (conn : Nat → Nat) (σ : Session) : Prop where
  requests : ∀ c, RequestsAt conn σ c
  responses : ∀ c, ResponsesAt conn σ c
  engine : EngineSide conn σ.exchange.server σ.engine σ.answering σ.responses
  client : ∀ c, (σ.gateway c).client_id_ = c
  bound : ∀ c, σ.exchange.server.cid_tcp_socket_ c = none ∨
    σ.exchange.server.cid_tcp_socket_ c = some (conn c)
  read_le : σ.responses_read ≤ σ.responses.length
  kept_requests : σ.exchange.server.accepted = σ.decoded_requests
  kept_responses : ∀ c, (σ.gateway c).incoming_responses_ =
    (σ.decoded_responses c).map OMClientResponse.me_client_response_

namespace Inv

theorem init : Inv conn Session.init where
  requests := RequestsInStep.init
  responses := ResponsesInStep.init
  engine := EngineSide.init
  client := fun _ => rfl
  bound := fun _ => .inl rfl
  read_le := Nat.le_refl 0
  kept_requests := rfl
  kept_responses := fun _ => rfl

/-! ### Steps that move bytes along -/

/-- A gateway's socket whose two byte sequences fit what has left it or arrived
in it. -/
theorem setSocket (h : Inv conn σ) (c : Nat) (s : TCPSocket) (to_server : List UInt8)
    (hunsent : to_server ++ s.unsent = σ.to_server c ++ (σ.socket c).unsent)
    (hreceived : s.received = (σ.socket c).received) :
    Inv conn { σ.setSocket c s with
      to_server := Function.update σ.to_server c to_server } := by
  refine { h with requests := ?_, responses := ?_, client := ?_, kept_responses := ?_ }
  · intro c'
    refine (h.requests c').congr rfl ?_ ?_ rfl rfl ?_
    · simp
    · simp
    · unfold requestPipe serverSocket socket
      by_cases hcc : c' = c
      · subst hcc
        simpa [socket] using hunsent
      · simp [hcc, socket]
  · intro c'
    refine (h.responses c').congr rfl ?_ rfl ?_ ?_
    · simp
    · simp
    · unfold responsePipe serverSocket socket
      by_cases hcc : c' = c
      · subst hcc
        simpa [socket] using hreceived
      · simp [hcc, socket]
  · intro c'
    simpa using h.client c'
  · intro c'
    simpa using h.kept_responses c'

theorem flushGateway (h : Inv conn σ) (c : Nat) {n : Nat} (hn : n ≤ (σ.socket c).unsent.length) :
    Inv conn { σ.setSocket c ((σ.socket c).sent n hn) with
      to_server := Function.update σ.to_server c (σ.to_server c ++ (σ.socket c).unsent.take n) } := by
  refine h.setSocket c _ _ ?_ (TCPSocket.sent_received _ hn)
  rw [List.append_assoc, ← TCPSocket.sent_unsent]

theorem rewindGateway (h : Inv conn σ) (c : Nat) :
    Inv conn (σ.setSocket c (σ.socket c).rewind) := by
  have hset := h.setSocket c (σ.socket c).rewind (σ.to_server c)
    (by rw [TCPSocket.rewind_unsent]) (TCPSocket.rewind_received _)
  rw [Function.update_eq_self] at hset
  exact hset

/-- The same for a socket of the server. -/
theorem setServerSocket (hconn : Function.Injective conn) (h : Inv conn σ) (c : Nat)
    (s : TCPSocket) (to_client : List UInt8)
    (hunsent : to_client ++ s.unsent = σ.to_client c ++ (σ.serverSocket (conn c)).unsent)
    (hreceived : s.received = (σ.serverSocket (conn c)).received) :
    Inv conn { σ.setServerSocket (conn c) s with
      to_client := Function.update σ.to_client c to_client } := by
  have hsock : ∀ c', (Session.serverSocket { σ.setServerSocket (conn c) s with
      to_client := Function.update σ.to_client c to_client } (conn c')) =
      if c' = c then s else σ.serverSocket (conn c') :=
    fun c' => setServerSocket_serverSocket hconn s
  refine { h with requests := ?_, responses := ?_ }
  · intro c'
    refine (h.requests c').congr rfl rfl rfl rfl rfl ?_
    unfold requestPipe
    rw [hsock]
    by_cases hcc : c' = c
    · subst hcc
      rw [if_pos rfl, hreceived]
      rfl
    · rw [if_neg hcc]
      rfl
  · intro c'
    refine (h.responses c').congr rfl rfl rfl rfl ?_
    unfold responsePipe
    rw [hsock]
    by_cases hcc : c' = c
    · subst hcc
      rw [if_pos rfl]
      show _ ++ (Function.update σ.to_client c' to_client c' ++ s.unsent) = _
      rw [Function.update_self, hunsent]
      rfl
    · rw [if_neg hcc]
      show _ ++ (Function.update σ.to_client c to_client c' ++ _) = _
      rw [Function.update_of_ne hcc]
      rfl

theorem flushServer (hconn : Function.Injective conn) (h : Inv conn σ) (c : Nat) {n : Nat}
    (hn : n ≤ (σ.serverSocket (conn c)).unsent.length) :
    Inv conn { σ.setServerSocket (conn c) ((σ.serverSocket (conn c)).sent n hn) with
      to_client := Function.update σ.to_client c
        (σ.to_client c ++ (σ.serverSocket (conn c)).unsent.take n) } := by
  refine h.setServerSocket hconn c _ _ ?_ (TCPSocket.sent_received _ hn)
  rw [List.append_assoc, ← TCPSocket.sent_unsent]

theorem rewindServer (hconn : Function.Injective conn) (h : Inv conn σ) (c : Nat) :
    Inv conn (σ.setServerSocket (conn c) (σ.serverSocket (conn c)).rewind) := by
  have hset := h.setServerSocket hconn c (σ.serverSocket (conn c)).rewind (σ.to_client c)
    (by rw [TCPSocket.rewind_unsent]) (TCPSocket.rewind_received _)
  rw [Function.update_eq_self] at hset
  exact hset

/-- A gateway's next state, with what it and its socket hold by then. -/
theorem setGateway (h : Inv conn σ) (c : Nat) (g : OrderGateway) (to_client : List UInt8)
    (decoded : List OMClientResponse)
    (hrequests : RequestsInStep c (σ.requests c) g.requests_read g.next_outgoing_seq_num_
      (σ.exchange.server.cid_next_exp_seq_num_ c) (σ.passed c)
      ((σ.serverSocket (conn c)).received ++ (σ.to_server c ++ g.tcp_socket_.unsent)))
    (hresponses : ResponsesInStep c (σ.sentTo c) g.incoming_responses_
      (σ.exchange.cid_next_outgoing_seq_num_ c) g.next_exp_seq_num_
      (g.tcp_socket_.received ++ (to_client ++ (σ.serverSocket (conn c)).unsent)))
    (hclient : g.client_id_ = c)
    (hkept : g.incoming_responses_ = decoded.map OMClientResponse.me_client_response_) :
    Inv conn { σ with
      gateway := Function.update σ.gateway c g
      to_client := Function.update σ.to_client c to_client
      decoded_responses := Function.update σ.decoded_responses c decoded } := by
  refine { h with requests := ?_, responses := ?_, client := ?_, kept_responses := ?_ }
  · intro c'
    unfold RequestsAt requestPipe socket
    dsimp only
    by_cases hcc : c' = c
    · subst hcc
      rw [Function.update_self]
      exact hrequests
    · rw [Function.update_of_ne hcc]
      exact h.requests c'
  · intro c'
    unfold ResponsesAt responsePipe socket
    dsimp only
    by_cases hcc : c' = c
    · subst hcc
      rw [Function.update_self, Function.update_self]
      exact hresponses
    · rw [Function.update_of_ne hcc, Function.update_of_ne hcc]
      exact h.responses c'
  · intro c'
    dsimp only
    by_cases hcc : c' = c
    · subst hcc
      rw [Function.update_self]
      exact hclient
    · rw [Function.update_of_ne hcc]
      exact h.client c'
  · intro c'
    dsimp only
    by_cases hcc : c' = c
    · subst hcc
      rw [Function.update_self, Function.update_self]
      exact hkept
    · rw [Function.update_of_ne hcc, Function.update_of_ne hcc]
      exact h.kept_responses c'

/-! ### Requests -/

theorem write (h : Inv conn σ) {r : MEClientRequest} (hc : c < ME_MAX_NUM_CLIENTS)
    (hr : r.client_id_ = c) (hfits : r.Fits) :
    Inv conn { σ with requests := Function.update σ.requests c (σ.requests c ++ [r]) } := by
  refine { h with requests := ?_ }
  intro c'
  by_cases hcc : c' = c
  · subst hcc
    show RequestsInStep c' (Function.update σ.requests c' (σ.requests c' ++ [r]) c') _ _ _ _ _
    rw [Function.update_self]
    exact (h.requests c').write hc hr hfits
  · exact (h.requests c').congr (Function.update_of_ne hcc _ _) rfl rfl rfl rfl rfl

theorem sendRequest (h : Inv conn σ) {r : MEClientRequest} {g : OrderGateway}
    (hr : (σ.requests c)[(σ.gateway c).requests_read]? = some r)
    (hg : (σ.gateway c).sendRequest r = .ok g) :
    Inv conn { σ with gateway := Function.update σ.gateway c g } := by
  obtain ⟨s, rfl, hunsent, hreceived⟩ := OrderGateway.sendRequest_ok hg
  have hsend := (h.requests c).send hr
  unfold requestPipe socket at hsend
  rw [List.append_assoc, List.append_assoc, ← hunsent] at hsend
  have hresp := h.responses c
  unfold ResponsesAt responsePipe socket at hresp
  rw [← hreceived] at hresp
  have hset := h.setGateway c { σ.gateway c with
      tcp_socket_ := s
      requests_read := (σ.gateway c).requests_read + 1
      next_outgoing_seq_num_ := nextSeqNum (σ.gateway c).next_outgoing_seq_num_ }
    (σ.to_client c) (σ.decoded_responses c) hsend hresp (h.client c) (h.kept_responses c)
  rw [Function.update_eq_self, Function.update_eq_self] at hset
  exact hset

/-- Whatever part of the bytes on the way a `recvmsg` of the server returns, what
it decodes then are the client's next requests. -/
theorem decodes_requests (h : Inv conn σ) (c n : Nat) :
    ∃ rs, ((σ.serverSocket (conn c)).recv ((σ.to_server c).take n)).messages requestCodec =
        numberFrom nextSeqNum OMClientRequest.mk (σ.exchange.server.cid_next_exp_seq_num_ c) rs ∧
      (∀ r ∈ rs, (c < ME_MAX_NUM_CLIENTS ∧ r.client_id_ = c) ∧ r.Fits) ∧
      RequestsInStep c (σ.requests c) (σ.gateway c).requests_read
        (σ.gateway c).next_outgoing_seq_num_
        (after nextSeqNum (σ.exchange.server.cid_next_exp_seq_num_ c) rs.length) (σ.passed c ++ rs)
        ((((σ.serverSocket (conn c)).recv ((σ.to_server c).take n)).keepTail
          requestCodec).received ++ ((σ.to_server c).drop n ++ (σ.socket c).unsent)) := by
  have hreq := h.requests c
  -- the bytes that have arrived, and those that have not
  have hsplit : σ.requestPipe conn c =
      ((σ.serverSocket (conn c)).received ++ (σ.to_server c).take n) ++
        ((σ.to_server c).drop n ++ (σ.socket c).unsent) := by
    unfold requestPipe
    rw [List.append_assoc, ← List.append_assoc (List.take n _), List.take_append_drop]
  unfold RequestsAt at hreq
  rw [hsplit] at hreq
  obtain ⟨rs, hdec, hown, hreq'⟩ := hreq.recv
  rw [← TCPSocket.recv_received] at hdec hreq'
  rw [← TCPSocket.messages_eq] at hdec
  rw [← TCPSocket.keepTail_received] at hreq'
  exact ⟨rs, hdec, hown, hreq'⟩

theorem deliver_socket (k : Nat) (bytes : List UInt8) :
    (σ.deliver k bytes).sockets k = (σ.serverSocket k).recv bytes :=
  Function.update_self ..

/-- **The server reads from a socket.** Everything it decodes is passed on. -/
theorem recvRequests (hconn : Function.Injective conn) (h : Inv conn σ) {n : Nat} {t : Int}
    {x : Connections}
    (hx : (σ.deliver (conn c) ((σ.to_server c).take n)).recvCallback (conn c) t = .ok x) :
    Inv conn { σ with
      exchange := x
      to_server := Function.update σ.to_server c ((σ.to_server c).drop n)
      decoded_requests := σ.decoded_requests ++
        ((σ.serverSocket (conn c)).recv ((σ.to_server c).take n)).messages requestCodec } := by
  obtain ⟨rs, hdec, hown, hreq'⟩ := h.decodes_requests c n
  obtain ⟨server, hall, hret⟩ := exec_bind_ok hx
  rw [deliver_socket, hdec] at hall
  have hpass := OrderServer.recvRequests_passes rs (fun r hr => (hown r hr).1) (h.bound c) hall
  obtain rfl := Except.ok.inj hret
  generalize hms : numberFrom nextSeqNum OMClientRequest.mk
    (σ.exchange.server.cid_next_exp_seq_num_ c) rs = ms at hdec hpass
  have hmap : ms.map OMClientRequest.me_client_request_ = rs := by
    rw [← hms]
    exact map_numberFrom _ _ (fun _ _ => rfl) _ rs
  have hmem : ∀ m ∈ ms, (c < ME_MAX_NUM_CLIENTS ∧ m.me_client_request_.client_id_ = c) ∧
      m.me_client_request_.Fits := by
    intro m hm
    apply hown
    rw [← hmap]
    exact List.mem_map_of_mem hm
  -- what was passed on is the client's own, and all of what was decoded
  have hpassed : ∀ c', (server.acceptedOf c').map OMClientRequest.me_client_request_ =
      σ.passed c' ++ if c' = c then rs else [] := by
    intro c'
    rw [hpass.acceptedOf (fun m hm => (hmem m hm).1.2), List.map_append]
    congr 1
    split
    · exact hmap
    · rfl
  -- `conn` is injective, so the other clients' sockets are other sockets
  have hsock : ∀ c', Function.update (σ.deliver (conn c) ((σ.to_server c).take n)).sockets (conn c)
      (((σ.deliver (conn c) ((σ.to_server c).take n)).sockets (conn c)).keepTail requestCodec)
      (conn c') = if c' = c then
        ((σ.serverSocket (conn c)).recv ((σ.to_server c).take n)).keepTail requestCodec
      else σ.serverSocket (conn c') := by
    intro c'
    by_cases hcc : c' = c
    · subst hcc
      rw [Function.update_self, deliver_socket, if_pos rfl]
    · rw [Function.update_of_ne (hconn.ne hcc), if_neg hcc]
      exact Function.update_of_ne (hconn.ne hcc) _ _
  refine { h with
    requests := ?_, responses := ?_, engine := h.engine.recv hpass hmem, bound := ?_,
    kept_requests := ?_ }
  · intro c'
    unfold RequestsAt requestPipe serverSocket passed
    dsimp only
    rw [hsock, hpassed, hpass.next_exp]
    by_cases hcc : c' = c
    · subst hcc
      rw [if_pos rfl, if_pos rfl, Function.update_self, Function.update_self]
      exact hreq'
    · rw [if_neg hcc, if_neg hcc, Function.update_of_ne hcc, Function.update_of_ne hcc,
        List.append_nil]
      exact h.requests c'
  · intro c'
    refine (h.responses c').congr rfl rfl rfl rfl ?_
    unfold responsePipe
    congr 2
    refine (congrArg TCPSocket.unsent (hsock c')).trans ?_
    by_cases hcc : c' = c
    · subst hcc
      rw [if_pos rfl, TCPSocket.keepTail_unsent, TCPSocket.recv_unsent]
    · rw [if_neg hcc]
  · intro c'
    show server.cid_tcp_socket_ c' = none ∨ server.cid_tcp_socket_ c' = some (conn c')
    rw [hpass.bound]
    split
    · exact h.bound c'
    · by_cases hcc : c' = c
      · subst hcc
        exact .inr (Function.update_self ..)
      · rw [Function.update_of_ne hcc]
        exact h.bound c'
  · show server.accepted = _
    rw [hpass.accepted, hdec, h.kept_requests]

theorem publish (h : Inv conn σ) {f : FIFOSequencer}
    (hf : σ.exchange.server.fifo_sequencer_.SequenceAndPublish f) :
    Inv conn { σ with exchange :=
      { σ.exchange with server := { σ.exchange.server with fifo_sequencer_ := f } } } :=
  { h with engine := h.engine.publish hf }

/-! ### Responses -/

theorem process (h : Inv conn σ) {q : MEClientRequest} {e : MatchingEngine} {evs : List Event}
    (hq : σ.exchange.server.fifo_sequencer_.incoming_requests_[σ.requests_read]? = some q)
    (he : σ.engine.processClientRequest q = .ok (e, evs)) :
    Inv conn { σ with
      engine := e
      requests_read := σ.requests_read + 1
      answering := LowLatency.responses evs } :=
  { h with engine := h.engine.process (List.mem_of_getElem? hq) he }

/-- A response that the server has not read yet. -/
theorem answer (h : Inv conn σ) {r : MEClientResponse} {rs : List MEClientResponse}
    (hr : σ.answering = r :: rs) :
    Inv conn { σ with answering := rs, responses := σ.responses ++ [r] } := by
  have hengine := h.engine
  rw [hr] at hengine
  refine { h with responses := ?_, engine := hengine.answer, read_le := ?_ }
  · intro c'
    refine (h.responses c').congr ?_ rfl rfl rfl rfl
    unfold sentTo
    rw [List.take_append_of_le_length h.read_le]
  · have hle := h.read_le
    show σ.responses_read ≤ (σ.responses ++ [r]).length
    rw [List.length_append]
    omega

/-- The socket of the next response is the one of its client. -/
theorem socket_of_response (h : Inv conn σ) {r : MEClientResponse}
    (hr : σ.responses[σ.responses_read]? = some r) :
    σ.exchange.server.cid_tcp_socket_ r.client_id_ = some (conn r.client_id_) :=
  (h.engine.responses r (List.mem_of_getElem? hr)).1.2

theorem sendResponse (hconn : Function.Injective conn) (h : Inv conn σ) {r : MEClientResponse}
    {x : Connections} (hr : σ.responses[σ.responses_read]? = some r)
    (hx : σ.exchange.sendResponse r = .ok x) :
    Inv conn { σ with exchange := x, responses_read := σ.responses_read + 1 } := by
  obtain ⟨s, rfl, hunsent, hreceived⟩ :=
    Connections.sendResponse_ok (h.socket_of_response hr) hx
  have hfits : r.Fits := (h.engine.responses r (List.mem_of_getElem? hr)).2
  have hsock : ∀ c', Function.update σ.exchange.sockets (conn r.client_id_) s (conn c') =
      if c' = r.client_id_ then s else σ.serverSocket (conn c') := by
    intro c'
    by_cases hcc : c' = r.client_id_
    · rw [hcc, Function.update_self, if_pos rfl]
    · rw [Function.update_of_ne (hconn.ne hcc), if_neg hcc]
      rfl
  -- one more response has left, addressed to its client
  have hsent : ∀ c', addressedTo c' (σ.responses.take (σ.responses_read + 1)) =
      σ.sentTo c' ++ if c' = r.client_id_ then [r] else [] := by
    intro c'
    unfold sentTo addressedTo
    rw [List.take_add_one, hr, List.filter_append]
    congr 1
    by_cases hcc : c' = r.client_id_
    · simp [hcc]
    · simp [hcc, Ne.symm hcc]
  refine { h with requests := ?_, responses := ?_, read_le := ?_ }
  · intro c'
    refine (h.requests c').congr rfl rfl rfl rfl rfl ?_
    unfold requestPipe
    congr 1
    -- sending does not touch what arrived
    refine (congrArg TCPSocket.received (hsock c')).trans ?_
    by_cases hcc : c' = r.client_id_
    · rw [if_pos hcc, hreceived, hcc]
      rfl
    · rw [if_neg hcc]
  · intro c'
    unfold ResponsesAt responsePipe serverSocket sentTo
    dsimp only
    rw [hsock, hsent]
    by_cases hcc : c' = r.client_id_
    · subst hcc
      have hsend := (h.responses r.client_id_).send rfl hfits
      unfold responsePipe serverSocket at hsend
      rw [List.append_assoc, List.append_assoc, ← hunsent] at hsend
      rw [if_pos rfl, if_pos rfl, Function.update_self]
      exact hsend
    · rw [if_neg hcc, if_neg hcc, Function.update_of_ne hcc, List.append_nil]
      exact h.responses c'
  · exact (List.getElem?_eq_some_iff.mp hr).1

/-- The same for a gateway. -/
theorem decodes_responses (h : Inv conn σ) (c n : Nat) :
    ∃ rs, ((σ.socket c).recv ((σ.to_client c).take n)).messages responseCodec =
        numberFrom nextSeqNum OMClientResponse.mk (σ.gateway c).next_exp_seq_num_ rs ∧
      (∀ r ∈ rs, r.client_id_ = c) ∧
      ResponsesInStep c (σ.sentTo c) ((σ.gateway c).incoming_responses_ ++ rs)
        (σ.exchange.cid_next_outgoing_seq_num_ c)
        (after nextSeqNum (σ.gateway c).next_exp_seq_num_ rs.length)
        ((((σ.socket c).recv ((σ.to_client c).take n)).keepTail responseCodec).received ++
          ((σ.to_client c).drop n ++ (σ.serverSocket (conn c)).unsent)) := by
  have hresp := h.responses c
  have hsplit : σ.responsePipe conn c =
      ((σ.socket c).received ++ (σ.to_client c).take n) ++
        ((σ.to_client c).drop n ++ (σ.serverSocket (conn c)).unsent) := by
    unfold responsePipe
    rw [List.append_assoc, ← List.append_assoc (List.take n _), List.take_append_drop]
  unfold ResponsesAt at hresp
  rw [hsplit] at hresp
  obtain ⟨rs, hdec, hown, hresp'⟩ := hresp.recv
  rw [← TCPSocket.recv_received] at hdec hresp'
  rw [← TCPSocket.messages_eq] at hdec
  rw [← TCPSocket.keepTail_received] at hresp'
  exact ⟨rs, hdec, hown, hresp'⟩

/-- **A gateway reads from its socket.** Everything it decodes is passed on. -/
theorem recvResponses (h : Inv conn σ) {n : Nat} :
    Inv conn { σ with
      gateway := Function.update σ.gateway c
        (OrderGateway.recvCallback
          { σ.gateway c with tcp_socket_ := (σ.socket c).recv ((σ.to_client c).take n) })
      to_client := Function.update σ.to_client c ((σ.to_client c).drop n)
      decoded_responses := Function.update σ.decoded_responses c (σ.decoded_responses c ++
        ((σ.socket c).recv ((σ.to_client c).take n)).messages responseCodec) } := by
  obtain ⟨rs, hdec, hown, hresp'⟩ := h.decodes_responses c n
  -- the gateway hands them on one by one
  have hcall : OrderGateway.recvCallback
      { σ.gateway c with tcp_socket_ := (σ.socket c).recv ((σ.to_client c).take n) } =
      { σ.gateway c with
        tcp_socket_ := ((σ.socket c).recv ((σ.to_client c).take n)).keepTail responseCodec
        next_exp_seq_num_ := after nextSeqNum (σ.gateway c).next_exp_seq_num_ rs.length
        incoming_responses_ := (σ.gateway c).incoming_responses_ ++ rs } := by
    unfold OrderGateway.recvCallback
    rw [hdec, OrderGateway.recvResponses_passes rs
      { σ.gateway c with tcp_socket_ := (σ.socket c).recv ((σ.to_client c).take n) }
      (fun r hr => (hown r hr).trans (h.client c).symm)]
  rw [hcall, hdec]
  refine h.setGateway c _ _ _ ?_ hresp' (h.client c) ?_
  · dsimp only
    rw [TCPSocket.keepTail_unsent, TCPSocket.recv_unsent]
    exact h.requests c
  · rw [List.map_append, ← h.kept_responses c, map_numberFrom _ _ (fun _ _ => rfl)]

/-- **One step.** -/
theorem step (hconn : Function.Injective conn) (h : Inv conn σ) (hs : Step conn σ σ') :
    Inv conn σ' := by
  cases hs with
  | write c r hc hr hfits => exact h.write hc hr hfits
  | sendRequest c hr hg => exact h.sendRequest hr hg
  | flushGateway c n hn => exact h.flushGateway c hn
  | rewindGateway c => exact h.rewindGateway c
  | recvRequests c n t hpos hn hroom hx => exact h.recvRequests hconn hx
  | publish hf => exact h.publish hf
  | process hidle hq he => exact h.process hq he
  | answer hr => exact h.answer hr
  | sendResponse hr hx => exact h.sendResponse hconn hr hx
  | flushServer c n hn => exact h.flushServer hconn c hn
  | rewindServer c => exact h.rewindServer hconn c
  | recvResponses c n hpos hn hroom => exact h.recvResponses

/-- What the invariant says to the two ends. -/
theorem agreement (h : Inv conn σ) : σ.Agreement where
  requests := fun c => (h.requests c).channel.prefix_sent.trans (List.take_prefix ..)
  responses := by
    intro c
    refine (h.responses c).channel.prefix_sent.trans ?_
    exact (List.take_prefix σ.responses_read σ.responses).filter _
  kept_requests := h.kept_requests
  kept_responses := h.kept_responses
  socket := by
    intro r hr
    rw [h.socket_of_response hr]
    exact Option.some_ne_none _

theorem reachable (hconn : Function.Injective conn) (hσ : Reachable conn σ) : Inv conn σ := by
  induction hσ with
  | init => exact Inv.init
  | step _ hs ih => exact ih.step hconn hs

end Inv

/-- Nothing but a full sequencer stops the order server from reading requests. -/
theorem recvRequests_stops (hconn : Function.Injective conn) (hσ : Reachable conn σ) {n : Nat}
    {t : Int} {f : Fault}
    (hf : (σ.deliver (conn c) ((σ.to_server c).take n)).recvCallback (conn c) t = .error f) :
    f = .assertion "Too many pending requests" := by
  have hinv := Inv.reachable hconn hσ
  obtain ⟨rs, hdec, hown, -⟩ := hinv.decodes_requests c n
  unfold Connections.recvCallback at hf
  rw [Inv.deliver_socket, hdec] at hf
  cases hall : OrderServer.recvRequests (conn c) t (numberFrom nextSeqNum OMClientRequest.mk
      (σ.exchange.server.cid_next_exp_seq_num_ c) rs)
      (σ.deliver (conn c) ((σ.to_server c).take n)).server with
  | ok server =>
    rw [hall] at hf
    exact absurd hf (by simp)
  | error f' =>
    rw [hall] at hf
    rw [← Except.error.inj hf]
    exact OrderServer.recvRequests_stops rs (fun r hr => (hown r hr).1) (hinv.bound c) hall

/-- Nothing but a full outbound buffer stops it from sending responses. -/
theorem sendResponse_stops (hconn : Function.Injective conn) (hσ : Reachable conn σ)
    {r : MEClientResponse} {f : Fault} (hr : σ.responses[σ.responses_read]? = some r)
    (hf : σ.exchange.sendResponse r = .error f) :
    f = .assertion "TCPSocket outbound buffer capacity exceeded." := by
  have hinv := Inv.reachable hconn hσ
  obtain ⟨hc, hk⟩ := (hinv.engine.responses r (List.mem_of_getElem? hr)).1
  exact Connections.sendResponse_stops hc hk hf

/-- **Order session agreement.** In every reachable state of a system in which
each client has its own connection, both ends of every session agree. -/
theorem session_agreement (hconn : Function.Injective conn) (hσ : Reachable conn σ) :
    σ.Agreement :=
  (Inv.reachable hconn hσ).agreement

/-- A client's first request. -/
def firstRequest : MEClientRequest := ⟨.NEW, 3, 1, 7, .SELL, -5, 10⟩

theorem firstRequest_fits : firstRequest.Fits :=
  ⟨by decide, by decide, by decide, ⟨by decide, by decide⟩, by decide⟩

/-- The request arrives in two pieces, is processed, and its response comes
back. -/
theorem session_agreement_round_trip :
    ∃ σ, Reachable id σ ∧ σ.passed 3 = [firstRequest] ∧
      (σ.gateway 3).incoming_responses_.length = 1 ∧ σ.Agreement := by
  have h₁ := (@Reachable.init id).step (.write 3 firstRequest (by decide) rfl firstRequest_fits)
  have h₂ := h₁.step (.sendRequest 3 rfl rfl)
  have h₃ := h₂.step (.flushGateway 3 10 (by decide))
  have h₄ := h₃.step (.recvRequests 3 10 0 (by decide) (by decide) (by decide) rfl)
  have h₅ := h₄.step (.flushGateway 3 28 (by decide))
  have h₆ := h₅.step (.recvRequests 3 28 0 (by decide) (by decide) (by decide) rfl)
  have h₇ := h₆.step (.publish ⟨_, ⟨List.Perm.refl _, List.pairwise_singleton _ _⟩, rfl⟩)
  have h₈ := h₇.step (.process rfl rfl rfl)
  have h₉ := h₈.step (.answer rfl)
  have h₁₀ := h₉.step (.sendResponse rfl rfl)
  have h₁₁ := h₁₀.step (.flushServer 3 50 (by decide))
  have h₁₂ := h₁₁.step (.recvResponses 3 50 (by decide) (by decide) (by decide))
  exact ⟨_, h₁₂, by decide, by decide, session_agreement Function.injective_id h₁₂⟩

end Session

end LowLatency
