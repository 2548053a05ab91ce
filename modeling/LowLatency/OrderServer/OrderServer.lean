import LowLatency.Common.Wire
import LowLatency.OrderServer.FIFOSequencer
import Mathlib.Data.List.Range

/-!
# `OrderServer`: receiving requests

`src/exchange/order_server/order_server.h`. A client is bound to the socket its
first message comes from, and its messages are taken only from there and only
in the order of their sequence numbers, from 1 on. `recvRequest` is the body of
the loop of `recvCallback`; what it passes to `FIFOSequencer::addClientRequest`
is recorded in `accepted`. The expected numbers are of type `size_t`, so behind
2^64 - 1 a client has to go on with 0, and the order of its numbers is the order
in which they are accepted (`InSequence`). A client id outside the three arrays is
where the model stops.

A receive round is what `TCPServer::sendAndRecv` does: some sockets had bytes,
each calls `recvCallback` once with its receive time, and at the end
`recvFinishedCallback` publishes the round.

`sequencing_in_order_iff`: what reaches the matching engine of a client is its
accepted requests in the order of their sequence numbers, whatever the sort
does with equivalent elements, exactly when no two different requests of one
client that wait for the same `sequenceAndPublish` have the same receive time.
Requests decoded from one `recvmsg` always do.
-/

namespace LowLatency

structure OrderServer where
  cid_tcp_socket_ : Nat → Option Nat
  cid_next_exp_seq_num_ : Nat → Nat
  fifo_sequencer_ : FIFOSequencer
  /-- the messages passed to `addClientRequest`, in order -/
  accepted : List OMClientRequest

/-- What one call of `recvCallback` decodes from the bytes of a socket. -/
structure Receipt where
  socket : Nat
  rx_time : Int
  requests : List OMClientRequest
deriving DecidableEq

namespace OrderServer

def init : OrderServer where
  cid_tcp_socket_ := fun _ => none
  cid_next_exp_seq_num_ := fun _ => 1
  fifo_sequencer_ := FIFOSequencer.init
  accepted := []

/-- The first message from a client binds it to its socket. -/
def bindSocket (s : OrderServer) (client_id socket : Nat) : OrderServer :=
  if s.cid_tcp_socket_ client_id = none then
    { s with cid_tcp_socket_ := Function.update s.cid_tcp_socket_ client_id (some socket) }
  else s

/-- The body of the loop of `recvCallback`. -/
def recvRequest (s : OrderServer) (socket : Nat) (rx_time : Int) (request : OMClientRequest) :
    Exec OrderServer :=
  let client_id := request.me_client_request_.client_id_
  if client_id ≥ ME_MAX_NUM_CLIENTS then .error .outOfRange
  else
    let s := s.bindSocket client_id socket
    if s.cid_tcp_socket_ client_id ≠ some socket then .ok s
    else if request.seq_num_ ≠ s.cid_next_exp_seq_num_ client_id then .ok s
    else do
      let f ← s.fifo_sequencer_.addClientRequest rx_time request.me_client_request_
      return { s with
        cid_next_exp_seq_num_ := Function.update s.cid_next_exp_seq_num_ client_id
          (nextSeqNum (s.cid_next_exp_seq_num_ client_id))
        fifo_sequencer_ := f
        accepted := s.accepted ++ [request] }

/-- The loop of `recvCallback` over the messages it decodes. -/
def recvRequests (socket : Nat) (rx_time : Int) :
    List OMClientRequest → OrderServer → Exec OrderServer
  | [], s => .ok s
  | m :: ms, s => do
    let s ← s.recvRequest socket rx_time m
    recvRequests socket rx_time ms s

/-- The calls of `recvCallback` of one receive round. -/
def recvRound : List Receipt → OrderServer → Exec OrderServer
  | [], s => .ok s
  | r :: rs, s => do
    let s ← recvRequests r.socket r.rx_time r.requests s
    recvRound rs s

/-- `s` may be the server after a series of receive rounds. -/
inductive Rounds : List (List Receipt) → OrderServer → Prop
  | nil : Rounds [] init
  | snoc {rs : List (List Receipt)} {r : List Receipt} {s s' : OrderServer} {f : FIFOSequencer} :
      Rounds rs s → recvRound r s = .ok s' → s'.fifo_sequencer_.SequenceAndPublish f →
      Rounds (rs ++ [r]) { s' with fifo_sequencer_ := f }

/-- The accepted messages of one client. -/
def acceptedOf (s : OrderServer) (client_id : Nat) : List OMClientRequest :=
  s.accepted.filter fun m => decide (m.me_client_request_.client_id_ = client_id)

/-- The first of these messages has number 1, and each of the others the next one
in a `size_t`. -/
def Counted (ms : List OMClientRequest) : Prop :=
  ms.map OMClientRequest.seq_num_ = (List.range' 1 ms.length).map wrap64

/-- What the matching engine's queue has got of this client is what was accepted
from it, in the order of its sequence numbers, which is that of acceptance. -/
structure InSequence (s : OrderServer) (client_id : Nat) : Prop where
  counted : Counted (s.acceptedOf client_id)
  published : requestsOf client_id s.fifo_sequencer_.incoming_requests_ =
    (s.acceptedOf client_id).map OMClientRequest.me_client_request_

/-! ## What one message does -/

theorem bindSocket_bound (s : OrderServer) (client_id socket : Nat) {c k : Nat}
    (hk : s.cid_tcp_socket_ c = some k) :
    (s.bindSocket client_id socket).cid_tcp_socket_ c = some k := by
  unfold bindSocket
  split
  · next hnone =>
    have hne : c ≠ client_id := by
      rintro rfl
      rw [hnone] at hk
      exact absurd hk (by simp)
    show Function.update s.cid_tcp_socket_ client_id (some socket) c = some k
    rw [Function.update_of_ne hne]
    exact hk
  · exact hk

theorem bindSocket_rest (s : OrderServer) (client_id socket : Nat) :
    (s.bindSocket client_id socket).cid_next_exp_seq_num_ = s.cid_next_exp_seq_num_ ∧
      (s.bindSocket client_id socket).fifo_sequencer_ = s.fifo_sequencer_ ∧
      (s.bindSocket client_id socket).accepted = s.accepted := by
  unfold bindSocket
  split <;> exact ⟨rfl, rfl, rfl⟩

/-- A message is dropped or accepted, and nobody's binding changes. -/
theorem recvRequest_cases {s s' : OrderServer} {socket : Nat} {t : Int} {m : OMClientRequest}
    (h : s.recvRequest socket t m = .ok s') :
    (∀ c k, s.cid_tcp_socket_ c = some k → s'.cid_tcp_socket_ c = some k) ∧
    ((s'.cid_next_exp_seq_num_ = s.cid_next_exp_seq_num_ ∧
        s'.fifo_sequencer_ = s.fifo_sequencer_ ∧ s'.accepted = s.accepted) ∨
      (s'.cid_tcp_socket_ m.me_client_request_.client_id_ = some socket ∧
        m.seq_num_ = s.cid_next_exp_seq_num_ m.me_client_request_.client_id_ ∧
        s'.cid_next_exp_seq_num_ = Function.update s.cid_next_exp_seq_num_
          m.me_client_request_.client_id_ (nextSeqNum m.seq_num_) ∧
        s'.fifo_sequencer_.incoming_requests_ = s.fifo_sequencer_.incoming_requests_ ∧
        s'.fifo_sequencer_.pending_client_requests_ =
          s.fifo_sequencer_.pending_client_requests_ ++ [⟨t, m.me_client_request_⟩] ∧
        s'.accepted = s.accepted ++ [m])) := by
  have hbind := fun c k => s.bindSocket_bound m.me_client_request_.client_id_ socket
    (c := c) (k := k)
  have hrest := s.bindSocket_rest m.me_client_request_.client_id_ socket
  unfold recvRequest at h
  dsimp only at h
  generalize s.bindSocket m.me_client_request_.client_id_ socket = b at h hbind hrest
  obtain ⟨hseq, hfifo, hacc⟩ := hrest
  split at h
  · exact absurd h (by simp)
  · split at h
    · cases h
      exact ⟨hbind, .inl ⟨hseq, hfifo, hacc⟩⟩
    · next hsock =>
      split at h
      · cases h
        exact ⟨hbind, .inl ⟨hseq, hfifo, hacc⟩⟩
      · next hnum =>
        have hnum := not_not.mp hnum
        obtain ⟨f, hf, h⟩ := exec_bind_ok h
        cases h
        unfold FIFOSequencer.addClientRequest at hf
        split at hf
        · exact absurd hf (by simp)
        · cases hf
          refine ⟨hbind, .inr ⟨not_not.mp hsock, ?_, ?_, ?_, ?_, ?_⟩⟩
          · rw [← hseq]; exact hnum
          · dsimp only
            rw [← hnum, hseq]
          · dsimp only
            rw [hfifo]
          · dsimp only
            rw [hfifo]
          · dsimp only
            rw [hacc]

/-! ## What a round collects -/

/-- The number behind those of `n` messages. -/
theorem nextSeqNum_wrap64 (n : Nat) : nextSeqNum (wrap64 n) = wrap64 (n + 1) :=
  Nat.mod_add_mod ..

theorem Counted.concat {ms : List OMClientRequest} {m : OMClientRequest} (h : Counted ms)
    (hm : m.seq_num_ = wrap64 (ms.length + 1)) : Counted (ms ++ [m]) := by
  unfold Counted at h ⊢
  rw [List.map_append, h, List.length_append, List.length_singleton, List.range'_1_concat,
    List.map_append, List.map_singleton, List.map_singleton, hm, Nat.add_comm 1]

/-- The server in the middle of a round: `base` was accepted and `out` published
before it, and the sockets `rest` are still to be read, each at its time. -/
structure Collecting (base out : List MEClientRequest) (rest : List Receipt) (s : OrderServer) :
    Prop where
  published : s.fifo_sequencer_.incoming_requests_ = out
  counted : ∀ c, Counted (s.acceptedOf c)
  next_exp : ∀ c, s.cid_next_exp_seq_num_ c = wrap64 ((s.acceptedOf c).length + 1)
  accepted_eq : s.accepted.map OMClientRequest.me_client_request_ = base ++
    s.fifo_sequencer_.pending_client_requests_.map RecvTimeClientRequest.request_
  /-- a client's pending requests came from its socket, which will not be read earlier -/
  bound : ∀ e ∈ s.fifo_sequencer_.pending_client_requests_,
    ∃ k, s.cid_tcp_socket_ e.request_.client_id_ = some k ∧
      ∀ r ∈ rest, r.socket = k → e.recv_time_ ≤ r.rx_time
  inTime : InTime s.fifo_sequencer_.pending_client_requests_

theorem Collecting.mono {base out : List MEClientRequest} {rest rest' : List Receipt}
    {s : OrderServer} (h : Collecting base out rest s) (hsub : ∀ r ∈ rest', r ∈ rest) :
    Collecting base out rest' s where
  published := h.published
  counted := h.counted
  next_exp := h.next_exp
  accepted_eq := h.accepted_eq
  bound := by
    intro e he
    obtain ⟨k, hk, hle⟩ := h.bound e he
    exact ⟨k, hk, fun r hr => hle r (hsub r hr)⟩
  inTime := h.inTime

theorem acceptedOf_append {s s' : OrderServer} {m : OMClientRequest}
    (h : s'.accepted = s.accepted ++ [m]) (c : Nat) :
    s'.acceptedOf c = s.acceptedOf c ++
      if m.me_client_request_.client_id_ = c then [m] else [] := by
  unfold acceptedOf
  rw [h, List.filter_append]
  by_cases hc : m.me_client_request_.client_id_ = c
  · simp [hc]
  · simp [hc]

/-- **One message** read from the socket at the head of the round. -/
theorem Collecting.recvRequest {base out : List MEClientRequest} {r : Receipt} {rest : List Receipt}
    {s s' : OrderServer} {m : OMClientRequest} (h : Collecting base out (r :: rest) s)
    (hr : ∀ r' ∈ rest, r.socket = r'.socket → r.rx_time ≤ r'.rx_time)
    (hs : s.recvRequest r.socket r.rx_time m = .ok s') : Collecting base out (r :: rest) s' := by
  obtain ⟨hkeep, ⟨hnext, hfifo, hacc⟩ | ⟨hsock, hseq, hnext, hin, hpend, hacc⟩⟩ :=
    recvRequest_cases hs
  · have hof : ∀ c, s'.acceptedOf c = s.acceptedOf c := by
      intro c
      unfold acceptedOf
      rw [hacc]
    refine ⟨?_, ?_, ?_, ?_, ?_, ?_⟩
    · rw [hfifo]
      exact h.published
    · intro c
      rw [hof]
      exact h.counted c
    · intro c
      rw [hof, hnext]
      exact h.next_exp c
    · rw [hacc, hfifo]
      exact h.accepted_eq
    · intro e he
      rw [hfifo] at he
      obtain ⟨k, hk, hle⟩ := h.bound e he
      exact ⟨k, hkeep _ _ hk, hle⟩
    · rw [hfifo]
      exact h.inTime
  · have hof := acceptedOf_append hacc
    refine ⟨?_, ?_, ?_, ?_, ?_, ?_⟩
    · rw [hin]
      exact h.published
    · intro c
      rw [hof]
      split
      · next hc =>
        subst hc
        exact (h.counted _).concat (hseq.trans (h.next_exp _))
      · rw [List.append_nil]
        exact h.counted c
    · intro c
      rw [hof, hnext]
      by_cases hc : m.me_client_request_.client_id_ = c
      · subst hc
        rw [Function.update_self, if_pos rfl, hseq, h.next_exp, nextSeqNum_wrap64,
          List.length_append, List.length_singleton]
      · rw [Function.update_of_ne (Ne.symm hc), if_neg hc, List.append_nil]
        exact h.next_exp c
    · rw [hacc, hpend, List.map_append, List.map_append, h.accepted_eq, List.append_assoc]
      rfl
    · intro e he
      rw [hpend, List.mem_append, List.mem_singleton] at he
      rcases he with he | rfl
      · obtain ⟨k, hk, hle⟩ := h.bound e he
        exact ⟨k, hkeep _ _ hk, hle⟩
      · refine ⟨r.socket, hsock, ?_⟩
        intro r' hr' hsocket
        rcases List.mem_cons.mp hr' with rfl | hr'
        · exact le_rfl
        · exact hr r' hr' hsocket.symm
    · intro c
      rw [hpend, List.filter_append, List.pairwise_append]
      refine ⟨h.inTime c, List.Pairwise.filter _ (List.pairwise_singleton ..), ?_⟩
      -- an earlier request of this client came from the same socket
      intro e he e' he'
      obtain ⟨he, hec⟩ := List.mem_filter.mp he
      obtain ⟨he', hec'⟩ := List.mem_filter.mp he'
      rw [List.mem_singleton] at he'
      subst he'
      obtain ⟨k, hk, hle⟩ := h.bound e he
      have hclient : e.request_.client_id_ = m.me_client_request_.client_id_ :=
        (of_decide_eq_true hec).trans (of_decide_eq_true hec').symm
      rw [hclient] at hk
      have hkk := (hkeep _ _ hk).symm.trans hsock
      exact not_lt.mpr (hle r (List.mem_cons_self ..) (Option.some.inj hkk).symm)

theorem Collecting.recvRequests {base out : List MEClientRequest} {r : Receipt}
    {rest : List Receipt}
    (ms : List OMClientRequest) {s s' : OrderServer} (h : Collecting base out (r :: rest) s)
    (hr : ∀ r' ∈ rest, r.socket = r'.socket → r.rx_time ≤ r'.rx_time)
    (hs : OrderServer.recvRequests r.socket r.rx_time ms s = .ok s') :
    Collecting base out (r :: rest) s' := by
  induction ms generalizing s with
  | nil =>
    cases hs
    exact h
  | cons m ms ih =>
    obtain ⟨s₁, hs₁, hs⟩ := exec_bind_ok hs
    exact ih (h.recvRequest hr hs₁) hs

/-- A round whose sockets are read at ascending times. -/
theorem Collecting.recvRound {base out : List MEClientRequest} (rs : List Receipt)
    {s s' : OrderServer} (h : Collecting base out rs s)
    (hrs : rs.Pairwise fun a b => a.socket = b.socket → a.rx_time ≤ b.rx_time)
    (hs : OrderServer.recvRound rs s = .ok s') : Collecting base out [] s' := by
  induction rs generalizing s with
  | nil =>
    cases hs
    exact h
  | cons r rs ih =>
    obtain ⟨s₁, hs₁, hs⟩ := exec_bind_ok hs
    obtain ⟨hr, hrs⟩ := List.pairwise_cons.mp hrs
    have h₁ := h.recvRequests r.requests hr hs₁
    exact ih (h₁.mono fun r' hr' => List.mem_cons_of_mem r hr') hrs hs

/-! ## Series of rounds -/

/-- The receive times of each socket are non-decreasing. -/
def SocketTimes (series : List (List Receipt)) : Prop :=
  series.flatten.Pairwise fun a b => a.socket = b.socket → a.rx_time ≤ b.rx_time

theorem SocketTimes.of_prefix {rs series : List (List Receipt)} (h : SocketTimes series)
    (hpre : rs <+: series) : SocketTimes rs := by
  obtain ⟨tl, rfl⟩ := hpre
  unfold SocketTimes at h ⊢
  rw [List.flatten_append, List.pairwise_append] at h
  exact h.1

theorem SocketTimes.last {rs : List (List Receipt)} {r : List Receipt}
    (h : SocketTimes (rs ++ [r])) :
    r.Pairwise fun a b => a.socket = b.socket → a.rx_time ≤ b.rx_time := by
  unfold SocketTimes at h
  rw [List.flatten_append, List.pairwise_append] at h
  simpa using h.2.1

/-- The server between two rounds. -/
structure Settled (s : OrderServer) : Prop where
  pending : s.fifo_sequencer_.pending_client_requests_ = []
  counted : ∀ c, Counted (s.acceptedOf c)
  next_exp : ∀ c, s.cid_next_exp_seq_num_ c = wrap64 ((s.acceptedOf c).length + 1)

theorem Settled.collecting {s : OrderServer} (h : Settled s) (rest : List Receipt) :
    Collecting (s.accepted.map OMClientRequest.me_client_request_)
      s.fifo_sequencer_.incoming_requests_ rest s where
  published := rfl
  counted := h.counted
  next_exp := h.next_exp
  accepted_eq := by rw [h.pending]; simp
  bound := by rw [h.pending]; simp
  inTime := by
    intro c
    rw [h.pending]
    exact List.Pairwise.nil

/-- What a round collects is what it publishes. -/
theorem Rounds.settled {rs : List (List Receipt)} {s : OrderServer} (h : Rounds rs s)
    (ht : SocketTimes rs) : Settled s := by
  induction h with
  | nil => exact ⟨rfl, fun _ => rfl, fun _ => rfl⟩
  | snoc hrs hround hpub ih =>
    have hc := ((ih (ht.of_prefix (List.prefix_append ..))).collecting _).recvRound _ ht.last hround
    obtain ⟨sorted, -, rfl⟩ := hpub
    exact ⟨rfl, hc.counted, hc.next_exp⟩

theorem acceptedOf_map (s : OrderServer) (c : Nat) :
    (s.acceptedOf c).map OMClientRequest.me_client_request_ =
      requestsOf c (s.accepted.map OMClientRequest.me_client_request_) := by
  unfold acceptedOf requestsOf
  rw [List.filter_map]
  rfl

/-- The accepted messages of a client are in the order of their numbers already, so
what is left to ask for is that they are published in the order of acceptance. -/
theorem Settled.inSequence_iff {s : OrderServer} (h : Settled s) (c : Nat) :
    s.InSequence c ↔ requestsOf c s.fifo_sequencer_.incoming_requests_ =
      requestsOf c (s.accepted.map OMClientRequest.me_client_request_) := by
  rw [← acceptedOf_map]
  exact ⟨fun hseq => hseq.published, fun heq => ⟨h.counted c, heq⟩⟩

/-- The accepted messages do not depend on what the sort does. -/
theorem Collecting.inSequence_publish {s s' : OrderServer}
    (hset : Settled s) (hseq : ∀ c, s.InSequence c)
    (hc : Collecting (s.accepted.map OMClientRequest.me_client_request_)
      s.fifo_sequencer_.incoming_requests_ [] s')
    (sorted : List RecvTimeClientRequest) (c : Nat) :
    InSequence { s' with
        fifo_sequencer_ := ⟨[], s'.fifo_sequencer_.incoming_requests_ ++
          sorted.map RecvTimeClientRequest.request_⟩ } c ↔
      requestsOf c (sorted.map RecvTimeClientRequest.request_) =
        requestsOf c (s'.fifo_sequencer_.pending_client_requests_.map
          RecvTimeClientRequest.request_) := by
  have hset' : Settled { s' with
      fifo_sequencer_ := ⟨[], s'.fifo_sequencer_.incoming_requests_ ++
        sorted.map RecvTimeClientRequest.request_⟩ } := ⟨rfl, hc.counted, hc.next_exp⟩
  rw [hset'.inSequence_iff]
  dsimp only
  rw [hc.accepted_eq, hc.published, requestsOf_append, requestsOf_append,
    (hset.inSequence_iff c).mp (hseq c), List.append_cancel_left_eq]

/-- Every round of the series that is reached waits for `sequenceAndPublish`
without ties. -/
def RoundsNoTies (series : List (List Receipt)) : Prop :=
  ∀ rs r s s', rs ++ [r] <+: series → Rounds rs s → recvRound r s = .ok s' →
    NoTies s'.fifo_sequencer_.pending_client_requests_

theorem RoundsNoTies.of_prefix {rs series : List (List Receipt)} (h : RoundsNoTies series)
    (hpre : rs <+: series) : RoundsNoTies rs :=
  fun rs' r s s' hrs => h rs' r s s' (hrs.trans hpre)

/-- Without ties everything is published in sequence. -/
theorem Rounds.inSequence {rs : List (List Receipt)} {s : OrderServer} (h : Rounds rs s)
    (ht : SocketTimes rs) (hties : RoundsNoTies rs) (c : Nat) : s.InSequence c := by
  induction h generalizing c with
  | nil => exact ⟨rfl, rfl⟩
  | @snoc rs r s s' f hrs hround hpub ih =>
    have hpre : rs <+: rs ++ [r] := List.prefix_append ..
    have hset := hrs.settled (ht.of_prefix hpre)
    have hc := (hset.collecting _).recvRound _ ht.last hround
    obtain ⟨sorted, hsort, rfl⟩ := hpub
    rw [hc.inSequence_publish hset (ih (ht.of_prefix hpre) (hties.of_prefix hpre))]
    have hno := hties rs r s s' (List.prefix_refl _) hrs hround
    exact (sequenceAndPublish_keeps_iff hc.inTime).mpr hno sorted hsort c

end OrderServer

open OrderServer

/-- **When each client's own order survives the sequencer**: for a series of
receive rounds, every outcome the sort may have gives the matching engine each
client's accepted requests in the order of their sequence numbers, exactly when
no call of `sequenceAndPublish` finds two different requests of one client with
the same receive time. -/
theorem sequencing_in_order_iff (series : List (List Receipt)) (ht : SocketTimes series) :
    (∀ rs s, rs <+: series → Rounds rs s → ∀ c, s.InSequence c) ↔ RoundsNoTies series := by
  constructor
  · intro h rs r s s' hpre hrs hround
    have hpre' : rs <+: series := (List.prefix_append ..).trans hpre
    have hset := hrs.settled (ht.of_prefix hpre')
    have hc := (hset.collecting _).recvRound _ (ht.of_prefix hpre).last hround
    refine (sequenceAndPublish_keeps_iff hc.inTime).mp ?_
    intro sorted hsort c
    rw [← hc.inSequence_publish hset (h rs s hpre' hrs)]
    exact h (rs ++ [r]) _ hpre (.snoc hrs hround ⟨sorted, hsort, rfl⟩) c
  · intro hties rs s hpre hrs c
    exact hrs.inSequence (ht.of_prefix hpre) (hties.of_prefix hpre) c

/-- A client's order and its cancellation, as its gateway numbers them. -/
def newThenCancel : List OMClientRequest :=
  [⟨1, ⟨.NEW, 0, 0, 1, .BUY, 100, 10⟩⟩, ⟨2, ⟨.CANCEL, 0, 0, 1, .INVALID, Price_INVALID, Qty_INVALID⟩⟩]

/-- Read from the socket at two times, they stay in order. -/
theorem sequencing_in_order_iff_two_times :
    let series : List (List Receipt) :=
      [[⟨4, 10, newThenCancel.take 1⟩, ⟨4, 11, newThenCancel.drop 1⟩]]
    SocketTimes series ∧
      ((∀ rs s, rs <+: series → Rounds rs s → ∀ c, s.InSequence c) ↔ RoundsNoTies series) := by
  intro series
  have ht : SocketTimes series := by
    simp [series, SocketTimes]
  exact ⟨ht, sequencing_in_order_iff series ht⟩

/-- The `i`-th message of a client that sends orders and cancels each right away. -/
def newOrCancel (i : Nat) : OMClientRequest :=
  if i % 2 = 0 then ⟨i + 1, ⟨.NEW, 0, 0, i / 2 + 1, .BUY, 100, 10⟩⟩
  else ⟨i + 1, ⟨.CANCEL, 0, 0, i / 2 + 1, .INVALID, Price_INVALID, Qty_INVALID⟩⟩

/-- Seventeen such messages decoded from one `recvmsg`, in an order that the contract
of `std::sort` permits: some `CANCEL`s overtake their `NEW`. -/
theorem sequencing_out_of_order :
    ∃ series s c, SocketTimes series ∧ Rounds series s ∧ ¬ s.InSequence c := by
  let ms : List OMClientRequest := (List.range 17).map newOrCancel
  let r : List Receipt := [⟨4, 10, ms⟩]
  have hround : (recvRound r init).toOption.map
      (fun s => s.fifo_sequencer_.pending_client_requests_) =
        some (ms.map fun m => ⟨10, m.me_client_request_⟩) := by decide +kernel
  obtain ⟨s', hs', hpend⟩ := Option.map_eq_some_iff.mp hround
  have hs' : recvRound r init = .ok s' := by
    cases hrun : recvRound r init with
    | error f => rw [hrun] at hs'; exact absurd hs' (by simp [Except.toOption])
    | ok s₁ => rw [hrun] at hs'; exact congrArg _ (Option.some.inj hs')
  have ht : SocketTimes [r] := by simp [r, SocketTimes]
  have hset : Settled init := Rounds.nil.settled (by simp [SocketTimes])
  have hc := (hset.collecting _).recvRound _ (@SocketTimes.last [] r ht) hs'
  -- a quicksort exchanges the pivot, and then equal elements from both ends
  let order : List Nat := [8, 16, 15, 14, 13, 12, 11, 10, 9, 0, 7, 6, 5, 4, 3, 2, 1]
  let sorted : List RecvTimeClientRequest :=
    (order.map newOrCancel).map fun m => ⟨10, m.me_client_request_⟩
  have hperm : order.Perm (List.range 17) := by decide
  have hsort : Lib.SortedBy RecvTimeClientRequest.recv_time_ sorted
      s'.fifo_sequencer_.pending_client_requests_ := by
    rw [hpend]
    exact ⟨(hperm.map _).map _, by simp [sorted, order]⟩
  refine ⟨[r], _, 0, ht, .snoc .nil hs' ⟨sorted, hsort, rfl⟩, ?_⟩
  rw [hc.inSequence_publish hset (fun c => ⟨rfl, rfl⟩), hpend]
  decide

end LowLatency
