import LowLatency.OrderServer.Burst

/-!
# Messages that are dropped

`recvCallback` drops a message that comes from another socket than the one its
client is bound to, and a message with another number than the one expected. It
looks at the socket first, and the first message of a client, whatever its
number, binds the client to the socket it came from. So a message that is dropped
leaves nothing behind, with one exception: a client that had no socket has one
from then on.

**`dropped_leaves_binding`** says so about one message, and then about two runs,
one with the dropped message and one without it. For a client that had its socket
they are the same run. For a client that had none they differ in that binding
until the client's first other message; as long as its messages come from the same
socket, whatever happens in the one run happens in the other.
-/

namespace LowLatency

namespace OrderServer

/-- `recvCallback` drops the message. -/
def Discards (s : OrderServer) (socket : Nat) (m : OMClientRequest) : Prop :=
  (∃ k, s.cid_tcp_socket_ m.me_client_request_.client_id_ = some k ∧ k ≠ socket) ∨
    m.seq_num_ ≠ s.cid_next_exp_seq_num_ m.me_client_request_.client_id_

variable {s s' : OrderServer} {c socket : Nat}

theorem bindSocket_of_bound (h : s.cid_tcp_socket_ c ≠ none) (socket : Nat) :
    s.bindSocket c socket = s := by
  unfold bindSocket
  rw [if_neg h]

/-- After the binding there is one. -/
theorem bindSocket_ne_none (s : OrderServer) (c socket : Nat) :
    (s.bindSocket c socket).cid_tcp_socket_ c ≠ none := by
  unfold bindSocket
  split
  · show Function.update s.cid_tcp_socket_ c (some socket) c ≠ none
    rw [Function.update_self]
    exact Option.some_ne_none socket
  next h => exact h

/-- The other clients' bindings. -/
theorem bindSocket_other {c' : Nat} (h : c' ≠ c) (s : OrderServer) (socket : Nat) :
    (s.bindSocket c socket).cid_tcp_socket_ c' = s.cid_tcp_socket_ c' := by
  unfold bindSocket
  split
  · exact Function.update_of_ne h ..
  · rfl

/-- Two clients are bound independently. -/
theorem bindSocket_comm {c' socket' : Nat} (h : c' ≠ c) (s : OrderServer) :
    (s.bindSocket c socket).bindSocket c' socket' = (s.bindSocket c' socket').bindSocket c socket := by
  have h₁ := bindSocket_other h s socket
  have h₂ := bindSocket_other h.symm s socket'
  unfold bindSocket at h₁ h₂ ⊢
  by_cases hc : s.cid_tcp_socket_ c = none <;> by_cases hc' : s.cid_tcp_socket_ c' = none
  · simp only [if_pos hc, if_pos hc', Function.update_of_ne h, Function.update_of_ne h.symm,
      Function.update_comm h]
  · simp [hc, hc', Function.update_of_ne h]
  · simp [hc, hc', Function.update_of_ne h.symm]
  · simp [hc, hc']

/-- **A dropped message** does nothing but bind its client. -/
theorem recvRequest_discards {m : OMClientRequest} (t : Int)
    (hc : m.me_client_request_.client_id_ < ME_MAX_NUM_CLIENTS)
    (hd : s.Discards socket m) :
    s.recvRequest socket t m = .ok (s.bindSocket m.me_client_request_.client_id_ socket) := by
  obtain ⟨hnext, _, _⟩ := bindSocket_rest s m.me_client_request_.client_id_ socket
  unfold recvRequest
  dsimp only
  rw [if_neg (by omega)]
  rcases hd with ⟨k, hk, hne⟩ | hseq
  · have hbound := bindSocket_bound s m.me_client_request_.client_id_ socket hk
    rw [if_pos (by rw [hbound]; exact fun e => hne (Option.some.inj e))]
  · split
    · rfl
    · rw [hnext, if_pos hseq]

/-- Binding a client beforehand makes no difference to a message of another
client, nor to one of its own from that socket. -/
theorem recvRequest_bindSocket {k : Nat} {m : OMClientRequest} (t : Int)
    (h : m.me_client_request_.client_id_ = c → k = socket) :
    (s.bindSocket c socket).recvRequest k t m =
      (s.recvRequest k t m).map fun s' => s'.bindSocket c socket := by
  unfold recvRequest
  dsimp only
  by_cases hrange : m.me_client_request_.client_id_ ≥ ME_MAX_NUM_CLIENTS
  · rw [if_pos hrange, if_pos hrange]
    rfl
  rw [if_neg hrange, if_neg hrange]
  -- either way the server that the checks look at is this one
  have hsame : (s.bindSocket c socket).bindSocket m.me_client_request_.client_id_ k =
      (s.bindSocket m.me_client_request_.client_id_ k).bindSocket c socket := by
    by_cases hc : m.me_client_request_.client_id_ = c
    · rw [hc, h hc]
    · exact bindSocket_comm hc s
  rw [hsame]
  have htcp : ((s.bindSocket m.me_client_request_.client_id_ k).bindSocket c socket).cid_tcp_socket_
      m.me_client_request_.client_id_ = (s.bindSocket m.me_client_request_.client_id_ k).cid_tcp_socket_
        m.me_client_request_.client_id_ := by
    by_cases hc : m.me_client_request_.client_id_ = c
    · rw [← hc, bindSocket_of_bound (bindSocket_ne_none s _ k)]
    · exact bindSocket_other hc _ _
  generalize s.bindSocket m.me_client_request_.client_id_ k = s₁ at htcp ⊢
  obtain ⟨hnext, hfifo, hacc⟩ := bindSocket_rest s₁ c socket
  rw [htcp, hnext, hfifo, hacc]
  split
  · rfl
  · split
    · rfl
    · cases s₁.fifo_sequencer_.addClientRequest t m.me_client_request_ with
      | error f => rfl
      | ok f =>
        show Except.ok _ = Except.ok _
        unfold bindSocket
        dsimp only
        split <;> rfl

end OrderServer

namespace Connections

/-- What happens to the server afterwards. -/
inductive Event
  | recv (a : OrderServer.Arrival)
  | publish
  | respond (response : MEClientResponse)

/-- `y` may be the server after these events. -/
inductive Runs : Connections → List Event → Connections → Prop
  | nil {x : Connections} : Runs x [] x
  | recv {x y : Connections} {a : OrderServer.Arrival} {server : OrderServer} {es : List Event} :
      x.server.recvRequest a.socket a.rx_time a.request = .ok server →
      Runs { x with server := server } es y → Runs x (.recv a :: es) y
  | publish {x y : Connections} {f : FIFOSequencer} {es : List Event} :
      x.server.fifo_sequencer_.SequenceAndPublish f →
      Runs { x with server := { x.server with fifo_sequencer_ := f } } es y →
      Runs x (.publish :: es) y
  | respond {x x' y : Connections} {r : MEClientResponse} {es : List Event} :
      x.sendResponse r = .ok x' → Runs x' es y → Runs x (.respond r :: es) y

/-- Client `c` sends from `socket` only. -/
def SendsFrom (c socket : Nat) (es : List Event) : Prop :=
  ∀ a, Event.recv a ∈ es → a.request.me_client_request_.client_id_ = c → a.socket = socket

/-- The same sockets and counters, with client `c` bound. -/
def bindClient (x : Connections) (c socket : Nat) : Connections :=
  { x with server := x.server.bindSocket c socket }

variable {x x' : Connections} {c socket : Nat}

/-- A response that can be sent is sent in the same way. -/
theorem sendResponse_bindClient {r : MEClientResponse} (h : x.sendResponse r = .ok x') :
    (x.bindClient c socket).sendResponse r = .ok (x'.bindClient c socket) := by
  unfold sendResponse at h ⊢
  dsimp only at h ⊢
  split at h
  · exact absurd h (by simp)
  next hrange =>
    cases hk : x.server.cid_tcp_socket_ r.client_id_ with
    | none =>
      rw [hk] at h
      exact absurd h (by simp)
    | some k =>
      have hsock : (x.bindClient c socket).server.cid_tcp_socket_ r.client_id_ = some k :=
        OrderServer.bindSocket_bound x.server c socket hk
      rw [hk] at h
      obtain ⟨s₁, hnum, h⟩ := exec_bind_ok h
      obtain ⟨s₂, hresp, h⟩ := exec_bind_ok h
      rw [if_neg hrange, hsock, ← Except.ok.inj h]
      show ((x.sockets k).send (Lib.leBytes 8 (x.cid_next_outgoing_seq_num_ r.client_id_)) >>= _) = _
      rw [hnum, exec_ok_bind, hresp]
      rfl

/-- **Whatever happens to a server**, happens to it when a client was bound
beforehand to the socket it sends from. -/
theorem Runs.bindClient {y : Connections} {es : List Event} (h : Runs x es y)
    (hc : SendsFrom c socket es) : Runs (x.bindClient c socket) es (y.bindClient c socket) := by
  induction h with
  | nil => exact .nil
  | @recv x y a server es hrecv _ ih =>
    have hfrom := hc a (List.mem_cons_self ..)
    have hbound : (x.server.bindSocket c socket).recvRequest a.socket a.rx_time a.request =
        .ok (server.bindSocket c socket) := by
      rw [OrderServer.recvRequest_bindSocket _ hfrom, hrecv]
      rfl
    exact .recv hbound (ih fun b hb => hc b (List.mem_cons_of_mem _ hb))
  | @publish x y f es hsort _ ih =>
    have hrest := ih fun b hb => hc b (List.mem_cons_of_mem _ hb)
    refine .publish (f := f) ?_ ?_
    · show (x.server.bindSocket c socket).fifo_sequencer_.SequenceAndPublish f
      rw [(OrderServer.bindSocket_rest ..).2.1]
      exact hsort
    · have hsame : { x.server.bindSocket c socket with fifo_sequencer_ := f } =
          { x.server with fifo_sequencer_ := f }.bindSocket c socket := by
        unfold OrderServer.bindSocket
        dsimp only
        split <;> rfl
      show Runs ⟨{ x.server.bindSocket c socket with fifo_sequencer_ := f }, _, _⟩ _ _
      rw [hsame]
      exact hrest
  | respond hsend _ ih =>
    exact .respond (sendResponse_bindClient hsend) (ih fun b hb => hc b (List.mem_cons_of_mem _ hb))

/-- **A dropped message leaves nothing behind but the binding of a client that
had none.** The sequence numbers in both directions and the pending requests are
as before. If the client was bound, so are the bindings, and every later run is
the same; if not, a later run in which the client sends from this socket is. -/
theorem dropped_leaves_binding (x : Connections) (socket : Nat) (t : Int) (m : OMClientRequest)
    (hc : m.me_client_request_.client_id_ < ME_MAX_NUM_CLIENTS)
    (hd : x.server.Discards socket m) :
    ∃ server, x.server.recvRequest socket t m = .ok server ∧
      server.cid_next_exp_seq_num_ = x.server.cid_next_exp_seq_num_ ∧
      server.fifo_sequencer_ = x.server.fifo_sequencer_ ∧
      server.accepted = x.server.accepted ∧
      server.cid_tcp_socket_ =
        (if x.server.cid_tcp_socket_ m.me_client_request_.client_id_ = none then
          Function.update x.server.cid_tcp_socket_ m.me_client_request_.client_id_ (some socket)
        else x.server.cid_tcp_socket_) ∧
      (x.server.cid_tcp_socket_ m.me_client_request_.client_id_ ≠ none →
        server = x.server ∧
          ∀ es y, Runs { x with server := server } es y ↔ Runs x es y) ∧
      ∀ es y, SendsFrom m.me_client_request_.client_id_ socket es → Runs x es y →
        Runs { x with server := server } es
          (y.bindClient m.me_client_request_.client_id_ socket) := by
  obtain ⟨hnext, hfifo, hacc⟩ :=
    OrderServer.bindSocket_rest x.server m.me_client_request_.client_id_ socket
  refine ⟨_, OrderServer.recvRequest_discards t hc hd, hnext, hfifo, hacc, ?_, ?_, ?_⟩
  · unfold OrderServer.bindSocket
    split <;> rfl
  · intro hbound
    rw [OrderServer.bindSocket_of_bound hbound]
    exact ⟨rfl, fun _ _ => Iff.rfl⟩
  · intro es y hfrom hrun
    exact hrun.bindClient hfrom

/-- A repeated message of a client that is bound. -/
theorem dropped_leaves_binding_repeated :
    ∃ s : OrderServer, OrderServer.init.recvRequest 3 0 ⟨1, ⟨.NEW, 1, 0, 7, .BUY, 100, 10⟩⟩ = .ok s ∧
      s.recvRequest 3 1 ⟨1, ⟨.NEW, 1, 0, 7, .BUY, 100, 10⟩⟩ = .ok s := by
  have hnext : OrderServer.init.Next 3 ⟨1, ⟨.NEW, 1, 0, 7, .BUY, 100, 10⟩⟩ :=
    ⟨by decide, Or.inl rfl, rfl⟩
  have hfirst := OrderServer.recvRequest_next hnext 0
  rw [if_neg (by decide)] at hfirst
  refine ⟨_, hfirst, ?_⟩
  let x : Connections :=
    { init with server := OrderServer.init.pass 3 0 ⟨1, ⟨.NEW, 1, 0, 7, .BUY, 100, 10⟩⟩ }
  have hseq : x.server.cid_next_exp_seq_num_ 1 = 2 := rfl
  have hsock : x.server.cid_tcp_socket_ 1 = some 3 := rfl
  obtain ⟨server, hrun, _, _, _, _, hsame, _⟩ := dropped_leaves_binding x 3 1
    ⟨1, ⟨.NEW, 1, 0, 7, .BUY, 100, 10⟩⟩ (by decide)
    (Or.inr (by rw [hseq]; decide))
  rw [(hsame (by rw [hsock]; decide)).1] at hrun
  exact hrun

/-- The first message of a client comes from socket 3 with a number out of
sequence. It is dropped, and so is the client's first order from socket 4, which
would have been accepted without it. -/
theorem dropped_binds :
    OrderServer.init.Discards 3 ⟨5, ⟨.NEW, 1, 0, 7, .BUY, 100, 10⟩⟩ ∧
    ∃ s, OrderServer.init.recvRequest 3 0 ⟨5, ⟨.NEW, 1, 0, 7, .BUY, 100, 10⟩⟩ = .ok s ∧
      s.cid_tcp_socket_ ≠ OrderServer.init.cid_tcp_socket_ ∧
      (∃ s₁, OrderServer.init.recvRequest 4 1 ⟨1, ⟨.NEW, 1, 0, 7, .BUY, 100, 10⟩⟩ = .ok s₁ ∧
        s₁.accepted = [⟨1, ⟨.NEW, 1, 0, 7, .BUY, 100, 10⟩⟩]) ∧
      ∃ s₂, s.recvRequest 4 1 ⟨1, ⟨.NEW, 1, 0, 7, .BUY, 100, 10⟩⟩ = .ok s₂ ∧ s₂.accepted = [] := by
  refine ⟨Or.inr (by decide), _, rfl, ?_, ⟨_, rfl, rfl⟩, _, rfl, rfl⟩
  intro he
  have hone := congrFun he 1
  exact absurd hone (by decide)

end Connections

end LowLatency
