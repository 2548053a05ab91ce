import Mathlib.Data.List.Perm.Subperm
import LowLatency.OrderServer.Burst

/-!
# `TCPServer`: who is served

`src/common/tcp_server.{h,cpp}`. The listening socket and every accepted one are
registered with epoll, for `EPOLLIN` and edge-triggered. `poll` puts down what
`epoll_wait` reports and, when the listening socket is part of it, accepts until
there is an error. `sendAndRecv` then goes over `receive_sockets_`.

The kernel is the environment. Connections arrive at any time, also between two
`accept`s. `epoll_wait` reports open sockets as it likes. While connections wait, the
listening socket is left out only for lack of room, and once it has been reported it is
not reported again before the next arrival. `accept` can fail with connections waiting,
and `poll` ends its loop on every error alike. If one of them arrived behind the report,
there will be another report, and all are accepted. If not, they are left waiting, and
there is no other way to be (`connections_served`): they are accepted when another
connection arrives, and until then they are not.

A socket that is closed leaves the epoll set and stays in `receive_sockets_`, where it
does nothing.
-/

namespace LowLatency

open Connections (arrivals burst)

/-! ## The server -/

/-- One of `events_`. -/
structure EpollEvent where
  socket : Nat
  EPOLLIN : Bool := false
  EPOLLOUT : Bool := false
  EPOLLERR : Bool := false
  EPOLLHUP : Bool := false
deriving DecidableEq, Repr

/-- Sockets by address. -/
structure TCPServer where
  receive_sockets_ : List Nat
  send_sockets_ : List Nat
  /-- set while `poll` accepts -/
  have_new_connection : Bool
deriving DecidableEq, Repr

/-- The length of `events_`. -/
def MaxEvents : Nat := 1024

namespace TCPServer

def init : TCPServer := ⟨[], [], false⟩

/-- The address of `listener_socket_`. -/
def listener_socket_ : Nat := 0

/-- `push_back`, unless `std::find` finds it. -/
def pushNew (sockets : List Nat) (socket : Nat) : List Nat :=
  if socket ∈ sockets then sockets else sockets ++ [socket]

/-- The body of the loop over `events_`. -/
def onEvent (s : TCPServer) (event : EpollEvent) : TCPServer :=
  if event.EPOLLIN ∧ event.socket = listener_socket_ then { s with have_new_connection := true }
  else
    let s :=
      if event.EPOLLIN then
        { s with receive_sockets_ := pushNew s.receive_sockets_ event.socket }
      else s
    let s :=
      if event.EPOLLOUT then { s with send_sockets_ := pushNew s.send_sockets_ event.socket }
      else s
    if event.EPOLLERR ∨ event.EPOLLHUP then
      { s with receive_sockets_ := pushNew s.receive_sockets_ event.socket }
    else s

/-- What `epoll_wait` may report at once. -/
def max_events (s : TCPServer) : Nat := 1 + s.send_sockets_.length + s.receive_sockets_.length

/-- `poll` up to the accept loop. -/
def pollEvents (s : TCPServer) (events : List EpollEvent) : TCPServer := events.foldl onEvent s

/-- One turn of the accept loop in which `accept` returned `fd`. The results of the
calls that set the socket up are given. -/
def accept (s : TCPServer) (fd socket : Nat) (configured added : Bool) (error : String) :
    Exec TCPServer := do
  ASSERT configured ("Failed to set non-blocking or no-delay on socket:" ++ toString fd)
  ASSERT added ("Unable to add socket. error:" ++ error)
  return { s with receive_sockets_ := pushNew s.receive_sockets_ socket }

/-- The end of `poll`. -/
def acceptFailed (s : TCPServer) : TCPServer := { s with have_new_connection := false }

/-- What `sendAndRecv` goes over when the kernel has `reads` for each socket. -/
def drains (s : TCPServer) (reads : Nat → List Read) : List Drain :=
  s.receive_sockets_.map fun socket => ⟨socket, reads socket⟩

end TCPServer

/-! ## The server and the kernel -/

structure Listening where
  server : TCPServer
  /-- connections that wait to be accepted -/
  backlog : List Nat
  /-- `epoll_wait` has the listening socket to report -/
  signalled : Bool
  /-- accepted sockets that are not closed -/
  opened : List Nat
  /-- all connections there were -/
  arrived : List Nat
  /-- those accepted, with their sockets -/
  accepted : List (Nat × Nat)
  /-- `accept` has failed with connections waiting, the last of which had been
  reported, and none has arrived since -/
  missed : Bool

namespace Listening

open TCPServer (listener_socket_ pushNew)

def init : Listening := ⟨.init, [], false, [], [], [], false⟩

/-- The addresses of all sockets made so far. -/
def sockets (σ : Listening) : List Nat := σ.accepted.map Prod.snd

/-- Connections wait, and the listening socket has not been reported since the last
one came. -/
def Pending (σ : Listening) : Prop := σ.signalled = true ∧ σ.backlog ≠ []

instance (σ : Listening) : Decidable σ.Pending := inferInstanceAs (Decidable (_ ∧ _))

/-- `epoll_wait` can report `es`. -/
structure Polls (σ : Listening) (es : List EpollEvent) : Prop where
  idle : σ.server.have_new_connection = false
  room : es.length ≤ σ.server.max_events
  once : (es.map EpollEvent.socket).Nodup
  registered : ∀ e ∈ es,
    (e = { socket := listener_socket_, EPOLLIN := true } ∧ σ.Pending) ∨
    (e.socket ∈ σ.opened ∧ e.EPOLLOUT = false)
  complete : σ.Pending → es.length < σ.server.max_events →
    listener_socket_ ∈ es.map EpollEvent.socket

inductive Step (σ : Listening) : Listening → Prop
  | connect (c : Nat) :
      Step σ { σ with
        backlog := σ.backlog ++ [c]
        arrived := σ.arrived ++ [c]
        signalled := true
        missed := false }
  | poll {es : List EpollEvent} (hes : σ.Polls es) :
      Step σ { σ with
        server := σ.server.pollEvents es
        signalled := σ.signalled && !decide (listener_socket_ ∈ es.map EpollEvent.socket) }
  | accept {c : Nat} {cs : List Nat} {fd socket : Nat} {configured added : Bool} {error : String}
      {server : TCPServer}
      (hloop : σ.server.have_new_connection = true) (hb : σ.backlog = c :: cs)
      (hlistener : socket ≠ listener_socket_) (hnew : socket ∉ σ.sockets)
      (hs : σ.server.accept fd socket configured added error = .ok server) :
      Step σ { σ with
        server := server
        backlog := cs
        opened := σ.opened ++ [socket]
        accepted := σ.accepted ++ [(c, socket)] }
  | acceptFails (hloop : σ.server.have_new_connection = true) :
      Step σ { σ with
        server := σ.server.acceptFailed
        missed := decide (σ.backlog ≠ []) && !σ.signalled }
  | close (socket : Nat) : Step σ { σ with opened := σ.opened.erase socket }

inductive Reachable : Listening → Prop
  | init : Reachable init
  | step {σ σ' : Listening} : Reachable σ → Step σ σ' → Reachable σ'

/-! ## Every state -/

/-- What holds in every reachable state. -/
structure Inv (σ : Listening) : Prop where
  receive : σ.server.receive_sockets_ = σ.sockets
  send : σ.server.send_sockets_ = []
  once : σ.sockets.Nodup
  listener : listener_socket_ ∉ σ.sockets
  opened : σ.opened ⊆ σ.sockets
  opened_once : σ.opened.Nodup
  arrived : σ.accepted.map Prod.fst ++ σ.backlog = σ.arrived
  waiting : σ.server.have_new_connection = false → σ.backlog ≠ [] →
    (σ.missed = true ↔ σ.signalled = false)

variable {σ σ' : Listening} {es : List EpollEvent}

theorem Inv.init : Inv init where
  receive := rfl
  send := rfl
  once := List.nodup_nil
  listener := List.not_mem_nil
  opened := List.nil_subset _
  opened_once := List.nodup_nil
  arrived := rfl
  waiting := fun _ h => absurd rfl h

/-- **An event of an open socket** is no news, and one of the listening socket starts
the accept loop. -/
theorem onEvent_eq {s : TCPServer} {e : EpollEvent}
    (h : e = { socket := listener_socket_, EPOLLIN := true } ∨
      (e.socket ≠ listener_socket_ ∧ e.socket ∈ s.receive_sockets_ ∧ e.EPOLLOUT = false)) :
    s.onEvent e = { s with
      have_new_connection :=
        s.have_new_connection || decide (e.socket = listener_socket_) } := by
  unfold TCPServer.onEvent
  rcases h with rfl | ⟨hne, hmem, hout⟩
  · simp
  · have hpush : pushNew s.receive_sockets_ e.socket = s.receive_sockets_ := if_pos hmem
    simp [hne, hout, hpush]

theorem pollEvents_eq {s : TCPServer}
    (h : ∀ e ∈ es, e = { socket := listener_socket_, EPOLLIN := true } ∨
      (e.socket ≠ listener_socket_ ∧ e.socket ∈ s.receive_sockets_ ∧ e.EPOLLOUT = false)) :
    s.pollEvents es = { s with
      have_new_connection := s.have_new_connection ||
        decide (listener_socket_ ∈ es.map EpollEvent.socket) } := by
  unfold TCPServer.pollEvents
  induction es generalizing s with
  | nil => simp
  | cons e es ih =>
    have hrest := ih (s := { s with
      have_new_connection := s.have_new_connection || decide (e.socket = listener_socket_) })
      fun e' he' => h e' (List.mem_cons_of_mem _ he')
    rw [List.foldl_cons, onEvent_eq (h e (List.mem_cons_self ..)), hrest, List.map_cons]
    simp only [Bool.or_assoc, List.mem_cons, Bool.decide_or, eq_comm]

/-- What `poll` makes of a report. -/
theorem Inv.pollEvents (h : Inv σ) (hes : σ.Polls es) :
    σ.server.pollEvents es = { σ.server with
      have_new_connection := decide (listener_socket_ ∈ es.map EpollEvent.socket) } := by
  rw [pollEvents_eq, hes.idle, Bool.false_or]
  intro e he
  refine (hes.registered e he).imp And.left fun ⟨hopen, hout⟩ => ?_
  have hmem := h.opened hopen
  refine ⟨fun heq => h.listener (heq ▸ hmem), ?_, hout⟩
  rw [h.receive]
  exact hmem

/-- A report without the listening socket is one of open sockets. -/
theorem Polls.length_le (hes : σ.Polls es)
    (hno : listener_socket_ ∉ es.map EpollEvent.socket) : es.length ≤ σ.opened.length := by
  have hsub : es.map EpollEvent.socket ⊆ σ.opened := by
    intro p hp
    obtain ⟨e, he, rfl⟩ := List.mem_map.mp hp
    rcases hes.registered e he with ⟨rfl, -⟩ | ⟨hopen, -⟩
    · exact absurd hp hno
    · exact hopen
  rw [← List.length_map EpollEvent.socket]
  exact List.Nodup.length_le_of_subset hes.once hsub

theorem Inv.max_events (h : Inv σ) : σ.server.max_events = 1 + σ.sockets.length := by
  unfold TCPServer.max_events
  rw [h.send, h.receive]
  rfl

/-- **There is room for every registered socket**, so the listening socket is never
left out. -/
theorem Inv.reports (h : Inv σ) (hes : σ.Polls es) (hpending : σ.Pending) :
    listener_socket_ ∈ es.map EpollEvent.socket := by
  by_contra hno
  have hlen := hes.length_le hno
  have hopen := List.Nodup.length_le_of_subset h.opened_once h.opened
  exact hno (hes.complete hpending (by rw [h.max_events]; omega))

/-- The listening socket is reported only for connections that wait. -/
theorem Polls.pending (hes : σ.Polls es) (h : Inv σ)
    (hin : listener_socket_ ∈ es.map EpollEvent.socket) : σ.Pending := by
  obtain ⟨e, he, heq⟩ := List.mem_map.mp hin
  rcases hes.registered e he with ⟨-, hpending⟩ | ⟨hopen, -⟩
  · exact hpending
  · exact absurd (h.opened hopen) (heq ▸ h.listener)

/-- A turn of the accept loop that does not end in a `FATAL`. -/
theorem accept_ok {s s' : TCPServer} {fd socket : Nat} {configured added : Bool} {error : String}
    (h : s.accept fd socket configured added error = .ok s') :
    s' = { s with receive_sockets_ := pushNew s.receive_sockets_ socket } := by
  unfold TCPServer.accept at h
  obtain ⟨-, -, h⟩ := exec_bind_ok h
  obtain ⟨-, -, h⟩ := exec_bind_ok h
  exact (Except.ok.inj h).symm

/-- **Every step keeps the invariant.** -/
theorem Inv.step (h : Inv σ) (hs : Step σ σ') : Inv σ' := by
  cases hs with
  | connect c =>
    exact { h with
      arrived := by rw [← List.append_assoc, h.arrived]
      waiting := fun _ _ => by simp }
  | @poll es hes =>
    rw [h.pollEvents hes]
    refine { h with waiting := fun hidle hb => ?_ }
    have hno : listener_socket_ ∉ es.map EpollEvent.socket := of_decide_eq_false hidle
    rw [decide_eq_false hno, Bool.not_false, Bool.and_true]
    exact h.waiting hes.idle hb
  | @accept c cs fd socket configured added error server hloop hb hlistener hnew hs =>
    obtain rfl := accept_ok hs
    have hpush : pushNew σ.server.receive_sockets_ socket = σ.sockets ++ [socket] := by
      rw [h.receive]
      exact if_neg hnew
    have hsockets : (σ.accepted ++ [(c, socket)]).map Prod.snd = σ.sockets ++ [socket] :=
      List.map_append ..
    have hopened : socket ∉ σ.opened := fun hin => hnew (h.opened hin)
    exact {
      receive := hpush.trans hsockets.symm
      send := h.send
      once := by
        show ((σ.accepted ++ [(c, socket)]).map Prod.snd).Nodup
        rw [hsockets]
        exact List.nodup_append_comm.mp (List.nodup_cons.mpr ⟨hnew, h.once⟩)
      listener := by
        show _ ∉ (σ.accepted ++ [(c, socket)]).map Prod.snd
        rw [hsockets, List.mem_append, List.mem_singleton, not_or]
        exact ⟨h.listener, Ne.symm hlistener⟩
      opened := by
        show _ ⊆ (σ.accepted ++ [(c, socket)]).map Prod.snd
        rw [hsockets]
        exact List.append_subset.mpr ⟨List.Subset.trans h.opened (List.subset_append_left ..),
          List.subset_append_right ..⟩
      opened_once := List.nodup_append_comm.mp (List.nodup_cons.mpr ⟨hopened, h.opened_once⟩)
      arrived := by
        rw [← h.arrived, hb, List.map_append, List.append_assoc]
        rfl
      waiting := fun hidle _ => absurd (hidle.symm.trans hloop) (by simp) }
  | acceptFails hloop =>
    exact { h with
      waiting := fun _ hb => by simp [hb] }
  | close socket =>
    exact { h with
      opened := List.Subset.trans (List.erase_subset ..) h.opened
      opened_once := h.opened_once.erase _ }

theorem Inv.reachable (h : Reachable σ) : Inv σ := by
  induction h with
  | init => exact .init
  | step _ hs ih => exact ih.step hs

/-! ## Who is served -/

/-- **Who waits is accepted by the next `poll`**, if no `accept` failed early since
the last arrival was reported. -/
theorem Inv.accepts_iff (h : Inv σ) (hes : σ.Polls es) (hb : σ.backlog ≠ []) :
    (σ.server.pollEvents es).have_new_connection = true ↔ σ.missed = false := by
  rw [h.pollEvents hes]
  have hwaiting := h.waiting hes.idle hb
  constructor
  · intro hin
    have hsig := (hes.pending h (of_decide_eq_true hin)).1
    by_contra hmissed
    rw [hwaiting.mp (by simpa using hmissed)] at hsig
    exact absurd hsig (by simp)
  · intro hmissed
    refine decide_eq_true (h.reports hes ⟨?_, hb⟩)
    by_contra hsig
    rw [hwaiting.mpr (by simpa using hsig)] at hmissed
    exact absurd hmissed (by simp)

/-- The largest report. -/
theorem Inv.polls_all (h : Inv σ) (hidle : σ.server.have_new_connection = false) :
    ∃ es, σ.Polls es ∧ es.length = σ.opened.length + if σ.Pending then 1 else 0 := by
  have hopen := List.Nodup.length_le_of_subset h.opened_once h.opened
  have hin : ∀ p ∈ σ.opened, p ≠ listener_socket_ := fun p hp he =>
    h.listener (he ▸ h.opened hp)
  let rest : List EpollEvent := σ.opened.map fun p => { socket := p, EPOLLIN := true }
  have hrest : rest.map EpollEvent.socket = σ.opened := by
    rw [List.map_map]
    exact List.map_id _
  have hopened : ∀ e ∈ rest, e.socket ∈ σ.opened ∧ e.EPOLLOUT = false := by
    intro e he
    obtain ⟨p, hp, rfl⟩ := List.mem_map.mp he
    exact ⟨hp, rfl⟩
  have hlen : rest.length = σ.opened.length := List.length_map _
  by_cases hpending : σ.Pending
  · refine ⟨{ socket := listener_socket_, EPOLLIN := true } :: rest,
      ⟨hidle, ?_, ?_, fun e he => ?_, fun _ _ => List.mem_cons_self ..⟩, ?_⟩
    · rw [h.max_events, List.length_cons]
      omega
    · rw [List.map_cons, hrest]
      exact List.nodup_cons.mpr ⟨fun hl => hin _ hl rfl, h.opened_once⟩
    · rcases List.mem_cons.mp he with rfl | he
      · exact .inl ⟨rfl, hpending⟩
      · exact .inr (hopened e he)
    · rw [List.length_cons, hlen, if_pos hpending]
  · refine ⟨rest, ⟨hidle, ?_, ?_, fun e he => .inr (hopened e he), fun hp => ?_⟩, ?_⟩
    · rw [h.max_events]
      omega
    · rw [hrest]
      exact h.opened_once
    · exact absurd hp hpending
    · rw [hlen, if_neg hpending]
      rfl

/-- `epoll_wait` stays inside `events_` exactly when what is registered and has
something to report fits. -/
theorem Inv.fits_iff (h : Inv σ) (hidle : σ.server.have_new_connection = false) :
    (∀ es, σ.Polls es → es.length ≤ MaxEvents) ↔
      (σ.opened.length + if σ.Pending then 1 else 0) ≤ MaxEvents := by
  constructor
  · intro hall
    obtain ⟨es, hes, hlen⟩ := h.polls_all hidle
    exact hlen ▸ hall es hes
  · intro hroom es hes
    by_cases hin : listener_socket_ ∈ es.map EpollEvent.socket
    · rw [if_pos (hes.pending h hin)] at hroom
      have hsub : es.map EpollEvent.socket ⊆ listener_socket_ :: σ.opened := by
        intro p hp
        obtain ⟨e, he, rfl⟩ := List.mem_map.mp hp
        rcases hes.registered e he with ⟨rfl, -⟩ | ⟨hopen, -⟩
        · exact List.mem_cons_self ..
        · exact List.mem_cons_of_mem _ hopen
      have hle := List.Nodup.length_le_of_subset hes.once hsub
      rw [List.length_map, List.length_cons] at hle
      omega
    · exact (hes.length_le hin).trans (by omega)

/-- A round decodes what there is on each socket, once. -/
theorem burst_drains {l : List Nat} (hl : l.Nodup) (reads : Nat → List Read)
    (sockets : Nat → TCPSocket) :
    burst sockets (l.map fun p => ⟨p, reads p⟩) =
      l.flatMap fun p => arrivals p (sockets p) (reads p) := by
  induction l generalizing sockets with
  | nil => rfl
  | cons p l ih =>
    obtain ⟨hp, hl⟩ := List.nodup_cons.mp hl
    rw [List.map_cons, burst, ih hl, List.flatMap_cons]
    refine congrArg (_ ++ ·) (List.flatMap_congr fun p' hp' => ?_)
    have hne : p' ≠ p := by
      rintro rfl
      exact hp hp'
    rw [Function.update_of_ne hne]

/-- **Every connection is served.** In every reachable state the server has each
accepted connection once, in the order of arrival, and the others wait in this order;
`send_sockets_` is empty; a round decodes what each connection has sent, once; if
somebody waits, the next `poll` goes on to accept, whatever else is reported, exactly
when no `accept` failed early since the last arrival was reported; and `epoll_wait` stays
inside `events_` exactly when the open sockets fit, with the listening one if that has an
arrival to report. -/
theorem connections_served (h : Reachable σ) :
    σ.server.receive_sockets_ = σ.accepted.map Prod.snd ∧
    (σ.accepted.map Prod.snd).Nodup ∧
    σ.server.send_sockets_ = [] ∧
    σ.accepted.map Prod.fst ++ σ.backlog = σ.arrived ∧
    (∀ reads sockets, burst sockets (σ.server.drains reads) =
      σ.accepted.flatMap fun a => arrivals a.2 (sockets a.2) (reads a.2)) ∧
    (∀ es, σ.Polls es → σ.backlog ≠ [] →
      ((σ.server.pollEvents es).have_new_connection = true ↔ σ.missed = false)) ∧
    (σ.server.have_new_connection = false →
      ((∀ es, σ.Polls es → es.length ≤ MaxEvents) ↔
        (σ.opened.length + if σ.Pending then 1 else 0) ≤ MaxEvents)) := by
  have hinv := Inv.reachable h
  refine ⟨hinv.receive, hinv.once, hinv.send, hinv.arrived, fun reads sockets => ?_,
    fun es hes hb => hinv.accepts_iff hes hb, hinv.fits_iff⟩
  unfold TCPServer.drains
  rw [hinv.receive, burst_drains hinv.once]
  unfold Listening.sockets
  rw [List.flatMap_map]

/-- Two clients connect, and `accept` fails after the first. The second waits until a
third one comes, and then no longer. -/
theorem connections_served_late :
    ∃ σ : Listening, Reachable σ ∧ σ.server.receive_sockets_ = [1] ∧ σ.backlog = [8] ∧
      (∀ es, σ.Polls es → (σ.server.pollEvents es).have_new_connection = false) ∧
      ∃ σ', Step σ σ' ∧ σ'.backlog = [8, 9] ∧
        ∀ es, σ'.Polls es → (σ'.server.pollEvents es).have_new_connection = true := by
  have hpolls : Polls
      { init with backlog := [7, 8], arrived := [7, 8], signalled := true }
      [{ socket := listener_socket_, EPOLLIN := true }] :=
    ⟨rfl, by decide, by decide, fun e he => .inl ⟨List.mem_singleton.mp he, rfl, by simp⟩,
      fun _ _ => by decide⟩
  have h : Reachable ⟨⟨[1], [], false⟩, [8], false, [1], [7, 8], [(7, 1)], true⟩ :=
    .step (.step (.step (.step (.step .init (.connect 7)) (.connect 8)) (.poll hpolls))
      (@Step.accept _ 7 [8] 5 1 true true "" _ rfl rfl (by decide) (by decide) rfl))
      (.acceptFails rfl)
  refine ⟨_, h, rfl, rfl, fun es hes => ?_, _, .connect 9, rfl, fun es hes => ?_⟩
  · have hserved := (connections_served h).2.2.2.2.2.1 es hes (by simp)
    exact Bool.eq_false_iff.mpr fun hnew => absurd (hserved.mp hnew) (by simp)
  · exact ((connections_served (h.step (.connect 9))).2.2.2.2.2.1 es hes (by simp)).mpr rfl

end Listening

end LowLatency
