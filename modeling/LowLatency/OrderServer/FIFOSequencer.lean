import LowLatency.Common.Types
import LowLatency.Lib.SortContract

/-!
# `FIFOSequencer`

`src/exchange/order_server/fifo_sequencer.h`. Requests are collected during a
receive round with the time their bytes were read and written to the matching
engine's queue at its end, in ascending order of that time. The array
`pending_client_requests_` is the list of its first `pending_size_` entries.

`std::sort` is unstable, and `RecvTimeClientRequest::operator<` looks at the
receive time only. All that can be said about what is published is that it is
*some* permitted outcome, so `SequenceAndPublish` is a relation.
`sequenceAndPublish_keeps_iff` states exactly when every outcome keeps the order
in which one client's requests were added.
-/

namespace LowLatency

/-- Maximum number of unprocessed client requests across all TCP connections. -/
def ME_MAX_PENDING_REQUESTS : Nat := 1024

structure RecvTimeClientRequest where
  recv_time_ : Int := 0
  request_ : MEClientRequest := {}
deriving DecidableEq, Repr

structure FIFOSequencer where
  pending_client_requests_ : List RecvTimeClientRequest
  /-- what has been written to the queue of the matching engine -/
  incoming_requests_ : List MEClientRequest

namespace FIFOSequencer

def init : FIFOSequencer := ⟨[], []⟩

def addClientRequest (s : FIFOSequencer) (rx_time : Int) (request : MEClientRequest) :
    Exec FIFOSequencer :=
  if s.pending_client_requests_.length ≥ ME_MAX_PENDING_REQUESTS then
    .error (.assertion "Too many pending requests")
  else
    .ok { s with
      pending_client_requests_ := s.pending_client_requests_ ++ [⟨rx_time, request⟩] }

/-- `s'` is what `sequenceAndPublish` may leave: the pending requests, sorted by
`operator<`, have been written to the queue. -/
def SequenceAndPublish (s s' : FIFOSequencer) : Prop :=
  ∃ sorted, Lib.SortedBy RecvTimeClientRequest.recv_time_ sorted s.pending_client_requests_ ∧
    s' = ⟨[], s.incoming_requests_ ++ sorted.map RecvTimeClientRequest.request_⟩

end FIFOSequencer

/-- The requests of one client among those in a list. -/
def requestsOf (client_id : Nat) (rs : List MEClientRequest) : List MEClientRequest :=
  rs.filter fun r => decide (r.client_id_ = client_id)

@[simp] theorem requestsOf_append (client_id : Nat) (rs rs' : List MEClientRequest) :
    requestsOf client_id (rs ++ rs') = requestsOf client_id rs ++ requestsOf client_id rs' :=
  List.filter_append ..

/-- Is a pending request one of this client? -/
def RecvTimeClientRequest.isOf (client_id : Nat) (r : RecvTimeClientRequest) : Bool :=
  decide (r.request_.client_id_ = client_id)

theorem requestsOf_map (client_id : Nat) (l : List RecvTimeClientRequest) :
    requestsOf client_id (l.map RecvTimeClientRequest.request_) =
      (l.filter (·.isOf client_id)).map RecvTimeClientRequest.request_ :=
  List.filter_map ..

/-- No two different requests of one client were received at the same time. -/
def NoTies (pending : List RecvTimeClientRequest) : Prop :=
  ∀ a ∈ pending, ∀ b ∈ pending, a.request_.client_id_ = b.request_.client_id_ →
    a.recv_time_ = b.recv_time_ → a.request_ = b.request_

/-- Each client's requests were added in the order of their receive times. -/
def InTime (pending : List RecvTimeClientRequest) : Prop :=
  ∀ c, (pending.filter (·.isOf c)).Pairwise fun a b => ¬ b.recv_time_ < a.recv_time_

/-- Requests with their times are determined by the times and the requests. -/
theorem recvTime_ext {l l' : List RecvTimeClientRequest}
    (htime : l.map RecvTimeClientRequest.recv_time_ = l'.map RecvTimeClientRequest.recv_time_)
    (hreq : l.map RecvTimeClientRequest.request_ = l'.map RecvTimeClientRequest.request_) :
    l = l' := by
  induction l generalizing l' with
  | nil => exact (List.map_eq_nil_iff.mp htime.symm).symm
  | cons a l ih =>
    cases l' with
    | nil => exact absurd htime (by simp)
    | cons b l' =>
      simp only [List.map_cons, List.cons.injEq] at htime hreq
      obtain ⟨ta, ra⟩ := a
      obtain ⟨tb, rb⟩ := b
      obtain ⟨rfl, ht⟩ := htime
      obtain ⟨rfl, hr⟩ := hreq
      rw [ih ht hr]

/-- Without ties every outcome keeps each client's order. -/
theorem keeps_of_noTies {pending sorted : List RecvTimeClientRequest} (hin : InTime pending)
    (hties : NoTies pending) (hs : Lib.SortedBy RecvTimeClientRequest.recv_time_ sorted pending)
    (c : Nat) :
    requestsOf c (sorted.map RecvTimeClientRequest.request_) =
      requestsOf c (pending.map RecvTimeClientRequest.request_) := by
  rw [requestsOf_map, requestsOf_map, hs.filter_eq (hin c) ?_]
  intro a ha b hb hca hcb htime
  have hc : a.request_.client_id_ = b.request_.client_id_ :=
    (of_decide_eq_true hca).trans (of_decide_eq_true hcb).symm
  obtain ⟨ta, ra⟩ := a
  obtain ⟨tb, rb⟩ := b
  exact congrArg₂ RecvTimeClientRequest.mk htime (hties _ ha _ hb hc htime)

/-- With a tie, some outcome does not. -/
theorem exists_not_keeps {pending : List RecvTimeClientRequest} (hin : InTime pending)
    (hties : ¬ NoTies pending) :
    ∃ sorted, Lib.SortedBy RecvTimeClientRequest.recv_time_ sorted pending ∧
      ∃ c, requestsOf c (sorted.map RecvTimeClientRequest.request_) ≠
        requestsOf c (pending.map RecvTimeClientRequest.request_) := by
  unfold NoTies at hties
  push Not at hties
  obtain ⟨a, ha, b, hb, hc, htime, hne⟩ := hties
  -- the requests of that client received at that time, in another order
  let p : RecvTimeClientRequest → Bool := fun r =>
    r.isOf a.request_.client_id_ && decide (r.recv_time_ = a.recv_time_)
  have hpa : p a = true := by simp [p, RecvTimeClientRequest.isOf]
  have hpb : p b = true := by simp [p, RecvTimeClientRequest.isOf, hc, htime]
  obtain ⟨m, hperm, hm⟩ := Lib.exists_perm_ne (List.mem_filter.mpr ⟨ha, hpa⟩)
    (List.mem_filter.mpr ⟨hb, hpb⟩) (fun h => hne (congrArg _ h))
  have hkey : ∀ x ∈ pending, ∀ y ∈ pending, p x → p y → x.recv_time_ = y.recv_time_ := by
    intro x _ y _ hx hy
    simp only [p, Bool.and_eq_true, decide_eq_true_eq] at hx hy
    rw [hx.2, hy.2]
  obtain ⟨sorted, hsort, hfilter⟩ := Lib.exists_sortedBy_filter hperm hkey
  refine ⟨sorted, hsort, a.request_.client_id_, ?_⟩
  -- if the requests came out in the same order, their times would too
  intro heq
  rw [requestsOf_map, requestsOf_map] at heq
  have htimes := Lib.keys_eq (hsort.perm.filter (·.isOf a.request_.client_id_))
    (hsort.sorted.filter _) (hin a.request_.client_id_)
  have hsame := recvTime_ext htimes heq
  apply hm
  have hsplit : ∀ l : List RecvTimeClientRequest, l.filter p =
      (l.filter (·.isOf a.request_.client_id_)).filter
        fun r => decide (r.recv_time_ = a.recv_time_) := by
    intro l
    rw [List.filter_filter]
    refine List.filter_congr ?_
    intro r _
    exact Bool.and_comm ..
  rw [← hfilter, hsplit, hsplit, hsame]

/-- **Which batches are published in order**: every outcome of the sort keeps
the order of each client's requests exactly when no two different requests of
one client have the same receive time. -/
theorem sequenceAndPublish_keeps_iff {pending : List RecvTimeClientRequest}
    (hin : InTime pending) :
    (∀ sorted, Lib.SortedBy RecvTimeClientRequest.recv_time_ sorted pending →
      ∀ c, requestsOf c (sorted.map RecvTimeClientRequest.request_) =
        requestsOf c (pending.map RecvTimeClientRequest.request_)) ↔ NoTies pending := by
  constructor
  · intro h
    by_contra hties
    obtain ⟨sorted, hsort, c, hc⟩ := exists_not_keeps hin hties
    exact hc (h sorted hsort c)
  · intro hties sorted hsort c
    exact keeps_of_noTies hin hties hsort c

end LowLatency
