import LowLatency.Common.Wire
import LowLatency.MarketData.MarketDataConsumer
import Mathlib.Data.List.Chain

/-!
# What the consumer passes on

`checkSnapshotSync` runs after every message of a recovery, on two queues that any
history of failed attempts may have left behind. This file says what it passes on
when it succeeds, and that nothing else is passed on but increments in sequence,
for every list of datagrams on the two streams, whatever is in them.

Since nothing is assumed of the messages, the numbers are counted as `size_t` here.
`MarketDataConsumer.lean` counts them as natural numbers, for publishers that
never get that far; the two agree below the largest number
(`checkSnapshotSync64_eq`).

A run is accounted for by its `Act`s: the increments that `recvCallback` writes
itself, and the calls of `checkSnapshotSync` with the state each call finds. A call
that succeeds is `GapFree`, one that fails writes nothing, and an increment that
is written carries the number that the act before it leaves
(**`recovered_streams_gap_free`**).

The first number looked for behind a snapshot is `END.order_id_ + 1` in `size_t`.
For the one END that carries `OrderId_INVALID` this is 0 (`recovery_from_zero`).
-/

namespace LowLatency

/-! ## Counting in `size_t` -/

/-- The loop over the increments. -/
def QueuedMarketUpdates.applicable64 :
    Nat → QueuedMarketUpdates → Nat × Option (List MEMarketUpdate)
  | next_exp, [] => (next_exp, some [])
  | next_exp, (i, u) :: q =>
    if i < next_exp then applicable64 next_exp q
    else if i ≠ next_exp then (next_exp, none)
    else ((applicable64 (nextSeqNum next_exp) q).1,
      (applicable64 (nextSeqNum next_exp) q).2.map (u :: ·))

namespace MarketDataConsumer

/-- Check if a recovery is possible from the queued up market data updates. -/
def checkSnapshotSync64 (c : MarketDataConsumer) : MarketDataConsumer :=
  match c.snapshot_queued_msgs_.head?, c.snapshot_queued_msgs_.getLast? with
  | some first_snapshot_msg, some last_snapshot_msg =>
    if first_snapshot_msg.2.type_ ≠ .SNAPSHOT_START then { c with snapshot_queued_msgs_ := [] }
    else if ¬ c.snapshot_queued_msgs_.complete 0 then { c with snapshot_queued_msgs_ := [] }
    else if last_snapshot_msg.2.type_ ≠ .SNAPSHOT_END then c
    else
      let (next_exp, incrementals) :=
        c.incremental_queued_msgs_.applicable64 (nextSeqNum last_snapshot_msg.2.order_id_)
      match incrementals with
      | none => { c with next_exp_inc_seq_num_ := next_exp, snapshot_queued_msgs_ := [] }
      | some us =>
        { next_exp_inc_seq_num_ := next_exp
          in_recovery_ := false
          snapshot_queued_msgs_ := []
          incremental_queued_msgs_ := []
          incoming_md_updates_ := c.incoming_md_updates_ ++
            finalEvents (c.snapshot_queued_msgs_.updates ++ us) }
  | _, _ => c

/-- The first half of `queueMessage`. -/
def queue (c : MarketDataConsumer) (is_snapshot : Bool) (request : MDPMarketUpdate) :
    MarketDataConsumer :=
  if is_snapshot then
    let queued : QueuedMarketUpdates :=
      if request.seq_num_ ∈ c.snapshot_queued_msgs_.map Prod.fst then []
      else c.snapshot_queued_msgs_
    { c with snapshot_queued_msgs_ := queued.assign request.seq_num_ request.me_market_update_ }
  else
    { c with
      incremental_queued_msgs_ :=
        c.incremental_queued_msgs_.assign request.seq_num_ request.me_market_update_ }

/-- Queue up a message and check if the recovery can be completed. -/
def queueMessage64 (c : MarketDataConsumer) (is_snapshot : Bool) (request : MDPMarketUpdate) :
    MarketDataConsumer :=
  (c.queue is_snapshot request).checkSnapshotSync64

/-- The body of the loop of `recvCallback`. -/
def recvMessage64 (is_snapshot : Bool) (c : MarketDataConsumer) (request : MDPMarketUpdate) :
    MarketDataConsumer :=
  if c.in_recovery_ then c.queueMessage64 is_snapshot request
  else if request.seq_num_ ≠ c.next_exp_inc_seq_num_ then
    { c.startSnapshotSync with in_recovery_ := true }.queueMessage64 is_snapshot request
  else if is_snapshot then c
  else
    { c with
      next_exp_inc_seq_num_ := nextSeqNum c.next_exp_inc_seq_num_
      incoming_md_updates_ := c.incoming_md_updates_ ++ [request.me_market_update_] }

/-- Process a datagram from either stream. -/
def recvCallback64 (c : MarketDataConsumer) (is_snapshot : Bool)
    (requests : List MDPMarketUpdate) : MarketDataConsumer :=
  if is_snapshot && !c.in_recovery_ then c
  else requests.foldl (recvMessage64 is_snapshot) c

/-- Datagrams in a row, each with the stream it is of (`true` for snapshots). -/
def deliver (c : MarketDataConsumer) (ds : List (Bool × List MDPMarketUpdate)) :
    MarketDataConsumer :=
  ds.foldl (fun c d => c.recvCallback64 d.1 d.2) c

end MarketDataConsumer

namespace QueuedMarketUpdates

/-- Below the largest number both ways of counting agree. -/
theorem applicable64_eq {q : QueuedMarketUpdates} (hq : ∀ p ∈ q, p.1 + 1 < 2 ^ 64) (n : Nat) :
    q.applicable64 n = q.applicable n := by
  induction q generalizing n with
  | nil => rfl
  | cons x q ih =>
    have hq' := fun p hp => hq p (List.mem_cons_of_mem x hp)
    unfold applicable64 applicable
    split
    · exact ih hq' n
    split
    · rfl
    next he =>
      have hx := hq x (List.mem_cons_self ..)
      have hn : nextSeqNum n = n + 1 := by
        rw [← not_not.mp he]
        exact Nat.mod_eq_of_lt hx
      rw [hn, ih hq']

/-- Ascending numbers, each once. -/
def Ascending (q : QueuedMarketUpdates) : Prop := q.Pairwise fun p p' => p.1 < p'.1

/-- **A `std::map` stays sorted.** -/
theorem Ascending.assign {q : QueuedMarketUpdates} (h : Ascending q) (seq_num : Nat)
    (update : MEMarketUpdate) : Ascending (q.assign seq_num update) := by
  unfold Ascending at h ⊢
  induction q with
  | nil => exact List.pairwise_singleton ..
  | cons x q ih =>
    obtain ⟨hx, hq⟩ := List.pairwise_cons.mp h
    unfold QueuedMarketUpdates.assign
    split
    next hlt =>
      refine List.pairwise_cons.mpr ⟨?_, h⟩
      intro p hp
      rcases List.mem_cons.mp hp with rfl | hp
      · exact hlt
      · exact Nat.lt_trans hlt (hx p hp)
    next hge =>
      split
      next he =>
        refine List.pairwise_cons.mpr ⟨?_, hq⟩
        intro p hp
        rw [he]
        exact hx p hp
      next hne =>
        refine List.pairwise_cons.mpr ⟨?_, ih hq⟩
        intro p hp
        rcases mem_assign hp with rfl | hp
        · show x.1 < seq_num
          omega
        · exact hx p hp

/-- The queued messages from number `n` on. -/
def onward (n : Nat) (q : QueuedMarketUpdates) : QueuedMarketUpdates :=
  q.filter fun p => decide (n ≤ p.1)

theorem onward_cons_of_lt {n : Nat} {x : Nat × MEMarketUpdate} (h : x.1 < n)
    (q : QueuedMarketUpdates) : onward n (x :: q) = onward n q :=
  List.filter_cons_of_neg (by rw [decide_eq_true_eq]; omega)

theorem onward_cons_of_ge {n : Nat} {x : Nat × MEMarketUpdate} (h : n ≤ x.1)
    (q : QueuedMarketUpdates) : onward n (x :: q) = x :: onward n q :=
  List.filter_cons_of_pos (decide_eq_true h)

/-- **The increments that are applied** are all those from the number given on,
and they are consecutive. -/
theorem applicable64_some {q : QueuedMarketUpdates} (h : Ascending q)
    (hq : ∀ p ∈ q, p.1 < 2 ^ 64) {n n' : Nat} (hn : n < 2 ^ 64) {us : List MEMarketUpdate}
    (hrun : q.applicable64 n = (n', some us)) :
    (onward n q).map Prod.fst = List.range' n (onward n q).length ∧ us = (onward n q).updates ∧
      n' = wrap64 (n + (onward n q).length) := by
  induction q generalizing n us with
  | nil =>
    obtain ⟨rfl, rfl⟩ : n = n' ∧ [] = us := by simpa [applicable64] using hrun
    exact ⟨rfl, rfl, (Nat.mod_eq_of_lt hn).symm⟩
  | cons x q ih =>
    obtain ⟨hx, hasc⟩ := List.pairwise_cons.mp h
    have hq' := fun p hp => hq p (List.mem_cons_of_mem x hp)
    unfold applicable64 at hrun
    split at hrun
    next hlt =>
      rw [onward_cons_of_lt hlt]
      exact ih hasc hq' hn hrun
    next hge =>
    split at hrun
    · exact absurd hrun (by simp)
    next he =>
      have hxn : x.1 = n := not_not.mp he
      obtain ⟨h₁, h₂⟩ := Prod.mk.inj hrun
      obtain ⟨ws, hws, rfl⟩ := Option.map_eq_some_iff.mp h₂
      obtain ⟨hnum, hupd, hnext⟩ := ih hasc hq' (nextSeqNum_lt n) (Prod.ext h₁ hws)
      -- behind the largest number there is nothing left that could be counted twice
      have hsame : onward (nextSeqNum n) q = onward n q ∧
          (onward n q ≠ [] → nextSeqNum n = n + 1) := by
        by_cases hmax : n + 1 < 2 ^ 64
        · have hsucc : nextSeqNum n = n + 1 := Nat.mod_eq_of_lt hmax
          refine ⟨?_, fun _ => hsucc⟩
          rw [hsucc]
          refine List.filter_congr fun p hp => ?_
          have := hx p hp
          rw [decide_eq_decide]
          omega
        · have hnil : q = [] := by
            refine List.eq_nil_iff_forall_not_mem.mpr fun p hp => ?_
            have := hx p hp
            have := hq' p hp
            omega
          rw [hnil]
          exact ⟨rfl, fun hne => absurd rfl hne⟩
      rw [hsame.1] at hnum hupd hnext
      rw [onward_cons_of_ge (Nat.le_of_eq hxn.symm), List.map_cons, List.length_cons,
        List.range'_succ, hxn]
      refine ⟨?_, ?_, ?_⟩
      · cases hl : onward n q with
        | nil => rfl
        | cons p ps =>
          rw [← hl, hnum, hsame.2 (by rw [hl]; exact List.cons_ne_nil _ _)]
      · rw [hupd]
        rfl
      · rw [hnext]
        unfold nextSeqNum wrap64
        omega

end QueuedMarketUpdates

/-! ## What a call of `checkSnapshotSync` does -/

namespace MarketDataConsumer

open QueuedMarketUpdates (Ascending onward)

/-- The last message of the snapshot queue. -/
def endMsg (q : MarketDataConsumer) : MEMarketUpdate :=
  (q.snapshot_queued_msgs_.getLast?.map Prod.snd).getD {}

/-- The queued increments that come after the snapshot. -/
def fresh (q : MarketDataConsumer) : QueuedMarketUpdates :=
  q.incremental_queued_msgs_.onward (nextSeqNum q.endMsg.order_id_)

/-- `checkSnapshotSync`, called in state `q`, passes on a snapshot from START to
END and everything queued that comes after it, with no gap. -/
structure GapFree (q : MarketDataConsumer) : Prop where
  numbers : q.snapshot_queued_msgs_.map Prod.fst = List.range q.snapshot_queued_msgs_.length
  first : ∃ u, q.snapshot_queued_msgs_.head? = some (0, u) ∧ u.type_ = .SNAPSHOT_START
  last : ∃ i, q.snapshot_queued_msgs_.getLast? = some (i, q.endMsg) ∧
    q.endMsg.type_ = .SNAPSHOT_END
  consecutive : q.fresh.map Prod.fst =
    List.range' (nextSeqNum q.endMsg.order_id_) q.fresh.length
  written : q.checkSnapshotSync64.incoming_md_updates_ = q.incoming_md_updates_ ++
    finalEvents (q.snapshot_queued_msgs_.updates ++ q.fresh.updates)
  next_exp : q.checkSnapshotSync64.next_exp_inc_seq_num_ =
    wrap64 (nextSeqNum q.endMsg.order_id_ + q.fresh.length)

/-- The queues are maps with numbers in `size_t`. -/
structure Queues (c : MarketDataConsumer) : Prop where
  ascending : Ascending c.incremental_queued_msgs_
  range : ∀ p ∈ c.incremental_queued_msgs_, p.1 < 2 ^ 64

/-- **A call** fails and leaves all but the snapshot queue and the number
expected as they were, or it succeeds and is free of gaps. -/
theorem checkSnapshotSync64_cases {q : MarketDataConsumer} (h : Queues q)
    (hrec : q.in_recovery_ = true) :
    (q.checkSnapshotSync64.in_recovery_ = true ∧
      q.checkSnapshotSync64.incremental_queued_msgs_ = q.incremental_queued_msgs_ ∧
      q.checkSnapshotSync64.incoming_md_updates_ = q.incoming_md_updates_) ∨
    (q.checkSnapshotSync64.in_recovery_ = false ∧
      q.checkSnapshotSync64.incremental_queued_msgs_ = [] ∧ GapFree q) := by
  cases hq : q.snapshot_queued_msgs_ with
  | nil =>
    have he : q.checkSnapshotSync64 = q := by simp [checkSnapshotSync64, hq]
    rw [he]
    exact Or.inl ⟨hrec, rfl, rfl⟩
  | cons p ps =>
    have hhead : q.snapshot_queued_msgs_.head? = some p := by rw [hq]; rfl
    obtain ⟨x, hlast⟩ : ∃ x, q.snapshot_queued_msgs_.getLast? = some x :=
      ⟨_, by rw [hq]; exact List.getLast?_eq_some_getLast (List.cons_ne_nil _ _)⟩
    have hx : q.endMsg = x.2 := by
      unfold endMsg
      rw [hlast]
      rfl
    have hrun := checkSnapshotSync64.eq_1 q
    simp only [hhead, hlast] at hrun
    -- each of the checks before the increments leaves with the queues as they are
    by_cases hstart : p.2.type_ ≠ .SNAPSHOT_START
    · rw [if_pos hstart] at hrun
      rw [hrun]
      exact Or.inl ⟨hrec, rfl, rfl⟩
    rw [if_neg hstart] at hrun
    by_cases hcomplete : ¬ q.snapshot_queued_msgs_.complete 0 = true
    · rw [if_pos hcomplete] at hrun
      rw [hrun]
      exact Or.inl ⟨hrec, rfl, rfl⟩
    rw [if_neg hcomplete] at hrun
    by_cases hend : x.2.type_ ≠ .SNAPSHOT_END
    · rw [if_pos hend] at hrun
      rw [hrun]
      exact Or.inl ⟨hrec, rfl, rfl⟩
    rw [if_neg hend] at hrun
    obtain ⟨n', us?, happ⟩ : ∃ n' us?, q.incremental_queued_msgs_.applicable64
        (nextSeqNum x.2.order_id_) = (n', us?) := ⟨_, _, rfl⟩
    rw [happ] at hrun
    -- the increments have a gap, or they go on to the end of the queue
    cases us? with
    | none =>
      rw [hrun]
      exact Or.inl ⟨hrec, rfl, rfl⟩
    | some us =>
      obtain ⟨hnum, rfl, hnext⟩ := QueuedMarketUpdates.applicable64_some h.ascending h.range
        (nextSeqNum_lt _) happ
      have hnumbers := QueuedMarketUpdates.complete_iff.mp (not_not.mp hcomplete)
      have hzero : p.1 = 0 := by
        rw [hq] at hnumbers
        exact (List.cons.inj hnumbers).1
      have hfresh : q.fresh = q.incremental_queued_msgs_.onward (nextSeqNum x.2.order_id_) := by
        unfold fresh
        rw [hx]
      refine Or.inr ⟨by rw [hrun], by rw [hrun], ?_, ⟨p.2, ?_, not_not.mp hstart⟩,
        ⟨x.1, by rw [hlast, hx], by rw [hx]; exact not_not.mp hend⟩, ?_, ?_, ?_⟩
      · rw [hnumbers, List.range_eq_range']
      · rw [hhead, ← hzero]
      · rw [hfresh, hx]
        exact hnum
      · rw [hrun, hfresh]
      · rw [hrun, hfresh, hx]
        exact hnext

/-- Below the largest number a call does what it does on natural numbers. -/
theorem checkSnapshotSync64_eq {q : MarketDataConsumer}
    (hq : ∀ p ∈ q.incremental_queued_msgs_, p.1 + 1 < 2 ^ 64)
    (hend : q.endMsg.order_id_ + 1 < 2 ^ 64) : q.checkSnapshotSync64 = q.checkSnapshotSync := by
  unfold checkSnapshotSync64 checkSnapshotSync
  cases hhead : q.snapshot_queued_msgs_.head? with
  | none => rfl
  | some p =>
    cases hlast : q.snapshot_queued_msgs_.getLast? with
    | none => rfl
    | some x =>
      have hx : q.endMsg = x.2 := by
        unfold endMsg
        rw [hlast]
        rfl
      have hnext : nextSeqNum x.2.order_id_ = x.2.order_id_ + 1 := by
        rw [← hx]
        exact Nat.mod_eq_of_lt hend
      obtain ⟨n, us, happ⟩ : ∃ n us, q.incremental_queued_msgs_.applicable
          (x.2.order_id_ + 1) = (n, us) := ⟨_, _, rfl⟩
      have happ64 : q.incremental_queued_msgs_.applicable64 (nextSeqNum x.2.order_id_) = (n, us) := by
        rw [hnext, QueuedMarketUpdates.applicable64_eq hq, happ]
      cases us with
      | none => simp only [happ, happ64]
      | some us => simp only [happ, happ64]

/-! ## A run -/

/-- What a message makes the consumer do. -/
inductive Act
  /-- `recvCallback` writes an increment -/
  | incremental (request : MDPMarketUpdate)
  /-- `checkSnapshotSync` is called -/
  | check (q : MarketDataConsumer)
deriving DecidableEq

/-- The updates that are written. -/
def Act.events : Act → List MEMarketUpdate
  | .incremental m => [m.me_market_update_]
  | .check q =>
    if q.checkSnapshotSync64.in_recovery_ then []
    else finalEvents (q.snapshot_queued_msgs_.updates ++ q.fresh.updates)

/-- The number of the increment expected afterwards. -/
def Act.next : Act → Nat
  | .incremental m => nextSeqNum m.seq_num_
  | .check q => q.checkSnapshotSync64.next_exp_inc_seq_num_

/-- The consumer is not in recovery afterwards. -/
def Act.Synced : Act → Prop
  | .incremental _ => True
  | .check q => q.checkSnapshotSync64.in_recovery_ = false

/-- A call of `checkSnapshotSync` that succeeds passes on a stream with no gap, and
one that does not writes nothing. -/
def Act.Sound : Act → Prop
  | .incremental _ => True
  | .check q => (q.checkSnapshotSync64.in_recovery_ = false → GapFree q) ∧
      (q.checkSnapshotSync64.in_recovery_ = true →
        q.checkSnapshotSync64.incoming_md_updates_ = q.incoming_md_updates_)

/-- An increment is written only when the act before it has left the consumer in
sync, and carries the next number. -/
def Act.Before (a b : Act) : Prop :=
  ∀ m, b = .incremental m → a.Synced ∧ m.seq_num_ = a.next

/-- What message `m` makes the consumer do. -/
def acts (is_snapshot : Bool) (c : MarketDataConsumer) (m : MDPMarketUpdate) : List Act :=
  if c.in_recovery_ then [.check (c.queue is_snapshot m)]
  else if m.seq_num_ ≠ c.next_exp_inc_seq_num_ then
    [.check ({ c.startSnapshotSync with in_recovery_ := true }.queue is_snapshot m)]
  else if is_snapshot then []
  else [.incremental m]

/-- Along the messages of a datagram. -/
def actsAlong (is_snapshot : Bool) : MarketDataConsumer → List MDPMarketUpdate → List Act
  | _, [] => []
  | c, m :: ms =>
    acts is_snapshot c m ++ actsAlong is_snapshot (recvMessage64 is_snapshot c m) ms

/-- Along datagrams. -/
def actsOf : MarketDataConsumer → List (Bool × List MDPMarketUpdate) → List Act
  | _, [] => []
  | c, d :: ds =>
    (if d.1 && !c.in_recovery_ then [] else actsAlong d.1 c d.2) ++
      actsOf (c.recvCallback64 d.1 d.2) ds

/-- `as` accounts for everything the consumer has written. -/
structure Accounted (as : List Act) (c : MarketDataConsumer) : Prop where
  incoming : c.incoming_md_updates_ = as.flatMap Act.events
  sound : ∀ a ∈ as, a.Sound
  chain : as.IsChain Act.Before
  last : c.in_recovery_ = false → ∀ a ∈ as.getLast?, a.Synced ∧ c.next_exp_inc_seq_num_ = a.next
  queues : Queues c

theorem Accounted.init : Accounted [] {} where
  incoming := rfl
  sound := by simp
  chain := List.IsChain.nil
  last := by simp
  queues := ⟨List.Pairwise.nil, by simp⟩

variable {as : List Act} {c : MarketDataConsumer}

theorem Queues.queue (h : Queues c) (is_snapshot : Bool) {m : MDPMarketUpdate}
    (hm : m.seq_num_ < 2 ^ 64) : Queues (c.queue is_snapshot m) := by
  unfold MarketDataConsumer.queue
  cases is_snapshot with
  | true => exact ⟨h.ascending, h.range⟩
  | false =>
    refine ⟨h.ascending.assign _ _, fun p hp => ?_⟩
    rcases QueuedMarketUpdates.mem_assign hp with rfl | hp
    · exact hm
    · exact h.range p hp

/-- Queueing writes nothing. -/
theorem queue_rest (c : MarketDataConsumer) (is_snapshot : Bool) (m : MDPMarketUpdate) :
    (c.queue is_snapshot m).in_recovery_ = c.in_recovery_ ∧
      (c.queue is_snapshot m).incoming_md_updates_ = c.incoming_md_updates_ := by
  unfold queue
  cases is_snapshot <;> exact ⟨rfl, rfl⟩

/-- **A queued message**: the call of `checkSnapshotSync` it leads to is one more
act. -/
theorem Accounted.check (h : Accounted as c) {q : MarketDataConsumer} (hq : Queues q)
    (hrec : q.in_recovery_ = true) (hin : q.incoming_md_updates_ = c.incoming_md_updates_) :
    Accounted (as ++ [.check q]) q.checkSnapshotSync64 := by
  have hcases := checkSnapshotSync64_cases hq hrec
  refine ⟨?_, ?_, ?_, ?_, ?_⟩
  · rw [List.flatMap_append, List.flatMap_singleton, ← h.incoming, ← hin]
    rcases hcases with ⟨hr, _, hw⟩ | ⟨hr, _, hg⟩
    · rw [hw, Act.events, hr, if_pos rfl, List.append_nil]
    · rw [hg.written, Act.events, hr, if_neg Bool.false_ne_true]
  · intro a ha
    rcases List.mem_append.mp ha with ha | ha
    · exact h.sound a ha
    · rw [List.mem_singleton.mp ha]
      rcases hcases with ⟨hr, _, hw⟩ | ⟨hr, _, hg⟩
      · exact ⟨fun hf => absurd (hr.symm.trans hf) (by simp), fun _ => hw⟩
      · exact ⟨fun _ => hg, fun ht => absurd (hr.symm.trans ht) (by simp)⟩
  · refine List.isChain_append.mpr ⟨h.chain, List.isChain_singleton _, ?_⟩
    intro a _ b hb m hm
    -- a chain is asked of increments taken in order only
    obtain rfl : Act.check q = b := by simpa using hb
    exact absurd hm (by simp)
  · intro hf a ha
    obtain rfl : Act.check q = a := by simpa using ha
    exact ⟨hf, rfl⟩
  · rcases hcases with ⟨_, hi, _⟩ | ⟨_, hi, _⟩
    · exact ⟨by rw [hi]; exact hq.ascending, by rw [hi]; exact hq.range⟩
    · exact ⟨by rw [hi]; exact List.Pairwise.nil, by rw [hi]; simp⟩

/-- **One message.** -/
theorem Accounted.message (h : Accounted as c) (is_snapshot : Bool) {m : MDPMarketUpdate}
    (hm : m.seq_num_ < 2 ^ 64) :
    Accounted (as ++ acts is_snapshot c m) (recvMessage64 is_snapshot c m) := by
  unfold acts recvMessage64
  by_cases hrec : c.in_recovery_ = true
  · -- in recovery: the message is queued
    rw [if_pos hrec, if_pos hrec]
    obtain ⟨hr, hi⟩ := queue_rest c is_snapshot m
    exact h.check (h.queues.queue is_snapshot hm) (hr.trans hrec) hi
  rw [if_neg hrec, if_neg hrec]
  by_cases hseq : m.seq_num_ ≠ c.next_exp_inc_seq_num_
  · -- a gap: recovery starts with empty queues
    rw [if_pos hseq, if_pos hseq]
    obtain ⟨hr, hi⟩ := queue_rest { c.startSnapshotSync with in_recovery_ := true } is_snapshot m
    have hempty : Queues { c.startSnapshotSync with in_recovery_ := true } :=
      ⟨List.Pairwise.nil, by simp [startSnapshotSync]⟩
    exact h.check (hempty.queue is_snapshot hm) hr hi
  rw [if_neg hseq, if_neg hseq]
  cases is_snapshot with
  | true =>
    -- the snapshot stream is not read outside recovery
    rw [if_pos rfl, if_pos rfl, List.append_nil]
    exact h
  | false =>
    rw [if_neg Bool.false_ne_true, if_neg Bool.false_ne_true]
    -- the increment expected: it follows the last one taken
    have hout : c.in_recovery_ = false := Bool.eq_false_iff.mpr hrec
    have hnum : m.seq_num_ = c.next_exp_inc_seq_num_ := not_not.mp hseq
    refine ⟨?_, ?_, ?_, ?_, ⟨h.queues.ascending, h.queues.range⟩⟩
    · rw [List.flatMap_append, List.flatMap_singleton, ← h.incoming]
      rfl
    · intro a ha
      rcases List.mem_append.mp ha with ha | ha
      · exact h.sound a ha
      · rw [List.mem_singleton.mp ha]
        trivial
    · refine List.isChain_append.mpr ⟨h.chain, List.isChain_singleton _, ?_⟩
      intro a ha b hb m' hm'
      obtain rfl : Act.incremental m = b := by simpa using hb
      obtain rfl := Act.incremental.inj hm'
      obtain ⟨hs, hn⟩ := h.last hout a ha
      exact ⟨hs, hnum.trans hn⟩
    · intro _ a ha
      obtain rfl : Act.incremental m = a := by simpa using ha
      exact ⟨trivial, by rw [Act.next, hnum]⟩

theorem Accounted.messages (is_snapshot : Bool) (ms : List MDPMarketUpdate)
    (hms : ∀ m ∈ ms, m.seq_num_ < 2 ^ 64) {as : List Act} {c : MarketDataConsumer}
    (h : Accounted as c) :
    Accounted (as ++ actsAlong is_snapshot c ms) (ms.foldl (recvMessage64 is_snapshot) c) := by
  induction ms generalizing as c with
  | nil =>
    rw [actsAlong, List.append_nil]
    exact h
  | cons m ms ih =>
    rw [actsAlong, ← List.append_assoc]
    exact ih (fun m' hm' => hms m' (List.mem_cons_of_mem _ hm'))
      (h.message is_snapshot (hms m (List.mem_cons_self ..)))

theorem Accounted.datagrams (ds : List (Bool × List MDPMarketUpdate))
    (hds : ∀ d ∈ ds, ∀ m ∈ d.2, m.seq_num_ < 2 ^ 64) {as : List Act} {c : MarketDataConsumer}
    (h : Accounted as c) : Accounted (as ++ actsOf c ds) (c.deliver ds) := by
  induction ds generalizing as c with
  | nil =>
    rw [actsOf, List.append_nil]
    exact h
  | cons d ds ih =>
    rw [actsOf, ← List.append_assoc]
    refine ih (fun d' hd' => hds d' (List.mem_cons_of_mem _ hd')) ?_
    unfold recvCallback64
    by_cases hdrop : (d.1 && !c.in_recovery_) = true
    · rw [if_pos hdrop, if_pos hdrop, List.append_nil]
      exact h
    · rw [if_neg hdrop, if_neg hdrop]
      exact h.messages d.1 d.2 (hds d (List.mem_cons_self ..))

/-- **Recovered streams are gap free.** After any datagrams on the two streams,
what the consumer has written is what its acts account for: every call of
`checkSnapshotSync` that succeeded was free of gaps, no other call wrote anything,
and every increment written directly carries the number that the act before it,
another increment or the end of a recovery, has left. -/
theorem recovered_streams_gap_free (ds : List (Bool × List MDPMarketUpdate))
    (hds : ∀ d ∈ ds, ∀ m ∈ d.2, m.seq_num_ < 2 ^ 64) :
    (({} : MarketDataConsumer).deliver ds).incoming_md_updates_ =
        (actsOf {} ds).flatMap Act.events ∧
      (∀ a ∈ actsOf {} ds, a.Sound) ∧ (actsOf {} ds).IsChain Act.Before := by
  have h := Accounted.init.datagrams ds hds
  rw [List.nil_append] at h
  exact ⟨h.incoming, h.sound, h.chain⟩

/-- Increments 1 and 2 are lost, a snapshot of them arrives, and the stream goes on. -/
def lostIncrements : List (Bool × List MDPMarketUpdate) :=
  [(false, [⟨3, ⟨.ADD, 3, 0, .BUY, 101, 7, 1⟩⟩]),
    (true, [⟨0, { type_ := .SNAPSHOT_START, order_id_ := 2 }⟩,
      ⟨1, ⟨.ADD, 1, 0, .BUY, 100, 5, 1⟩⟩, ⟨2, { type_ := .SNAPSHOT_END, order_id_ := 2 }⟩]),
    (false, [⟨4, ⟨.CANCEL, 1, 0, .BUY, 100, 5, 1⟩⟩])]

theorem recovered_streams_gap_free_lost :
    (({} : MarketDataConsumer).deliver lostIncrements).incoming_md_updates_ =
      [⟨.ADD, 1, 0, .BUY, 100, 5, 1⟩, ⟨.ADD, 3, 0, .BUY, 101, 7, 1⟩,
        ⟨.CANCEL, 1, 0, .BUY, 100, 5, 1⟩] ∧
    (∀ a ∈ actsOf {} lostIncrements, a.Sound) ∧
      (actsOf {} lostIncrements).IsChain Act.Before := by
  have h := recovered_streams_gap_free lostIncrements (by decide)
  exact ⟨by decide, h.2⟩

/-- An END with `OrderId_INVALID`: the recovery passes on increment 0, which is not
above `END.order_id_`. -/
theorem recovery_from_zero : ∃ q : MarketDataConsumer,
    Act.check q ∈ actsOf {} [(false, [⟨0, ⟨.ADD, 3, 0, .BUY, 101, 7, 1⟩⟩]),
      (true, [⟨0, { type_ := .SNAPSHOT_START }⟩, ⟨1, { type_ := .SNAPSHOT_END }⟩])] ∧
    q.checkSnapshotSync64.in_recovery_ = false ∧ q.endMsg.order_id_ = OrderId_INVALID ∧
    q.incoming_md_updates_ = [] ∧
    q.checkSnapshotSync64.incoming_md_updates_ = [⟨.ADD, 3, 0, .BUY, 101, 7, 1⟩] ∧
    finalEvents (q.snapshot_queued_msgs_.updates ++ QueuedMarketUpdates.updates
      (q.incremental_queued_msgs_.filter fun p => decide (q.endMsg.order_id_ < p.1))) = [] :=
  ⟨{ in_recovery_ := true
     snapshot_queued_msgs_ :=
       [(0, { type_ := .SNAPSHOT_START }), (1, { type_ := .SNAPSHOT_END })]
     incremental_queued_msgs_ := [(0, ⟨.ADD, 3, 0, .BUY, 101, 7, 1⟩)] },
    by decide, by decide, by decide, by decide, by decide, by decide⟩

end MarketDataConsumer

end LowLatency
