import LowLatency.MarketData.SnapshotSynthesizer

/-!
# `MarketDataConsumer`: one stream out of two lossy ones

`src/trading/market_data/market_data_consumer.cpp`. The consumer passes the
increments on as long as each carries the number it expects. At the first one
that does not it goes into recovery: it queues what comes on either stream, by
number, until the queued snapshot is complete and the queued increments go on
from it without a gap, and then passes both on.

A datagram is a list of whole messages here (the publishers send nothing else,
and `recvCallback` consumes all of them), and `incoming_md_updates_` is all that
was ever written to that queue. Joining the snapshot group is taken to succeed.

The snapshot queue never holds more than the beginning of a snapshot
(`Waiting`), because every message that does not continue it empties it. So one
kind of message alone ends a recovery: an END right behind what is queued
(`queueMessage_snapshot`).
-/

namespace LowLatency

/-- `QueuedMarketUpdates`, a `std::map`: the messages by ascending number. -/
abbrev QueuedMarketUpdates := List (Nat × MEMarketUpdate)

namespace QueuedMarketUpdates

/-- `map[seq_num] = update`. -/
def assign (seq_num : Nat) (update : MEMarketUpdate) : QueuedMarketUpdates → QueuedMarketUpdates
  | [] => [(seq_num, update)]
  | (i, u) :: q =>
    if seq_num < i then (seq_num, update) :: (i, u) :: q
    else if seq_num = i then (seq_num, update) :: q
    else (i, u) :: assign seq_num update q

/-- The loop over the snapshot messages: no number is left out. -/
def complete : Nat → QueuedMarketUpdates → Bool
  | _, [] => true
  | next_snapshot_seq, (i, _) :: q =>
    if i ≠ next_snapshot_seq then false else complete (next_snapshot_seq + 1) q

/-- The loop over the increments: the next number expected, and the updates from
the number given on unless one is missing. -/
def applicable : Nat → QueuedMarketUpdates → Nat × Option (List MEMarketUpdate)
  | next_exp, [] => (next_exp, some [])
  | next_exp, (i, u) :: q =>
    if i < next_exp then applicable next_exp q
    else if i ≠ next_exp then (next_exp, none)
    else ((applicable (next_exp + 1) q).1, (applicable (next_exp + 1) q).2.map (u :: ·))

/-- The updates alone. -/
def updates (q : QueuedMarketUpdates) : List MEMarketUpdate := q.map Prod.snd

end QueuedMarketUpdates

structure MarketDataConsumer where
  next_exp_inc_seq_num_ : Nat := 1
  in_recovery_ : Bool := false
  snapshot_queued_msgs_ : QueuedMarketUpdates := []
  incremental_queued_msgs_ : QueuedMarketUpdates := []
  incoming_md_updates_ : List MEMarketUpdate := []
deriving DecidableEq

namespace MarketDataConsumer

/-- Start the process of snapshot synchronization. -/
def startSnapshotSync (c : MarketDataConsumer) : MarketDataConsumer :=
  { c with snapshot_queued_msgs_ := [], incremental_queued_msgs_ := [] }

/-- Check if a recovery is possible from the queued up market data updates. -/
def checkSnapshotSync (c : MarketDataConsumer) : MarketDataConsumer :=
  match c.snapshot_queued_msgs_.head?, c.snapshot_queued_msgs_.getLast? with
  | some first_snapshot_msg, some last_snapshot_msg =>
    if first_snapshot_msg.2.type_ ≠ .SNAPSHOT_START then { c with snapshot_queued_msgs_ := [] }
    else if ¬ c.snapshot_queued_msgs_.complete 0 then { c with snapshot_queued_msgs_ := [] }
    else if last_snapshot_msg.2.type_ ≠ .SNAPSHOT_END then c
    else
      let (next_exp, incrementals) :=
        c.incremental_queued_msgs_.applicable (last_snapshot_msg.2.order_id_ + 1)
      match incrementals with
      | none => { c with next_exp_inc_seq_num_ := next_exp, snapshot_queued_msgs_ := [] }
      | some us =>
        { next_exp_inc_seq_num_ := next_exp
          in_recovery_ := false
          snapshot_queued_msgs_ := []
          incremental_queued_msgs_ := []
          incoming_md_updates_ := c.incoming_md_updates_ ++
            finalEvents (c.snapshot_queued_msgs_.updates ++ us) }
  | _, _ => c

/-- Queue up a message and check if the recovery can be completed. -/
def queueMessage (c : MarketDataConsumer) (is_snapshot : Bool) (request : MDPMarketUpdate) :
    MarketDataConsumer :=
  if is_snapshot then
    let queued : QueuedMarketUpdates :=
      if request.seq_num_ ∈ c.snapshot_queued_msgs_.map Prod.fst then []
      else c.snapshot_queued_msgs_
    checkSnapshotSync { c with
      snapshot_queued_msgs_ := queued.assign request.seq_num_ request.me_market_update_ }
  else
    checkSnapshotSync { c with
      incremental_queued_msgs_ :=
        c.incremental_queued_msgs_.assign request.seq_num_ request.me_market_update_ }

/-- The body of the loop of `recvCallback`. -/
def recvMessage (is_snapshot : Bool) (c : MarketDataConsumer) (request : MDPMarketUpdate) :
    MarketDataConsumer :=
  if c.in_recovery_ then c.queueMessage is_snapshot request
  else if request.seq_num_ ≠ c.next_exp_inc_seq_num_ then
    { c.startSnapshotSync with in_recovery_ := true }.queueMessage is_snapshot request
  else if is_snapshot then c
  else
    { c with
      next_exp_inc_seq_num_ := c.next_exp_inc_seq_num_ + 1
      incoming_md_updates_ := c.incoming_md_updates_ ++ [request.me_market_update_] }

/-- Process a datagram from either stream. -/
def recvCallback (c : MarketDataConsumer) (is_snapshot : Bool) (requests : List MDPMarketUpdate) :
    MarketDataConsumer :=
  -- not in recovery: the snapshot stream is not needed, the datagram is discarded
  if is_snapshot && !c.in_recovery_ then c
  else requests.foldl (recvMessage is_snapshot) c

end MarketDataConsumer

/-! ## The queues -/

namespace QueuedMarketUpdates

theorem mem_assign {seq_num : Nat} {update : MEMarketUpdate} {q : QueuedMarketUpdates}
    {p : Nat × MEMarketUpdate} (h : p ∈ q.assign seq_num update) :
    p = (seq_num, update) ∨ p ∈ q := by
  induction q with
  | nil => exact Or.inl (List.mem_singleton.mp h)
  | cons x q ih =>
    unfold assign at h
    split at h
    · exact List.mem_cons.mp h
    · split at h
      · exact (List.mem_cons.mp h).imp_right (List.mem_cons_of_mem _)
      · rcases List.mem_cons.mp h with rfl | h
        · exact Or.inr (List.mem_cons_self ..)
        · exact (ih h).imp_right (List.mem_cons_of_mem _)

/-- A number above all others goes to the end. -/
theorem assign_of_lt {seq_num : Nat} (update : MEMarketUpdate) {q : QueuedMarketUpdates}
    (h : ∀ p ∈ q, p.1 < seq_num) : q.assign seq_num update = q ++ [(seq_num, update)] := by
  induction q with
  | nil => rfl
  | cons x q ih =>
    have hx : x.1 < seq_num := h x (List.mem_cons_self ..)
    unfold assign
    rw [if_neg (by omega), if_neg (by omega), ih fun p hp => h p (List.mem_cons_of_mem _ hp)]
    rfl

theorem complete_iff {n : Nat} {q : QueuedMarketUpdates} :
    q.complete n = true ↔ q.map Prod.fst = List.range' n q.length := by
  induction q generalizing n with
  | nil => simp [complete]
  | cons x q ih =>
    unfold complete
    rw [List.map_cons, List.length_cons, List.range'_succ, List.cons.injEq]
    split
    next hne => simp [hne]
    next he => rw [ih, and_iff_right (not_not.mp he)]

/-- The numbers of a complete queue. -/
theorem complete.getElem {q : QueuedMarketUpdates} (h : q.complete 0 = true) {i : Nat}
    (hi : i < q.length) : (q[i]).1 = i := by
  have hmap : (q.map Prod.fst)[i]? = (List.range' 0 q.length)[i]? := by rw [complete_iff.mp h]
  rw [List.getElem?_map, List.getElem?_eq_getElem hi, List.getElem?_range' hi] at hmap
  simpa using hmap

/-- The number at the end of a complete queue. -/
theorem complete.append {q : QueuedMarketUpdates} {i : Nat} {u : MEMarketUpdate}
    (h : complete 0 (q ++ [(i, u)]) = true) : i = q.length := by
  have hi := complete.getElem h (i := q.length) (by simp)
  rwa [List.getElem_concat_length rfl] at hi

/-- **What a snapshot queue holds between two messages**: the beginning of a
snapshot, with no END at its end. -/
structure Waiting (q : QueuedMarketUpdates) : Prop where
  complete : q.complete 0 = true
  no_end : ∀ p, q.getLast? = some p → p.2.type_ ≠ .SNAPSHOT_END

theorem Waiting.nil : Waiting [] := ⟨rfl, fun _ h => absurd h (by simp)⟩

/-- **The increments that are applied** are those of the history between the
number given and the one expected next. -/
theorem applicable_eq {us : List MEMarketUpdate} {q : QueuedMarketUpdates}
    (hq : ∀ p ∈ q, 1 ≤ p.1 ∧ us[p.1 - 1]? = some p.2) {n n' : Nat} (hn : n ≤ us.length)
    {vs : List MEMarketUpdate} (h : q.applicable (n + 1) = (n', some vs)) :
    1 ≤ n' ∧ n' - 1 ≤ us.length ∧ us.take n ++ vs = us.take (n' - 1) := by
  induction q generalizing n vs with
  | nil =>
    obtain ⟨rfl, rfl⟩ : n + 1 = n' ∧ [] = vs := by simpa [applicable] using h
    exact ⟨by omega, by omega, by simp⟩
  | cons x q ih =>
    have hq' := fun p hp => hq p (List.mem_cons_of_mem x hp)
    unfold applicable at h
    split at h
    · exact ih hq' hn h
    split at h
    · exact absurd h (by simp)
    next hle he =>
      obtain ⟨hpos, hget⟩ := hq x (List.mem_cons_self ..)
      have hx : x.1 = n + 1 := not_not.mp he
      rw [hx, Nat.add_sub_cancel] at hget
      have hlt : n < us.length := (List.getElem?_eq_some_iff.mp hget).1
      obtain ⟨h₁, h₂⟩ := Prod.mk.inj h
      obtain ⟨ws, hws, rfl⟩ := Option.map_eq_some_iff.mp h₂
      obtain ⟨h₃, h₄, h₅⟩ := ih hq' hlt (Prod.ext h₁ hws)
      refine ⟨h₃, h₄, ?_⟩
      rw [← h₅, List.take_add_one, hget, List.append_assoc]
      rfl

end QueuedMarketUpdates

/-! ## What one message does -/

namespace MarketDataConsumer

open QueuedMarketUpdates (Waiting)

/-- Nothing was passed on. -/
structure Quiet (c c' : MarketDataConsumer) : Prop where
  waiting : Waiting c'.snapshot_queued_msgs_
  incremental : c'.incremental_queued_msgs_ = c.incremental_queued_msgs_
  in_recovery : c'.in_recovery_ = c.in_recovery_
  incoming : c'.incoming_md_updates_ = c.incoming_md_updates_

/-- The recovery ends with `last`: the snapshot queue is complete, and the queued
increments go on from it. -/
structure Recovers (c : MarketDataConsumer) (last : MEMarketUpdate) (c' : MarketDataConsumer) :
    Prop where
  first : ∃ p, c.snapshot_queued_msgs_.head? = some p ∧ p.2.type_ = .SNAPSHOT_START
  complete : c.snapshot_queued_msgs_.complete 0 = true
  at_end : ∃ i, c.snapshot_queued_msgs_.getLast? = some (i, last)
  is_end : last.type_ = .SNAPSHOT_END
  result : ∃ us, c.incremental_queued_msgs_.applicable (last.order_id_ + 1) =
      (c'.next_exp_inc_seq_num_, some us) ∧
    c'.incoming_md_updates_ = c.incoming_md_updates_ ++
      finalEvents (c.snapshot_queued_msgs_.updates ++ us)
  snapshot : c'.snapshot_queued_msgs_ = []
  incremental : c'.incremental_queued_msgs_ = []

theorem checkSnapshotSync_cases (c : MarketDataConsumer) :
    Quiet c c.checkSnapshotSync ∨ ∃ last, Recovers c last c.checkSnapshotSync := by
  cases hq : c.snapshot_queued_msgs_ with
  | nil =>
    have he : c.checkSnapshotSync = c := by simp [checkSnapshotSync, hq]
    rw [he]
    exact Or.inl ⟨hq ▸ .nil, rfl, rfl, rfl⟩
  | cons p q =>
    have hhead : c.snapshot_queued_msgs_.head? = some p := by rw [hq]; rfl
    obtain ⟨x, hlast⟩ : ∃ x, c.snapshot_queued_msgs_.getLast? = some x :=
      ⟨_, by rw [hq]; exact List.getLast?_eq_some_getLast (List.cons_ne_nil _ _)⟩
    unfold checkSnapshotSync
    simp only [hhead, hlast]
    split
    · exact Or.inl ⟨.nil, rfl, rfl, rfl⟩
    next hstart =>
    split
    · exact Or.inl ⟨.nil, rfl, rfl, rfl⟩
    next hcomplete =>
    have hcomplete := not_not.mp hcomplete
    split
    next hend =>
      refine Or.inl ⟨⟨hcomplete, fun y hy => ?_⟩, rfl, rfl, rfl⟩
      rw [hlast] at hy
      obtain rfl := Option.some.inj hy
      exact hend
    next hend =>
    split
    · exact Or.inl ⟨.nil, rfl, rfl, rfl⟩
    next us hus =>
      exact Or.inr ⟨x.2, ⟨p, hhead, not_not.mp hstart⟩, hcomplete, ⟨x.1, hlast⟩, not_not.mp hend,
        ⟨us, Prod.ext rfl hus, rfl⟩, rfl, rfl⟩

/-- An increment never ends a recovery. -/
theorem queueMessage_incremental {c : MarketDataConsumer} (h : Waiting c.snapshot_queued_msgs_)
    (m : MDPMarketUpdate) : Quiet { c with
      incremental_queued_msgs_ :=
        c.incremental_queued_msgs_.assign m.seq_num_ m.me_market_update_ }
      (c.queueMessage false m) := by
  rcases checkSnapshotSync_cases { c with
      incremental_queued_msgs_ :=
        c.incremental_queued_msgs_.assign m.seq_num_ m.me_market_update_ } with hq | ⟨last, hr⟩
  · exact hq
  · obtain ⟨i, hi⟩ := hr.at_end
    exact absurd hr.is_end (h.no_end _ hi)

/-- A snapshot message ends it only as the END right behind what is queued. -/
theorem queueMessage_snapshot {c : MarketDataConsumer} (h : Waiting c.snapshot_queued_msgs_)
    (m : MDPMarketUpdate) : Quiet c (c.queueMessage true m) ∨
      (m.seq_num_ = c.snapshot_queued_msgs_.length ∧ Recovers { c with
        snapshot_queued_msgs_ := c.snapshot_queued_msgs_ ++ [(m.seq_num_, m.me_market_update_)] }
        m.me_market_update_ (c.queueMessage true m)) := by
  by_cases hmem : m.seq_num_ ∈ c.snapshot_queued_msgs_.map Prod.fst
  · have hrun : c.queueMessage true m = checkSnapshotSync { c with
        snapshot_queued_msgs_ := [(m.seq_num_, m.me_market_update_)] } := by
      simp only [queueMessage, if_pos hmem, if_true]
      rfl
    rw [hrun]
    rcases checkSnapshotSync_cases { c with
        snapshot_queued_msgs_ := [(m.seq_num_, m.me_market_update_)] } with hq | ⟨last, hr⟩
    · exact Or.inl ⟨hq.waiting, hq.incremental, hq.in_recovery, hq.incoming⟩
    · -- one message is not both START and END
      obtain ⟨p, hp, hstart⟩ := hr.first
      obtain ⟨i, hi⟩ := hr.at_end
      obtain rfl : (m.seq_num_, m.me_market_update_) = p := Option.some.inj hp
      obtain ⟨_, rfl⟩ := Prod.mk.inj (Option.some.inj hi)
      have hend := hr.is_end
      rw [hstart] at hend
      exact absurd hend (by simp)
  · have hlt : ∀ p ∈ c.snapshot_queued_msgs_, p.1 < m.seq_num_ := by
      intro p hp
      have hnum := QueuedMarketUpdates.complete_iff.mp h.complete
      have hpm : p.1 ∈ c.snapshot_queued_msgs_.map Prod.fst := List.mem_map_of_mem hp
      rw [hnum, List.mem_range'_1] at hmem hpm
      omega
    have hrun : c.queueMessage true m = checkSnapshotSync { c with
        snapshot_queued_msgs_ :=
          c.snapshot_queued_msgs_ ++ [(m.seq_num_, m.me_market_update_)] } := by
      simp only [queueMessage, if_neg hmem, if_true]
      rw [QueuedMarketUpdates.assign_of_lt _ hlt]
    rw [hrun]
    rcases checkSnapshotSync_cases { c with
        snapshot_queued_msgs_ :=
          c.snapshot_queued_msgs_ ++ [(m.seq_num_, m.me_market_update_)] } with hq | ⟨last, hr⟩
    · exact Or.inl ⟨hq.waiting, hq.incremental, hq.in_recovery, hq.incoming⟩
    · obtain ⟨i, hi⟩ := hr.at_end
      rw [List.getLast?_concat] at hi
      obtain ⟨_, rfl⟩ := Prod.mk.inj (Option.some.inj hi)
      exact Or.inr ⟨QueuedMarketUpdates.complete.append hr.complete, hr⟩

end MarketDataConsumer

end LowLatency
