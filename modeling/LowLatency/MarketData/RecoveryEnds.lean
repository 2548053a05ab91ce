import LowLatency.MarketData.GapFree
import LowLatency.MarketData.GapRecovery

/-!
# When a recovery ends

`GapRecovery` and `GapFree` say what a completed recovery passes on. This file
says when it is completed. Let all messages of one snapshot cycle arrive in order,
with any increments in between: the recovery ends with the last of them exactly if
no increment is missing between the one the cycle was taken after and the last one
queued (**`recovery_ends_iff`**). If one is missing the consumer is in the state
in which the next cycle finds it, with the same increments queued.

What the consumer has been through does not matter. START carries number 0, and a
queue that is waiting for a snapshot begins with 0 if it holds anything (`Waiting`),
so START empties it and the cycle builds it up from there (`Midway`).
-/

namespace LowLatency

namespace QueuedMarketUpdates

/-- From number `n` up to the last one none is missing. -/
def NoGap (n : Nat) (q : QueuedMarketUpdates) : Prop :=
  ∀ p ∈ q, ∀ i < p.1, n ≤ i → i ∈ q.map Prod.fst

instance (n : Nat) (q : QueuedMarketUpdates) : Decidable (NoGap n q) :=
  inferInstanceAs (Decidable (∀ p ∈ q, ∀ i < p.1, n ≤ i → i ∈ q.map Prod.fst))

theorem noGap_cons_of_lt {n : Nat} {x : Nat × MEMarketUpdate} {q : QueuedMarketUpdates}
    (hx : x.1 < n) : NoGap n (x :: q) ↔ NoGap n q := by
  constructor
  · intro h p hp i hlt hi
    rcases List.mem_cons.mp (h p (List.mem_cons_of_mem x hp) i hlt hi) with he | hmem
    · omega
    · exact hmem
  · intro h p hp i hlt hi
    rcases List.mem_cons.mp hp with rfl | hp
    · omega
    · exact List.mem_cons_of_mem _ (h p hp i hlt hi)

theorem noGap_cons_self {x : Nat × MEMarketUpdate} {q : QueuedMarketUpdates}
    (hq : ∀ p ∈ q, x.1 < p.1) : NoGap x.1 (x :: q) ↔ NoGap (x.1 + 1) q := by
  constructor
  · intro h p hp i hlt hi
    rcases List.mem_cons.mp (h p (List.mem_cons_of_mem x hp) i hlt (by omega)) with he | hmem
    · omega
    · exact hmem
  · intro h p hp i hlt hi
    rcases List.mem_cons.mp hp with rfl | hp
    · omega
    · rcases Nat.eq_or_lt_of_le hi with rfl | hi
      · exact List.mem_cons_self ..
      · exact List.mem_cons_of_mem _ (h p hp i hlt hi)

/-- **When the increments are applied**, and which. -/
theorem applicable_spec {q : QueuedMarketUpdates} (h : Ascending q) (n : Nat) :
    (NoGap n q → q.applicable n = (n + (onward n q).length, some (onward n q).updates)) ∧
      (¬ NoGap n q → (q.applicable n).2 = none) := by
  induction q generalizing n with
  | nil => exact ⟨fun _ => rfl, fun hno => absurd (fun p hp => absurd hp (by simp)) hno⟩
  | cons x q ih =>
    obtain ⟨hx, hq⟩ := List.pairwise_cons.mp h
    unfold applicable
    rcases Nat.lt_trichotomy x.1 n with hlt | rfl | hgt
    · rw [if_pos hlt, noGap_cons_of_lt hlt, onward_cons_of_lt hlt]
      exact ih hq n
    · obtain ⟨hgap, hmissing⟩ := ih hq (x.1 + 1)
      have hsame : onward x.1 q = onward (x.1 + 1) q := by
        refine List.filter_congr fun p hp => ?_
        have := hx p hp
        rw [decide_eq_decide]
        omega
      rw [if_neg (Nat.lt_irrefl _), if_neg (by simp), noGap_cons_self hx,
        onward_cons_of_ge (Nat.le_refl _), hsame]
      refine ⟨fun hno => ?_, fun hno => ?_⟩
      · rw [hgap hno, List.length_cons]
        refine Prod.ext (by dsimp only; omega) rfl
      · rw [hmissing hno]
        rfl
    · rw [if_neg (by omega), if_pos (by omega)]
      refine ⟨fun hno => ?_, fun _ => rfl⟩
      -- number `n` itself is missing
      rcases List.mem_cons.mp (hno x (List.mem_cons_self ..) n hgt (Nat.le_refl n)) with he | hmem
      · omega
      · obtain ⟨p, hp, he⟩ := List.mem_map.mp hmem
        have := hx p hp
        omega

end QueuedMarketUpdates

namespace MarketDataConsumer

open QueuedMarketUpdates (Waiting Ascending NoGap onward)

variable {c c' : MarketDataConsumer}

/-! ## What every history leaves -/

/-- What the queues are between two messages. -/
structure Ready (c : MarketDataConsumer) : Prop where
  waiting : Waiting c.snapshot_queued_msgs_
  ascending : Ascending c.incremental_queued_msgs_

theorem ready_init : Ready {} := ⟨.nil, List.Pairwise.nil⟩

theorem Ready.queueMessage (h : Ready c) (b : Bool) (m : MDPMarketUpdate) :
    Ready (c.queueMessage b m) := by
  cases b with
  | false =>
    have hq := queueMessage_incremental h.waiting m
    exact ⟨hq.waiting, hq.incremental ▸ h.ascending.assign m.seq_num_ m.me_market_update_⟩
  | true =>
    rcases queueMessage_snapshot h.waiting m with hq | ⟨_, hr⟩
    · exact ⟨hq.waiting, hq.incremental ▸ h.ascending⟩
    · exact ⟨hr.snapshot ▸ .nil, hr.incremental ▸ List.Pairwise.nil⟩

theorem Ready.recvMessage (h : Ready c) (b : Bool) (m : MDPMarketUpdate) :
    Ready (c.recvMessage b m) := by
  unfold MarketDataConsumer.recvMessage
  split
  · exact h.queueMessage b m
  split
  · have hstart : Ready { c.startSnapshotSync with in_recovery_ := true } :=
      ⟨.nil, List.Pairwise.nil⟩
    exact hstart.queueMessage b m
  split
  · exact h
  · exact ⟨h.waiting, h.ascending⟩

theorem Ready.recvCallback (h : Ready c) (b : Bool) (ms : List MDPMarketUpdate) :
    Ready (c.recvCallback b ms) := by
  unfold MarketDataConsumer.recvCallback
  split
  · exact h
  next hrec =>
    clear hrec
    induction ms generalizing c with
    | nil => exact h
    | cons m ms ih => exact ih (h.recvMessage b m)

/-- Datagrams in a row, each with the stream it is of (`true` for snapshots). -/
def recvAll (c : MarketDataConsumer) (ds : List (Bool × List MDPMarketUpdate)) :
    MarketDataConsumer :=
  ds.foldl (fun c d => c.recvCallback d.1 d.2) c

theorem Ready.recvAll (h : Ready c) (ds : List (Bool × List MDPMarketUpdate)) :
    Ready (c.recvAll ds) := by
  induction ds generalizing c with
  | nil => exact h
  | cons d ds ih => exact ih (h.recvCallback d.1 d.2)

/-! ## The middle of a cycle -/

/-- A message as it is queued. -/
def entry (m : MDPMarketUpdate) : Nat × MEMarketUpdate := (m.seq_num_, m.me_market_update_)

/-- The increments `ms` queued behind `q`. -/
def queued (q : QueuedMarketUpdates) (ms : List MDPMarketUpdate) : QueuedMarketUpdates :=
  ms.foldl (fun q m => q.assign m.seq_num_ m.me_market_update_) q

theorem ascending_queued {q : QueuedMarketUpdates} (h : Ascending q) (ms : List MDPMarketUpdate) :
    Ascending (queued q ms) := by
  induction ms generalizing q with
  | nil => exact h
  | cons m ms ih => exact ih (h.assign m.seq_num_ m.me_market_update_)

theorem queued_append (q : QueuedMarketUpdates) (ms ms' : List MDPMarketUpdate) :
    queued q (ms ++ ms') = queued (queued q ms) ms' := List.foldl_append ..

/-- The messages of the datagrams of one stream. -/
def ofStream (b : Bool) (ds : List (Bool × List MDPMarketUpdate)) : List MDPMarketUpdate :=
  ds.flatMap fun d => if d.1 = b then d.2 else []

/-- A started snapshot without its END changes nothing. -/
theorem checkSnapshotSync_waiting (h : Waiting c.snapshot_queued_msgs_)
    {p : Nat × MEMarketUpdate} (hp : c.snapshot_queued_msgs_.head? = some p)
    (hstart : p.2.type_ = .SNAPSHOT_START) : c.checkSnapshotSync = c := by
  obtain ⟨x, hx⟩ : ∃ x, c.snapshot_queued_msgs_.getLast? = some x := by
    rw [List.head?_eq_some_iff] at hp
    obtain ⟨q, hq⟩ := hp
    exact ⟨_, by rw [hq]; exact List.getLast?_eq_some_getLast (List.cons_ne_nil _ _)⟩
  unfold checkSnapshotSync
  simp only [hp, hx]
  rw [if_neg (not_not.mpr hstart), if_neg (not_not.mpr h.complete), if_pos (h.no_end x hx)]

/-- A snapshot from START to END ends the recovery if no increment is missing behind it. -/
theorem checkSnapshotSync_ends (hasc : Ascending c.incremental_queued_msgs_)
    {p x : Nat × MEMarketUpdate} (hp : c.snapshot_queued_msgs_.head? = some p)
    (hstart : p.2.type_ = .SNAPSHOT_START) (hcomplete : c.snapshot_queued_msgs_.complete 0 = true)
    (hx : c.snapshot_queued_msgs_.getLast? = some x) (hend : x.2.type_ = .SNAPSHOT_END) :
    (NoGap (x.2.order_id_ + 1) c.incremental_queued_msgs_ → c.checkSnapshotSync =
      { next_exp_inc_seq_num_ := x.2.order_id_ + 1 +
          (onward (x.2.order_id_ + 1) c.incremental_queued_msgs_).length
        in_recovery_ := false
        snapshot_queued_msgs_ := []
        incremental_queued_msgs_ := []
        incoming_md_updates_ := c.incoming_md_updates_ ++
          finalEvents (c.snapshot_queued_msgs_.updates ++
            (onward (x.2.order_id_ + 1) c.incremental_queued_msgs_).updates) }) ∧
      (¬ NoGap (x.2.order_id_ + 1) c.incremental_queued_msgs_ →
        c.checkSnapshotSync.in_recovery_ = c.in_recovery_ ∧
        c.checkSnapshotSync.incoming_md_updates_ = c.incoming_md_updates_ ∧
        c.checkSnapshotSync.snapshot_queued_msgs_ = [] ∧
        c.checkSnapshotSync.incremental_queued_msgs_ = c.incremental_queued_msgs_) := by
  obtain ⟨hgap, hmissing⟩ := QueuedMarketUpdates.applicable_spec hasc (x.2.order_id_ + 1)
  unfold checkSnapshotSync
  simp only [hp, hx]
  rw [if_neg (not_not.mpr hstart), if_neg (not_not.mpr hcomplete), if_neg (not_not.mpr hend)]
  constructor
  · intro hno
    rw [hgap hno]
  · intro hno
    rw [hmissing hno]
    exact ⟨rfl, rfl, rfl, rfl⟩

section Cycle

variable {s : SnapshotSynthesizer} {L : LiveOrders} {incoming : List MEMarketUpdate} {k : Nat}
  {q : QueuedMarketUpdates}

theorem publishSnapshot_length (s : SnapshotSynthesizer) :
    s.publishSnapshot.length = s.orderMessages.length + 2 := by
  unfold SnapshotSynthesizer.publishSnapshot publish
  rw [List.length_map, List.length_zipIdx, SnapshotSynthesizer.snapshotMessages_eq]
  simp

/-- The message at a place of a cycle carries that number. -/
theorem cycle_getElem {i : Nat} (hi : i < s.publishSnapshot.length) :
    (s.publishSnapshot[i]).seq_num_ = i ∧
      s.snapshotMessages[i]? = some (s.publishSnapshot[i]).me_market_update_ := by
  have hget : s.publishSnapshot[i]? = (s.snapshotMessages[i]?).map fun u => ⟨0 + i, u⟩ :=
    publish_getElem? 0 s.snapshotMessages i
  rw [List.getElem?_eq_getElem hi] at hget
  obtain ⟨u, hu, he⟩ := Option.map_eq_some_iff.mp hget.symm
  rw [← he]
  exact ⟨Nat.zero_add i, hu⟩

/-- The first `k` messages of a cycle, as they are queued. -/
def begun (s : SnapshotSynthesizer) (k : Nat) : QueuedMarketUpdates :=
  (s.publishSnapshot.take k).map entry

theorem begun_succ (hk : k < s.publishSnapshot.length) :
    begun s (k + 1) = begun s k ++ [entry (s.publishSnapshot[k])] := by
  unfold begun
  rw [List.take_add_one, List.getElem?_eq_getElem hk, List.map_append]
  rfl

theorem begun_length (hk : k ≤ s.publishSnapshot.length) : (begun s k).length = k := by
  unfold begun
  rw [List.length_map, List.length_take, Nat.min_eq_left hk]

theorem begun_complete (hk : k ≤ s.publishSnapshot.length) : (begun s k).complete 0 = true := by
  rw [QueuedMarketUpdates.complete_iff, begun_length hk]
  induction k with
  | zero => rfl
  | succ k ih =>
    rw [begun_succ hk, List.map_append, ih (by omega), List.range'_concat]
    show _ ++ [(s.publishSnapshot[k]).seq_num_] = _
    rw [(cycle_getElem hk).1]
    simp

theorem begun_head (hk : 0 < k) : ∃ u, (begun s k).head? = some (0, u) ∧
    u.type_ = .SNAPSHOT_START := by
  have hlen : 0 < s.publishSnapshot.length := by
    rw [publishSnapshot_length]
    omega
  obtain ⟨hseq, hget⟩ := cycle_getElem (s := s) hlen
  rw [SnapshotSynthesizer.snapshotMessages_eq] at hget
  refine ⟨(s.publishSnapshot[0]).me_market_update_, ?_, by rw [← Option.some.inj hget]⟩
  unfold begun
  rw [List.head?_map, List.head?_take, if_neg (by omega), List.head?_eq_getElem?,
    List.getElem?_eq_getElem hlen]
  exact congrArg some (Prod.ext hseq rfl)

theorem begun_getLast (hk : k < s.publishSnapshot.length) :
    (begun s (k + 1)).getLast? = some (entry (s.publishSnapshot[k])) := by
  rw [begun_succ hk, List.getLast?_concat]

/-- Only the last message of a cycle is an END. -/
theorem begun_waiting (hs : s.Keeps L) (hk : k < s.publishSnapshot.length) :
    Waiting (begun s k) := by
  refine ⟨begun_complete (Nat.le_of_lt hk), fun p hp hend => ?_⟩
  cases k with
  | zero => exact absurd hp (by simp [begun])
  | succ k =>
    have hk' : k < s.publishSnapshot.length := by omega
    rw [begun_getLast hk'] at hp
    obtain rfl := Option.some.inj hp
    have hplace := (hs.snapshot_end (cycle_getElem hk').2 hend).1
    rw [publishSnapshot_length] at hk
    omega

/-- In recovery, with the first `k` messages of a cycle and the increments `q`. -/
structure Midway (s : SnapshotSynthesizer) (incoming : List MEMarketUpdate) (k : Nat)
    (q : QueuedMarketUpdates) (c : MarketDataConsumer) : Prop where
  in_recovery : c.in_recovery_ = true
  incoming : c.incoming_md_updates_ = incoming
  waiting : Waiting c.snapshot_queued_msgs_
  snapshot : 0 < k → c.snapshot_queued_msgs_ = begun s k
  incremental : c.incremental_queued_msgs_ = q

/-- **An increment in the middle of a cycle** is queued. -/
theorem Midway.increment (h : Midway s incoming k q c) (m : MDPMarketUpdate) :
    Midway s incoming k (q.assign m.seq_num_ m.me_market_update_) (c.recvMessage false m) := by
  have hrun : c.recvMessage false m = c.queueMessage false m := by
    rw [recvMessage, if_pos h.in_recovery]
  have hq := queueMessage_incremental h.waiting m
  rw [hrun]
  refine ⟨hq.in_recovery.trans h.in_recovery, hq.incoming.trans h.incoming, hq.waiting,
    fun hk => ?_, ?_⟩
  · obtain ⟨u, hhead, hstart⟩ := begun_head (s := s) hk
    rw [← h.snapshot hk] at hhead
    have hsame : c.queueMessage false m = { c with
        incremental_queued_msgs_ :=
          c.incremental_queued_msgs_.assign m.seq_num_ m.me_market_update_ } :=
      checkSnapshotSync_waiting h.waiting hhead hstart
    rw [hsame]
    exact h.snapshot hk
  · rw [hq.incremental, h.incremental]

/-- What the next message of a cycle makes of the snapshot queue, before it is checked. -/
theorem Midway.recvMessage_cycle (h : Midway s incoming k q c)
    (hk : k < s.publishSnapshot.length) :
    c.recvMessage true (s.publishSnapshot[k]) =
      checkSnapshotSync { c with snapshot_queued_msgs_ := begun s (k + 1) } := by
  obtain ⟨hseq, _⟩ := cycle_getElem hk
  have hentry : entry (s.publishSnapshot[k]) =
      (k, (s.publishSnapshot[k]).me_market_update_) := Prod.ext hseq rfl
  have hnums := QueuedMarketUpdates.complete_iff.mp h.waiting.complete
  have hqueue : (if (s.publishSnapshot[k]).seq_num_ ∈ c.snapshot_queued_msgs_.map Prod.fst then []
      else c.snapshot_queued_msgs_) = begun s k := by
    simp only [hseq, hnums, List.mem_range'_1]
    cases k with
    | zero =>
      -- a queue that holds anything holds number 0
      cases hc : c.snapshot_queued_msgs_ with
      | nil => rfl
      | cons x xs => exact if_pos ⟨Nat.le_refl 0, by simp⟩
    | succ k =>
      have hqueue := h.snapshot (Nat.succ_pos k)
      rw [hqueue, begun_length (Nat.le_of_lt hk), if_neg (by omega)]
  rw [recvMessage, if_pos h.in_recovery, queueMessage, if_pos rfl]
  dsimp only
  rw [hqueue, hseq, QueuedMarketUpdates.assign_of_lt, begun_succ hk, hentry]
  intro p hp
  have hmem : p.1 ∈ (begun s k).map Prod.fst := List.mem_map_of_mem hp
  rw [QueuedMarketUpdates.complete_iff.mp (begun_complete (Nat.le_of_lt hk)), List.mem_range'_1,
    begun_length (Nat.le_of_lt hk)] at hmem
  omega

/-- **A message of the cycle before its END.** -/
theorem Midway.snapshotMessage (h : Midway s incoming k q c) (hs : s.Keeps L)
    (hk : k < s.publishSnapshot.length) (hnext : k + 1 < s.publishSnapshot.length) :
    Midway s incoming (k + 1) q (c.recvMessage true (s.publishSnapshot[k])) := by
  obtain ⟨u, hhead, hstart⟩ := begun_head (s := s) (Nat.succ_pos k)
  have hw := begun_waiting hs hnext
  rw [h.recvMessage_cycle, checkSnapshotSync_waiting hw hhead hstart]
  exact ⟨h.in_recovery, h.incoming, hw, fun _ => rfl, h.incremental⟩

/-- **The END.** -/
theorem Midway.endMessage (h : Midway s incoming k q c) (hasc : Ascending q)
    (hk : k < s.publishSnapshot.length) (hlast : k + 1 = s.publishSnapshot.length) :
    (NoGap (s.last_inc_seq_num_ + 1) q → c.recvMessage true (s.publishSnapshot[k]) =
      { next_exp_inc_seq_num_ := s.last_inc_seq_num_ + 1 +
          (onward (s.last_inc_seq_num_ + 1) q).length
        in_recovery_ := false
        snapshot_queued_msgs_ := []
        incremental_queued_msgs_ := []
        incoming_md_updates_ := incoming ++
          finalEvents (s.snapshotMessages ++ (onward (s.last_inc_seq_num_ + 1) q).updates) }) ∧
      (¬ NoGap (s.last_inc_seq_num_ + 1) q →
        Midway s incoming 0 q (c.recvMessage true (s.publishSnapshot[k]))) := by
  have hupdates : (begun s (k + 1)).updates = s.snapshotMessages := by
    unfold begun QueuedMarketUpdates.updates
    rw [hlast, List.take_length, List.map_map]
    exact publish_updates 0 s.snapshotMessages
  -- the message is the END, with the number of the last increment in it
  have hmsg : (s.publishSnapshot[k]).me_market_update_ =
      { type_ := .SNAPSHOT_END, order_id_ := s.last_inc_seq_num_ } := by
    have hget := (cycle_getElem hk).2
    have hplace : k = s.orderMessages.length + 1 := by
      rw [publishSnapshot_length] at hlast
      omega
    subst hplace
    rw [SnapshotSynthesizer.snapshotMessages_eq, List.getElem?_cons_succ,
      List.getElem?_concat_length] at hget
    exact (Option.some.inj hget).symm
  obtain ⟨u, hhead, hstart⟩ := begun_head (s := s) (Nat.succ_pos k)
  have hcheck := checkSnapshotSync_ends (c := { c with snapshot_queued_msgs_ := begun s (k + 1) })
    (h.incremental ▸ hasc) hhead hstart (begun_complete hk) (begun_getLast hk) (by
      show (s.publishSnapshot[k]).me_market_update_.type_ = _
      rw [hmsg])
  rw [h.recvMessage_cycle hk]
  simp only [entry, hmsg, hupdates, h.incoming, h.incremental, h.in_recovery] at hcheck ⊢
  refine ⟨hcheck.1, fun hno => ?_⟩
  obtain ⟨h₁, h₂, h₃, h₄⟩ := hcheck.2 hno
  exact ⟨h₁, h₂, h₃ ▸ .nil, fun hpos => absurd hpos (Nat.lt_irrefl 0), h₄⟩

/-! ## Datagrams -/

theorem recvCallback_of_recovery (h : c.in_recovery_ = true) (b : Bool)
    (ms : List MDPMarketUpdate) : c.recvCallback b ms = ms.foldl (recvMessage b) c := by
  rw [recvCallback, h, if_neg (by simp)]

theorem Midway.increments (h : Midway s incoming k q c) (ms : List MDPMarketUpdate) :
    Midway s incoming k (queued q ms) (ms.foldl (recvMessage false) c) := by
  induction ms generalizing q c with
  | nil => exact h
  | cons m ms ih => exact ih (h.increment m)

/-- The next messages of the cycle, as long as the END is not among them. -/
theorem Midway.snapshotMessages (h : Midway s incoming k q c) (hs : s.Keeps L)
    {ms : List MDPMarketUpdate} (hms : ms <+: s.publishSnapshot.drop k)
    (hk : k + ms.length < s.publishSnapshot.length) :
    Midway s incoming (k + ms.length) q (ms.foldl (recvMessage true) c) := by
  induction ms generalizing k c with
  | nil => exact h
  | cons m ms ih =>
    rw [List.length_cons] at hk
    have hlt : k < s.publishSnapshot.length := by omega
    rw [List.drop_eq_getElem_cons hlt, List.cons_prefix_cons] at hms
    obtain ⟨rfl, hms⟩ := hms
    have hnext := ih (h.snapshotMessage hs hlt (by omega)) hms (by omega)
    rwa [Nat.add_assoc, Nat.add_comm 1] at hnext

theorem Midway.datagrams (h : Midway s incoming k q c) (hs : s.Keeps L)
    {ds : List (Bool × List MDPMarketUpdate)}
    (hds : ofStream true ds <+: s.publishSnapshot.drop k)
    (hk : k + (ofStream true ds).length < s.publishSnapshot.length) :
    Midway s incoming (k + (ofStream true ds).length) (queued q (ofStream false ds))
      (c.recvAll ds) := by
  induction ds generalizing k q c with
  | nil => exact h
  | cons d ds ih =>
    obtain ⟨b, ms⟩ := d
    show Midway _ _ _ _ ((c.recvCallback b ms).recvAll ds)
    rw [recvCallback_of_recovery h.in_recovery]
    cases b with
    | false =>
      have hsplit : ofStream false ((false, ms) :: ds) = ms ++ ofStream false ds := rfl
      rw [hsplit, queued_append]
      exact ih (h.increments ms) hds hk
    | true =>
      have hsplit : ofStream true ((true, ms) :: ds) = ms ++ ofStream true ds := rfl
      rw [hsplit] at hds hk ⊢
      rw [List.length_append, ← Nat.add_assoc] at hk ⊢
      have hms := (List.prefix_append ms _).trans hds
      refine ih (h.snapshotMessages hs hms (by omega)) ?_ hk
      obtain ⟨rest, hrest⟩ := hds
      refine ⟨rest, ?_⟩
      rw [← List.drop_drop, ← hrest, List.append_assoc, List.drop_left]

end Cycle

/-- What a consumer in recovery, `c`, has become when the last message of a cycle of
`s` is processed, `q` being the increments queued by then. -/
structure CycleEnd (s : SnapshotSynthesizer) (q : QueuedMarketUpdates)
    (c c' : MarketDataConsumer) : Prop where
  /-- The recovery is over if no increment is missing. -/
  in_recovery : c'.in_recovery_ = false ↔ NoGap (s.last_inc_seq_num_ + 1) q
  /-- Then the snapshot is passed on and the increments behind it. -/
  ended : c'.in_recovery_ = false →
    c'.next_exp_inc_seq_num_ =
      s.last_inc_seq_num_ + 1 + (onward (s.last_inc_seq_num_ + 1) q).length ∧
    c'.incoming_md_updates_ = c.incoming_md_updates_ ++
      finalEvents (s.snapshotMessages ++ (onward (s.last_inc_seq_num_ + 1) q).updates)
  /-- Otherwise nothing is, and the increments stay queued for the next cycle. -/
  goes_on : c'.in_recovery_ = true →
    c'.incoming_md_updates_ = c.incoming_md_updates_ ∧ c'.incremental_queued_msgs_ = q

/-- **A recovery ends with a cycle exactly if no increment is missing behind it**,
whatever the consumer received before. -/
theorem recovery_ends_iff {past : List (Bool × List MDPMarketUpdate)}
    (hrec : (({} : MarketDataConsumer).recvAll past).in_recovery_ = true)
    {s : SnapshotSynthesizer} {L : LiveOrders} (hs : s.Keeps L)
    {ds : List (Bool × List MDPMarketUpdate)} {ms : List MDPMarketUpdate} (hne : ms ≠ [])
    (hcycle : ofStream true (ds ++ [(true, ms)]) = s.publishSnapshot) :
    CycleEnd s
      (queued (({} : MarketDataConsumer).recvAll past).incremental_queued_msgs_ (ofStream false ds))
      (({} : MarketDataConsumer).recvAll past)
      ((({} : MarketDataConsumer).recvAll past).recvAll (ds ++ [(true, ms)])) := by
  have hready := ready_init.recvAll past
  generalize ({} : MarketDataConsumer).recvAll past = c at hrec hready ⊢
  obtain ⟨body, last, rfl⟩ : ∃ body last, ms = body ++ [last] :=
    ⟨ms.dropLast, ms.getLast hne, (List.dropLast_append_getLast hne).symm⟩
  have hstart : Midway s c.incoming_md_updates_ 0 c.incremental_queued_msgs_ c :=
    ⟨hrec, rfl, hready.waiting, fun hpos => absurd hpos (Nat.lt_irrefl 0), rfl⟩
  have hwhole : (ofStream true ds ++ body) ++ [last] = s.publishSnapshot := by
    rw [← hcycle]
    simp [ofStream]
  have hlen := congrArg List.length hwhole
  rw [List.length_append, List.length_append, List.length_singleton] at hlen
  -- up to the last datagram, then up to the END
  have hds : ofStream true ds <+: s.publishSnapshot := by
    rw [← hwhole, List.append_assoc]
    exact List.prefix_append ..
  have hbefore := hstart.datagrams hs hds (by omega)
  have hbody : body <+: s.publishSnapshot.drop (0 + (ofStream true ds).length) := by
    rw [← hwhole, Nat.zero_add, List.append_assoc, List.drop_left]
    exact List.prefix_append ..
  have hnear := hbefore.snapshotMessages hs hbody (by omega)
  have hend := hnear.endMessage (ascending_queued hready.ascending _) (by omega) (by omega)
  have hplace : 0 + (ofStream true ds).length + body.length < s.publishSnapshot.length := by omega
  have hlast : s.publishSnapshot[0 + (ofStream true ds).length + body.length] = last := by
    simp only [← hwhole]
    exact List.getElem_concat_length (by simp) _
  have hrun : c.recvAll (ds ++ [(true, body ++ [last])]) =
      (body.foldl (recvMessage true) (c.recvAll ds)).recvMessage true last := by
    unfold recvAll
    rw [List.foldl_append]
    show (c.recvAll ds).recvCallback true (body ++ [last]) = _
    rw [recvCallback_of_recovery hbefore.in_recovery, List.foldl_append]
    rfl
  rw [hlast, ← hrun] at hend
  by_cases hno : NoGap (s.last_inc_seq_num_ + 1)
      (queued c.incremental_queued_msgs_ (ofStream false ds))
  · rw [hend.1 hno]
    exact ⟨iff_of_true rfl hno, fun _ => ⟨rfl, rfl⟩, fun h => absurd h (by simp)⟩
  · have hmid := hend.2 hno
    refine ⟨iff_of_false (by rw [hmid.in_recovery]; simp) hno, fun h => ?_, fun _ =>
      ⟨hmid.incoming, hmid.incremental⟩⟩
    rw [hmid.in_recovery] at h
    exact absurd h (by simp)

/-- Increment 1 is lost and a cycle taken after it arrives: the recovery ends there. -/
theorem recovery_ends_iff_lost : ∃ s c',
    SnapshotSynthesizer.init.addToSnapshot ⟨1, MarketDataFeed.restingOrder 10⟩ = .ok s ∧
    c' = (({} : MarketDataConsumer).recvAll [(false, publish 2 MarketDataFeed.fillUpdates)]).recvAll
      ([] ++ [(true, s.publishSnapshot)]) ∧
    c'.in_recovery_ = false ∧ c'.next_exp_inc_seq_num_ = 4 := by
  have hinit : SnapshotSynthesizer.init.Follows [MarketDataFeed.restingOrder 10] :=
    ⟨Nat.zero_le 1, SnapshotSynthesizer.keeps_init⟩
  obtain ⟨s, hs, hlast⟩ : ∃ s, SnapshotSynthesizer.init.addToSnapshot
      ⟨1, MarketDataFeed.restingOrder 10⟩ = .ok s ∧ s.last_inc_seq_num_ = 1 := ⟨_, rfl, rfl⟩
  have hfollows := hinit.addToSnapshot rfl (by decide) hs
  have hrec : (({} : MarketDataConsumer).recvAll
      [(false, publish 2 MarketDataFeed.fillUpdates)]).in_recovery_ = true := by decide
  have hne : s.publishSnapshot ≠ [] :=
    List.ne_nil_of_length_pos (by rw [publishSnapshot_length]; omega)
  have hcycle : ofStream true ([] ++ [(true, s.publishSnapshot)]) = s.publishSnapshot := by
    simp [ofStream]
  have hend := recovery_ends_iff hrec hfollows.2 hne hcycle
  have hover := hend.in_recovery.mpr (by rw [hlast]; decide)
  refine ⟨s, _, hs, rfl, hover, (hend.ended hover).1.trans ?_⟩
  rw [hlast]
  decide

end MarketDataConsumer

end LowLatency
