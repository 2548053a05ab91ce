import LowLatency.MarketData.LiveOrders
import LowLatency.MarketData.MarketDataConsumer
import LowLatency.Matcher.MatchingEngine
import LowLatency.Matcher.Sweep

/-!
# Gap recovery: two lossy streams and the live orders

The whole way of the market data: the matching engine writes updates, the
publisher numbers them and sends them in datagrams of one or more, the snapshot
synthesizer applies them and sends cycle after cycle of its own numbering, and
the consumer receives. A datagram that was sent may arrive at any time later,
any number of times, or never: `recvIncremental` and `recvSnapshot` take any
element of what was ever sent.

**Outside of recovery the consumer has passed on the live orders**, those after
the increments below the number it expects next, in every run in which no END
completes a queue that holds messages of another cycle (`gap_recovery_correct`).
The condition is needed. START and END carry the number of the last increment
applied, but the consumer looks at the one of END only, so the beginning of one
cycle and the end of a later one make a snapshot that no cycle was
(`gap_recovery_mixed`).

The proof rests on three invariants of single messages: what is queued of the
increments is part of the history, an increment never ends a recovery, and a
snapshot message ends it only as an END right behind the queue, which then is,
by the condition, the cycle of that END.
-/

namespace LowLatency

/-- The messages of a cycle as they are sent: `sendAndRecv` follows the `send` of
an order and of END, while START and CLEAR wait in the buffer. -/
def datagrams (outbound : List MDPMarketUpdate) :
    List MDPMarketUpdate → List (List MDPMarketUpdate)
  | [] => []
  | m :: ms =>
    if m.me_market_update_.type_ = .SNAPSHOT_START ∨ m.me_market_update_.type_ = .CLEAR then
      datagrams (outbound ++ [m]) ms
    else (outbound ++ [m]) :: datagrams [] ms

structure MarketDataFeed where
  engine : MatchingEngine
  /-- written by the matching engine and not yet read by the publisher -/
  outgoing_md_updates_ : List MEMarketUpdate
  /-- the increments: update `n` of these has number `n + 1` -/
  updates : List MEMarketUpdate
  /-- in the buffer of the incremental socket -/
  outbound : List MDPMarketUpdate
  /-- datagrams sent on the incremental stream -/
  incremental : List (List MDPMarketUpdate)
  synthesizer : SnapshotSynthesizer
  /-- datagrams sent on the snapshot stream, each behind the cycle it is of -/
  snapshot : List (List MDPMarketUpdate × List MDPMarketUpdate)
  consumer : MarketDataConsumer

namespace MarketDataFeed

def init : MarketDataFeed where
  engine := MatchingEngine.init
  outgoing_md_updates_ := []
  updates := []
  outbound := []
  incremental := []
  synthesizer := SnapshotSynthesizer.init
  snapshot := []
  consumer := {}

/-- One step, where `P` restricts the snapshot datagrams received. -/
inductive Step (P : List MDPMarketUpdate → MarketDataConsumer → List MDPMarketUpdate → Prop) :
    MarketDataFeed → MarketDataFeed → Prop
  /-- The matching engine processes a request. -/
  | process {σ : MarketDataFeed} (q : MEClientRequest) {e : MatchingEngine} {evs : List Event}
      (he : σ.engine.processClientRequest q = .ok (e, evs)) :
      Step P σ { σ with
        engine := e
        outgoing_md_updates_ := σ.outgoing_md_updates_ ++ LowLatency.updates evs }
  /-- The publisher numbers the next update. -/
  | publish {σ : MarketDataFeed} {u : MEMarketUpdate} {us : List MEMarketUpdate}
      (hu : σ.outgoing_md_updates_ = u :: us) :
      Step P σ { σ with
        outgoing_md_updates_ := us
        updates := σ.updates ++ [u]
        outbound := σ.outbound ++ [⟨σ.updates.length + 1, u⟩] }
  /-- The publisher sends what it has numbered. -/
  | flush {σ : MarketDataFeed} (hne : σ.outbound ≠ []) :
      Step P σ { σ with outbound := [], incremental := σ.incremental ++ [σ.outbound] }
  /-- The synthesizer applies the next increment. -/
  | addToSnapshot {σ : MarketDataFeed} {m : MDPMarketUpdate} {s : SnapshotSynthesizer}
      (hm : (LowLatency.publish 1 σ.updates)[σ.synthesizer.last_inc_seq_num_]? = some m)
      (hs : σ.synthesizer.addToSnapshot m = .ok s) :
      Step P σ { σ with synthesizer := s }
  /-- The synthesizer sends a cycle. -/
  | publishSnapshot {σ : MarketDataFeed} :
      Step P σ { σ with
        snapshot := σ.snapshot ++
          (datagrams [] σ.synthesizer.publishSnapshot).map (σ.synthesizer.publishSnapshot, ·) }
  /-- A datagram arrives on the incremental stream. -/
  | recvIncremental {σ : MarketDataFeed} (ms : List MDPMarketUpdate) (hms : ms ∈ σ.incremental) :
      Step P σ { σ with consumer := σ.consumer.recvCallback false ms }
  /-- A datagram arrives on the snapshot stream. -/
  | recvSnapshot {σ : MarketDataFeed} (cycle ms : List MDPMarketUpdate)
      (hms : (cycle, ms) ∈ σ.snapshot) (hP : P cycle σ.consumer ms) :
      Step P σ { σ with consumer := σ.consumer.recvCallback true ms }

/-- The states of the runs whose steps all meet `P`. -/
inductive Reachable (P : List MDPMarketUpdate → MarketDataConsumer → List MDPMarketUpdate → Prop) :
    MarketDataFeed → Prop
  | init : Reachable P init
  | step {σ σ' : MarketDataFeed} : Reachable P σ → Step P σ σ' → Reachable P σ'

/-- What the consumer has passed on leaves the live orders in every book. -/
def Delivered (σ : MarketDataFeed) : Prop :=
  σ.consumer.in_recovery_ = false → ∀ t < ME_MAX_TICKERS,
    LiveOrders.empty.replayAll σ.consumer.incoming_md_updates_ t =
      LiveOrders.live σ.updates (σ.consumer.next_exp_inc_seq_num_ - 1) t

end MarketDataFeed

/-! ## The condition -/

namespace MarketDataConsumer

/-- `m` is the END that completes the snapshot queue, and behind START there is a
message in it that the cycle of `m` does not have. -/
def Mixes (cycle : List MDPMarketUpdate) (c : MarketDataConsumer) (m : MDPMarketUpdate) : Prop :=
  c.in_recovery_ = true ∧ m.me_market_update_.type_ = .SNAPSHOT_END ∧
    m.seq_num_ = c.snapshot_queued_msgs_.length ∧
    ∃ p ∈ c.snapshot_queued_msgs_, p.1 ≠ 0 ∧ (⟨p.1, p.2⟩ : MDPMarketUpdate) ∉ cycle

instance (cycle : List MDPMarketUpdate) (c : MarketDataConsumer) (m : MDPMarketUpdate) :
    Decidable (c.Mixes cycle m) :=
  inferInstanceAs (Decidable (_ ∧ _ ∧ _ ∧ ∃ p ∈ c.snapshot_queued_msgs_, _))

/-- No message of the datagram does. -/
def UnmixedAlong (cycle : List MDPMarketUpdate) :
    MarketDataConsumer → List MDPMarketUpdate → Prop
  | _, [] => True
  | c, m :: ms => ¬ c.Mixes cycle m ∧ UnmixedAlong cycle (c.recvMessage true m) ms

instance (cycle : List MDPMarketUpdate) : ∀ (c : MarketDataConsumer) (ms : List MDPMarketUpdate),
    Decidable (UnmixedAlong cycle c ms)
  | _, [] => inferInstanceAs (Decidable True)
  | c, m :: ms =>
    have := instDecidableUnmixedAlong cycle (c.recvMessage true m) ms
    inferInstanceAs (Decidable (_ ∧ _))

/-- A datagram that is not discarded mixes no cycles. -/
def Unmixed (cycle : List MDPMarketUpdate) (c : MarketDataConsumer) (ms : List MDPMarketUpdate) :
    Prop :=
  c.in_recovery_ = true → UnmixedAlong cycle c ms

/-! ## What the consumer has of the history -/

open QueuedMarketUpdates (Waiting)

/-- `u` is the increment with number `i`. -/
def Numbered (us : List MEMarketUpdate) (i : Nat) (u : MEMarketUpdate) : Prop :=
  1 ≤ i ∧ us[i - 1]? = some u

/-- The consumer's state in terms of the increments published so far. -/
structure Tracks (us : List MEMarketUpdate) (c : MarketDataConsumer) : Prop where
  waiting : Waiting c.snapshot_queued_msgs_
  queued : ∀ p ∈ c.incremental_queued_msgs_, Numbered us p.1 p.2
  book : c.in_recovery_ = false → 1 ≤ c.next_exp_inc_seq_num_ ∧
    c.next_exp_inc_seq_num_ - 1 ≤ us.length ∧ ∀ t < ME_MAX_TICKERS,
      LiveOrders.empty.replayAll c.incoming_md_updates_ t =
        LiveOrders.live us (c.next_exp_inc_seq_num_ - 1) t

theorem tracks_init : Tracks [] {} where
  waiting := .nil
  queued := fun _ h => absurd h (by simp)
  book := fun _ => ⟨Nat.le_refl 1, Nat.le_refl 0, fun _ _ => rfl⟩

section

variable {us : List MEMarketUpdate} {c : MarketDataConsumer}

theorem Numbered.append {i : Nat} {u : MEMarketUpdate} (h : Numbered us i u)
    (vs : List MEMarketUpdate) : Numbered (us ++ vs) i u := by
  refine ⟨h.1, ?_⟩
  rw [List.getElem?_append_left (List.getElem?_eq_some_iff.mp h.2).1]
  exact h.2

/-- More increments are published. -/
theorem Tracks.append (h : Tracks us c) (vs : List MEMarketUpdate) : Tracks (us ++ vs) c where
  waiting := h.waiting
  queued := fun p hp => (h.queued p hp).append vs
  book := by
    intro hrec
    obtain ⟨h₁, h₂, h₃⟩ := h.book hrec
    refine ⟨h₁, Nat.le_trans h₂ (by simp), ?_⟩
    rw [LiveOrders.live_append h₂]
    exact h₃

/-- Nothing is passed on during a recovery. -/
theorem Tracks.quiet {c' : MarketDataConsumer} (hq : Quiet c c')
    (hrec : c.in_recovery_ = true) (hinc : ∀ p ∈ c.incremental_queued_msgs_, Numbered us p.1 p.2) :
    Tracks us c' where
  waiting := hq.waiting
  queued := by
    rw [hq.incremental]
    exact hinc
  book := by
    intro hn
    rw [hq.in_recovery, hrec] at hn
    exact absurd hn (by simp)

/-- At the start of a recovery. -/
theorem tracks_startSnapshotSync (us : List MEMarketUpdate) (c : MarketDataConsumer) :
    Tracks us { c.startSnapshotSync with in_recovery_ := true } where
  waiting := .nil
  queued := fun _ h => absurd h (by simp [startSnapshotSync])
  book := fun h => absurd h (by simp)

theorem Tracks.queueMessage_incremental (h : Tracks us c) (hrec : c.in_recovery_ = true)
    {m : MDPMarketUpdate} (hm : Numbered us m.seq_num_ m.me_market_update_) :
    Tracks us (c.queueMessage false m) := by
  refine .quiet (MarketDataConsumer.queueMessage_incremental h.waiting m) hrec fun p hp => ?_
  rcases QueuedMarketUpdates.mem_assign hp with rfl | hp
  · exact hm
  · exact h.queued p hp

/-- **One message of the incremental stream.** -/
theorem Tracks.recvMessage_incremental (h : Tracks us c) {m : MDPMarketUpdate}
    (hm : Numbered us m.seq_num_ m.me_market_update_) : Tracks us (c.recvMessage false m) := by
  unfold recvMessage
  split
  next hrec => exact h.queueMessage_incremental hrec hm
  split
  · exact (tracks_startSnapshotSync us c).queueMessage_incremental rfl hm
  next hrec hseq =>
    -- the number expected: the update is passed on
    have hseq := not_not.mp hseq
    obtain ⟨h₁, h₂, h₃⟩ := h.book (by simpa using hrec)
    have hget := hm.2
    rw [hseq] at hget
    have hlt := (List.getElem?_eq_some_iff.mp hget).1
    refine ⟨h.waiting, h.queued, fun _ => ⟨by simp, ?_, fun t ht => ?_⟩⟩
    · show c.next_exp_inc_seq_num_ + 1 - 1 ≤ us.length
      omega
    · show LiveOrders.empty.replayAll (c.incoming_md_updates_ ++ [m.me_market_update_]) t =
        LiveOrders.live us (c.next_exp_inc_seq_num_ + 1 - 1) t
      have hn : c.next_exp_inc_seq_num_ + 1 - 1 = c.next_exp_inc_seq_num_ - 1 + 1 := by omega
      rw [hn, LiveOrders.live_succ hget, LiveOrders.replayAll_append]
      exact LiveOrders.replay_congr (h₃ t ht) _

/-! ## A completed snapshot -/

/-- A complete queue is a cycle up to its START as soon as it has no message of
another one. -/
theorem updates_of_cycle {s : SnapshotSynthesizer} {L : LiveOrders} (hs : s.Keeps L)
    {p : Nat × MEMarketUpdate} {q : QueuedMarketUpdates} {m : MDPMarketUpdate}
    (hcomplete : QueuedMarketUpdates.complete 0 (p :: q) = true)
    (hlen : m.seq_num_ = (p :: q).length) (hm : m ∈ s.publishSnapshot)
    (hend : m.me_market_update_.type_ = .SNAPSHOT_END)
    (hcycle : ∀ x ∈ p :: q, x.1 ≠ 0 → (⟨x.1, x.2⟩ : MDPMarketUpdate) ∈ s.publishSnapshot) :
    QueuedMarketUpdates.updates q = s.orderMessages ∧
      m.me_market_update_.order_id_ = s.last_inc_seq_num_ := by
  obtain ⟨hplace, hid⟩ := hs.snapshot_end (mem_publish.mp hm).2 hend
  have hl : q.length = s.orderMessages.length := by
    rw [hlen, List.length_cons] at hplace
    simpa using hplace
  refine ⟨?_, hid⟩
  unfold QueuedMarketUpdates.updates
  refine List.ext_getElem (by simpa using hl) fun i hi hi' => ?_
  have hiq : i < q.length := by simpa using hi
  -- the message at place `i + 1` has that number, so the cycle has it there too
  have hnum : (q[i]).1 = i + 1 :=
    QueuedMarketUpdates.complete.getElem hcomplete (i := i + 1) (by simpa using hiq)
  have hin := (mem_publish.mp (hcycle q[i] (List.mem_cons_of_mem _ (List.getElem_mem hiq))
    (by omega))).2
  rw [SnapshotSynthesizer.snapshotMessages_eq] at hin
  simp only [hnum, Nat.sub_zero, List.getElem?_cons_succ] at hin
  rw [List.getElem?_append_left hi', List.getElem?_eq_getElem hi'] at hin
  rw [List.getElem_map]
  exact (Option.some.inj hin).symm

/-- **The end of a recovery**: the snapshot and the increments behind it give the
live orders. -/
theorem Tracks.recovers (h : Tracks us c) {s : SnapshotSynthesizer} (hs : s.Follows us)
    {m : MDPMarketUpdate} (hm : m ∈ s.publishSnapshot)
    (hseq : m.seq_num_ = c.snapshot_queued_msgs_.length)
    (hcycle : ∀ p ∈ c.snapshot_queued_msgs_, p.1 ≠ 0 →
      (⟨p.1, p.2⟩ : MDPMarketUpdate) ∈ s.publishSnapshot)
    {c' : MarketDataConsumer} (hr : Recovers { c with
      snapshot_queued_msgs_ := c.snapshot_queued_msgs_ ++ [(m.seq_num_, m.me_market_update_)] }
      m.me_market_update_ c') : Tracks us c' := by
  obtain ⟨evs, happ, hin⟩ := hr.result
  refine ⟨hr.snapshot ▸ .nil, fun p hp => ?_, fun _ => ?_⟩
  · rw [hr.incremental] at hp
    exact absurd hp (by simp)
  cases hq : c.snapshot_queued_msgs_ with
  | nil =>
    -- an END alone: it would have to be the START as well
    obtain ⟨p, hp, hstart⟩ := hr.first
    have hp' : some (m.seq_num_, m.me_market_update_) = some p := by
      rw [← hp]
      show _ = (c.snapshot_queued_msgs_ ++ [(m.seq_num_, m.me_market_update_)]).head?
      rw [hq]
      rfl
    obtain rfl := Option.some.inj hp'
    rw [hr.is_end] at hstart
    exact absurd hstart (by simp)
  | cons p q =>
    obtain ⟨x, hx, hstart⟩ := hr.first
    have hxp : some p = some x := by
      rw [← hx]
      show _ = (c.snapshot_queued_msgs_ ++ [(m.seq_num_, m.me_market_update_)]).head?
      rw [hq]
      rfl
    obtain rfl := Option.some.inj hxp
    obtain ⟨hupd, hid⟩ := updates_of_cycle hs.2 (hq ▸ h.waiting.complete) (hq ▸ hseq) hm hr.is_end
      (hq ▸ hcycle)
    have happ' : c.incremental_queued_msgs_.applicable (s.last_inc_seq_num_ + 1) =
        (c'.next_exp_inc_seq_num_, some evs) := by
      rw [← hid]
      exact happ
    obtain ⟨h₁, h₂, h₃⟩ := QueuedMarketUpdates.applicable_eq h.queued hs.1 happ'
    refine ⟨h₁, h₂, fun t ht => ?_⟩
    have hqueue : QueuedMarketUpdates.updates
        (c.snapshot_queued_msgs_ ++ [(m.seq_num_, m.me_market_update_)]) =
        p.2 :: (s.orderMessages ++ [m.me_market_update_]) := by
      rw [hq, ← hupd]
      simp [QueuedMarketUpdates.updates]
    rw [hin, LiveOrders.replayAll_append, LiveOrders.replayAll_finalEvents]
    show LiveOrders.replayAll _ (QueuedMarketUpdates.updates
      (c.snapshot_queued_msgs_ ++ [(m.seq_num_, m.me_market_update_)]) ++ evs) t = _
    rw [hqueue, List.cons_append, LiveOrders.replayAll_cons,
      LiveOrders.replay_of_mark (Or.inl hstart), List.append_assoc, LiveOrders.replayAll_append,
      List.singleton_append, LiveOrders.replayAll_cons,
      LiveOrders.replay_of_mark (Or.inr hr.is_end)]
    unfold LiveOrders.live
    rw [← h₃, LiveOrders.replayAll_append]
    exact LiveOrders.replayAll_congr (hs.2.replay_orderMessages _ ht) evs

/-- **One message of the snapshot stream**, of a cycle that the queue is not mixed
with. -/
theorem Tracks.recvMessage_snapshot (h : Tracks us c) {s : SnapshotSynthesizer}
    (hs : s.Follows us) {m : MDPMarketUpdate} (hm : m ∈ s.publishSnapshot)
    (hmix : ¬ c.Mixes s.publishSnapshot m) : Tracks us (c.recvMessage true m) := by
  unfold recvMessage
  split
  next hrec =>
    rcases MarketDataConsumer.queueMessage_snapshot h.waiting m with hq | ⟨hseq, hr⟩
    · exact .quiet hq hrec h.queued
    · refine h.recovers hs hm hseq (fun p hp hne => ?_) hr
      by_contra hnot
      exact hmix ⟨hrec, hr.is_end, hseq, p, hp, hne, hnot⟩
  split
  · -- a queue of one message is no snapshot
    rcases MarketDataConsumer.queueMessage_snapshot (tracks_startSnapshotSync us c).waiting m with
      hq | ⟨hseq, hr⟩
    · exact .quiet hq rfl (tracks_startSnapshotSync us c).queued
    · exact (tracks_startSnapshotSync us c).recovers hs hm hseq
        (fun p hp _ => absurd hp (by simp [startSnapshotSync])) hr
  · exact h

/-- **A datagram of the incremental stream.** -/
theorem Tracks.recvCallback_incremental (h : Tracks us c) {ms : List MDPMarketUpdate}
    (hms : ∀ m ∈ ms, Numbered us m.seq_num_ m.me_market_update_) :
    Tracks us (c.recvCallback false ms) := by
  show Tracks us (ms.foldl (recvMessage false) c)
  induction ms generalizing c with
  | nil => exact h
  | cons m ms ih =>
    exact ih (h.recvMessage_incremental (hms m (List.mem_cons_self ..)))
      fun m' hm' => hms m' (List.mem_cons_of_mem _ hm')

/-- **A datagram of the snapshot stream.** -/
theorem Tracks.recvCallback_snapshot (h : Tracks us c) {s : SnapshotSynthesizer}
    (hs : s.Follows us) {ms : List MDPMarketUpdate} (hms : ∀ m ∈ ms, m ∈ s.publishSnapshot)
    (hmix : Unmixed s.publishSnapshot c ms) : Tracks us (c.recvCallback true ms) := by
  unfold recvCallback
  split
  · exact h
  next hrec =>
    have halong := hmix (by simpa using hrec)
    clear hrec hmix
    induction ms generalizing c with
    | nil => exact h
    | cons m ms ih =>
      exact ih (h.recvMessage_snapshot hs (hms m (List.mem_cons_self ..)) halong.1)
        (fun m' hm' => hms m' (List.mem_cons_of_mem _ hm')) halong.2

end

end MarketDataConsumer

/-! ## Runs -/

theorem mem_datagrams {outbound ms d : List MDPMarketUpdate} (hd : d ∈ datagrams outbound ms)
    {m : MDPMarketUpdate} (hm : m ∈ d) : m ∈ outbound ∨ m ∈ ms := by
  induction ms generalizing outbound with
  | nil => exact absurd hd (by simp [datagrams])
  | cons x ms ih =>
    unfold datagrams at hd
    split at hd
    · rcases ih hd with h | h
      · rcases List.mem_append.mp h with h | h
        · exact Or.inl h
        · exact Or.inr (by rw [List.mem_singleton.mp h]; exact List.mem_cons_self ..)
      · exact Or.inr (List.mem_cons_of_mem _ h)
    · rcases List.mem_cons.mp hd with rfl | hd
      · rcases List.mem_append.mp hm with h | h
        · exact Or.inl h
        · exact Or.inr (by rw [List.mem_singleton.mp h]; exact List.mem_cons_self ..)
      · rcases ih hd with h | h
        · exact absurd h (by simp)
        · exact Or.inr (List.mem_cons_of_mem _ h)

theorem MatchingEngine.processClientRequest_incremental {e e' : MatchingEngine}
    {q : MEClientRequest} {evs : List Event} (h : e.processClientRequest q = .ok (e', evs)) :
    AllIncremental evs := by
  obtain ⟨_, s, hrun, _⟩ := MatchingEngine.processClientRequest_inv h
  exact LowLatency.processClientRequest_incremental hrun

namespace MarketDataFeed

open MarketDataConsumer (Tracks Unmixed Numbered)

/-- What holds between any two steps. -/
structure Inv (σ : MarketDataFeed) : Prop where
  outgoing : ∀ u ∈ σ.outgoing_md_updates_, Incremental u
  updates : ∀ u ∈ σ.updates, Incremental u
  outbound : ∀ m ∈ σ.outbound, Numbered σ.updates m.seq_num_ m.me_market_update_
  incremental : ∀ ms ∈ σ.incremental, ∀ m ∈ ms,
    Numbered σ.updates m.seq_num_ m.me_market_update_
  synthesizer : σ.synthesizer.Follows σ.updates
  snapshot : ∀ x ∈ σ.snapshot, ∃ s : SnapshotSynthesizer, s.Follows σ.updates ∧
    x.1 = s.publishSnapshot ∧ ∀ m ∈ x.2, m ∈ x.1
  consumer : Tracks σ.updates σ.consumer

theorem inv_init : Inv init where
  outgoing := fun _ h => absurd h (by simp [init])
  updates := fun _ h => absurd h (by simp [init])
  outbound := fun _ h => absurd h (by simp [init])
  incremental := fun _ h => absurd h (by simp [init])
  synthesizer := ⟨Nat.le_refl 0, SnapshotSynthesizer.keeps_init⟩
  snapshot := fun _ h => absurd h (by simp [init])
  consumer := MarketDataConsumer.tracks_init

variable {σ σ' : MarketDataFeed}

/-- A new increment leaves everything known of the old ones as it is. -/
theorem Inv.publish (h : Inv σ) {u : MEMarketUpdate} {us : List MEMarketUpdate}
    (hu : σ.outgoing_md_updates_ = u :: us) : Inv { σ with
      outgoing_md_updates_ := us
      updates := σ.updates ++ [u]
      outbound := σ.outbound ++ [⟨σ.updates.length + 1, u⟩] } where
  outgoing := fun v hv => h.outgoing v (hu ▸ List.mem_cons_of_mem u hv)
  updates := by
    intro v hv
    rcases List.mem_append.mp hv with hv | hv
    · exact h.updates v hv
    · rw [List.mem_singleton.mp hv]
      exact h.outgoing u (hu ▸ List.mem_cons_self ..)
  outbound := by
    intro m hm
    rcases List.mem_append.mp hm with hm | hm
    · exact (h.outbound m hm).append [u]
    · rw [List.mem_singleton.mp hm]
      refine ⟨Nat.le_add_left 1 _, ?_⟩
      show (σ.updates ++ [u])[σ.updates.length + 1 - 1]? = some u
      rw [Nat.add_sub_cancel, List.getElem?_concat_length]
  incremental := fun ms hms m hm => (h.incremental ms hms m hm).append [u]
  synthesizer := h.synthesizer.append [u]
  snapshot := by
    intro x hx
    obtain ⟨s, hs, hrest⟩ := h.snapshot x hx
    exact ⟨s, hs.append [u], hrest⟩
  consumer := h.consumer.append [u]

/-- **Every step keeps the invariant.** -/
theorem Inv.step (h : Inv σ) (hstep : Step Unmixed σ σ') : Inv σ' := by
  cases hstep with
  | process q he =>
    refine ⟨fun u hu => ?_, h.updates, h.outbound, h.incremental, h.synthesizer, h.snapshot,
      h.consumer⟩
    rcases List.mem_append.mp hu with hu | hu
    · exact h.outgoing u hu
    · exact (MatchingEngine.processClientRequest_incremental he).updates hu
  | publish hu => exact h.publish hu
  | flush hne =>
    refine ⟨h.outgoing, h.updates, fun _ hm => absurd hm (by simp), fun ms hms => ?_,
      h.synthesizer, h.snapshot, h.consumer⟩
    rcases List.mem_append.mp hms with hms | hms
    · exact h.incremental ms hms
    · rw [List.mem_singleton.mp hms]
      exact h.outbound
  | @addToSnapshot m s hm hs =>
    refine ⟨h.outgoing, h.updates, h.outbound, h.incremental, ?_, h.snapshot, h.consumer⟩
    -- the synthesizer reads the increments as they were published
    have hget : σ.updates[σ.synthesizer.last_inc_seq_num_]? = some m.me_market_update_ := by
      have hmap := congrArg (Option.map MDPMarketUpdate.me_market_update_) hm
      rwa [← List.getElem?_map, publish_updates] at hmap
    refine h.synthesizer.addToSnapshot hget (fun hclear => ?_) hs
    -- the engine sends no `CLEAR`
    have hinc := h.updates _ (List.mem_of_getElem? hget)
    unfold Incremental at hinc
    rw [hclear] at hinc
    exact absurd hinc (by simp)
  | publishSnapshot =>
    refine ⟨h.outgoing, h.updates, h.outbound, h.incremental, h.synthesizer, fun x hx => ?_,
      h.consumer⟩
    rcases List.mem_append.mp hx with hx | hx
    · exact h.snapshot x hx
    · obtain ⟨d, hd, rfl⟩ := List.mem_map.mp hx
      -- the datagrams of a cycle carry its own messages
      refine ⟨σ.synthesizer, h.synthesizer, rfl, fun m hm => ?_⟩
      exact (mem_datagrams hd hm).resolve_left (by simp)
  | recvIncremental ms hms =>
    exact ⟨h.outgoing, h.updates, h.outbound, h.incremental, h.synthesizer, h.snapshot,
      h.consumer.recvCallback_incremental (h.incremental ms hms)⟩
  | recvSnapshot cycle ms hms hmix =>
    refine ⟨h.outgoing, h.updates, h.outbound, h.incremental, h.synthesizer, h.snapshot, ?_⟩
    obtain ⟨s, hs, rfl, hin⟩ := h.snapshot _ hms
    exact h.consumer.recvCallback_snapshot hs hin hmix

theorem Reachable.inv (h : Reachable Unmixed σ) : Inv σ := by
  induction h with
  | init => exact inv_init
  | step _ hstep ih => exact ih.step hstep

/-- **Gap recovery delivers the live orders** unless it mixes two cycles: in
every run in which no END completes a snapshot queue with messages of another
cycle, whatever is lost, duplicated or reordered, all that was passed on leaves
outside of recovery the live orders after the increments below the next number
expected. -/
theorem gap_recovery_correct (h : Reachable Unmixed σ) : Delivered σ := fun hrec =>
  (h.inv.consumer.book hrec).2.2

/-! ## Two cycles around a fill -/

/-- The sell order that rests, with quantity `qty`. -/
def restingOrder (qty : Nat) : MEMarketUpdate where
  type_ := .ADD
  order_id_ := 1
  ticker_id_ := 0
  side_ := .SELL
  price_ := 100
  qty_ := qty
  priority_ := 1

/-- Its fill of 4. -/
def fillUpdates : List MEMarketUpdate :=
  [{ type_ := .TRADE, ticker_id_ := 0, side_ := .BUY, price_ := 100, qty_ := 4 },
    { restingOrder 6 with type_ := .MODIFY }]

/-- The first datagram of a cycle after `n` increments, up to the order. -/
def cycleHead (n qty : Nat) : List MDPMarketUpdate :=
  publish 0 [{ type_ := .SNAPSHOT_START, order_id_ := n }, { type_ := .CLEAR, ticker_id_ := 0 },
    restingOrder qty]

/-- The second one. -/
def cycleTail (n : Nat) : List MDPMarketUpdate :=
  publish 3 (((List.range' 1 7).map fun t => { type_ := .CLEAR, ticker_id_ := t }) ++
    [{ type_ := .SNAPSHOT_END, order_id_ := n }])

theorem filterMap_range_single {β : Type} {n a : Nat} (h : a < n) (x : β) :
    ((List.range n).filterMap fun i => if i = a then some x else none) = [x] := by
  induction n with
  | zero => exact absurd h (by omega)
  | succ n ih =>
    rw [List.range_succ, List.filterMap_append]
    by_cases ha : a < n
    · have hna : n ≠ a := by omega
      rw [ih ha]
      simp [hna]
    · obtain rfl : a = n := by omega
      have hnil : ((List.range a).filterMap fun i => if i = a then some x else none) = [] := by
        rw [List.filterMap_eq_nil_iff]
        intro i hi
        exact if_neg (List.mem_range.mp hi).ne
      rw [hnil]
      simp

/-- The cycle of a synthesizer that has this order only. -/
theorem publishSnapshot_single {s : SnapshotSynthesizer} {p n qty : Nat}
    (htab : ∀ t i, s.ticker_orders_ t i = if t = 0 ∧ i = 1 then some p else none)
    (hget : s.order_pool_.get p = restingOrder qty) (hlast : s.last_inc_seq_num_ = n) :
    s.publishSnapshot = cycleHead n qty ++ cycleTail n := by
  have hzero : s.tickerOrders 0 = [restingOrder qty] := by
    unfold SnapshotSynthesizer.tickerOrders
    rw [← filterMap_range_single (show 1 < ME_MAX_ORDER_IDS by decide) (restingOrder qty)]
    refine List.filterMap_congr fun i _ => ?_
    rw [htab]
    by_cases hi : i = 1
    · rw [if_pos ⟨rfl, hi⟩, if_pos hi, Option.map_some, hget]
    · rw [if_neg fun h => hi h.2, if_neg hi]
      rfl
  have hother : ∀ t, t ≠ 0 → s.tickerOrders t = [] := by
    intro t ht
    unfold SnapshotSynthesizer.tickerOrders
    rw [List.filterMap_eq_nil_iff]
    intro i _
    rw [htab, if_neg fun h => ht h.1]
    rfl
  have hbody : s.orderMessages = [{ type_ := .CLEAR, ticker_id_ := 0 }, restingOrder qty] ++
      (List.range' 1 7).map fun t => { type_ := .CLEAR, ticker_id_ := t } := by
    unfold SnapshotSynthesizer.orderMessages
    show ([0, 1, 2, 3, 4, 5, 6, 7] : List Nat).flatMap _ = _
    simp only [List.flatMap_cons, List.flatMap_nil, hzero, hother 1 (by decide),
      hother 2 (by decide), hother 3 (by decide), hother 4 (by decide), hother 5 (by decide),
      hother 6 (by decide), hother 7 (by decide)]
    rfl
  unfold SnapshotSynthesizer.publishSnapshot
  rw [SnapshotSynthesizer.snapshotMessages_eq, hbody, hlast]
  rfl

/-- It goes out in two datagrams. -/
theorem datagrams_single {s : SnapshotSynthesizer} {p n qty : Nat}
    (htab : ∀ t i, s.ticker_orders_ t i = if t = 0 ∧ i = 1 then some p else none)
    (hget : s.order_pool_.get p = restingOrder qty) (hlast : s.last_inc_seq_num_ = n) :
    (datagrams [] s.publishSnapshot).map (s.publishSnapshot, ·) =
      [(cycleHead n qty ++ cycleTail n, cycleHead n qty),
        (cycleHead n qty ++ cycleTail n, cycleTail n)] := by
  rw [publishSnapshot_single htab hget hlast]
  rfl

/-- Both cycles are sent, and the increments in two datagrams. -/
theorem two_cycles_sent
    (P : List MDPMarketUpdate → MarketDataConsumer → List MDPMarketUpdate → Prop) :
    ∃ σ, Reachable P σ ∧ σ.consumer = {} ∧ σ.updates = restingOrder 10 :: fillUpdates ∧
      σ.incremental = [publish 1 [restingOrder 10], publish 2 fillUpdates] ∧
      σ.snapshot = [(cycleHead 1 10 ++ cycleTail 1, cycleHead 1 10),
        (cycleHead 1 10 ++ cycleTail 1, cycleTail 1),
        (cycleHead 3 6 ++ cycleTail 3, cycleHead 3 6),
        (cycleHead 3 6 ++ cycleTail 3, cycleTail 3)] := by
  have h₁ := (@Reachable.init P).step (.process ⟨.NEW, 1, 0, 7, .SELL, 100, 10⟩ rfl)
  have h₂ := h₁.step (.publish rfl)
  have h₃ := h₂.step (.flush (List.cons_ne_nil _ _))
  have h₄ := h₃.step (.addToSnapshot rfl rfl)
  have h₅ := h₄.step .publishSnapshot
  have h₆ := h₅.step (.process ⟨.NEW, 2, 0, 9, .BUY, 100, 4⟩ rfl)
  have h₇ := h₆.step (.publish rfl)
  have h₈ := h₇.step (.publish rfl)
  have h₉ := h₈.step (.flush (List.cons_ne_nil _ _))
  have h₁₀ := h₉.step (.addToSnapshot rfl rfl)
  have h₁₁ := h₁₀.step (.addToSnapshot rfl rfl)
  have h₁₂ := h₁₁.step .publishSnapshot
  have htab : ∀ t i, SnapshotSynthesizer.init.setOrder 0 1 (some 0) t i =
      if t = 0 ∧ i = 1 then some 0 else none := setOrder_apply SnapshotSynthesizer.init 0 1 (some 0)
  refine ⟨_, h₁₂, rfl, rfl, rfl, ?_⟩
  show ([] ++ List.map _ _) ++ List.map _ _ = ([] ++ [_, _]) ++ [_, _]
  refine congrArg₂ List.append (congrArg (List.append []) ?_) ?_
  · exact datagrams_single htab rfl rfl
  · exact datagrams_single htab rfl rfl

/-- The consumer loses the first increment and recovers from the second cycle. -/
theorem gap_recovery_correct_second_cycle : ∃ σ, Reachable Unmixed σ ∧
    σ.consumer.in_recovery_ = false ∧ σ.consumer.next_exp_inc_seq_num_ = 4 ∧
    σ.consumer.incoming_md_updates_.length = 9 ∧ Delivered σ := by
  obtain ⟨σ, h, hc, _, hi, hs⟩ := two_cycles_sent Unmixed
  have h₁ := h.step (.recvIncremental (publish 2 fillUpdates) (by rw [hi]; decide))
  have h₂ := h₁.step (.recvSnapshot (cycleHead 3 6 ++ cycleTail 3) (cycleHead 3 6)
    (by show _ ∈ σ.snapshot; rw [hs]; decide) (by
      show Unmixed _ (σ.consumer.recvCallback false _) _
      rw [hc]
      intro _
      decide))
  have h₃ := h₂.step (.recvSnapshot (cycleHead 3 6 ++ cycleTail 3) (cycleTail 3)
    (by show _ ∈ σ.snapshot; rw [hs]; decide) (by
      show Unmixed _ ((σ.consumer.recvCallback false _).recvCallback true _) _
      rw [hc]
      intro _
      decide))
  refine ⟨_, h₃, ?_, ?_, ?_, gap_recovery_correct h₃⟩
  all_goals
    dsimp only
    rw [hc]
    decide

/-- Of the first cycle only the first datagram arrives, and of the second only
the second: the consumer passes on the order as it was before the fill, and goes
on with the increments after it. -/
theorem gap_recovery_mixed : ∃ σ, Reachable (fun _ _ _ => True) σ ∧ ¬ Delivered σ := by
  obtain ⟨σ, h, hc, hu, hi, hs⟩ := two_cycles_sent fun _ _ _ => True
  have h₁ := h.step (.recvIncremental (publish 2 fillUpdates) (by rw [hi]; decide))
  have h₂ := h₁.step (.recvSnapshot (cycleHead 1 10 ++ cycleTail 1) (cycleHead 1 10)
    (by show _ ∈ σ.snapshot; rw [hs]; decide) trivial)
  have h₃ := h₂.step (.recvSnapshot (cycleHead 3 6 ++ cycleTail 3) (cycleTail 3)
    (by show _ ∈ σ.snapshot; rw [hs]; decide) trivial)
  refine ⟨_, h₃, fun hd => ?_⟩
  unfold Delivered at hd
  dsimp only at hd
  rw [hc, hu] at hd
  have hqty := congrArg (Option.map OrderData.qty_) (congrFun (hd (by decide) 0 (by decide)) 1)
  exact absurd hqty (by decide)

end MarketDataFeed

end LowLatency
