import LowLatency.Common.LFQueue
import LowLatency.MarketData.SnapshotSynthesizer

/-!
# `MarketDataPublisher::run`: one slot, read twice

`src/exchange/market_data/market_data_publisher.cpp`. The publisher takes a
pointer to the oldest update in the queue, sends what it points at on the
incremental socket, gives the slot back (`updateReadIndex`) and then reads the
same pointer a second time, for the snapshot synthesizer. The matching engine
fills slots meanwhile, each after it has seen `size() < capacity`.

Between the release and the second read the slot belongs to the producer. It is
the *last* slot the producer gets to: it is reached only when every other slot
is taken, so the second read finds the update that was sent unless the producer
filled a slot in that window while all the others were occupied. `Spaced` says
that this does not happen; under it both feeds carry the same updates under the
same numbers (`publisher_feeds_agree`), and with a full queue they need not
(`publisher_feeds_differ`).
-/

namespace LowLatency

/-- Where the publisher is: about to call `getNextToRead`, at the loop test, or
at one of the accesses of an iteration, with the pointer `market_update`. -/
inductive PublisherPc
  | next
  | testing (market_update : Option Nat)
  | sending (market_update : Nat)
  | storing (market_update : Nat)
  | checking (market_update : Nat)
  | counting (market_update : Nat)
  | forwarding (market_update : Nat)
  | numbering
deriving DecidableEq

/-- The matching engine's side of the queue and the publisher, with what has
been sent on the incremental socket and what has been written to the queue of
the snapshot synthesizer. -/
structure MarketDataPublisher where
  outgoing_md_updates_ : LFQueue MEMarketUpdate
  engine : ProducerPc MEMarketUpdate
  written : List MEMarketUpdate
  pc : PublisherPc
  next_inc_seq_num_ : Nat
  incremental : List MDPMarketUpdate
  snapshot_md_updates_ : List MDPMarketUpdate

namespace MarketDataPublisher

def init (capacity : Nat) : MarketDataPublisher where
  outgoing_md_updates_ := LFQueue.init capacity {}
  engine := .idle
  written := []
  pc := .next
  next_inc_seq_num_ := 1
  incremental := []
  snapshot_md_updates_ := []

/-- The publisher's next access. -/
def publisherStep (s : MarketDataPublisher) : Exec MarketDataPublisher :=
  match s.pc with
  | .next => .ok { s with pc := .testing s.outgoing_md_updates_.getNextToRead }
  | .testing market_update =>
    match market_update with
    | some ptr =>
      if s.outgoing_md_updates_.size ≠ 0 then .ok { s with pc := .sending ptr }
      else .ok { s with pc := .next }
    | none => .ok { s with pc := .next }
  | .sending ptr =>
    .ok { s with
      pc := .storing ptr
      incremental := s.incremental ++ [⟨s.next_inc_seq_num_, s.outgoing_md_updates_.store_ ptr⟩] }
  | .storing ptr =>
    .ok { s with
      pc := .checking ptr
      outgoing_md_updates_ := s.outgoing_md_updates_.storeReadIndex }
  | .checking ptr => do
    s.outgoing_md_updates_.checkCount
    return { s with pc := .counting ptr }
  | .counting ptr =>
    .ok { s with
      pc := .forwarding ptr
      outgoing_md_updates_ := s.outgoing_md_updates_.countDown }
  | .forwarding ptr =>
    .ok { s with
      pc := .numbering
      snapshot_md_updates_ := s.snapshot_md_updates_ ++
        [⟨s.next_inc_seq_num_, s.outgoing_md_updates_.store_ ptr⟩] }
  | .numbering => .ok { s with pc := .next, next_inc_seq_num_ := s.next_inc_seq_num_ + 1 }

/-- One access of either side; `produce u` is the matching engine testing
`size() < capacity` with `u` to send. -/
def step (s : MarketDataPublisher) : SpscAction MEMarketUpdate → Exec MarketDataPublisher
  | .produce u => .ok { s with engine := s.outgoing_md_updates_.beginWrite s.engine u }
  | .producer =>
    let (q, pc, W) := s.outgoing_md_updates_.producerStep s.engine s.written
    .ok { s with outgoing_md_updates_ := q, engine := pc, written := W }
  | .consumer => s.publisherStep

def run : List (SpscAction MEMarketUpdate) → MarketDataPublisher → Exec MarketDataPublisher
  | [], s => .ok s
  | a :: as, s => do
    let s ← s.step a
    run as s

/-- The two feeds agree: an update forwarded with a number is the one published
with that number. -/
def FeedsAgree (s : MarketDataPublisher) : Prop :=
  ∀ m ∈ s.snapshot_md_updates_, ∃ m' ∈ s.incremental,
    m'.seq_num_ = m.seq_num_ ∧
      ∀ m'' ∈ s.incremental, m''.seq_num_ = m.seq_num_ →
        m''.me_market_update_ = m.me_market_update_

/-- A slot is filled between the publisher's release and its second read only
while `size() < capacity - 1`. -/
def Spaced (s : MarketDataPublisher) (a : SpscAction MEMarketUpdate) : Prop :=
  ∀ u ptr, a = .producer → s.engine = .filling u → s.pc = .forwarding ptr →
    s.outgoing_md_updates_.size + 1 < s.outgoing_md_updates_.capacity

/-- Every step of the run meets the condition. -/
def SpacedRun : List (SpscAction MEMarketUpdate) → MarketDataPublisher → Prop
  | [], _ => True
  | a :: as, s => s.Spaced a ∧ ∀ s', s.step a = .ok s' → SpacedRun as s'

/-- The next number, and how many of the updates written so far have been sent
and how many forwarded, each under its place in that order. -/
structure Progress (s : MarketDataPublisher) (n sent forwarded : Nat) : Prop where
  number : s.next_inc_seq_num_ = n
  sent_eq : s.incremental = publish 1 (s.written.take sent)
  forwarded_eq : s.snapshot_md_updates_ = publish 1 (s.written.take forwarded)

/-- Which numbers agree at each point of the publisher's program. -/
def PublisherAt (s : MarketDataPublisher) (p j d : Nat) : Prop :=
  match s.pc with
  | .next => j = d ∧ d ≤ p ∧ s.Progress (d + 1) d d
  | .testing market_update =>
    j = d ∧ d ≤ p ∧ s.Progress (d + 1) d d ∧
      ∀ ptr, market_update = some ptr → ptr = d % s.outgoing_md_updates_.capacity
  | .sending ptr =>
    j = d ∧ d < p ∧ s.Progress (d + 1) d d ∧ ptr = d % s.outgoing_md_updates_.capacity
  | .storing ptr =>
    j = d ∧ d < p ∧ s.Progress (d + 1) (d + 1) d ∧ ptr = d % s.outgoing_md_updates_.capacity
  | .checking ptr =>
    j = d + 1 ∧ d < p ∧ s.Progress (d + 1) (d + 1) d ∧ ptr = d % s.outgoing_md_updates_.capacity
  | .counting ptr =>
    j = d + 1 ∧ d < p ∧ s.Progress (d + 1) (d + 1) d ∧ ptr = d % s.outgoing_md_updates_.capacity
  | .forwarding ptr =>
    j = d ∧ d ≤ p ∧ ∃ e, d = e + 1 ∧ s.Progress d d e ∧
      ptr = e % s.outgoing_md_updates_.capacity ∧
      -- the slot has been given back, but its element is still there
      s.written[e]? = some (s.outgoing_md_updates_.store_ ptr)
  | .numbering => j = d ∧ d ≤ p ∧ s.Progress d d d

def Inv (s : MarketDataPublisher) : Prop :=
  ∃ i p j d, s.outgoing_md_updates_.Tracks s.written i p j d ∧
    LFQueue.ProducerAt s.outgoing_md_updates_ s.written i p d s.engine ∧ s.PublisherAt p j d

theorem Inv.init (capacity : Nat) : Inv (init capacity) :=
  ⟨0, 0, 0, 0, LFQueue.Tracks.init capacity ({} : MEMarketUpdate), ⟨rfl, rfl⟩, rfl, le_rfl, rfl, rfl, rfl⟩

/-! ## The matching engine's accesses -/

theorem Progress.extend {s s' : MarketDataPublisher} {n a b : Nat} (h : s.Progress n a b)
    (hW : s.written <+: s'.written) (ha : a ≤ s.written.length) (hb : b ≤ s.written.length)
    (hn : s'.next_inc_seq_num_ = s.next_inc_seq_num_) (hi : s'.incremental = s.incremental)
    (hf : s'.snapshot_md_updates_ = s.snapshot_md_updates_) : s'.Progress n a b where
  number := hn.trans h.number
  sent_eq := by rw [hi, Spsc.take_eq_of_prefixed hW ha, h.sent_eq]
  forwarded_eq := by rw [hf, Spsc.take_eq_of_prefixed hW hb, h.forwarded_eq]

/-- The slot being forwarded survives the matching engine's access. -/
theorem Spaced.slot_kept {s : MarketDataPublisher} {i p j d e : Nat} {ptr : Nat}
    {u : MEMarketUpdate}
    (hsp : s.Spaced .producer) (ht : s.outgoing_md_updates_.Tracks s.written i p j d)
    (hp : LFQueue.ProducerAt s.outgoing_md_updates_ s.written i p d s.engine)
    (hpc : s.pc = .forwarding ptr) (hd : d = e + 1) (hdp : d ≤ p)
    (hptr : ptr = e % s.outgoing_md_updates_.capacity) (he : s.engine = .filling u) :
    s.outgoing_md_updates_.getNextToWriteTo ≠ ptr := by
  have hroom : s.outgoing_md_updates_.size + 1 < s.outgoing_md_updates_.capacity :=
    hsp u ptr rfl he hpc
  rw [he] at hp
  obtain ⟨hpi, hiW, -⟩ := hp
  have hcount := ht.count
  have hlen := ht.counted_le.trans ht.stored_le
  show s.outgoing_md_updates_.next_write_index_ ≠ ptr
  rw [ht.write_index, hptr]
  unfold LFQueue.size at hroom
  exact (Lib.mod_ne_of_lt (by omega) (by omega)).symm

theorem store_producerStep_of_ne (q : LFQueue MEMarketUpdate) (pc : ProducerPc MEMarketUpdate)
    (W : List MEMarketUpdate) (ptr : Nat)
    (h : ∀ u, pc = .filling u → q.getNextToWriteTo ≠ ptr) :
    (q.producerStep pc W).1.store_ ptr = q.store_ ptr := by
  cases pc with
  | filling u => exact Function.update_of_ne (h u rfl).symm _ _
  | idle | storing | counting => rfl

/-- The matching engine's accesses leave the publisher where it is. -/
theorem PublisherAt.producer {s s' : MarketDataPublisher} {p p' j d : Nat}
    (hc : s.PublisherAt p j d) (hlen : p ≤ s.written.length) (hle : p ≤ p')
    (hW : s.written <+: s'.written) (hpc : s'.pc = s.pc)
    (hn : s'.next_inc_seq_num_ = s.next_inc_seq_num_) (hi : s'.incremental = s.incremental)
    (hf : s'.snapshot_md_updates_ = s.snapshot_md_updates_)
    (hcap : s'.outgoing_md_updates_.capacity = s.outgoing_md_updates_.capacity)
    (hkept : ∀ ptr, s.pc = .forwarding ptr → s.PublisherAt p j d →
      s'.outgoing_md_updates_.store_ ptr = s.outgoing_md_updates_.store_ ptr) :
    s'.PublisherAt p' j d := by
  have keep : ∀ {n a b : Nat}, s.Progress n a b → a ≤ p → b ≤ p → s'.Progress n a b :=
    fun hpr ha hb => hpr.extend hW (ha.trans hlen) (hb.trans hlen) hn hi hf
  have hc' := hc
  unfold PublisherAt at hc ⊢
  rw [hpc, hcap]
  cases hs : s.pc with
  | next | numbering =>
    rw [hs] at hc
    obtain ⟨hj, hd, hpr⟩ := hc
    exact ⟨hj, hd.trans hle, keep hpr hd hd⟩
  | testing market_update =>
    rw [hs] at hc
    obtain ⟨hj, hd, hpr, hptr⟩ := hc
    exact ⟨hj, hd.trans hle, keep hpr hd hd, hptr⟩
  | sending ptr | storing ptr | checking ptr | counting ptr =>
    rw [hs] at hc
    obtain ⟨hj, hd, hpr, hptr⟩ := hc
    exact ⟨hj, by omega, keep hpr (by omega) (by omega), hptr⟩
  | forwarding ptr =>
    rw [hs] at hc
    obtain ⟨hj, hd, e, hde, hpr, hptr, hslot⟩ := hc
    refine ⟨hj, hd.trans hle, e, hde, keep hpr hd (by omega), hptr, ?_⟩
    rw [hkept ptr hs hc', ← hslot]
    obtain ⟨V, hV⟩ := hW
    rw [← hV, List.getElem?_append_left (by omega)]

theorem Inv.producer {s s' : MarketDataPublisher} (h : Inv s) (hsp : s.Spaced .producer)
    (hs : s.step .producer = .ok s') : Inv s' := by
  obtain ⟨i, p, j, d, ht, hp, hc⟩ := h
  have hcap := LFQueue.capacity_producerStep s.outgoing_md_updates_ s.engine s.written
  have hstore := store_producerStep_of_ne s.outgoing_md_updates_ s.engine s.written
  rcases hst : s.outgoing_md_updates_.producerStep s.engine s.written with ⟨q', pc', W'⟩
  simp only [step, hst] at hs hcap hstore
  cases hs
  obtain ⟨i', p', ht', hp', hle, hW⟩ := ht.producerStep hp hst
  refine ⟨i', p', j, d, ht', hp', ?_⟩
  refine hc.producer (ht.counted_le.trans ht.stored_le) hle hW rfl rfl rfl rfl hcap ?_
  intro ptr hpc hat
  -- the engine has not come round to the slot that was given back
  simp only [PublisherAt, hpc] at hat
  obtain ⟨-, hd, e, hde, -, hptr, -⟩ := hat
  exact hstore ptr fun u hu => hsp.slot_kept ht hp hpc hde hd hptr hu

/-! ## The publisher's accesses -/

/-- The next update of the feed, under its number. -/
theorem publish_take_succ {W : List MEMarketUpdate} {d : Nat} {u : MEMarketUpdate}
    (h : W[d]? = some u) :
    publish 1 (W.take (d + 1)) = publish 1 (W.take d) ++ [⟨d + 1, u⟩] := by
  have hlt : d < W.length := (List.getElem?_eq_some_iff.mp h).1
  rw [List.take_add_one, h, publish_append, List.length_take, Nat.min_eq_left hlt.le,
    Nat.add_comm 1 d]
  rfl

/-- **One access of the publisher** keeps the invariant, and the `ASSERT` of
`updateReadIndex` does not fire. -/
theorem Inv.publisher {s : MarketDataPublisher} (h : Inv s) :
    ∃ s', s.publisherStep = .ok s' ∧ Inv s' := by
  obtain ⟨queue, engine, written, pc, n, incremental, snapshot⟩ := s
  obtain ⟨i, p, j, d, ht, hp, hc⟩ := h
  dsimp only at ht hp
  have hlen : p ≤ written.length := ht.counted_le.trans ht.stored_le
  have hcount := ht.count
  cases pc with
  | next =>
    obtain ⟨hj, hd, hpr⟩ := hc
    refine ⟨_, rfl, i, p, j, d, ht, hp, hj, hd, ⟨hpr.number, hpr.sent_eq, hpr.forwarded_eq⟩, ?_⟩
    intro ptr hptr
    simp only [LFQueue.getNextToRead] at hptr
    split at hptr
    · rw [← Option.some.inj hptr, ht.read_index, hj]
    · exact absurd hptr (by simp)
  | testing market_update =>
    obtain ⟨hj, hd, hpr, hptr⟩ := hc
    have hnext : Inv ⟨queue, engine, written, .next, n, incremental, snapshot⟩ :=
      ⟨i, p, j, d, ht, hp, hj, hd, hpr.number, hpr.sent_eq, hpr.forwarded_eq⟩
    cases market_update with
    | none => exact ⟨_, rfl, hnext⟩
    | some ptr =>
      by_cases hsize : queue.size = 0
      · exact ⟨_, by simp [publisherStep, hsize], hnext⟩
      · refine ⟨⟨queue, engine, written, .sending ptr, n, incremental, snapshot⟩,
          by simp [publisherStep, hsize], i, p, j, d, ht, hp, hj, ?_,
          ⟨hpr.number, hpr.sent_eq, hpr.forwarded_eq⟩, hptr ptr rfl⟩
        unfold LFQueue.size at hsize
        omega
  | sending ptr =>
    obtain ⟨hj, hd, hpr, hptr⟩ := hc
    have hget := ht.read (by omega)
    rw [ht.read_index, hj] at hget
    refine ⟨_, rfl, i, p, j, d, ht, hp, hj, hd, ⟨hpr.number, ?_, hpr.forwarded_eq⟩, hptr⟩
    have hinc : incremental = publish 1 (written.take d) := hpr.sent_eq
    have hn : n = d + 1 := hpr.number
    dsimp only at hptr ⊢
    rw [publish_take_succ hget, ← hptr, hinc, hn]
  | storing ptr =>
    obtain ⟨hj, hd, hpr, hptr⟩ := hc
    exact ⟨_, rfl, i, p, j + 1, d, ht.storeReadIndex, hp.mono rfl le_rfl, by omega, hd,
      ⟨hpr.number, hpr.sent_eq, hpr.forwarded_eq⟩, hptr⟩
  | checking ptr =>
    obtain ⟨hj, hd, hpr, hptr⟩ := hc
    have hok := ht.checkCount hd
    exact ⟨⟨queue, engine, written, .counting ptr, n, incremental, snapshot⟩,
      by simp [publisherStep, hok], i, p, j, d, ht, hp, hj, hd,
      ⟨hpr.number, hpr.sent_eq, hpr.forwarded_eq⟩, hptr⟩
  | counting ptr =>
    obtain ⟨hj, hd, hpr, hptr⟩ := hc
    -- giving the slot back does not empty it
    have hget : written[d]? = some (queue.store_ (d % queue.capacity)) := by
      obtain ⟨u, hu⟩ : ∃ u, written[d]? = some u :=
        ⟨written[d], List.getElem?_eq_getElem (by omega)⟩
      rw [hu, ht.slots d u le_rfl hu]
    refine ⟨_, rfl, i, p, j, d + 1, ht.countDown (by omega) hd, hp.mono rfl (Nat.le_succ d),
      hj, hd, d, rfl, ⟨hpr.number, hpr.sent_eq, hpr.forwarded_eq⟩, hptr, ?_⟩
    dsimp only at hptr
    rw [hptr]
    exact hget
  | forwarding ptr =>
    obtain ⟨hj, hd, e, rfl, hpr, hptr, hslot⟩ := hc
    refine ⟨_, rfl, i, p, j, e + 1, ht, hp, hj, hd, ⟨hpr.number, hpr.sent_eq, ?_⟩⟩
    have hsnap : snapshot = publish 1 (written.take e) := hpr.forwarded_eq
    have hn : n = e + 1 := hpr.number
    dsimp only at hslot ⊢
    rw [publish_take_succ hslot, hsnap, hn]
  | numbering =>
    obtain ⟨hj, hd, hpr⟩ := hc
    exact ⟨_, rfl, i, p, j, d, ht, hp, hj, hd,
      ⟨congrArg (· + 1) hpr.number, hpr.sent_eq, hpr.forwarded_eq⟩⟩

theorem Inv.step {s : MarketDataPublisher} (h : Inv s) (a : SpscAction MEMarketUpdate)
    (hsp : s.Spaced a) : ∃ s', s.step a = .ok s' ∧ Inv s' := by
  cases a with
  | produce u =>
    obtain ⟨i, p, j, d, ht, hp, hc⟩ := h
    refine ⟨_, rfl, i, p, j, d, ht, LFQueue.ProducerAt.beginWrite ht hp u, ?_⟩
    exact hc.producer (ht.counted_le.trans ht.stored_le) le_rfl (List.prefix_refl _)
      rfl rfl rfl rfl rfl fun _ _ _ => rfl
  | producer => exact ⟨_, rfl, h.producer hsp rfl⟩
  | consumer => exact h.publisher

theorem Inv.run (as : List (SpscAction MEMarketUpdate)) {s : MarketDataPublisher} (h : Inv s)
    (hsp : SpacedRun as s) : ∃ s', run as s = .ok s' ∧ Inv s' := by
  induction as generalizing s with
  | nil => exact ⟨s, rfl, h⟩
  | cons a as ih =>
    obtain ⟨s₁, hs₁, h₁⟩ := h.step a hsp.1
    obtain ⟨s', hs', h'⟩ := ih h₁ (hsp.2 s₁ hs₁)
    exact ⟨s', by rw [MarketDataPublisher.run, hs₁]; exact hs', h'⟩

/-- Feeds that number two prefixes of one list agree, as long as what has been
forwarded has been sent. -/
theorem Progress.feedsAgree {s : MarketDataPublisher} {n a b : Nat} (h : s.Progress n a b)
    (hab : b ≤ a) : s.FeedsAgree := by
  intro m hm
  rw [h.forwarded_eq, mem_publish] at hm
  obtain ⟨hle, hget⟩ := hm
  have hlt : m.seq_num_ - 1 < b := by
    have := (List.getElem?_eq_some_iff.mp hget).1
    rw [List.length_take] at this
    omega
  rw [List.getElem?_take_of_lt hlt] at hget
  have hsent : (s.written.take a)[m.seq_num_ - 1]? = some m.me_market_update_ := by
    rw [List.getElem?_take_of_lt (by omega), hget]
  refine ⟨m, by rw [h.sent_eq, mem_publish]; exact ⟨hle, hsent⟩, rfl, ?_⟩
  intro m' hm' hseq
  rw [h.sent_eq, mem_publish, hseq, hsent] at hm'
  exact (Option.some.inj hm'.2).symm

theorem Inv.feedsAgree {s : MarketDataPublisher} (h : Inv s) : s.FeedsAgree := by
  obtain ⟨i, p, j, d, -, -, hc⟩ := h
  unfold PublisherAt at hc
  cases hs : s.pc with
  | next | numbering =>
    rw [hs] at hc
    exact hc.2.2.feedsAgree le_rfl
  | testing market_update | sending ptr =>
    rw [hs] at hc
    exact hc.2.2.1.feedsAgree le_rfl
  | storing ptr | checking ptr | counting ptr =>
    rw [hs] at hc
    exact hc.2.2.1.feedsAgree (Nat.le_succ d)
  | forwarding ptr =>
    rw [hs] at hc
    obtain ⟨-, -, e, rfl, hpr, -⟩ := hc
    exact hpr.feedsAgree (Nat.le_succ e)

end MarketDataPublisher

open MarketDataPublisher

/-- **Both feeds carry the same updates** in every interleaving in which the
matching engine never fills the last free slot between the publisher's release
of a slot and its second read of it. -/
theorem publisher_feeds_agree (capacity : Nat) (as : List (SpscAction MEMarketUpdate))
    (hsp : SpacedRun as (init capacity)) :
    ∃ s, run as (init capacity) = .ok s ∧ s.FeedsAgree := by
  obtain ⟨s, hs, h⟩ := (Inv.init capacity).run as hsp
  exact ⟨s, hs, h.feedsAgree⟩

/-! ## A full queue -/

/-- The accesses that send one update into a queue with room. -/
def sendActions (u : MEMarketUpdate) : List (SpscAction MEMarketUpdate) :=
  [.produce u, .producer, .producer, .producer]

/-- The first `k` of a series of updates are sent. -/
def fillActions (us : Nat → MEMarketUpdate) : Nat → List (SpscAction MEMarketUpdate)
  | 0 => []
  | k + 1 => fillActions us k ++ sendActions (us k)

/-- The queue with the first `k` of a series of updates in it. -/
def filled (us : Nat → MEMarketUpdate) (N k : Nat) : MarketDataPublisher :=
  { init N with
    outgoing_md_updates_ := ⟨fun i => if i < k then us i else {}, N, k % N, 0, k⟩
    written := (List.range k).map us }

namespace MarketDataPublisher

theorem run_append (as bs : List (SpscAction MEMarketUpdate)) (s : MarketDataPublisher) :
    run (as ++ bs) s = run as s >>= run bs := by
  induction as generalizing s with
  | nil => rfl
  | cons a as ih =>
    rw [List.cons_append, run, run]
    cases s.step a with
    | error e => rfl
    | ok s' => exact ih s'

theorem run_sendActions (us : Nat → MEMarketUpdate) {N k : Nat} (hk : k < N) :
    run (sendActions (us k)) (filled us N k) = .ok (filled us N (k + 1)) := by
  have hstore : Function.update (fun i => if i < k then us i else ({} : MEMarketUpdate)) k (us k) =
      fun i => if i < k + 1 then us i else {} := by
    funext i
    rcases Nat.lt_trichotomy i k with hi | rfl | hi
    · simp [Function.update_of_ne hi.ne, hi, Nat.lt_succ_of_lt hi]
    · simp
    · rw [Function.update_of_ne hi.ne', if_neg (by omega), if_neg (by omega)]
  simp only [sendActions, run, step, filled, init, LFQueue.beginWrite, LFQueue.size, hk, if_true,
    LFQueue.producerStep, LFQueue.write, LFQueue.getNextToWriteTo, LFQueue.storeWriteIndex,
    LFQueue.countUp, exec_ok_bind, Nat.mod_eq_of_lt hk, hstore, List.range_succ, List.map_append,
    List.map_cons, List.map_nil]

theorem run_fillActions (us : Nat → MEMarketUpdate) {N k : Nat} (hk : k ≤ N) :
    run (fillActions us k) (init N) = .ok (filled us N k) := by
  induction k with
  | zero => simp [fillActions, run, filled, init, LFQueue.init]
  | succ k ih =>
    rw [fillActions, run_append, ih (by omega), exec_ok_bind, run_sendActions us hk]

/-- With a full queue, one update more between the release and the second read
is forwarded in the place of the one that was sent. -/
theorem run_overtaken (us : Nat → MEMarketUpdate) {N : Nat} (hN : 0 < N) :
    ∃ s, run (fillActions us N ++ List.replicate 6 .consumer ++
        [.produce (us N), .producer, .consumer]) (init N) = .ok s ∧
      s.incremental = [⟨1, us 0⟩] ∧ s.snapshot_md_updates_ = [⟨1, us N⟩] := by
  rw [run_append, run_append, run_fillActions us le_rfl]
  have hlt : N - 1 < N := by omega
  simp only [exec_ok_bind, List.replicate, run, step, publisherStep, filled, init,
    LFQueue.getNextToRead, LFQueue.size, hN.ne', ne_eq, not_false_eq_true, if_true,
    LFQueue.storeReadIndex, LFQueue.checkCount, decide_true, ASSERT_true, exec_pure,
    LFQueue.countDown, LFQueue.beginWrite, LFQueue.producerStep, LFQueue.write,
    LFQueue.getNextToWriteTo, Nat.mod_self, hlt, hN]
  exact ⟨_, rfl, rfl, by simp⟩

end MarketDataPublisher

/-- The `ADD` of the `k`-th of a series of orders that rest at one price. -/
def restingAdd (k : Nat) : MEMarketUpdate :=
  ⟨.ADD, k + 1, 0, .BUY, 100, 1, k + 1⟩

theorem publisher_feeds_differ :
    ∃ as s, run as (init ME_MAX_MARKET_UPDATES) = .ok s ∧ ¬ s.FeedsAgree := by
  obtain ⟨s, hs, hinc, hsnap⟩ := run_overtaken restingAdd (show 0 < ME_MAX_MARKET_UPDATES by decide)
  refine ⟨_, s, hs, ?_⟩
  intro h
  obtain ⟨m, hm, hseq, hall⟩ := h ⟨1, restingAdd ME_MAX_MARKET_UPDATES⟩ (by simp [hsnap])
  have heq := hall ⟨1, restingAdd 0⟩ (by simp [hinc]) rfl
  exact absurd (congrArg MEMarketUpdate.order_id_ heq) (by decide)

/-- A slot of a queue of three filled between the release and the second read:
two updates on both feeds. -/
theorem publisher_feeds_agree_small :
    let as := sendActions (restingAdd 0) ++ List.replicate 6 .consumer ++
      sendActions (restingAdd 1) ++ [.consumer]
    SpacedRun as (init 3) ∧ ∃ s, run as (init 3) = .ok s ∧ s.FeedsAgree := by
  intro as
  have hsp : SpacedRun as (init 3) := by
    simp [as, sendActions, SpacedRun, Spaced, step, publisherStep, init, LFQueue.init,
      LFQueue.beginWrite, LFQueue.size, LFQueue.producerStep, LFQueue.write,
      LFQueue.getNextToWriteTo, LFQueue.getNextToRead, LFQueue.storeWriteIndex, LFQueue.countUp,
      LFQueue.storeReadIndex, LFQueue.checkCount, LFQueue.countDown, List.replicate]
  exact ⟨hsp, publisher_feeds_agree 3 as hsp⟩

end LowLatency
