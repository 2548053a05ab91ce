import LowLatency.MarketData.GapRecovery
import LowLatency.MarketData.Snapshot

/-!
# A client that joins late shows the exchange's books

The whole way of the market data again, from the requests to the books of a trade
engine that applies what its consumer passes on. A client that has been there
from the first increment reads the increments; one that comes later, or that
loses the first ones, reads a snapshot and then increments. `Passed` has the two
forms. In both the books are those that the increments alone would have built,
up to some increment, and outside of recovery this is the last one before the
number expected next (**`client_mirrors_exchange`**).

A second recovery is left out: it sends `CLEAR` to books that are not fresh, and
`Strategy.Recovery` has the condition under which that works. So is a snapshot of
two cycles (`GapRecovery`). These two are the condition `Joins` on the datagrams
received; nothing is asked of what is lost, repeated or late.
-/

namespace LowLatency

/-! ## The exchange and its updates -/

/-- What the updates of a run leave are the books after it. -/
theorem engine_run_fold {R : RefExchange} {qs : List MEClientRequest} (hinv : R.Inv)
    (ha : RefExchange.AllAlong RefExchange.Admits R qs)
    (hf : RefExchange.AllAlong RefExchange.StepFits R qs)
    (hid : RefExchange.AllAlong (RefExchange.IdBelow ME_MAX_ORDER_IDS) R qs)
    (htot : RefExchange.AllAlong TotalFits R qs) (fillId : Nat → Nat) :
    (updates (R.runEvents fillId qs).flatten).foldl applyTo (feedsOf R) = feedsOf (R.run qs) := by
  induction qs generalizing R with
  | nil => rfl
  | cons q qs ih =>
    have hlt : RefExchange.IdBelow OrderId_INVALID R q := by
      intro hq
      have := hid.1 hq
      simp only [ME_MAX_ORDER_IDS, OrderId_INVALID] at this ⊢
      omega
    obtain ⟨_, hfold⟩ := engine_step_feed hinv ha.1 hid.1 hf.1 htot.1 fillId
    simp only [RefExchange.runEvents, List.flatten_cons, updates_append]
    rw [List.foldl_append, hfold]
    exact ih (hinv.step ha.1 hlt) ha.2 hf.2 hid.2 htot.2

namespace RefExchange

/-- The beginning of a run. -/
theorem AllAlong.of_append {P : RefExchange → MEClientRequest → Prop} {R : RefExchange}
    {qs rs : List MEClientRequest} (h : AllAlong P R (qs ++ rs)) : AllAlong P R qs := by
  induction qs generalizing R with
  | nil => trivial
  | cons q qs ih => exact ⟨h.1, ih h.2⟩

/-- The rest of a run. -/
theorem AllAlong.after {P : RefExchange → MEClientRequest → Prop} {R : RefExchange}
    {qs rs : List MEClientRequest} (h : AllAlong P R (qs ++ rs)) : AllAlong P (R.run qs) rs := by
  induction qs generalizing R with
  | nil => exact h
  | cons q qs ih => exact ih h.2

/-- One more request. -/
theorem AllAlong.snoc {P : RefExchange → MEClientRequest → Prop} {R : RefExchange}
    {qs : List MEClientRequest} (h : AllAlong P R qs) {q : MEClientRequest} (hq : P (R.run qs) q) :
    AllAlong P R (qs ++ [q]) := by
  induction qs generalizing R with
  | nil => exact ⟨hq, trivial⟩
  | cons q' qs ih => exact ⟨h.1, ih h.2 hq⟩

theorem runEvents_append (fillId : Nat → Nat) (R : RefExchange) (qs rs : List MEClientRequest) :
    R.runEvents fillId (qs ++ rs) = R.runEvents fillId qs ++ (R.run qs).runEvents fillId rs := by
  induction qs generalizing R with
  | nil => rfl
  | cons q qs ih =>
    rw [List.cons_append, runEvents, ih]
    rfl

end RefExchange

/-- One more request. -/
theorem MatchingEngine.run_snoc {e e' e'' : MatchingEngine} {qs : List MEClientRequest}
    {q : MEClientRequest} {evss : List (List Event)} {evs : List Event}
    (h : e.run qs = .ok (e', evss)) (hq : e'.processClientRequest q = .ok (e'', evs)) :
    e.run (qs ++ [q]) = .ok (e'', evss ++ [evs]) := by
  induction qs generalizing e evss with
  | nil =>
    obtain ⟨rfl, rfl⟩ := Prod.mk.inj (Except.ok.inj h)
    simp only [List.nil_append, run, hq, exec_ok_bind, exec_pure]
  | cons q' qs ih =>
    obtain ⟨e₁, evs₁, evss₁, hstep, hrest, rfl⟩ := run_cons_inv h
    simp only [List.cons_append, run, hstep, exec_ok_bind, ih hrest, exec_pure]

/-- A run of requests that the books, the feed and its tables have room for. -/
structure Admissible (qs : List MEClientRequest) : Prop where
  admits : RefExchange.AllAlong RefExchange.Admits RefExchange.init qs
  fits : RefExchange.AllAlong RefExchange.StepFits RefExchange.init qs
  ids : RefExchange.AllAlong (RefExchange.IdBelow ME_MAX_ORDER_IDS) RefExchange.init qs
  total : RefExchange.AllAlong TotalFits RefExchange.init qs

theorem Admissible.of_append {qs rs : List MEClientRequest} (h : Admissible (qs ++ rs)) :
    Admissible qs :=
  ⟨h.admits.of_append, h.fits.of_append, h.ids.of_append, h.total.of_append⟩

/-- The updates of a run of requests. -/
def history (qs : List MEClientRequest) : List MEMarketUpdate :=
  updates (RefExchange.init.runEvents wrap32 qs).flatten

theorem history_append (qs rs : List MEClientRequest) : history (qs ++ rs) =
    history qs ++ updates ((RefExchange.init.run qs).runEvents wrap32 rs).flatten := by
  unfold history
  rw [RefExchange.runEvents_append, List.flatten_append, updates_append]

theorem Admissible.feedsOk {qs : List MEClientRequest} (h : Admissible qs) :
    FeedsOk (fun _ => Book.empty) (history qs) :=
  engine_run_feed RefExchange.inv_init h.admits h.fits h.ids h.total wrap32

/-- The feeds after some updates. -/
def feedsAfter (us : List MEMarketUpdate) : Feeds := us.foldl applyTo fun _ => Book.empty

theorem Admissible.feedsAfter_history {qs : List MEClientRequest} (h : Admissible qs) :
    feedsAfter (history qs) = feedsOf (RefExchange.init.run qs) :=
  engine_run_fold RefExchange.inv_init h.admits h.fits h.ids h.total wrap32

/-- There are no tickers but those that exist. -/
theorem foldl_applyTo_of_ge {F : Feeds} {us : List MEMarketUpdate} (h : FeedsOk F us) {t : Nat}
    (ht : ME_MAX_TICKERS ≤ t) : us.foldl applyTo F t = F t := by
  induction us generalizing F with
  | nil => rfl
  | cons u us ih =>
    rw [List.foldl_cons, ih h.2.2]
    exact Function.update_of_ne (fun he => absurd (he ▸ h.1) (by omega)) ..

/-! ## What a client has read -/

namespace SnapshotSynthesizer

/-- The synthesizer after the increments up to its number. -/
def Built (us : List MEMarketUpdate) (s : SnapshotSynthesizer) : Prop :=
  s.last_inc_seq_num_ ≤ us.length ∧
    init.addAllToSnapshot (publish 1 (us.take s.last_inc_seq_num_)) = .ok s

variable {s s' : SnapshotSynthesizer} {us : List MEMarketUpdate}

theorem Built.append (h : Built us s) (vs : List MEMarketUpdate) : Built (us ++ vs) s := by
  refine ⟨h.1.trans (by simp), ?_⟩
  rw [List.take_append_of_le_length h.1]
  exact h.2

theorem addAllToSnapshot_append {s₀ : SnapshotSynthesizer} {ms ms' : List MDPMarketUpdate}
    (h : s₀.addAllToSnapshot ms = .ok s) :
    s₀.addAllToSnapshot (ms ++ ms') = s.addAllToSnapshot ms' := by
  induction ms generalizing s₀ with
  | nil =>
    obtain rfl := Except.ok.inj h
    rfl
  | cons m ms ih =>
    obtain ⟨s₁, h₁, h₂⟩ := exec_bind_ok h
    rw [List.cons_append, addAllToSnapshot, h₁]
    exact ih h₂

theorem Built.addToSnapshot (h : Built us s) {m : MDPMarketUpdate}
    (hm : (publish 1 us)[s.last_inc_seq_num_]? = some m) (hs : s.addToSnapshot m = .ok s') :
    Built us s' := by
  rw [publish_getElem?] at hm
  obtain ⟨u, hu, rfl⟩ := Option.map_eq_some_iff.mp hm
  have hlast : s'.last_inc_seq_num_ = s.last_inc_seq_num_ + 1 := by
    unfold SnapshotSynthesizer.addToSnapshot at hs
    obtain ⟨_, _, hs⟩ := exec_bind_ok hs
    obtain ⟨_, _, hs⟩ := exec_bind_ok hs
    obtain rfl := Except.ok.inj hs
    exact Nat.add_comm ..
  have hlt := (List.getElem?_eq_some_iff.mp hu).1
  refine ⟨by rw [hlast]; exact hlt, ?_⟩
  rw [hlast, List.take_add_one, hu, publish_append, addAllToSnapshot_append h.2, List.length_take,
    Nat.min_eq_left h.1]
  show (do let s ← s.addToSnapshot _; s.addAllToSnapshot []) = _
  rw [hs]
  rfl

end SnapshotSynthesizer

open SnapshotSynthesizer (Built)

/-- What was passed on when it covers the first `j` increments: these, or a
snapshot of some and the others. -/
inductive Passed (us : List MEMarketUpdate) (j : Nat) : List MEMarketUpdate → Prop
  | increments : Passed us j (us.take j)
  | joined {s : SnapshotSynthesizer} (hs : Built us s) (hle : s.last_inc_seq_num_ ≤ j) :
      Passed us j (finalEvents s.snapshotMessages ++ (us.take j).drop s.last_inc_seq_num_)

namespace Passed

variable {us vs : List MEMarketUpdate} {j : Nat}

theorem append (h : Passed us j vs) (hj : j ≤ us.length) (ws : List MEMarketUpdate) :
    Passed (us ++ ws) j vs := by
  have htake : us.take j = (us ++ ws).take j := (List.take_append_of_le_length hj).symm
  cases h with
  | increments =>
    rw [htake]
    exact .increments
  | joined hs hle =>
    rw [htake]
    exact .joined (hs.append ws) hle

/-- One more increment. -/
theorem snoc (h : Passed us j vs) {u : MEMarketUpdate} (hu : us[j]? = some u) :
    Passed us (j + 1) (vs ++ [u]) := by
  have htake : us.take (j + 1) = us.take j ++ [u] := by rw [List.take_add_one, hu]; rfl
  have hlt := (List.getElem?_eq_some_iff.mp hu).1
  cases h with
  | increments =>
    rw [← htake]
    exact .increments
  | @joined s hs hle =>
    rw [List.append_assoc, ← List.drop_append_of_le_length (by rw [List.length_take]; omega),
      ← htake]
    exact .joined hs (by omega)

/-- **The books that a client builds** are those of the first `j` increments. -/
theorem books (h : Passed us j vs) (hok : FeedsOk (fun _ => Book.empty) us) :
    ∃ m, MarketOrderBookHashMap.init.processMarketUpdates vs = .ok m ∧
      BooksSim m (feedsAfter (us.take j)) := by
  have hpre : ∀ n, FeedsOk (fun _ => Book.empty) (us.take n) := by
    intro n
    rw [← List.take_append_drop n us] at hok
    exact (feedsOk_append.mp hok).1
  cases h with
  | increments => exact processMarketUpdates_sim booksSim_init (hpre j)
  | @joined s hs hle =>
    obtain ⟨s', hsnap, hinv, -, hF⟩ :=
      addAllToSnapshot_sim snapInv_init (fun _ => FeedInv.empty) (hpre s.last_inc_seq_num_)
    obtain rfl := Except.ok.inj (hs.2.symm.trans hsnap)
    obtain ⟨m, hm, hin, hout⟩ := processMarketUpdates_blocks hinv hF List.nodup_range
      (fun t => List.mem_range.mp) (m := MarketOrderBookHashMap.init) fun _ _ => rfl
    -- the books of the snapshot, and fresh ones where there is no ticker
    have hbooks : BooksSim m (feedsAfter (us.take s.last_inc_seq_num_)) := by
      intro t
      by_cases ht : t < ME_MAX_TICKERS
      · exact hin t (List.mem_range.mpr ht)
      · rw [hout t (by simpa using ht)]
        unfold feedsAfter
        rw [foldl_applyTo_of_ge (hpre _) (by omega)]
        exact booksSim_init t
    have hsplit : us.take j =
        us.take s.last_inc_seq_num_ ++ (us.take j).drop s.last_inc_seq_num_ := by
      conv_lhs => rw [← List.take_append_drop s.last_inc_seq_num_ (us.take j)]
      rw [List.take_take, Nat.min_eq_left hle]
    have hrest := hpre j
    rw [hsplit, feedsOk_append] at hrest
    obtain ⟨m', hm', hbooks'⟩ := processMarketUpdates_sim hbooks hrest.2
    refine ⟨m', ?_, ?_⟩
    · rw [processMarketUpdates_append (by rw [finalEvents_snapshotMessages hinv hF]; exact hm)]
      exact hm'
    · rw [hsplit]
      unfold feedsAfter
      rw [List.foldl_append]
      exact hbooks'

end Passed

/-! ## One message -/

namespace MarketDataConsumer

/-- What the consumer has passed on, and the number it expects. -/
def Mirrors (us : List MEMarketUpdate) (c : MarketDataConsumer) : Prop :=
  ∃ j ≤ us.length, Passed us j c.incoming_md_updates_ ∧
    (c.in_recovery_ = false → c.next_exp_inc_seq_num_ = j + 1)

/-- A message that ends a recovery finds that nothing was passed on before. -/
def JoinsAlong : MarketDataConsumer → List MDPMarketUpdate → Prop
  | _, [] => True
  | c, m :: ms =>
    (c.in_recovery_ = true → (c.recvMessage true m).in_recovery_ = false →
      c.incoming_md_updates_ = []) ∧ JoinsAlong (c.recvMessage true m) ms

instance : ∀ (c : MarketDataConsumer) (ms : List MDPMarketUpdate), Decidable (JoinsAlong c ms)
  | _, [] => inferInstanceAs (Decidable True)
  | c, m :: ms =>
    have := instDecidableJoinsAlong (c.recvMessage true m) ms
    inferInstanceAs (Decidable (_ ∧ _))

/-- A datagram of the snapshot stream mixes no cycles, and ends no recovery but
the one at the beginning. -/
def Joins (cycle : List MDPMarketUpdate) (c : MarketDataConsumer) (ms : List MDPMarketUpdate) :
    Prop :=
  Unmixed cycle c ms ∧ (c.in_recovery_ = true → JoinsAlong c ms)

variable {us : List MEMarketUpdate} {c : MarketDataConsumer}

theorem Mirrors.append (h : Mirrors us c) (ws : List MEMarketUpdate) : Mirrors (us ++ ws) c := by
  obtain ⟨j, hj, hp, hnext⟩ := h
  exact ⟨j, hj.trans (by simp), hp.append hj ws, hnext⟩

/-- Nothing is passed on during a recovery. -/
theorem Mirrors.quiet {c' : MarketDataConsumer} (h : Mirrors us c)
    (hin : c'.incoming_md_updates_ = c.incoming_md_updates_) (hrec : c'.in_recovery_ = true) :
    Mirrors us c' := by
  obtain ⟨j, hj, hp, -⟩ := h
  refine ⟨j, hj, by rw [hin]; exact hp, fun hn => ?_⟩
  rw [hrec] at hn
  exact absurd hn (by simp)

/-- **One message of the incremental stream.** -/
theorem Mirrors.recvMessage_incremental (h : Mirrors us c) (ht : Tracks us c)
    {m : MDPMarketUpdate} (hm : Numbered us m.seq_num_ m.me_market_update_) :
    Mirrors us (c.recvMessage false m) := by
  unfold recvMessage
  split
  next hrec =>
    have hq := queueMessage_incremental ht.waiting m
    exact h.quiet hq.incoming (hq.in_recovery.trans hrec)
  split
  · have hq := queueMessage_incremental (c := { c.startSnapshotSync with in_recovery_ := true })
      .nil m
    exact h.quiet hq.incoming hq.in_recovery
  next hrec hseq =>
    have hrec := Bool.eq_false_iff.mpr hrec
    have hseq := not_not.mp hseq
    obtain ⟨j, hj, hp, hnext⟩ := h
    have hget := hm.2
    rw [hseq, hnext hrec, Nat.add_sub_cancel] at hget
    refine ⟨j + 1, (List.getElem?_eq_some_iff.mp hget).1, hp.snoc hget, fun _ => ?_⟩
    show c.next_exp_inc_seq_num_ + 1 = _
    rw [hnext hrec]

/-- A recovery that goes on passes nothing on. -/
theorem queueMessage_recovering {b : Bool} {m : MDPMarketUpdate}
    (h : (c.queueMessage b m).in_recovery_ = true) :
    (c.queueMessage b m).incoming_md_updates_ = c.incoming_md_updates_ := by
  have hcheck : ∀ c : MarketDataConsumer, c.checkSnapshotSync.in_recovery_ = true →
      c.checkSnapshotSync.incoming_md_updates_ = c.incoming_md_updates_ := by
    intro c hc
    unfold checkSnapshotSync at hc ⊢
    split
    next p x hp hx =>
      rw [hp, hx] at hc
      dsimp only at hc
      split
      · rfl
      next h₁ =>
      rw [if_neg h₁] at hc
      split
      · rfl
      next h₂ =>
      rw [if_neg h₂] at hc
      split
      · rfl
      next h₃ =>
      rw [if_neg h₃] at hc
      split
      next n incrementals happ =>
        rw [happ] at hc
        cases incrementals with
        | none => rfl
        | some us => exact absurd hc (by simp)
    · rfl
  unfold queueMessage at h ⊢
  split
  next hb =>
    rw [if_pos hb] at h
    exact hcheck _ h
  next hb =>
    rw [if_neg hb] at h
    exact hcheck _ h

/-- Increments are no marks of a snapshot. -/
theorem finalEvents_of_incremental {vs : List MEMarketUpdate} (h : ∀ u ∈ vs, Incremental u) :
    finalEvents vs = vs := by
  refine List.filter_eq_self.mpr fun u hu => ?_
  rcases h u hu with he | he | he | he <;> rw [he] <;> rfl

/-- **The end of the first recovery.** -/
theorem Tracks.joins (h : Tracks us c) (hus : ∀ u ∈ us, Incremental u) {s : SnapshotSynthesizer}
    (hs : s.Follows us) (hb : Built us s) {m : MDPMarketUpdate} (hm : m ∈ s.publishSnapshot)
    (hseq : m.seq_num_ = c.snapshot_queued_msgs_.length)
    (hcycle : ∀ p ∈ c.snapshot_queued_msgs_, p.1 ≠ 0 →
      (⟨p.1, p.2⟩ : MDPMarketUpdate) ∈ s.publishSnapshot)
    (hnone : c.incoming_md_updates_ = [])
    {c' : MarketDataConsumer} (hr : Recovers { c with
      snapshot_queued_msgs_ := c.snapshot_queued_msgs_ ++ [(m.seq_num_, m.me_market_update_)] }
      m.me_market_update_ c') : Mirrors us c' := by
  obtain ⟨evs, happ, hin⟩ := hr.result
  obtain ⟨p, hp, hstart⟩ := hr.first
  dsimp only at hp happ hin
  cases hq : c.snapshot_queued_msgs_ with
  | nil =>
    -- an END alone is no START
    rw [hq] at hp
    obtain rfl := Option.some.inj hp
    have hend := hr.is_end
    rw [hstart] at hend
    exact absurd hend (by simp)
  | cons p' q =>
    rw [hq] at hp hin
    obtain rfl := Option.some.inj hp
    obtain ⟨hupd, hid⟩ := updates_of_cycle hs.2 (hq ▸ h.waiting.complete) (hq ▸ hseq) hm hr.is_end
      (hq ▸ hcycle)
    rw [hid] at happ
    obtain ⟨h₁, h₂, h₃⟩ := QueuedMarketUpdates.applicable_eq h.queued hs.1 happ
    have hle : s.last_inc_seq_num_ ≤ c'.next_exp_inc_seq_num_ - 1 := by
      have hlen := congrArg List.length h₃
      have hsl := hs.1
      rw [List.length_append, List.length_take, List.length_take] at hlen
      omega
    have hevs : evs = (us.take (c'.next_exp_inc_seq_num_ - 1)).drop s.last_inc_seq_num_ := by
      have hsl := hs.1
      rw [← h₃, List.drop_append_of_le_length (by rw [List.length_take]; omega),
        List.drop_of_length_le (by rw [List.length_take]; omega), List.nil_append]
    have hmarks : finalEvents (QueuedMarketUpdates.updates
        (p' :: q ++ [(m.seq_num_, m.me_market_update_)]) ++ evs) =
        finalEvents s.snapshotMessages ++ evs := by
      have hinc : finalEvents evs = evs := by
        refine finalEvents_of_incremental fun u hu => hus u ?_
        rw [hevs] at hu
        exact List.mem_of_mem_take (List.mem_of_mem_drop hu)
      have hsplit : QueuedMarketUpdates.updates (p' :: q ++ [(m.seq_num_, m.me_market_update_)]) =
          p'.2 :: (s.orderMessages ++ [m.me_market_update_]) := by
        rw [← hupd]
        simp [QueuedMarketUpdates.updates]
      have hend := hr.is_end
      rw [hsplit, SnapshotSynthesizer.snapshotMessages_eq]
      unfold finalEvents at hinc ⊢
      rw [List.filter_append, hinc]
      simp [hstart, hend]
    refine ⟨c'.next_exp_inc_seq_num_ - 1, h₂, ?_, fun _ => by omega⟩
    rw [hin, hnone, List.nil_append, hmarks, hevs]
    exact .joined hb hle

/-- **One message of the snapshot stream.** -/
theorem Mirrors.recvMessage_snapshot (h : Mirrors us c) (ht : Tracks us c)
    (hus : ∀ u ∈ us, Incremental u) {s : SnapshotSynthesizer} (hs : s.Follows us)
    (hb : Built us s) {m : MDPMarketUpdate} (hm : m ∈ s.publishSnapshot)
    (hmix : ¬ c.Mixes s.publishSnapshot m)
    (hjoin : c.in_recovery_ = true → (c.recvMessage true m).in_recovery_ = false →
      c.incoming_md_updates_ = []) : Mirrors us (c.recvMessage true m) := by
  by_cases hrec : c.in_recovery_ = true
  · have hrun : c.recvMessage true m = c.queueMessage true m := by
      unfold recvMessage
      rw [if_pos hrec]
    rw [hrun] at hjoin ⊢
    rcases queueMessage_snapshot ht.waiting m with hq | ⟨hseq, hr⟩
    · exact h.quiet hq.incoming (hq.in_recovery.trans hrec)
    · by_cases hout : (c.queueMessage true m).in_recovery_ = false
      · refine ht.joins hus hs hb hm hseq (fun p hp hne => ?_) (hjoin hrec hout) hr
        by_contra hnot
        exact hmix ⟨hrec, hr.is_end, hseq, p, hp, hne, hnot⟩
      · have hout := Bool.not_eq_false _ ▸ hout
        exact h.quiet (queueMessage_recovering hout) hout
  · unfold recvMessage
    rw [if_neg hrec]
    split
    · rcases queueMessage_snapshot (c := { c.startSnapshotSync with in_recovery_ := true }) .nil m
        with hq | ⟨_, hr⟩
      · exact h.quiet hq.incoming hq.in_recovery
      · -- a queue of one message is no snapshot
        obtain ⟨p, hp, hstart⟩ := hr.first
        obtain rfl := Option.some.inj hp
        have hend := hr.is_end
        rw [hstart] at hend
        exact absurd hend (by simp)
    · exact h

/-- **A datagram of the incremental stream.** -/
theorem Mirrors.recvCallback_incremental (h : Mirrors us c) (ht : Tracks us c)
    {ms : List MDPMarketUpdate} (hms : ∀ m ∈ ms, Numbered us m.seq_num_ m.me_market_update_) :
    Mirrors us (c.recvCallback false ms) := by
  show Mirrors us (ms.foldl (recvMessage false) c)
  induction ms generalizing c with
  | nil => exact h
  | cons m ms ih =>
    have hm := hms m (List.mem_cons_self ..)
    exact ih (h.recvMessage_incremental ht hm) (ht.recvMessage_incremental hm)
      fun m' hm' => hms m' (List.mem_cons_of_mem _ hm')

/-- **A datagram of the snapshot stream.** -/
theorem Mirrors.recvCallback_snapshot (h : Mirrors us c) (ht : Tracks us c)
    (hus : ∀ u ∈ us, Incremental u) {s : SnapshotSynthesizer} (hs : s.Follows us)
    (hb : Built us s) {ms : List MDPMarketUpdate} (hms : ∀ m ∈ ms, m ∈ s.publishSnapshot)
    (hjoins : Joins s.publishSnapshot c ms) : Mirrors us (c.recvCallback true ms) := by
  unfold recvCallback
  split
  · exact h
  next hrec =>
    have hmix := hjoins.1 (by simpa using hrec)
    have hjoin := hjoins.2 (by simpa using hrec)
    clear hrec hjoins
    induction ms generalizing c with
    | nil => exact h
    | cons m ms ih =>
      have hm := hms m (List.mem_cons_self ..)
      exact ih (h.recvMessage_snapshot ht hus hs hb hm hmix.1 hjoin.1)
        (ht.recvMessage_snapshot hs hm hmix.1) (fun m' hm' => hms m' (List.mem_cons_of_mem _ hm'))
        hmix.2 hjoin.2

end MarketDataConsumer

/-! ## Runs -/

/-- A client whose books hold the reference's feed looks at the exchange's books. -/
theorem EngineSim.views {e : MatchingEngine} {R : RefExchange} {m : MarketOrderBookHashMap}
    (h : EngineSim e R) (hbooks : BooksSim m (feedsOf R)) (t : Nat) (b : Bool) :
    ∃ levels, (e t).ladder.view b = some levels ∧
      (m t).ladder.view b = some (levels.map feedLevel) := by
  obtain ⟨G, hr, hb⟩ := hbooks t
  obtain ⟨G', hr', hb', -⟩ := h t
  refine ⟨_, hr'.view b, ?_⟩
  rw [hr.view b, hb, hb']
  exact congrArg some (levelsOf_feed _)

namespace MarketDataFeed

open MarketDataConsumer (Joins Unmixed Mirrors)

variable {σ σ' : MarketDataFeed} {qs : List MEClientRequest}

theorem Step.mono
    {P Q : List MDPMarketUpdate → MarketDataConsumer → List MDPMarketUpdate → Prop}
    (hPQ : ∀ cycle c ms, P cycle c ms → Q cycle c ms) (h : Step P σ σ') : Step Q σ σ' := by
  cases h with
  | process q he => exact .process q he
  | publish hu => exact .publish hu
  | flush hne => exact .flush hne
  | addToSnapshot hm hs => exact .addToSnapshot hm hs
  | publishSnapshot => exact .publishSnapshot
  | recvIncremental ms hms => exact .recvIncremental ms hms
  | recvSnapshot cycle ms hms hP => exact .recvSnapshot cycle ms hms (hPQ _ _ _ hP)

/-- The requests that the matching engine has processed, and where that leaves
the feed. -/
inductive Runs : List MEClientRequest → MarketDataFeed → Prop
  | init : Runs [] init
  | process {qs : List MEClientRequest} {σ : MarketDataFeed} (h : Runs qs σ) (q : MEClientRequest)
      {e : MatchingEngine} {evs : List Event} (he : σ.engine.processClientRequest q = .ok (e, evs)) :
      Runs (qs ++ [q]) { σ with
        engine := e
        outgoing_md_updates_ := σ.outgoing_md_updates_ ++ LowLatency.updates evs }
  /-- Any other step. -/
  | other {qs : List MEClientRequest} {σ σ' : MarketDataFeed} (h : Runs qs σ) (hs : Step Joins σ σ')
      (hengine : σ'.engine = σ.engine)
      (hwritten : σ'.updates ++ σ'.outgoing_md_updates_ = σ.updates ++ σ.outgoing_md_updates_) :
      Runs qs σ'

/-- What holds between any two steps. -/
structure MirrorInv (σ : MarketDataFeed) : Prop where
  feed : Inv σ
  synthesizer : Built σ.updates σ.synthesizer
  snapshot : ∀ x ∈ σ.snapshot, ∃ s : SnapshotSynthesizer, s.Follows σ.updates ∧
    Built σ.updates s ∧ x.1 = s.publishSnapshot ∧ ∀ m ∈ x.2, m ∈ x.1
  consumer : Mirrors σ.updates σ.consumer

theorem mirrorInv_init : MirrorInv init where
  feed := inv_init
  synthesizer := ⟨Nat.le_refl 0, rfl⟩
  snapshot := fun _ h => absurd h (by simp [init])
  consumer := ⟨0, Nat.le_refl 0, .increments, fun _ => rfl⟩

/-- **Every step keeps the invariant.** -/
theorem MirrorInv.step (h : MirrorInv σ) (hstep : Step Joins σ σ') : MirrorInv σ' := by
  have hfeed := h.feed.step (hstep.mono fun _ _ _ hj => hj.1)
  cases hstep with
  | process q he => exact ⟨hfeed, h.synthesizer, h.snapshot, h.consumer⟩
  | @publish u us hu =>
    refine ⟨hfeed, h.synthesizer.append [u], fun x hx => ?_, h.consumer.append [u]⟩
    obtain ⟨s, hs, hb, hrest⟩ := h.snapshot x hx
    exact ⟨s, hs.append [u], hb.append [u], hrest⟩
  | flush hne => exact ⟨hfeed, h.synthesizer, h.snapshot, h.consumer⟩
  | addToSnapshot hm hs =>
    exact ⟨hfeed, h.synthesizer.addToSnapshot hm hs, h.snapshot, h.consumer⟩
  | publishSnapshot =>
    refine ⟨hfeed, h.synthesizer, fun x hx => ?_, h.consumer⟩
    rcases List.mem_append.mp hx with hx | hx
    · exact h.snapshot x hx
    · obtain ⟨d, hd, rfl⟩ := List.mem_map.mp hx
      refine ⟨σ.synthesizer, h.feed.synthesizer, h.synthesizer, rfl, fun m hm => ?_⟩
      exact (mem_datagrams hd hm).resolve_left (by simp)
  | recvIncremental ms hms =>
    exact ⟨hfeed, h.synthesizer, h.snapshot,
      h.consumer.recvCallback_incremental h.feed.consumer (h.feed.incremental ms hms)⟩
  | recvSnapshot cycle ms hms hP =>
    refine ⟨hfeed, h.synthesizer, h.snapshot, ?_⟩
    obtain ⟨s, hs, hb, rfl, hin⟩ := h.snapshot _ hms
    exact h.consumer.recvCallback_snapshot h.feed.consumer h.feed.updates hs hb hin hP

theorem Runs.inv (h : Runs qs σ) : MirrorInv σ := by
  induction h with
  | init => exact mirrorInv_init
  | process _ q he ih => exact ih.step (.process q he)
  | other _ hs _ _ ih => exact ih.step hs

/-- The updates written are those of the run of requests. -/
theorem Runs.written (h : Runs qs σ) : ∃ evss, MatchingEngine.init.run qs = .ok (σ.engine, evss) ∧
    σ.updates ++ σ.outgoing_md_updates_ = LowLatency.updates evss.flatten := by
  induction h with
  | init => exact ⟨[], rfl, rfl⟩
  | @process qs σ h q e evs he ih =>
    obtain ⟨evss, hrun, hwritten⟩ := ih
    refine ⟨evss ++ [evs], MatchingEngine.run_snoc hrun he, ?_⟩
    rw [List.flatten_append, updates_append, ← hwritten, List.append_assoc]
    simp
  | other _ _ hengine hwritten ih =>
    obtain ⟨evss, hrun, hw⟩ := ih
    exact ⟨evss, hengine ▸ hrun, hwritten.trans hw⟩

/-- The updates written are the history. -/
theorem Runs.written_eq (h : Runs qs σ) (ha : Admissible qs) :
    σ.updates ++ σ.outgoing_md_updates_ = history qs := by
  obtain ⟨evss, hrun, hwritten⟩ := h.written
  obtain ⟨e', hrun', -⟩ := engine_run_sim engineSim_init (fun _ => RefBook.inv_init) ha.admits
    ha.fits
  obtain ⟨-, rfl⟩ := Prod.mk.inj (Except.ok.inj (hrun.symm.trans hrun'))
  exact hwritten

theorem Runs.feedsOk (h : Runs qs σ) (ha : Admissible qs) :
    FeedsOk (fun _ => Book.empty) σ.updates := by
  have hall := ha.feedsOk
  rw [← h.written_eq ha] at hall
  exact (feedsOk_append.mp hall).1

/-- If the first `j` increments are those of a run of requests, they build the books
that the exchange has after it. -/
theorem Runs.feedsAt (h : Runs qs σ) (ha : Admissible qs) {j : Nat} (hj : j ≤ σ.updates.length)
    {qs' : List MEClientRequest} (hqs' : qs' <+: qs) {e : MatchingEngine}
    {evss : List (List Event)} (hrun : MatchingEngine.init.run qs' = .ok (e, evss))
    (hlen : (LowLatency.updates evss.flatten).length = j) :
    EngineSim e (RefExchange.init.run qs') ∧
      feedsAfter (σ.updates.take j) = feedsOf (RefExchange.init.run qs') := by
  obtain ⟨rest, rfl⟩ := hqs'
  have ha' := ha.of_append
  obtain ⟨e₁, hrun₁, hsim⟩ := engine_run_sim engineSim_init (fun _ => RefBook.inv_init)
    ha'.admits ha'.fits
  obtain ⟨rfl, rfl⟩ := Prod.mk.inj (Except.ok.inj (hrun.symm.trans hrun₁))
  have htake : σ.updates.take j = history qs' := by
    have hhist : σ.updates ++ σ.outgoing_md_updates_ = history qs' ++ _ :=
      (h.written_eq ha).trans (history_append qs' rest)
    rw [← List.take_append_of_le_length hj, hhist]
    exact List.take_left' hlen
  exact ⟨hsim, by rw [htake, ha'.feedsAfter_history]⟩

/-- What was passed on builds the books of the first `j` increments. -/
theorem Runs.books (h : Runs qs σ) (ha : Admissible qs) : ∃ j m, j ≤ σ.updates.length ∧
    (σ.consumer.in_recovery_ = false → σ.consumer.next_exp_inc_seq_num_ = j + 1) ∧
    MarketOrderBookHashMap.init.processMarketUpdates σ.consumer.incoming_md_updates_ = .ok m ∧
    BooksSim m (feedsAfter (σ.updates.take j)) := by
  obtain ⟨j, hj, hp, hnext⟩ := h.inv.consumer
  obtain ⟨m, hm, hbooks⟩ := hp.books (h.feedsOk ha)
  exact ⟨j, m, hj, hnext, hm, hbooks⟩

/-- So do these increments themselves. -/
theorem Runs.replayed (h : Runs qs σ) (ha : Admissible qs) {j : Nat} {m : MarketOrderBookHashMap}
    (hbooks : BooksSim m (feedsAfter (σ.updates.take j))) : ∃ mi,
    MarketOrderBookHashMap.init.processMarketUpdates (σ.updates.take j) = .ok mi ∧
    ∀ t b, ∃ levels, (m t).ladder.view b = some levels ∧ (mi t).ladder.view b = some levels := by
  have hprefix : Passed σ.updates j (σ.updates.take j) := .increments
  obtain ⟨mi, hmi, hbooksi⟩ := hprefix.books (h.feedsOk ha)
  refine ⟨mi, hmi, fun t b => ?_⟩
  obtain ⟨G, hr, hb⟩ := hbooks t
  obtain ⟨G', hr', hb'⟩ := hbooksi t
  refine ⟨_, hr.view b, ?_⟩
  rw [hr'.view b, hb', hb]

/-- A sell order of 10, and a fill of 4 after the only cycle. -/
def lateRequests : List MEClientRequest :=
  [⟨.NEW, 1, 0, 7, .SELL, 100, 10⟩, ⟨.NEW, 2, 0, 9, .BUY, 100, 4⟩]

theorem lateRequests_admissible : Admissible lateRequests :=
  ⟨by decide, by decide, by decide, by decide⟩

/-- The increments of the fill and a cycle before it are sent. -/
theorem late_sent : ∃ σ, Runs lateRequests σ ∧ σ.consumer = {} ∧
    σ.updates = restingOrder 10 :: fillUpdates ∧ σ.outgoing_md_updates_ = [] ∧
      σ.incremental = [publish 1 [restingOrder 10], publish 2 fillUpdates] ∧
      σ.snapshot = [(cycleHead 1 10 ++ cycleTail 1, cycleHead 1 10),
        (cycleHead 1 10 ++ cycleTail 1, cycleTail 1)] := by
  have h₁ := Runs.init.process ⟨.NEW, 1, 0, 7, .SELL, 100, 10⟩ rfl
  have h₂ := h₁.other (.publish rfl) rfl rfl
  have h₃ := h₂.other (.flush (List.cons_ne_nil _ _)) rfl rfl
  have h₄ := h₃.other (.addToSnapshot rfl rfl) rfl rfl
  have h₅ := h₄.other .publishSnapshot rfl rfl
  have h₆ := h₅.process ⟨.NEW, 2, 0, 9, .BUY, 100, 4⟩ rfl
  have h₇ := h₆.other (.publish rfl) rfl rfl
  have h₈ := h₇.other (.publish rfl) rfl rfl
  have h₉ := h₈.other (.flush (List.cons_ne_nil _ _)) rfl rfl
  have htab : ∀ t i, SnapshotSynthesizer.init.setOrder 0 1 (some 0) t i =
      if t = 0 ∧ i = 1 then some 0 else none := setOrder_apply SnapshotSynthesizer.init 0 1 (some 0)
  refine ⟨_, h₉, rfl, rfl, rfl, rfl, ?_⟩
  show [] ++ List.map _ _ = _
  exact congrArg (List.append []) (datagrams_single htab rfl rfl)

/-- A client that comes after the first increment reads the second and third, and
then the cycle. All three increments are then in its books. -/
theorem late_read : ∃ σ, Runs lateRequests σ ∧ σ.consumer.incoming_md_updates_.length = 11 ∧
    σ.consumer.in_recovery_ = false ∧ σ.consumer.next_exp_inc_seq_num_ = 4 ∧
    (σ.updates ++ σ.outgoing_md_updates_).length = 3 := by
  obtain ⟨σ, h, hc, hu, ho, hi, hs⟩ := late_sent
  have h₁ := h.other (.recvIncremental (publish 2 fillUpdates) (by rw [hi]; decide)) rfl rfl
  have h₂ := h₁.other (.recvSnapshot (cycleHead 1 10 ++ cycleTail 1) (cycleHead 1 10)
    (by show _ ∈ σ.snapshot; rw [hs]; decide) (by
      show Joins _ (σ.consumer.recvCallback false _) _
      rw [hc]
      exact ⟨fun _ => by decide, fun _ => by decide⟩)) rfl rfl
  have h₃ := h₂.other (.recvSnapshot (cycleHead 1 10 ++ cycleTail 1) (cycleTail 1)
    (by show _ ∈ σ.snapshot; rw [hs]; decide) (by
      show Joins _ ((σ.consumer.recvCallback false _).recvCallback true _) _
      rw [hc]
      exact ⟨fun _ => by decide, fun _ => by decide⟩)) rfl rfl
  refine ⟨_, h₃, ?_, ?_, ?_, ?_⟩ <;> dsimp only
  · rw [hc]
    decide
  · rw [hc]
    decide
  · rw [hc]
    decide
  · rw [hu, ho]
    rfl

end MarketDataFeed

end LowLatency
