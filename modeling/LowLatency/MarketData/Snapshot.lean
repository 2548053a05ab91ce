import LowLatency.MarketData.SnapshotSynthesizer
import LowLatency.Strategy.Replica
import LowLatency.Matcher.MatchingEngine

/-!
# A snapshot is the incremental history

The synthesizer forgets the order in which orders arrived: it keeps them by id.
Replaying a snapshot therefore adds the live orders of a ticker by ascending
market order id. That this gives back the very queues is a property of the
exchange, `FeedInv.fifo`: at one price, arrival order *is* id order. A queue
sorted by price and then id is determined by its elements (`queue_ext`), so the
two replays meet.

`SnapInv` relates the synthesizer to the feeds: for every live order a block
with the `ADD` that recreates it, and nothing else in the tables or the pool.
It is kept by every single update, so the statement at the end covers a snapshot
taken in the middle of a request's updates.
-/

namespace LowLatency

/-- The `ADD` that recreates an order. -/
def addMessage (t : Nat) (o : OrderData Nat) : MEMarketUpdate where
  type_ := .ADD
  order_id_ := o.id_
  ticker_id_ := t
  side_ := o.side_
  price_ := o.price_
  qty_ := o.qty_
  priority_ := o.priority_

theorem addMessage_orderOf {u : MEMarketUpdate} (h : u.type_ = .ADD) :
    addMessage u.ticker_id_ (orderOf u) = u := by
  obtain ⟨ty, oid, t, sd, p, q, pr⟩ := u
  obtain rfl : ty = .ADD := h
  rfl

/-! ## The synthesizer follows the feeds -/

/-- The synthesizer holds exactly the live orders of `F`. -/
structure SnapInv (s : SnapshotSynthesizer) (F : Feeds) : Prop where
  mem : ∀ t b, ∀ o ∈ F t b, ∃ p, s.ticker_orders_ t o.id_ = some p ∧ s.order_pool_.Used p ∧
    s.order_pool_.get p = addMessage t o
  only : ∀ t i p, s.ticker_orders_ t i = some p →
    t < ME_MAX_TICKERS ∧ ∃ b, ∃ o ∈ F t b, o.id_ = i
  inj : ∀ t i t' i' p, s.ticker_orders_ t i = some p → s.ticker_orders_ t' i' = some p →
    t = t' ∧ i = i'
  used : ∀ p, s.order_pool_.Used p → ∃ t i, s.ticker_orders_ t i = some p
  valid : s.order_pool_.Valid
  size : s.order_pool_.size = ME_MAX_ORDER_IDS

theorem snapInv_init : SnapInv SnapshotSynthesizer.init fun _ => Book.empty where
  mem := by simp [Book.empty]
  only := fun _ _ _ h => absurd h (by simp [SnapshotSynthesizer.init])
  inj := fun _ _ _ _ _ h => absurd h (by simp [SnapshotSynthesizer.init])
  used := fun _ h => absurd h.2 (by
    simp [SnapshotSynthesizer.init, MemPool.init, MemPool.isFree])
  valid := MemPool.valid_init (by decide) _
  size := rfl

section Synthesizer

variable {s : SnapshotSynthesizer} {F : Feeds} {u : MEMarketUpdate}

theorem mem_applyTo {t : Nat} {b : Bool} {o : OrderData Nat} :
    o ∈ applyTo F u t b ↔ (t = u.ticker_id_ ∧ o ∈ applyUpdate (F u.ticker_id_) u b) ∨
      (t ≠ u.ticker_id_ ∧ o ∈ F t b) := by
  unfold applyTo
  by_cases ht : t = u.ticker_id_
  · subst ht
    rw [Function.update_self]
    simp
  · rw [Function.update_of_ne ht]
    simp [ht]

theorem mem_applyTo_add (hu : u.type_ = .ADD) {t : Nat} {b : Bool} {o : OrderData Nat} :
    o ∈ applyTo F u t b ↔
      (t = u.ticker_id_ ∧ b = Ladder.isBid (orderOf u).side_ ∧ o = orderOf u) ∨ o ∈ F t b := by
  rw [mem_applyTo]
  unfold applyUpdate
  rw [hu, Book.mem_rest]
  by_cases ht : t = u.ticker_id_
  · simp [ht]
  · simp [ht]

theorem mem_applyTo_modify (hu : u.type_ = .MODIFY) {t : Nat} {b : Bool} {o : OrderData Nat} :
    o ∈ applyTo F u t b ↔ ∃ o' ∈ F t b,
      (if t = u.ticker_id_ ∧ idx o'.id_ = u.order_id_ then { o' with qty_ := u.qty_ } else o') =
        o := by
  rw [mem_applyTo]
  unfold applyUpdate
  rw [hu]
  show (_ ∧ o ∈ (F u.ticker_id_ b).map _) ∨ _ ↔ _
  rw [List.mem_map]
  by_cases ht : t = u.ticker_id_
  · simp [ht]
  · simp [ht]

theorem mem_applyTo_cancel (hu : u.type_ = .CANCEL) {t : Nat} {b : Bool} {o : OrderData Nat} :
    o ∈ applyTo F u t b ↔ o ∈ F t b ∧ ¬ (t = u.ticker_id_ ∧ o.id_ = u.order_id_) := by
  rw [mem_applyTo]
  unfold applyUpdate
  rw [hu]
  show (_ ∧ o ∈ (F u.ticker_id_ b).filter fun o => decide (o.id_ ≠ u.order_id_)) ∨ _ ↔ _
  rw [List.mem_filter, decide_eq_true_iff]
  by_cases ht : t = u.ticker_id_
  · simp [ht]
  · simp [ht]

/-- An entry leads to a block in use. -/
theorem SnapInv.entry_used (h : SnapInv s F) {t i p : Nat}
    (htab : s.ticker_orders_ t i = some p) : s.order_pool_.Used p := by
  obtain ⟨_, b, o, ho, rfl⟩ := h.only t i p htab
  obtain ⟨q, hq, hused, _⟩ := h.mem t b o ho
  rw [Option.some.inj (htab.symm.trans hq)]
  exact hused

/-- The order a message names, and its block. -/
theorem SnapInv.named (h : SnapInv s F) (hF : FeedInv (F u.ticker_id_))
    (ht : u.ticker_id_ < ME_MAX_TICKERS) (hn : Names (F u.ticker_id_) u) :
    ∃ b o p, o ∈ F u.ticker_id_ b ∧ o.id_ = u.order_id_ ∧ o.price_ = u.price_ ∧
      s.ticker_orders_ u.ticker_id_ u.order_id_ = some p ∧ s.order_pool_.Used p ∧
      s.order_pool_.get p = addMessage u.ticker_id_ o ∧ s.checkedOrder u = .ok p := by
  obtain ⟨b, o, ho, hid, hside, hprice⟩ := hn
  obtain ⟨p, htab, hused, hget⟩ := h.mem _ b o ho
  refine ⟨b, o, p, ho, hid, hprice, by rw [← hid]; exact htab, hused, hget, ?_⟩
  have hrange : u.order_id_ < ME_MAX_ORDER_IDS := by rw [← hid]; exact hF.range b o ho
  have hgo : s.getOrder u.ticker_id_ u.order_id_ = .ok (some p) := by
    unfold SnapshotSynthesizer.getOrder
    rw [if_pos ⟨ht, hrange⟩, ← hid, htab]
  have h₁ : decide ((s.order_pool_.get p).order_id_ = u.order_id_) = true := by
    rw [hget]
    exact decide_eq_true hid
  have h₂ : decide ((s.order_pool_.get p).side_ = u.side_) = true := by
    rw [hget]
    exact decide_eq_true hside
  simp only [SnapshotSynthesizer.checkedOrder, hgo, exec_ok_bind, Option.isSome_some, ASSERT_true,
    deref_some, h₁, h₂, exec_pure]

/-- As long as there is room for another order the shared pool has a block. -/
theorem SnapInv.allocate (h : SnapInv s F) {t : Nat} (ht : t < ME_MAX_TICKERS)
    (hroom : (F t).live + 1 ≤ room F t) (x : MEMarketUpdate) :
    ∃ m, s.order_pool_.allocate x = .ok (s.order_pool_.next_free_index_, m) ∧ m.Valid ∧
      m.size = s.order_pool_.size ∧ m.store_ =
        Function.update s.order_pool_.store_ s.order_pool_.next_free_index_ ⟨x, false⟩ := by
  rcases MemPool.allocate_cases h.valid x with hok | ⟨_, hfull⟩
  · exact hok
  · exfalso
    -- the blocks in use, listed by ticker and order
    set L : List Nat := (List.range ME_MAX_TICKERS).flatMap fun t =>
      (F t true ++ F t false).map fun o => (s.ticker_orders_ t o.id_).getD 0 with hL
    have hlen : L.length = (F t).live + others F t := by
      rw [hL, List.length_flatMap]
      simp only [List.length_map, List.length_append]
      have hsum : ((List.range ME_MAX_TICKERS).map fun t => (F t).live).sum
          = ∑ t ∈ Finset.range ME_MAX_TICKERS, (F t).live := rfl
      unfold others
      rw [Finset.add_sum_erase _ (fun t => (F t).live) (Finset.mem_range.mpr ht), ← hsum]
      rfl
    have hle : s.order_pool_.size ≤ L.length + 1 := MemPool.size_le_of_full hfull fun q hq => by
      obtain ⟨t', i, htab⟩ := h.used q hq
      obtain ⟨ht', b, o, ho, hoi⟩ := h.only t' i q htab
      refine List.mem_flatMap.mpr ⟨t', List.mem_range.mpr ht', ?_⟩
      refine List.mem_map.mpr ⟨o, ?_, by rw [hoi, htab]; rfl⟩
      cases b with
      | true => exact List.mem_append.mpr (Or.inl ho)
      | false => exact List.mem_append.mpr (Or.inr ho)
    rw [h.size, hlen] at hle
    unfold room at hroom
    omega

/-- An `ADD`. -/
theorem snapshot_add (h : SnapInv s F) (ht : u.ticker_id_ < ME_MAX_TICKERS) (hu : u.type_ = .ADD)
    (ha : AddOk (room F u.ticker_id_) (F u.ticker_id_) (orderOf u)) :
    ∃ s', s.onUpdate u = .ok s' ∧ SnapInv s' (applyTo F u) ∧
      s'.last_inc_seq_num_ = s.last_inc_seq_num_ := by
  have hnone : s.ticker_orders_ u.ticker_id_ u.order_id_ = none := by
    cases htab : s.ticker_orders_ u.ticker_id_ u.order_id_ with
    | none => rfl
    | some p =>
      obtain ⟨_, b, o, ho, hoi⟩ := h.only _ _ p htab
      exact absurd hoi (ha.later b o ho).ne
  have hroom : (F u.ticker_id_).live + 1 ≤ room F u.ticker_id_ := by
    rw [← Book.live_rest _ (orderOf u)]
    exact ha.live
  obtain ⟨m, halloc, hvalid, hsize, hstore⟩ := h.allocate ht hroom u
  set p := s.order_pool_.next_free_index_ with hp
  have hgo : s.getOrder u.ticker_id_ u.order_id_ = .ok none := by
    unfold SnapshotSynthesizer.getOrder
    rw [if_pos ⟨ht, ha.range⟩, hnone]
  refine ⟨{ s with
      order_pool_ := m
      ticker_orders_ := s.setOrder u.ticker_id_ u.order_id_ (some p) }, ?_, ?_, rfl⟩
  · unfold SnapshotSynthesizer.onUpdate
    simp only [hu, hgo, exec_ok_bind, Option.isNone_none, ASSERT_true, halloc, exec_pure]
  have hused : ∀ {q}, m.Used q ↔ q = p ∨ s.order_pool_.Used q :=
    MemPool.used_of_store hsize hstore h.valid.lt
  -- an entry that was there is another one, and leads to another block
  have hold : ∀ {t i q}, s.ticker_orders_ t i = some q →
      s.setOrder u.ticker_id_ u.order_id_ (some p) t i = some q ∧ q ≠ p := by
    intro t i q htab
    constructor
    · rw [setOrder_apply, if_neg]
      · exact htab
      · rintro ⟨rfl, rfl⟩
        exact absurd (hnone.symm.trans htab) (by simp)
    · rintro rfl
      exact h.valid.not_used (h.entry_used htab)
  have hentry : ∀ {t i q}, s.setOrder u.ticker_id_ u.order_id_ (some p) t i = some q →
      (t = u.ticker_id_ ∧ i = u.order_id_ ∧ q = p) ∨ s.ticker_orders_ t i = some q := by
    intro t i q he
    rw [setOrder_apply] at he
    split at he
    next hti => exact Or.inl ⟨hti.1, hti.2, (Option.some.inj he).symm⟩
    next => exact Or.inr he
  refine ⟨?_, ?_, ?_, ?_, hvalid, hsize.trans h.size⟩
  · intro t b o ho
    rcases (mem_applyTo_add hu).mp ho with ⟨rfl, _, rfl⟩ | ho
    · refine ⟨p, ?_, hused.mpr (Or.inl rfl), ?_⟩
      · exact (setOrder_apply ..).trans (if_pos ⟨rfl, rfl⟩)
      · rw [MemPool.get_of_store hstore, if_pos rfl]
        exact (addMessage_orderOf hu).symm
    · obtain ⟨q, htab, hq, hget⟩ := h.mem t b o ho
      refine ⟨q, (hold htab).1, hused.mpr (Or.inr hq), ?_⟩
      rw [MemPool.get_of_store hstore, if_neg (hold htab).2]
      exact hget
  · intro t i q he
    rcases hentry he with ⟨rfl, rfl, _⟩ | htab
    · exact ⟨ht, _, orderOf u, (mem_applyTo_add hu).mpr (Or.inl ⟨rfl, rfl, rfl⟩), rfl⟩
    · obtain ⟨ht', b, o, ho, hoi⟩ := h.only t i q htab
      exact ⟨ht', b, o, (mem_applyTo_add hu).mpr (Or.inr ho), hoi⟩
  · intro t i t' i' q he he'
    rcases hentry he with ⟨h₁, h₂, h₃⟩ | htab <;> rcases hentry he' with ⟨h₁', h₂', h₃'⟩ | htab'
    · exact ⟨h₁.trans h₁'.symm, h₂.trans h₂'.symm⟩
    · exact absurd h₃ (hold htab').2
    · exact absurd h₃' (hold htab).2
    · exact h.inj t i t' i' q htab htab'
  · intro q hq
    rcases hused.mp hq with rfl | hq
    · exact ⟨u.ticker_id_, u.order_id_, (setOrder_apply ..).trans (if_pos ⟨rfl, rfl⟩)⟩
    · obtain ⟨t, i, htab⟩ := h.used q hq
      exact ⟨t, i, (hold htab).1⟩

/-- A `MODIFY`: the block is patched. -/
theorem snapshot_modify (h : SnapInv s F) (hF : FeedInv (F u.ticker_id_))
    (ht : u.ticker_id_ < ME_MAX_TICKERS) (hu : u.type_ = .MODIFY) (hn : Names (F u.ticker_id_) u) :
    ∃ s', s.onUpdate u = .ok s' ∧ SnapInv s' (applyTo F u) ∧
      s'.last_inc_seq_num_ = s.last_inc_seq_num_ := by
  obtain ⟨b₀, o₀, p, ho₀, hid₀, hprice₀, htab₀, hused₀, hget₀, hcheck⟩ := h.named hF ht hn
  refine ⟨{ s with
      order_pool_ := s.order_pool_.set p
        { s.order_pool_.get p with qty_ := u.qty_, price_ := u.price_ } }, ?_, ?_, rfl⟩
  · unfold SnapshotSynthesizer.onUpdate
    simp only [hu, hcheck, exec_ok_bind, exec_pure]
  refine ⟨?_, ?_, h.inj, ?_, h.valid.set _ _, h.size⟩
  · intro t b o ho
    obtain ⟨o', ho', rfl⟩ := (mem_applyTo_modify hu).mp ho
    obtain ⟨q, htab, hq, hget⟩ := h.mem t b o' ho'
    by_cases hi : t = u.ticker_id_ ∧ idx o'.id_ = u.order_id_
    · -- the order named: its block is `p`
      rw [if_pos hi]
      obtain ⟨rfl, hi⟩ := hi
      obtain ⟨_, rfl⟩ := hF.id_inj ho' ho₀ (hi.trans hid₀.symm)
      have hqp : q = p := by
        rw [hid₀, htab₀] at htab
        exact (Option.some.inj htab).symm
      refine ⟨q, htab, MemPool.used_set.mpr hq, ?_⟩
      rw [MemPool.get_set, if_pos hqp, ← hqp, hget]
      show ({ addMessage _ o' with qty_ := u.qty_, price_ := u.price_ } : MEMarketUpdate) = _
      rw [← hprice₀]
      rfl
    · rw [if_neg hi]
      refine ⟨q, htab, MemPool.used_set.mpr hq, ?_⟩
      rw [MemPool.get_set, if_neg]
      · exact hget
      · rintro rfl
        exact hi (h.inj _ _ _ _ q htab htab₀)
  · intro t i q he
    obtain ⟨ht', b, o, ho, hoi⟩ := h.only t i q he
    refine ⟨ht', b, _, (mem_applyTo_modify hu).mpr ⟨o, ho, rfl⟩, ?_⟩
    split <;> exact hoi
  · intro q hq
    exact h.used q (MemPool.used_set.mp hq)

/-- A `CANCEL`: the block is freed. -/
theorem snapshot_cancel (h : SnapInv s F) (hF : FeedInv (F u.ticker_id_))
    (ht : u.ticker_id_ < ME_MAX_TICKERS) (hu : u.type_ = .CANCEL) (hn : Names (F u.ticker_id_) u) :
    ∃ s', s.onUpdate u = .ok s' ∧ SnapInv s' (applyTo F u) ∧
      s'.last_inc_seq_num_ = s.last_inc_seq_num_ := by
  obtain ⟨b₀, o₀, p, ho₀, hid₀, _, htab₀, hused₀, _, hcheck⟩ := h.named hF ht hn
  refine ⟨{ s with
      order_pool_ := s.order_pool_.release p
      ticker_orders_ := s.setOrder u.ticker_id_ u.order_id_ none }, ?_, ?_, rfl⟩
  · unfold SnapshotSynthesizer.onUpdate
    simp only [hu, hcheck, exec_ok_bind, MemPool.deallocate_ok hused₀, exec_pure]
  -- the entries that stay are those of other orders, and lead to other blocks
  have hentry : ∀ {t i q}, s.setOrder u.ticker_id_ u.order_id_ none t i = some q ↔
      s.ticker_orders_ t i = some q ∧ ¬ (t = u.ticker_id_ ∧ i = u.order_id_) := by
    intro t i q
    rw [setOrder_apply]
    split
    next hti => simp [hti]
    next hti => simp [hti]
  have hother : ∀ {t i q}, s.ticker_orders_ t i = some q →
      (¬ (t = u.ticker_id_ ∧ i = u.order_id_) ↔ q ≠ p) := by
    intro t i q htab
    refine not_congr ⟨?_, ?_⟩
    · rintro ⟨rfl, rfl⟩
      exact Option.some.inj (htab.symm.trans htab₀)
    · rintro rfl
      exact h.inj _ _ _ _ q htab htab₀
  refine ⟨?_, ?_, ?_, ?_, h.valid.release p, h.size⟩
  · intro t b o ho
    obtain ⟨ho, hne⟩ := (mem_applyTo_cancel hu).mp ho
    obtain ⟨q, htab, hq, hget⟩ := h.mem t b o ho
    exact ⟨q, hentry.mpr ⟨htab, hne⟩, hq.release ((hother htab).mp hne),
      (MemPool.get_release ..).trans hget⟩
  · intro t i q he
    obtain ⟨htab, hne⟩ := hentry.mp he
    obtain ⟨ht', b, o, ho, rfl⟩ := h.only t i q htab
    exact ⟨ht', b, o, (mem_applyTo_cancel hu).mpr ⟨ho, hne⟩, rfl⟩
  · intro t i t' i' q he he'
    exact h.inj t i t' i' q (hentry.mp he).1 (hentry.mp he').1
  · intro q hq
    obtain ⟨hq, hqp⟩ := MemPool.used_release.mp hq
    obtain ⟨t, i, htab⟩ := h.used q hq
    exact ⟨t, i, hentry.mpr ⟨htab, (hother htab).mpr hqp⟩⟩

/-- **One incremental update** of the snapshot: no `ASSERT` fires. -/
theorem addToSnapshot_sim (h : SnapInv s F) (hF : FeedInv (F u.ticker_id_))
    (ht : u.ticker_id_ < ME_MAX_TICKERS)
    (hu : UpdateOk (room F u.ticker_id_) (F u.ticker_id_) u) :
    ∃ s', s.addToSnapshot ⟨s.last_inc_seq_num_ + 1, u⟩ = .ok s' ∧ SnapInv s' (applyTo F u) ∧
      s'.last_inc_seq_num_ = s.last_inc_seq_num_ + 1 := by
  have hon : ∃ s', s.onUpdate u = .ok s' ∧ SnapInv s' (applyTo F u) ∧
      s'.last_inc_seq_num_ = s.last_inc_seq_num_ := by
    unfold UpdateOk at hu
    split at hu
    next he => exact snapshot_add h ht he hu
    next he => exact snapshot_modify h hF ht he hu
    next he => exact snapshot_cancel h hF ht he hu
    next he =>
      refine ⟨s, ?_, ?_, rfl⟩
      · unfold SnapshotSynthesizer.onUpdate
        simp only [he, if_pos ht]
      · have happ : applyTo F u = F := by
          unfold applyTo applyUpdate
          rw [he]
          exact Function.update_eq_self ..
        rw [happ]
        exact h
    all_goals exact absurd hu id
  obtain ⟨s', hrun, hs', hlast⟩ := hon
  refine ⟨{ s' with last_inc_seq_num_ := s.last_inc_seq_num_ + 1 }, ?_,
    ⟨hs'.mem, hs'.only, hs'.inj, hs'.used, hs'.valid, hs'.size⟩, rfl⟩
  have hseq : decide (s.last_inc_seq_num_ + 1 = s'.last_inc_seq_num_ + 1) = true := by
    rw [hlast]
    exact decide_eq_true rfl
  simp only [SnapshotSynthesizer.addToSnapshot, hrun, exec_ok_bind, hseq, ASSERT_true, exec_pure]

end Synthesizer

theorem feedInv_applyTo {F : Feeds} {u : MEMarketUpdate} (hF : ∀ t, FeedInv (F t))
    (hu : UpdateOk (room F u.ticker_id_) (F u.ticker_id_) u) : ∀ t, FeedInv (applyTo F u t) := by
  intro t
  unfold applyTo
  by_cases ht : t = u.ticker_id_
  · rw [ht, Function.update_self]
    exact (hF _).apply (hu.mono (Nat.sub_le ..))
  · rw [Function.update_of_ne ht]
    exact hF t

/-- The numbered stream of a whole history. -/
theorem addAllToSnapshot_sim {s : SnapshotSynthesizer} {F : Feeds} {us : List MEMarketUpdate}
    (h : SnapInv s F) (hF : ∀ t, FeedInv (F t)) (hok : FeedsOk F us) :
    ∃ s', s.addAllToSnapshot (publish (s.last_inc_seq_num_ + 1) us) = .ok s' ∧
      SnapInv s' (us.foldl applyTo F) ∧ s'.last_inc_seq_num_ = s.last_inc_seq_num_ + us.length ∧
      ∀ t, FeedInv (us.foldl applyTo F t) := by
  induction us generalizing s F with
  | nil => exact ⟨s, rfl, h, rfl, hF⟩
  | cons u us ih =>
    obtain ⟨s₁, hrun₁, h₁, hlast₁⟩ := addToSnapshot_sim h (hF _) hok.1 hok.2.1
    obtain ⟨s₂, hrun₂, h₂, hlast₂, hF₂⟩ := ih h₁ (feedInv_applyTo hF hok.2.1) hok.2.2
    refine ⟨s₂, ?_, h₂, by rw [hlast₂, hlast₁, List.length_cons]; omega, hF₂⟩
    rw [publish_cons, SnapshotSynthesizer.addAllToSnapshot, hrun₁, ← hlast₁]
    exact hrun₂

/-! ## The orders of a ticker by id -/

/-- The live orders of a book by ascending id. -/
def ordersById (B : Book Nat) : List (OrderData Nat) :=
  (List.range ME_MAX_ORDER_IDS).filterMap fun i =>
    (B true ++ B false).find? fun o => decide (o.id_ = i)

section ById

variable {B : Book Nat}

/-- The order found under an id. -/
theorem find?_id (h : FeedInv B) {i : Nat} {o : OrderData Nat} :
    ((B true ++ B false).find? fun o => decide (o.id_ = i)) = some o ↔
      o.id_ = i ∧ ∃ b, o ∈ B b := by
  have hmem : ∀ o, o ∈ B true ++ B false ↔ ∃ b, o ∈ B b := by
    intro o
    rw [List.mem_append, Bool.exists_bool, or_comm]
  constructor
  · intro hf
    exact ⟨of_decide_eq_true (List.find?_some (p := fun o : OrderData Nat => decide (o.id_ = i)) hf),
      (hmem o).mp (List.mem_of_find?_eq_some hf)⟩
  · rintro ⟨hid, b, ho⟩
    cases hf : (B true ++ B false).find? fun o => decide (o.id_ = i) with
    | none =>
      have := List.find?_eq_none.mp hf o ((hmem o).mpr ⟨b, ho⟩)
      exact absurd (decide_eq_true hid) this
    | some o' =>
      have hid' := of_decide_eq_true (List.find?_some (p := fun o : OrderData Nat => decide (o.id_ = i)) hf)
      obtain ⟨b', ho'⟩ := (hmem o').mp (List.mem_of_find?_eq_some hf)
      rw [(h.id_inj ho' ho (hid'.trans hid.symm)).2]

theorem mem_ordersById (h : FeedInv B) {o : OrderData Nat} :
    o ∈ ordersById B ↔ ∃ b, o ∈ B b := by
  unfold ordersById
  simp only [List.mem_filterMap, List.mem_range, find?_id h]
  constructor
  · rintro ⟨_, _, _, hb⟩
    exact hb
  · rintro ⟨b, hb⟩
    exact ⟨o.id_, h.range b o hb, rfl, b, hb⟩

theorem pairwise_ordersById (h : FeedInv B) :
    (ordersById B).Pairwise fun o o' => o.id_ < o'.id_ := by
  refine List.Pairwise.filterMap _ ?_ List.pairwise_lt_range
  intro i i' hlt o ho o' ho'
  rw [((find?_id h).mp ho).1, ((find?_id h).mp ho').1]
  exact hlt

/-- The synthesizer's entries of a ticker are the feed's orders. -/
theorem SnapInv.tickerOrders {s : SnapshotSynthesizer} {F : Feeds} (h : SnapInv s F) {t : Nat}
    (hF : FeedInv (F t)) : s.tickerOrders t = (ordersById (F t)).map (addMessage t) := by
  unfold SnapshotSynthesizer.tickerOrders ordersById
  rw [List.map_filterMap]
  refine List.filterMap_congr fun i _ => ?_
  cases htab : s.ticker_orders_ t i with
  | none =>
    cases hf : (F t true ++ F t false).find? fun o => decide (o.id_ = i) with
    | none => rfl
    | some o =>
      obtain ⟨hid, b, ho⟩ := (find?_id hF).mp hf
      obtain ⟨p, hp, _⟩ := h.mem t b o ho
      rw [hid, htab] at hp
      exact absurd hp (by simp)
  | some p =>
    obtain ⟨_, b, o, ho, hid⟩ := h.only t i p htab
    obtain ⟨p', hp', _, hget⟩ := h.mem t b o ho
    rw [hid, htab] at hp'
    obtain rfl := Option.some.inj hp'
    rw [(find?_id hF).mpr ⟨hid, b, ho⟩, Option.map_some, Option.map_some, hget]

/-- The entries of a ticker, in the order they are sent. -/
theorem SnapInv.byId {s : SnapshotSynthesizer} {F : Feeds} (h : SnapInv s F) {t : Nat}
    (hF : FeedInv (F t)) : ∃ os : List (OrderData Nat), s.tickerOrders t = os.map (addMessage t) ∧
      (os.Pairwise fun o o' => o.id_ < o'.id_) ∧ ∀ o, o ∈ os ↔ ∃ b, o ∈ F t b :=
  ⟨_, h.tickerOrders hF, pairwise_ordersById hF, fun _ => mem_ordersById hF⟩

/-- Adding orders of a book by ascending id, one after the other: what has been
added so far is what the book holds of them. -/
theorem updatesOk_byId (h : FeedInv B) (t : Nat) (os : List (OrderData Nat))
    (hord : os.Pairwise fun o o' => o.id_ < o'.id_) (hmem : ∀ o ∈ os, ∃ b, o ∈ B b) :
    UpdatesOk (ME_MAX_ORDER_IDS - 1) Book.empty (os.map (addMessage t)) ∧
      (∀ b o, o ∈ (os.map (addMessage t)).foldl applyUpdate Book.empty b ↔ o ∈ os ∧ o ∈ B b) ∧
      ((os.map (addMessage t)).foldl applyUpdate Book.empty).live = os.length := by
  -- by appending: the prefix is the book the next order arrives at
  induction os using List.reverseRecOn with
  | nil => exact ⟨trivial, by simp [Book.empty], rfl⟩
  | append_singleton os d ih =>
    obtain ⟨hos, _, hlast⟩ := List.pairwise_append.mp hord
    obtain ⟨hok, hin, hlive⟩ := ih hos fun o ho => hmem o (List.mem_append_left _ ho)
    obtain ⟨b₀, hd⟩ := hmem d (by simp)
    set B' := (os.map (addMessage t)).foldl applyUpdate Book.empty with hB'
    have hside : d.side_ = sideOf b₀ := h.side b₀ d hd
    have hsd : Ladder.isBid d.side_ = b₀ := by rw [hside, isBid_sideOf]
    have hmem' : ∀ b o, o ∈ B'.rest d b ↔ o ∈ os ++ [d] ∧ o ∈ B b := by
      intro b o
      rw [Book.mem_rest, hin, List.mem_append, List.mem_singleton, hsd]
      constructor
      · intro hor
        rcases hor with ⟨hb, he⟩ | ⟨ho, hb⟩
        · exact ⟨Or.inr he, by rw [hb, he]; exact hd⟩
        · exact ⟨Or.inl ho, hb⟩
      · rintro ⟨hor, hb⟩
        rcases hor with ho | he
        · exact Or.inr ⟨ho, hb⟩
        · exact Or.inl ⟨(h.id_inj hb hd (by rw [he])).1, he⟩
    have hadd : AddOk (ME_MAX_ORDER_IDS - 1) B' d := by
      refine ⟨by rw [hside]; cases b₀ <;> simp [sideOf], h.range b₀ d hd, ?_, ?_, ?_, ?_⟩
      · exact fun b o ho => hlast o ((hin b o).mp ho).1 d (by simp)
      · intro b o ho hi
        have := h.slots b o ((hin b o).mp ho).2 b₀ d hd hi
        exact ⟨by rw [hsd]; exact this.1, this.2⟩
      · rw [Book.live_rest, hlive]
        have hnd : (os ++ [d]).Nodup := hord.imp fun hlt he => by rw [he] at hlt; exact hlt.false
        have hsub : (os ++ [d]) ⊆ B true ++ B false := by
          intro o ho
          obtain ⟨b, hb⟩ := hmem o ho
          cases b with
          | true => exact List.mem_append_left _ hb
          | false => exact List.mem_append_right _ hb
        have hle := (List.subperm_of_subset hnd hsub).length_le
        rw [List.length_append, List.length_append] at hle
        exact Nat.le_trans hle h.live
      · exact Nat.le_trans (Book.levels_mono fun b o ho => ⟨o, ((hmem' b o).mp ho).2, rfl⟩) h.levels
    rw [List.map_append, updatesOk_append, List.foldl_append, ← hB']
    refine ⟨⟨hok, hadd, trivial⟩, hmem', ?_⟩
    show (B'.rest d).live = _
    rw [Book.live_rest, hlive, List.length_append]
    rfl

/-- **The orders by id rebuild the queues**: arrival order is id order. -/
theorem rebuild_byId (h : FeedInv B) (t : Nat) (os : List (OrderData Nat))
    (hord : os.Pairwise fun o o' => o.id_ < o'.id_) (hmem : ∀ o, o ∈ os ↔ ∃ b, o ∈ B b) :
    UpdatesOk (ME_MAX_ORDER_IDS - 1) Book.empty (os.map (addMessage t)) ∧
      (os.map (addMessage t)).foldl applyUpdate Book.empty = B := by
  obtain ⟨hok, hin, _⟩ := updatesOk_byId h t os hord fun o ho => (hmem o).mp ho
  have hinv := FeedInv.empty.foldl hok
  refine ⟨hok, funext fun b => Lib.queue_ext (hinv.fifo b) (h.fifo b) fun o => ?_⟩
  rw [hin]
  exact ⟨fun ho => ho.2, fun ho => ⟨(hmem o).mpr ⟨b, ho⟩, ho⟩⟩

end ById

/-! ## Replaying into fresh books -/

/-- Every book of the client holds what its feed says. -/
def BooksSim (m : MarketOrderBookHashMap) (F : Feeds) : Prop :=
  ∀ t, ∃ G, Represents (m t).ladder G ∧ bookOf G = F t

theorem booksSim_init : BooksSim MarketOrderBookHashMap.init fun _ => Book.empty :=
  fun _ => ⟨_, Represents.init, rfl⟩

/-- The replay of a stream of increments. -/
theorem processMarketUpdates_sim {m : MarketOrderBookHashMap} {F : Feeds}
    {us : List MEMarketUpdate} (h : BooksSim m F) (hok : FeedsOk F us) :
    ∃ m', m.processMarketUpdates us = .ok m' ∧ BooksSim m' (us.foldl applyTo F) := by
  induction us generalizing m F with
  | nil => exact ⟨m, rfl, h⟩
  | cons u us ih =>
    obtain ⟨ht, hu, hrest⟩ := hok
    obtain ⟨G, hr, hb⟩ := h u.ticker_id_
    obtain ⟨s', G', hrun, hr', hb'⟩ := onMarketUpdate_sim hr (by
      rw [hb]
      exact hu.mono (Nat.sub_le ..))
    have hstep : m.processMarketUpdate u = .ok (Function.update m u.ticker_id_ s') := by
      simp only [MarketOrderBookHashMap.processMarketUpdate, decide_eq_true ht, ASSERT_true,
        exec_ok_bind, hrun, exec_pure]
    obtain ⟨m', hrun', h'⟩ := ih (m := Function.update m u.ticker_id_ s') (F := applyTo F u) (by
      intro t
      unfold applyTo
      by_cases hte : t = u.ticker_id_
      · rw [hte, Function.update_self, Function.update_self]
        exact ⟨G', hr', by rw [hb', hb]⟩
      · rw [Function.update_of_ne hte, Function.update_of_ne hte]
        exact h t) hrest
    refine ⟨m', ?_, h'⟩
    simp only [MarketOrderBookHashMap.processMarketUpdates, hstep, exec_ok_bind, hrun']

theorem processMarketUpdates_append {m m' : MarketOrderBookHashMap} {us vs : List MEMarketUpdate}
    (h : m.processMarketUpdates us = .ok m') :
    m.processMarketUpdates (us ++ vs) = m'.processMarketUpdates vs := by
  induction us generalizing m with
  | nil =>
    obtain rfl := Except.ok.inj h
    rfl
  | cons u us ih =>
    obtain ⟨m₁, h₁, h₂⟩ := exec_bind_ok h
    rw [List.cons_append, MarketOrderBookHashMap.processMarketUpdates, h₁]
    exact ih h₂

/-- The updates of one ticker go to its book. -/
theorem processMarketUpdates_single {m : MarketOrderBookHashMap} {t : Nat} {s : MarketOrderBook}
    {us : List MEMarketUpdate} (ht : t < ME_MAX_TICKERS) (hus : ∀ u ∈ us, u.ticker_id_ = t)
    (h : (m t).onMarketUpdates us = .ok s) :
    m.processMarketUpdates us = .ok (Function.update m t s) := by
  induction us generalizing m with
  | nil =>
    obtain rfl := Except.ok.inj h
    rw [Function.update_eq_self]
    rfl
  | cons u us ih =>
    have hu : u.ticker_id_ = t := hus u (List.mem_cons_self ..)
    obtain ⟨s₁, h₁, h₂⟩ := exec_bind_ok h
    have hstep : m.processMarketUpdate u = .ok (Function.update m t s₁) := by
      simp only [MarketOrderBookHashMap.processMarketUpdate, hu, decide_eq_true ht, ASSERT_true,
        exec_ok_bind, h₁, exec_pure]
    rw [MarketOrderBookHashMap.processMarketUpdates, hstep, exec_ok_bind,
      ih (fun v hv => hus v (List.mem_cons_of_mem _ hv)) (by rw [Function.update_self]; exact h₂),
      Function.update_idem]

theorem clearOrders_none {f : Nat → Option Nat} (h : ∀ i, f i = none) (is : List Nat)
    (m : MemPool (Order Nat)) : MarketLadder.clearOrders f is m = .ok m := by
  induction is with
  | nil => rfl
  | cons i is ih =>
    unfold MarketLadder.clearOrders
    rw [h i]
    exact ih

/-- `CLEAR` finds nothing to do in a fresh book. -/
theorem onMarketUpdate_clear_init (t : Nat) :
    MarketOrderBook.init.onMarketUpdate { type_ := .CLEAR, ticker_id_ := t }
      = .ok MarketOrderBook.init := by
  have hclear : MarketLadder.clear MarketOrderBook.init.ladder
      = .ok MarketOrderBook.init.ladder := by
    unfold MarketLadder.clear
    rw [clearOrders_none (f := MarketOrderBook.init.ladder.id_to_order_) fun _ => rfl]
    rfl
  unfold MarketOrderBook.onMarketUpdate MarketOrderBook.onUpdate
  rw [hclear]
  rfl

/-- The part of a snapshot about ticker `t`. -/
def tickerBlock (s : SnapshotSynthesizer) (t : Nat) : List MEMarketUpdate :=
  { type_ := .CLEAR, ticker_id_ := t } :: s.tickerOrders t

/-- The replay of a snapshot, ticker by ticker. -/
theorem processMarketUpdates_blocks {s : SnapshotSynthesizer} {F : Feeds} (h : SnapInv s F)
    (hF : ∀ t, FeedInv (F t)) {ts : List Nat} (hnd : ts.Nodup) (hts : ∀ t ∈ ts, t < ME_MAX_TICKERS)
    {m : MarketOrderBookHashMap} (hm : ∀ t ∈ ts, m t = MarketOrderBook.init) :
    ∃ m', m.processMarketUpdates (ts.flatMap (tickerBlock s)) = .ok m' ∧
      (∀ t ∈ ts, ∃ G, Represents (m' t).ladder G ∧ bookOf G = F t) ∧
      ∀ t, t ∉ ts → m' t = m t := by
  induction ts generalizing m with
  | nil => exact ⟨m, rfl, by simp, fun _ _ => rfl⟩
  | cons t ts ih =>
    obtain ⟨hnot, hnd'⟩ := List.nodup_cons.mp hnd
    have ht : t < ME_MAX_TICKERS := hts t (List.mem_cons_self ..)
    obtain ⟨os, hos, hord, hmem⟩ := h.byId (hF t)
    obtain ⟨hok, hfold⟩ := rebuild_byId (hF t) t os hord hmem
    obtain ⟨b, G, hrun, hr, hb⟩ := onMarketUpdates_sim _ (s := MarketOrderBook.init) Represents.init
      hok
    have hblock : m.processMarketUpdates (tickerBlock s t) = .ok (Function.update m t b) := by
      refine processMarketUpdates_single ht ?_ ?_
      · intro u hu
        rcases List.mem_cons.mp hu with rfl | hu
        · rfl
        · rw [hos] at hu
          obtain ⟨o, _, rfl⟩ := List.mem_map.mp hu
          rfl
      · rw [hm t (List.mem_cons_self ..), tickerBlock, MarketOrderBook.onMarketUpdates,
          onMarketUpdate_clear_init, exec_ok_bind, hos]
        exact hrun
    obtain ⟨m', hrun', hin, hout⟩ := ih hnd' (fun t' ht' => hts t' (List.mem_cons_of_mem _ ht'))
      (m := Function.update m t b) (by
        intro t' ht'
        have hne : t' ≠ t := fun e => hnot (e ▸ ht')
        rw [Function.update_of_ne hne]
        exact hm t' (List.mem_cons_of_mem _ ht'))
    refine ⟨m', ?_, ?_, ?_⟩
    · rw [List.flatMap_cons, processMarketUpdates_append hblock]
      exact hrun'
    · intro t' ht'
      rcases List.mem_cons.mp ht' with rfl | ht'
      · rw [hout t' hnot, Function.update_self]
        exact ⟨G, hr, hb.trans hfold⟩
      · exact hin t' ht'
    · intro t' ht'
      rw [List.mem_cons, not_or] at ht'
      rw [hout t' ht'.2, Function.update_of_ne ht'.1]

/-- The snapshot without its marks, ticker by ticker. -/
theorem finalEvents_snapshotMessages {s : SnapshotSynthesizer} {F : Feeds} (h : SnapInv s F)
    (hF : ∀ t, FeedInv (F t)) :
    finalEvents s.snapshotMessages = (List.range ME_MAX_TICKERS).flatMap (tickerBlock s) := by
  have hblock : ∀ t, ∀ u ∈ tickerBlock s t, u.type_ = .CLEAR ∨ u.type_ = .ADD := by
    intro t u hu
    rcases List.mem_cons.mp hu with rfl | hu
    · exact Or.inl rfl
    · obtain ⟨os, hos, _⟩ := h.byId (hF t)
      rw [hos] at hu
      obtain ⟨o, _, rfl⟩ := List.mem_map.mp hu
      exact Or.inr rfl
  have hall : ∀ u ∈ (List.range ME_MAX_TICKERS).flatMap (tickerBlock s),
      decide (u.type_ ≠ .SNAPSHOT_START ∧ u.type_ ≠ .SNAPSHOT_END) = true := by
    intro u hu
    obtain ⟨t, _, hu⟩ := List.mem_flatMap.mp hu
    rcases hblock t u hu with he | he <;> rw [he] <;> rfl
  unfold finalEvents SnapshotSynthesizer.snapshotMessages
  rw [List.cons_append, List.filter_cons_of_neg (by simp), List.filter_append,
    List.filter_cons_of_neg (by simp), List.filter_nil, List.append_nil]
  exact List.filter_eq_self.mpr hall

/-- The last message carries the last number. -/
theorem publish_getLast? (us : List MEMarketUpdate) (u : MEMarketUpdate) :
    (publish 0 (us ++ [u])).getLast? = some ⟨us.length, u⟩ := by
  rw [publish_append, Nat.zero_add]
  exact List.getLast?_concat

theorem publish_numbers (n : Nat) (us : List MEMarketUpdate) :
    (publish n us).map MDPMarketUpdate.seq_num_ = List.range' n us.length := by
  unfold publish
  rw [List.map_map]
  exact List.zipIdx_map_snd n us

/-! ## Snapshot and history -/

/-- **A snapshot equals the history it replaces.** Take any well-formed run of
requests to all books, and cut its updates after any `n`, between two requests
or in the middle of one. The synthesizer takes the `n` numbered updates without
an `ASSERT` firing; its snapshot is numbered from 0 on and framed by START and
END with number `n`; and replaying it gives, for every ticker and side, the same
levels with the same orders in the same places as replaying the updates, which are
the levels of what these leave in force. -/
theorem snapshot_equals_history (qs : List MEClientRequest)
    (ha : RefExchange.AllAlong RefExchange.Admits RefExchange.init qs)
    (hf : RefExchange.AllAlong RefExchange.StepFits RefExchange.init qs)
    (hid : RefExchange.AllAlong (RefExchange.IdBelow ME_MAX_ORDER_IDS) RefExchange.init qs)
    (htot : RefExchange.AllAlong TotalFits RefExchange.init qs) :
    ∃ e evss, MatchingEngine.init.run qs = .ok (e, evss) ∧
      ∀ n, n ≤ (updates evss.flatten).length → ∃ s ms mi,
        SnapshotSynthesizer.init.addAllToSnapshot (publish 1 ((updates evss.flatten).take n))
          = .ok s ∧
        s.publishSnapshot.map MDPMarketUpdate.seq_num_ = List.range s.publishSnapshot.length ∧
        s.publishSnapshot.head? = some ⟨0, { type_ := .SNAPSHOT_START, order_id_ := n }⟩ ∧
        s.publishSnapshot.getLast? = some ⟨s.publishSnapshot.length - 1,
          { type_ := .SNAPSHOT_END, order_id_ := n }⟩ ∧
        MarketOrderBookHashMap.init.processMarketUpdates
          (finalEvents (s.publishSnapshot.map MDPMarketUpdate.me_market_update_)) = .ok ms ∧
        MarketOrderBookHashMap.init.processMarketUpdates ((updates evss.flatten).take n) = .ok mi ∧
        ∀ t < ME_MAX_TICKERS, ∀ b, ∃ levels,
          (ms t).ladder.view b = some levels ∧ (mi t).ladder.view b = some levels ∧
          levels = levelsOf
            (((updates evss.flatten).take n).foldl applyTo (fun _ => Book.empty) t b) := by
  obtain ⟨e, hrun, _⟩ := engine_run_sim engineSim_init (fun _ => RefBook.inv_init) ha hf
  refine ⟨e, _, hrun, fun n hn => ?_⟩
  set us := updates (RefExchange.init.runEvents wrap32 qs).flatten with hus
  -- the first `n` updates, from the empty feeds
  have hok : FeedsOk (fun _ => Book.empty) (us.take n) := by
    have hall : FeedsOk (fun _ => Book.empty) us :=
      engine_run_feed RefExchange.inv_init ha hf hid htot wrap32
    rw [← List.take_append_drop n us] at hall
    exact (feedsOk_append.mp hall).1
  obtain ⟨s, hsnap, hinv, hlast, hF⟩ :=
    addAllToSnapshot_sim snapInv_init (fun _ => FeedInv.empty) hok
  have hn' : s.last_inc_seq_num_ = n := by
    rw [hlast, List.length_take, Nat.min_eq_left hn]
    exact Nat.zero_add n
  obtain ⟨ms, hms, hmsim, _⟩ := processMarketUpdates_blocks hinv hF List.nodup_range
    (fun t => List.mem_range.mp) (m := MarketOrderBookHashMap.init) fun _ _ => rfl
  obtain ⟨mi, hmi, hmisim⟩ := processMarketUpdates_sim booksSim_init hok
  have hlen : s.publishSnapshot.length = s.snapshotMessages.length := by
    unfold SnapshotSynthesizer.publishSnapshot publish
    rw [List.length_map, List.length_zipIdx]
  refine ⟨s, ms, mi, hsnap, ?_, ?_, ?_, ?_, hmi, ?_⟩
  · rw [hlen, List.range_eq_range']
    exact publish_numbers 0 _
  · unfold SnapshotSynthesizer.publishSnapshot SnapshotSynthesizer.snapshotMessages
    rw [List.cons_append, publish_cons, hn']
    rfl
  · rw [hlen]
    unfold SnapshotSynthesizer.publishSnapshot SnapshotSynthesizer.snapshotMessages
    rw [publish_getLast?, hn', List.length_append, List.length_singleton, Nat.add_sub_cancel]
  · unfold SnapshotSynthesizer.publishSnapshot
    rw [publish_updates, finalEvents_snapshotMessages hinv hF]
    exact hms
  · intro t ht b
    obtain ⟨G, hr, hb⟩ := hmsim t (List.mem_range.mpr ht)
    obtain ⟨G', hr', hb'⟩ := hmisim t
    refine ⟨levelsOf (bookOf G b), hr.view b, ?_, ?_⟩
    · rw [hr'.view b, hb', hb]
    · rw [hb]

/-- Two books; the cut is also taken between the fills of the third request. -/
theorem snapshot_equals_history_small : ∃ e evss,
    MatchingEngine.init.run [⟨.NEW, 1, 0, 7, .SELL, 100, 10⟩, ⟨.NEW, 1, 1, 8, .BUY, 90, 3⟩,
      ⟨.NEW, 2, 0, 9, .BUY, 100, 4⟩, ⟨.CANCEL, 1, 1, 8, .BUY, 90, 3⟩] = .ok (e, evss) ∧
    ∀ n, n ≤ (updates evss.flatten).length → ∃ s ms mi,
      SnapshotSynthesizer.init.addAllToSnapshot (publish 1 ((updates evss.flatten).take n))
        = .ok s ∧
      s.publishSnapshot.map MDPMarketUpdate.seq_num_ = List.range s.publishSnapshot.length ∧
      s.publishSnapshot.head? = some ⟨0, { type_ := .SNAPSHOT_START, order_id_ := n }⟩ ∧
      s.publishSnapshot.getLast? = some ⟨s.publishSnapshot.length - 1,
        { type_ := .SNAPSHOT_END, order_id_ := n }⟩ ∧
      MarketOrderBookHashMap.init.processMarketUpdates
        (finalEvents (s.publishSnapshot.map MDPMarketUpdate.me_market_update_)) = .ok ms ∧
      MarketOrderBookHashMap.init.processMarketUpdates ((updates evss.flatten).take n) = .ok mi ∧
      ∀ t < ME_MAX_TICKERS, ∀ b, ∃ levels,
        (ms t).ladder.view b = some levels ∧ (mi t).ladder.view b = some levels ∧
        levels = levelsOf
          (((updates evss.flatten).take n).foldl applyTo (fun _ => Book.empty) t b) :=
  snapshot_equals_history _ (by decide) (by decide) (by decide) (by decide)

end LowLatency
