import LowLatency.Matcher.Resting

/-!
# Every resting order can be cancelled

`Ladder.Reaches s p`: order `p` is found by following links from `bids_by_price_`
or `asks_by_price_`. Such an order is cancellable (`MEOrderBook.Cancellable`)
when `cid_oid_to_order_` names it under its own ids and a `CANCEL` of these takes
it, and nothing else, off the lists.

A book stays in this state (`Filed`) as long as no order comes to rest under the
ids of one that is still there, or in a slot held by a level of the other side
(`resting_orders_cancellable`). Prices that share a slot on one side do no harm.
`resting_order_not_cancellable` repeats an id: the first order stays in the book
and can no longer be named.
-/

namespace LowLatency

section Reach

variable {K I : Type}

/-- Levels found by following links from `bids_by_price_` or `asks_by_price_`. -/
inductive Ladder.ReachesLevel (s : Ladder K I) : Nat → Prop
  | best {b : Bool} {l : Nat} : s.best b = some l → ReachesLevel s l
  | next {l l' : Nat} : ReachesLevel s l → s.orders_at_price_pool_.nextEntry l = some l' →
      ReachesLevel s l'
  | prev {l l' : Nat} : ReachesLevel s l → s.orders_at_price_pool_.prevEntry l = some l' →
      ReachesLevel s l'

/-- Orders found by following links from there on. -/
inductive Ladder.Reaches (s : Ladder K I) : Nat → Prop
  | first {l p : Nat} : s.ReachesLevel l → s.orders_at_price_pool_.firstOrder l = some p →
      Reaches s p
  | next {p p' : Nat} : Reaches s p → s.order_pool_.nextOrder p = some p' → Reaches s p'
  | prev {p p' : Nat} : Reaches s p → s.order_pool_.prevOrder p = some p' → Reaches s p'

variable {s : Ladder K I} {G : Ghost K}

/-- The levels reached are those of the ghost lists. -/
theorem Core.reachesLevel_iff (h : Core s G) {l : Nat} :
    s.ReachesLevel l ↔ ∃ b, ∃ g ∈ G b, g.ptr = l := by
  constructor
  · intro hl
    -- a ring is closed under its links
    have hclosed : ∀ b, ∀ g ∈ G b, ∃ u ∈ (G b).map LevelG.ptr, ∃ v ∈ (G b).map LevelG.ptr,
        s.orders_at_price_pool_.prevEntry g.ptr = some u ∧
        s.orders_at_price_pool_.nextEntry g.ptr = some v := by
      intro b g hg
      obtain ⟨A, B, hAB⟩ := List.append_of_mem (List.mem_map_of_mem (f := LevelG.ptr) hg)
      have hr := h.ring b
      rw [hAB] at hr ⊢
      exact hr.neighbours
    induction hl with
    | @best b l hb =>
      rw [h.best b] at hb
      obtain ⟨g, hg, hgl⟩ := List.mem_map.mp (List.mem_of_mem_head? hb)
      exact ⟨b, g, hg, hgl⟩
    | @next l l' _ hn ih =>
      obtain ⟨b, g, hg, rfl⟩ := ih
      obtain ⟨_, _, v, hv, _, hnv⟩ := hclosed b g hg
      obtain ⟨g', hg', rfl⟩ := List.mem_map.mp hv
      exact ⟨b, g', hg', Option.some.inj (hnv.symm.trans hn)⟩
    | @prev l l' _ hp ih =>
      obtain ⟨b, g, hg, rfl⟩ := ih
      obtain ⟨u, hu, _, _, hpu, _⟩ := hclosed b g hg
      obtain ⟨g', hg', rfl⟩ := List.mem_map.mp hu
      exact ⟨b, g', hg', Option.some.inj (hpu.symm.trans hp)⟩
  · rintro ⟨b, g, hg, rfl⟩
    have hr := h.ring b
    have hb := h.best b
    have hmem := List.mem_map_of_mem (f := LevelG.ptr) hg
    cases hL : (G b).map LevelG.ptr with
    | nil => rw [hL] at hmem; exact absurd hmem (by simp)
    | cons x xs =>
      rw [hL] at hr hb hmem
      exact hr.forall_of_next (P := s.ReachesLevel) (.best hb) (fun _ _ ha hn => ha.next hn) _ hmem

/-- The orders reached are those of the ghost lists. -/
theorem Core.reaches_iff (h : Core s G) {p : Nat} :
    s.Reaches p ↔ ∃ b d, (p, d) ∈ flat (G b) := by
  have hflat : (∃ b d, (p, d) ∈ flat (G b)) ↔ ∃ b, ∃ g ∈ G b, p ∈ g.ptrs := by
    constructor
    · rintro ⟨b, d, hd⟩
      obtain ⟨g, hg, ho⟩ := mem_flat.mp hd
      exact ⟨b, g, hg, mem_ptrs_of_mem ho⟩
    · rintro ⟨b, g, hg, hp⟩
      obtain ⟨o, ho, rfl⟩ := List.mem_map.mp hp
      exact ⟨b, o.2, mem_flat.mpr ⟨g, hg, ho⟩⟩
  rw [hflat]
  constructor
  · intro hp
    -- a level's ring leads from its orders to its orders only
    have hclosed : ∀ b, ∀ g ∈ G b, ∀ a ∈ g.ptrs, ∃ u ∈ g.ptrs, ∃ v ∈ g.ptrs,
        s.order_pool_.prevOrder a = some u ∧ s.order_pool_.nextOrder a = some v := by
      intro b g hg a ha
      obtain ⟨A, B, hAB⟩ := List.append_of_mem ha
      have hr := (h.level b g hg).ring
      rw [hAB] at hr ⊢
      exact hr.neighbours
    clear hflat
    induction hp with
    | @first l p hl hf =>
      obtain ⟨b, g, hg, rfl⟩ := h.reachesLevel_iff.mp hl
      rw [(h.level b g hg).first] at hf
      exact ⟨b, g, hg, List.mem_of_mem_head? hf⟩
    | @next p p' _ hn ih =>
      obtain ⟨b, g, hg, hp⟩ := ih
      obtain ⟨_, _, v, hv, _, hnv⟩ := hclosed b g hg _ hp
      rw [hn] at hnv
      exact ⟨b, g, hg, by rwa [Option.some.inj hnv]⟩
    | @prev p p' _ hq ih =>
      obtain ⟨b, g, hg, hp⟩ := ih
      obtain ⟨u, hu, _, _, hpu, _⟩ := hclosed b g hg _ hp
      rw [hq] at hpu
      exact ⟨b, g, hg, by rwa [Option.some.inj hpu]⟩
  · rintro ⟨b, g, hg, hp⟩
    -- the ring is one cycle, so its first order leads to every other
    have hlevel := h.level b g hg
    obtain ⟨x, xs, _, _, hxs, _, hfirst, _⟩ := hlevel.split
    have hr := hlevel.ring
    rw [hxs] at hr hp
    refine hr.forall_of_next (P := s.Reaches) (.first ?_ hfirst) (fun _ _ ha hn => ha.next hn) p hp
    exact h.reachesLevel_iff.mpr ⟨b, g, hg, rfl⟩

end Reach

/-- Order `p` is the one its ids name, and cancelling them removes exactly it. -/
def MEOrderBook.Cancellable (s : MEOrderBook) (p : Nat) : Prop :=
  let o := s.ladder.order_pool_.data p
  s.ladder.id_to_order_ (o.id_.client_id_, o.id_.client_order_id_) = some p ∧
  ∀ ticker_id, ∃ s',
    s.cancel o.id_.client_id_ o.id_.client_order_id_ ticker_id =
      .ok (s', canceledEvents o.id_.client_id_ o.id_.client_order_id_ ticker_id o) ∧
    ∀ p', (s'.ladder.Reaches p' ↔ s.ladder.Reaches p' ∧ p' ≠ p) ∧
      (s'.ladder.Reaches p' → s'.ladder.order_pool_.data p' = s.ladder.order_pool_.data p')

/-- In a filed book every order reached can be cancelled. -/
theorem Filed.cancellable {s : MEOrderBook} {G : Ghost MEOrderId} (h : Filed s.ladder G) {p : Nat}
    (hp : s.ladder.Reaches p) : s.Cancellable p := by
  obtain ⟨b, d, hpd⟩ := h.core.reaches_iff.mp hp
  have hdata := (h.core.data_of_mem hpd).1
  obtain ⟨hin, hid⟩ := h.ids.mem b _ hpd
  unfold MEOrderBook.Cancellable
  rw [hdata]
  refine ⟨hid, fun ticker_id => ?_⟩
  obtain ⟨l, hrun, hf⟩ := h.remove hpd
  refine ⟨{ s with ladder := l }, ?_, fun p' => ⟨?_, ?_⟩⟩
  · have hclient : d.id_.client_id_ < ME_MAX_NUM_CLIENTS := by
      have hin' : (decide (d.id_.client_id_ < ME_MAX_NUM_CLIENTS) &&
        decide (d.id_.client_order_id_ < ME_MAX_ORDER_IDS)) = true := hin
      simp only [Bool.and_eq_true, decide_eq_true_eq] at hin'
      exact hin'.1
    have hget : s.ladder.getIdx (d.id_.client_id_, d.id_.client_order_id_) = .ok (some p) :=
      (if_pos hin).trans (congrArg _ hid)
    simp only [MEOrderBook.cancel, if_pos hclient, hget, exec_ok_bind, hrun, hdata]
    rfl
  · -- reached means on the ghost lists, and the lists lost `p` alone
    rw [hf.core.reaches_iff, h.core.reaches_iff]
    constructor
    · rintro ⟨b', d', hd'⟩
      obtain ⟨hd', hne⟩ := mem_flat_remove.mp hd'
      exact ⟨⟨b', d', hd'⟩, hne⟩
    · rintro ⟨⟨b', d', hd'⟩, hne⟩
      exact ⟨b', d', mem_flat_remove.mpr ⟨hd', hne⟩⟩
  · intro hp'
    obtain ⟨b', d', hd'⟩ := hf.core.reaches_iff.mp hp'
    rw [(hf.core.data_of_mem hd').1, (h.core.data_of_mem (mem_flat_remove.mp hd').1).1]

/-! ## A request keeps the book filed -/

/-- `getNextPriority` finds a last order in every level. -/
theorem getNextPriority_ok {s : MELadder} {G : Ghost MEOrderId} (hc : Core s G)
    (hp : PriceTable s G) (price : Int) :
    ∃ priority, MELadder.getNextPriority s price = .ok priority := by
  unfold MELadder.getNextPriority
  cases hs : s.getOrdersAtPrice price with
  | none => exact ⟨_, rfl⟩
  | some l =>
    obtain ⟨b, g, hg, rfl, _⟩ := hp.only _ _ hs
    obtain ⟨x, _, _, y, _, _, hfirst, hlast⟩ := (hc.level b g hg).split
    exact ⟨_, by simp only [hfirst, hlast, deref_some, exec_ok_bind]; rfl⟩

/-- A call with ids in range and, for a new order, a side. -/
structure MEClientRequest.InRange (q : MEClientRequest) : Prop where
  type : q.type_ ≠ .INVALID
  client : q.client_id_ < ME_MAX_NUM_CLIENTS
  order : q.order_id_ < ME_MAX_ORDER_IDS
  side : q.type_ = .NEW → q.side_ = .BUY ∨ q.side_ = .SELL

instance (q : MEClientRequest) : Decidable q.InRange :=
  decidable_of_iff
    (q.type_ ≠ .INVALID ∧ q.client_id_ < ME_MAX_NUM_CLIENTS ∧ q.order_id_ < ME_MAX_ORDER_IDS ∧
      (q.type_ = .NEW → q.side_ = .BUY ∨ q.side_ = .SELL))
    ⟨fun ⟨h₁, h₂, h₃, h₄⟩ => ⟨h₁, h₂, h₃, h₄⟩, fun ⟨h₁, h₂, h₃, h₄⟩ => ⟨h₁, h₂, h₃, h₄⟩⟩

/-- Of the orders that stay in the book none has the ids of the new one, and none of
the other side stands in the slot of its price. -/
def MEOrderBook.HasRoom (s : MEOrderBook) (q : MEClientRequest) : Prop :=
  (∀ o ∈ s.left q, idx o.id_ ≠ (q.client_id_, q.order_id_)) ∧
  ∀ o ∈ s.unreached q, priceToIndex o.price_ ≠ priceToIndex q.price_

instance (s : MEOrderBook) (q : MEClientRequest) : Decidable (s.HasRoom q) :=
  inferInstanceAs (Decidable ((∀ o ∈ s.left q, _) ∧ ∀ o ∈ s.unreached q, _))

/-- If something of a new order is left after matching, the book has room for it. -/
def MEOrderBook.Accommodates (s : MEOrderBook) (q : MEClientRequest) : Prop :=
  q.type_ = .NEW → s.LeavesOver q → s.HasRoom q

instance (s : MEOrderBook) (q : MEClientRequest) : Decidable (s.Accommodates q) :=
  inferInstanceAs (Decidable (q.type_ = .NEW → s.LeavesOver q → s.HasRoom q))

/-- Each request of a run is accommodated when it is made. -/
def MEOrderBook.AccommodatesAll : MEOrderBook → List MEClientRequest → Prop
  | _, [] => True
  | s, q :: qs => s.Accommodates q ∧
      match s.processClientRequest q with
      | .ok (s', _) => AccommodatesAll s' qs
      | .error _ => True

instance MEOrderBook.decidableAccommodatesAll : (s : MEOrderBook) → (qs : List MEClientRequest) →
    Decidable (s.AccommodatesAll qs)
  | _, [] => isTrue trivial
  | s, q :: qs =>
    have : Decidable (match s.processClientRequest q with
        | .ok (s', _) => s'.AccommodatesAll qs
        | .error _ => True) :=
      match s.processClientRequest q with
      | .ok (s', _) => decidableAccommodatesAll s' qs
      | .error _ => isTrue trivial
    inferInstanceAs (Decidable (s.Accommodates q ∧ _))

/-- Room in the book before matching is room in the ladder after it. -/
theorem Filed.hasRoom {s : MEOrderBook} {l : MELadder} {G G' : Ghost MEOrderId}
    {q : MEClientRequest} (h : Filed s.ladder G) (h' : Filed l G') (ht : TakesReached q G G')
    (hside : q.side_ = .BUY ∨ q.side_ = .SELL) (hroom : s.HasRoom q) :
    l.id_to_order_ (q.client_id_, q.order_id_) = none ∧
      ∀ lv, l.getOrdersAtPrice q.price_ = some lv →
        l.orders_at_price_pool_.levelSide lv = q.side_ := by
  obtain ⟨hids, hslot⟩ := hroom
  constructor
  · cases hi : l.id_to_order_ (q.client_id_, q.order_id_) with
    | none => rfl
    | some p =>
      obtain ⟨b, d, hpd, hidx, _⟩ := h'.ids.lookup h'.core hi
      exact absurd hidx (hids d ((ht.mem_left_iff h.core).mpr ⟨b, mem_bookOf_of_flat hpd⟩))
  · intro lv hlv
    obtain ⟨g, hg, rfl⟩ := ht.slot_own h.core h'.core h'.prices
      (fun b g hg o ho => (h'.home b g hg o ho).2) hslot hlv
    rw [(h'.core.level _ g hg).side, h'.side _ g hg, sideOf_isBid hside]

theorem add_filed {s : MEOrderBook} {G : Ghost MEOrderId} (h : Filed s.ladder G)
    {q : MEClientRequest} (hq : q.InRange) (hnew : q.type_ = .NEW) (hacc : s.Accommodates q) :
    (∃ s' evs G', s.add q.client_id_ q.order_id_ q.ticker_id_ q.side_ q.price_ q.qty_
        = .ok (s', evs) ∧ Filed s'.ladder G') ∨
      s.add q.client_id_ q.order_id_ q.ticker_id_ q.side_ q.price_ q.qty_
        = .error MemPool.outOfSpace := by
  obtain ⟨l, evs, G₁, hmatch, hf₁, htaken⟩ := filed_matchRule.checkForMatch h q
  set leaves := q.qty_ - ((s.reached q).map OrderData.qty_).sum with hleaves
  unfold MEOrderBook.aggressor at hmatch
  unfold MEOrderBook.add
  simp only [hmatch, exec_ok_bind]
  by_cases hl : leaves = 0
  · exact Or.inl ⟨_, _, G₁, by rw [if_neg (not_not.mpr hl)]; rfl, hf₁⟩
  -- what is left rests under a free index, in a slot of its own side
  have hover : s.LeavesOver q := by
    unfold MEOrderBook.LeavesOver
    omega
  obtain ⟨hid, hslot⟩ := h.hasRoom hf₁ (htaken hover) (hq.side hnew) (hacc hnew hover)
  obtain ⟨priority, hprio⟩ := getNextPriority_ok hf₁.core hf₁.prices q.price_
  have hin : inRange (K := MEOrderId) (q.client_id_, q.order_id_) = true := by
    show (decide (q.client_id_ < _) && decide (q.order_id_ < _)) = true
    simp [hq.client, hq.order]
  rw [if_pos hl, hprio]
  simp only [exec_ok_bind]
  rcases hf₁.rest (d := ⟨⟨q.ticker_id_, q.client_id_, q.order_id_, s.next_market_order_id_⟩,
      q.side_, q.price_, leaves, priority⟩) (hq.side hnew) hin hid hslot with
    ⟨l', p, G₂, hrun, hf₂, _⟩ | ⟨hrun, _⟩
  · exact Or.inl ⟨_, _, G₂, by rw [hrun]; rfl, hf₂⟩
  · exact Or.inr (by rw [hrun]; rfl)

theorem cancel_filed {s : MEOrderBook} {G : Ghost MEOrderId} (h : Filed s.ladder G)
    {q : MEClientRequest} (hq : q.InRange) :
    ∃ s' evs G', s.cancel q.client_id_ q.order_id_ q.ticker_id_ = .ok (s', evs) ∧
      Filed s'.ladder G' := by
  have hin : inRange (K := MEOrderId) ((q.client_id_, q.order_id_) : Nat × Nat) = true := by
    show (decide (q.client_id_ < _) && decide (q.order_id_ < _)) = true
    simp [hq.client, hq.order]
  unfold MEOrderBook.cancel Ladder.getIdx
  simp only [if_pos hq.client, if_pos hin, exec_ok_bind]
  cases hi : s.ladder.id_to_order_ (q.client_id_, q.order_id_) with
  | none => exact ⟨_, _, G, rfl, h⟩
  | some p =>
    obtain ⟨b, d, hpd, _, _⟩ := h.ids.lookup h.core hi
    obtain ⟨l, hrun, hf⟩ := h.remove hpd
    exact ⟨_, _, _, by simp only [hrun, exec_ok_bind]; rfl, hf⟩

/-- **One request.** -/
theorem step_filed {s : MEOrderBook} {G : Ghost MEOrderId} (h : Filed s.ladder G)
    {q : MEClientRequest} (hq : q.InRange) (hacc : s.Accommodates q) :
    (∃ s' evs G', s.processClientRequest q = .ok (s', evs) ∧ Filed s'.ladder G') ∨
      s.processClientRequest q = .error MemPool.outOfSpace := by
  unfold MEOrderBook.processClientRequest
  cases ht : q.type_ with
  | INVALID => exact absurd ht hq.type
  | NEW => exact add_filed h hq ht hacc
  | CANCEL => exact Or.inl (cancel_filed h hq)

/-- **A whole run.** -/
theorem run_filed {s : MEOrderBook} {G : Ghost MEOrderId} {qs : List MEClientRequest}
    (h : Filed s.ladder G) (hq : ∀ q ∈ qs, q.InRange) (hacc : s.AccommodatesAll qs) :
    (∃ s' evss G', s.run qs = .ok (s', evss) ∧ Filed s'.ladder G') ∨
      s.run qs = .error MemPool.outOfSpace := by
  induction qs generalizing s G with
  | nil => exact Or.inl ⟨s, [], G, rfl, h⟩
  | cons q qs ih =>
    unfold MEOrderBook.run
    rcases step_filed h (hq q (by simp)) hacc.1 with ⟨s₁, evs₁, G₁, hrun₁, hf₁⟩ | herr
    · have hacc₁ := hacc.2
      rw [hrun₁] at hacc₁ ⊢
      simp only [exec_ok_bind]
      rcases ih hf₁ (fun q' hq' => hq q' (List.mem_cons_of_mem _ hq')) hacc₁ with
        ⟨s₂, evss₂, G₂, hrun₂, hf₂⟩ | herr
      · exact Or.inl ⟨s₂, _, G₂, by rw [hrun₂]; rfl, hf₂⟩
      · exact Or.inr (by rw [herr]; rfl)
    · exact Or.inr (by rw [herr]; rfl)

/-- **Every resting order stays cancellable** in a run in which no order comes to
rest under the ids of another or in a slot of the other side. Such a run can only
end early because a pool is full. -/
theorem resting_orders_cancellable (qs : List MEClientRequest) (hq : ∀ q ∈ qs, q.InRange)
    (hacc : MEOrderBook.init.AccommodatesAll qs) :
    (∃ s evss, MEOrderBook.init.run qs = .ok (s, evss) ∧
      ∀ p, s.ladder.Reaches p → s.Cancellable p) ∨
    MEOrderBook.init.run qs = .error MemPool.outOfSpace := by
  rcases run_filed (s := MEOrderBook.init) Represents.init.filed hq hacc with
    ⟨s, evss, G, hrun, hf⟩ | herr
  · exact Or.inl ⟨s, evss, hrun, fun p hp => hf.cancellable hp⟩
  · exact Or.inr herr

/-- Bids at 100 and 356 share a level; one is filled in part, and an id is used
again after its order left. -/
theorem resting_orders_cancellable_small : ∃ s evss, MEOrderBook.init.run
      [⟨.NEW, 1, 0, 1, .BUY, 100, 10⟩, ⟨.NEW, 1, 0, 2, .BUY, 356, 10⟩,
        ⟨.NEW, 2, 0, 1, .SELL, 100, 4⟩, ⟨.CANCEL, 1, 0, 2, .INVALID, 0, 0⟩,
        ⟨.NEW, 1, 0, 2, .BUY, 99, 5⟩] = .ok (s, evss) ∧
    ∀ p, s.ladder.Reaches p → s.Cancellable p := by
  rcases resting_orders_cancellable
    [⟨.NEW, 1, 0, 1, .BUY, 100, 10⟩, ⟨.NEW, 1, 0, 2, .BUY, 356, 10⟩,
      ⟨.NEW, 2, 0, 1, .SELL, 100, 4⟩, ⟨.CANCEL, 1, 0, 2, .INVALID, 0, 0⟩,
      ⟨.NEW, 1, 0, 2, .BUY, 99, 5⟩] (by decide) (by decide) with hok | herr
  · exact hok
  · have hok : ∃ s evss, MEOrderBook.init.run
        [⟨.NEW, 1, 0, 1, .BUY, 100, 10⟩, ⟨.NEW, 1, 0, 2, .BUY, 356, 10⟩,
          ⟨.NEW, 2, 0, 1, .SELL, 100, 4⟩, ⟨.CANCEL, 1, 0, 2, .INVALID, 0, 0⟩,
          ⟨.NEW, 1, 0, 2, .BUY, 99, 5⟩] = .ok (s, evss) := ⟨_, _, rfl⟩
    obtain ⟨s, evss, hrun⟩ := hok
    rw [hrun] at herr
    exact absurd herr (by simp)

/-- A client uses order id 1 for a bid at 100 and again for one at 99. The first
bid stays at the top of the book, and no `CANCEL` finds it. -/
theorem resting_order_not_cancellable :
    let qs : List MEClientRequest := [⟨.NEW, 1, 0, 1, .BUY, 100, 10⟩, ⟨.NEW, 1, 0, 1, .BUY, 99, 10⟩]
    (∀ q ∈ qs, q.InRange) ∧ ∃ s evss, MEOrderBook.init.run qs = .ok (s, evss) ∧
      ∃ p, s.ladder.Reaches p ∧ ¬ s.Cancellable p := by
  refine ⟨by decide, _, _, rfl, 0, .first (.best (b := true) rfl) rfl, ?_⟩
  rintro ⟨hid, _⟩
  exact absurd hid (by decide)

end LowLatency
