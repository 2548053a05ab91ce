import LowLatency.Strategy.Replica

/-!
# `CLEAR` on a book in any state

The replica is fed with what arrives, and nothing checks it: an id that is live
may be added again, two prices may share a slot, a level may be found through a
slot that a `CLEAR` left behind. So a reachable book need not represent anything,
and this file asks only for what no stream can break: the pools know a free
block, and an entry of the id table is a live order with that id (`PoolsOk`).

That is enough to say what `CLEAR` does. It frees the orders in the id table, and
then each side's levels as far as `next_entry_` leads. The walk ends well exactly
if it comes back to the best level through live levels it meets once
(`LevelWalk`). The price table and the cached BBO are not written.
-/

namespace LowLatency

/-! ## What link writes leave alone -/

/-- Two pools with the same blocks in use. -/
structure SamePool {T : Type} (m m' : MemPool T) : Prop where
  free : m'.isFree = m.isFree
  size : m'.size = m.size
  next : m'.next_free_index_ = m.next_free_index_

namespace SamePool

variable {T : Type} {m m' : MemPool T}

theorem refl (m : MemPool T) : SamePool m m := ⟨rfl, rfl, rfl⟩

theorem set (h : SamePool m m') (p : Nat) (x : T) : SamePool m (m'.set p x) where
  free := by
    funext q
    rw [MemPool.isFree_set, h.free]
  size := h.size
  next := h.next

theorem valid (h : SamePool m m') (hv : m.Valid) : m'.Valid :=
  ⟨by rw [h.next, h.size]; exact hv.lt, by rw [h.next, h.free]; exact hv.free⟩

theorem used (h : SamePool m m') {q : Nat} : m'.Used q ↔ m.Used q := by
  unfold MemPool.Used
  rw [h.size, h.free]

end SamePool

/-- The same orders, up to their places in lists. -/
structure SameOrders (m m' : MemPool (Order Nat)) : Prop where
  pool : SamePool m m'
  data : ∀ p, m'.data p = m.data p

namespace SameOrders

variable {m m' : MemPool (Order Nat)}

theorem refl (m : MemPool (Order Nat)) : SameOrders m m := ⟨.refl m, fun _ => rfl⟩

theorem setPrevOrder (h : SameOrders m m') (p : Nat) (v : Option Nat) :
    SameOrders m (m'.setPrevOrder p v) :=
  ⟨h.pool.set _ _, fun q => (MemPool.data_setPrevOrder ..).trans (h.data q)⟩

theorem setNextOrder (h : SameOrders m m') (p : Nat) (v : Option Nat) :
    SameOrders m (m'.setNextOrder p v) :=
  ⟨h.pool.set _ _, fun q => (MemPool.data_setNextOrder ..).trans (h.data q)⟩

end SameOrders

/-- What is true of the book's pools and its id table, whatever was processed. -/
structure PoolsOk (s : MarketLadder) : Prop where
  validL : s.orders_at_price_pool_.Valid
  sizeL : s.orders_at_price_pool_.size = ME_MAX_PRICE_LEVELS
  validO : s.order_pool_.Valid
  sizeO : s.order_pool_.size = ME_MAX_ORDER_IDS
  ids : ∀ i p, s.id_to_order_ i = some p →
    i < ME_MAX_ORDER_IDS ∧ s.order_pool_.Used p ∧ (s.order_pool_.data p).id_ = i

theorem poolsOk_init : PoolsOk MarketOrderBook.init.ladder where
  validL := MemPool.valid_init (by decide) _
  sizeL := rfl
  validO := MemPool.valid_init (by decide) _
  sizeO := rfl
  ids := fun _ _ h => nomatch h

section Frame

variable {s s' : MarketLadder}

/-- Linking a level writes links of levels, the price table and a best pointer. -/
theorem addOrdersAtPrice_frame {n : Nat} (h : s.addOrdersAtPrice n = .ok s') :
    s'.order_pool_ = s.order_pool_ ∧ s'.id_to_order_ = s.id_to_order_ ∧
      SamePool s.orders_at_price_pool_ s'.orders_at_price_pool_ := by
  unfold Ladder.addOrdersAtPrice at h
  dsimp only at h
  split at h
  · rw [← Except.ok.inj h]
    simp only [setBest_order_pool_, setBest_id_to_order_, setBest_orders_at_price_pool_, true_and]
    exact ((SamePool.refl _).set _ _).set _ _
  · obtain ⟨⟨add_after, target⟩, _, h⟩ := exec_bind_ok h
    dsimp only at h
    split at h
    · split at h
      · obtain ⟨last, _, h⟩ := exec_bind_ok h
        obtain ⟨after, _, h⟩ := exec_bind_ok h
        rw [← Except.ok.inj h]
        exact ⟨rfl, rfl, ((((SamePool.refl _).set _ _).set _ _).set _ _).set _ _⟩
      · rw [exec_ok_bind] at h
        obtain ⟨after, _, h⟩ := exec_bind_ok h
        rw [← Except.ok.inj h]
        exact ⟨rfl, rfl, ((((SamePool.refl _).set _ _).set _ _).set _ _).set _ _⟩
    · obtain ⟨before, _, h⟩ := exec_bind_ok h
      split at h
      · rw [← Except.ok.inj h]
        simp only [setBest_order_pool_, setBest_id_to_order_, setBest_orders_at_price_pool_,
          true_and]
        exact (((((SamePool.refl _).set _ _).set _ _).set _ _).set _ _).set _ _
      · rw [← Except.ok.inj h]
        exact ⟨rfl, rfl, ((((SamePool.refl _).set _ _).set _ _).set _ _).set _ _⟩

/-- Unlinking a level gives its block back. -/
theorem removeOrdersAtPrice_frame {side : Side} {price : Int}
    (h : s.removeOrdersAtPrice side price = .ok s') :
    s'.order_pool_ = s.order_pool_ ∧ s'.id_to_order_ = s.id_to_order_ ∧
      ∃ m l, SamePool s.orders_at_price_pool_ m ∧ s'.orders_at_price_pool_ = m.release l := by
  unfold Ladder.removeOrdersAtPrice at h
  dsimp only at h
  obtain ⟨l, _, h⟩ := exec_bind_ok h
  simp only [exec_ok_bind] at h
  split at h
  · obtain ⟨m, hm, h⟩ := exec_bind_ok h
    rw [setBest_orders_at_price_pool_] at hm
    rw [← Except.ok.inj h]
    simp only [setBest_order_pool_, setBest_id_to_order_, true_and]
    exact ⟨_, l, .refl _, (MemPool.deallocate_inv hm).2⟩
  · obtain ⟨before, _, h⟩ := exec_bind_ok h
    obtain ⟨after, _, h⟩ := exec_bind_ok h
    obtain ⟨m, hm, h⟩ := exec_bind_ok h
    rw [← Except.ok.inj h]
    refine ⟨?_, ?_, _, l, ((((SamePool.refl _).set _ _).set _ _).set _ _).set _ _,
      (MemPool.deallocate_inv hm).2⟩
    · dsimp only
      split <;> simp
    · dsimp only
      split <;> simp

theorem setIdx_inv {i : Nat} {v : Option Nat} (h : s.setIdx i v = .ok s') :
    i < ME_MAX_ORDER_IDS ∧ s' = { s with id_to_order_ := Function.update s.id_to_order_ i v } := by
  unfold Ladder.setIdx at h
  split at h
  next hin => exact ⟨of_decide_eq_true hin, (Except.ok.inj h).symm⟩
  next => exact absurd h (by simp)

/-- Linking an order takes at most a level's block. -/
theorem addOrder_frame (hv : s.orders_at_price_pool_.Valid) {p : Nat} (h : s.addOrder p = .ok s') :
    SameOrders s.order_pool_ s'.order_pool_ ∧ s'.orders_at_price_pool_.Valid ∧
      s'.orders_at_price_pool_.size = s.orders_at_price_pool_.size ∧
      (s.order_pool_.data p).id_ < ME_MAX_ORDER_IDS ∧
      s'.id_to_order_ = Function.update s.id_to_order_ (s.order_pool_.data p).id_ (some p) := by
  unfold Ladder.addOrder at h
  dsimp only at h
  -- the two branches end in the same write to the id table
  have htab : ∀ s₁ : MarketLadder, SameOrders s.order_pool_ s₁.order_pool_ →
      s₁.orders_at_price_pool_.Valid →
      s₁.orders_at_price_pool_.size = s.orders_at_price_pool_.size →
      s₁.id_to_order_ = s.id_to_order_ →
      s₁.setIdx (idx (s.order_pool_.data p).id_) (some p) = .ok s' →
      SameOrders s.order_pool_ s'.order_pool_ ∧ s'.orders_at_price_pool_.Valid ∧
        s'.orders_at_price_pool_.size = s.orders_at_price_pool_.size ∧
        (s.order_pool_.data p).id_ < ME_MAX_ORDER_IDS ∧
        s'.id_to_order_ = Function.update s.id_to_order_ (s.order_pool_.data p).id_ (some p) := by
    intro s₁ ho hl hsize hi hset
    obtain ⟨hin, rfl⟩ := setIdx_inv hset
    refine ⟨ho, hl, hsize, hin, ?_⟩
    dsimp only
    rw [hi]
    rfl
  simp only [exec_ok_bind] at h
  split at h
  · obtain ⟨⟨n, m⟩, halloc, hlink⟩ := exec_bind_ok h
    obtain ⟨s₁, h₁, hset⟩ := exec_bind_ok hlink
    obtain ⟨ho, hi, hl⟩ := addOrdersAtPrice_frame h₁
    rcases MemPool.allocate_cases hv _ with ⟨m', hok, hvalid, hsize, _⟩ | ⟨herr, _⟩
    · obtain ⟨_, rfl⟩ := Prod.mk.inj (Except.ok.inj (hok.symm.trans halloc))
      refine htab s₁ ?_ (hl.valid hvalid) (hl.size.trans hsize) hi hset
      rw [ho]
      exact ((SameOrders.refl _).setPrevOrder _ _).setNextOrder _ _
    · exact absurd (herr.symm.trans halloc) (by simp)
  · obtain ⟨first, _, h⟩ := exec_bind_ok h
    obtain ⟨last, _, h⟩ := exec_bind_ok h
    refine htab _ ?_ ?_ ?_ ?_ h
    · exact (((SameOrders.refl _).setNextOrder _ _).setPrevOrder _ _).setNextOrder _
        _ |>.setPrevOrder _ _
    · exact hv
    · rfl
    · rfl

/-- Unlinking an order gives its block back, and possibly its level's. -/
theorem removeOrder_frame (hv : s.orders_at_price_pool_.Valid) {p : Nat}
    (h : s.removeOrder p = .ok s') :
    ∃ m, SameOrders s.order_pool_ m ∧ s'.order_pool_ = m.release p ∧
      s'.orders_at_price_pool_.Valid ∧
      s'.orders_at_price_pool_.size = s.orders_at_price_pool_.size ∧
      s'.id_to_order_ = Function.update s.id_to_order_ (s.order_pool_.data p).id_ none := by
  unfold Ladder.removeOrder at h
  dsimp only at h
  -- both branches end with the id table and the block
  have hend : ∀ s₁ : MarketLadder, SameOrders s.order_pool_ s₁.order_pool_ →
      s₁.orders_at_price_pool_.Valid →
      s₁.orders_at_price_pool_.size = s.orders_at_price_pool_.size →
      s₁.id_to_order_ = s.id_to_order_ →
      (do let s₂ ← s₁.setIdx (idx (s.order_pool_.data p).id_) none
          let m ← s₂.order_pool_.deallocate p
          pure { s₂ with order_pool_ := m } : Exec MarketLadder) = .ok s' →
      ∃ m, SameOrders s.order_pool_ m ∧ s'.order_pool_ = m.release p ∧
        s'.orders_at_price_pool_.Valid ∧
        s'.orders_at_price_pool_.size = s.orders_at_price_pool_.size ∧
        s'.id_to_order_ = Function.update s.id_to_order_ (s.order_pool_.data p).id_ none := by
    intro s₁ ho hl hsize hi hrest
    obtain ⟨s₂, hset, hrest⟩ := exec_bind_ok hrest
    obtain ⟨m, hm, hrest⟩ := exec_bind_ok hrest
    obtain ⟨_, rfl⟩ := setIdx_inv hset
    rw [← Except.ok.inj hrest]
    refine ⟨s₁.order_pool_, ho, (MemPool.deallocate_inv hm).2, hl, hsize, ?_⟩
    dsimp only
    rw [hi]
    rfl
  simp only [exec_ok_bind] at h
  split at h
  · -- the last order of its level: the level goes too
    obtain ⟨s₁, h₁, h⟩ := exec_bind_ok h
    obtain ⟨ho, hi, m', l, hsame, hl⟩ := removeOrdersAtPrice_frame h₁
    refine hend s₁ ?_ ?_ ?_ hi h
    · rw [ho]
      exact .refl _
    · rw [hl]
      exact (hsame.valid hv).release l
    · rw [hl]
      exact hsame.size
  · -- its neighbours are linked to each other
    obtain ⟨before, _, h⟩ := exec_bind_ok h
    obtain ⟨after, _, h⟩ := exec_bind_ok h
    obtain ⟨l, _, h⟩ := exec_bind_ok h
    refine hend _ ((((SameOrders.refl _).setNextOrder _ _).setPrevOrder _ _).setNextOrder _
      _ |>.setPrevOrder _ _) ?_ ?_ ?_ h
    · dsimp only
      split
      · exact hv.set _ _
      · exact hv
    · dsimp only
      split <;> rfl
    · dsimp only
      split <;> rfl

end Frame

section Updates

variable {s s' : MarketLadder}

/-- A new order, wherever its slot leads. -/
theorem PoolsOk.allocateOrder (h : PoolsOk s) {d : OrderData Nat}
    (hrun : s.allocateOrder d = .ok s') :
    PoolsOk s' := by
  unfold Ladder.allocateOrder at hrun
  obtain ⟨⟨p, m⟩, halloc, hadd⟩ := exec_bind_ok hrun
  rcases MemPool.allocate_cases h.validO
    ({ d with prev_order_ := none, next_order_ := none } : Order Nat) with
    ⟨m', hok, hvalid, hsize, hstore⟩ | ⟨herr, _⟩
  · obtain ⟨rfl, rfl⟩ := Prod.mk.inj (Except.ok.inj (hok.symm.trans halloc))
    obtain ⟨hsame, hvL, hsL, hlt, htab⟩ := addOrder_frame
      (s := { s with order_pool_ := m' }) h.validL hadd
    refine ⟨hvL, hsL.trans h.sizeL, hsame.pool.valid hvalid,
      hsame.pool.size.trans (hsize.trans h.sizeO), ?_⟩
    intro i p hi
    rw [htab] at hi
    rw [hsame.pool.used, hsame.data]
    by_cases he : i = (m'.data s.order_pool_.next_free_index_).id_
    · rw [he, Function.update_self] at hi
      obtain rfl := Option.some.inj hi
      refine ⟨he ▸ hlt, ⟨?_, ?_⟩, he.symm⟩
      · show _ < m'.size
        rw [hsize]
        exact h.validO.lt
      · show m'.isFree _ = false
        rw [MemPool.isFree_of_store hstore, if_pos rfl]
    · -- an older entry is not the block just taken
      rw [Function.update_of_ne he] at hi
      obtain ⟨hlt', hused, hid⟩ := h.ids i p hi
      have hne : p ≠ s.order_pool_.next_free_index_ := by
        rintro rfl
        exact h.validO.not_used hused
      refine ⟨hlt', ⟨?_, ?_⟩, ?_⟩
      · show _ < m'.size
        rw [hsize]
        exact hused.1
      · show m'.isFree _ = false
        rw [MemPool.isFree_of_store hstore, if_neg hne]
        exact hused.2
      · show (m'.data p).id_ = i
        rw [← hid]
        unfold MemPool.data
        rw [MemPool.get_of_store hstore, if_neg hne]
  · exact absurd (herr.symm.trans halloc) (by simp)

/-- The order an id names is removed. -/
theorem PoolsOk.removeOrder (h : PoolsOk s) {i p : Nat} (hi : s.id_to_order_ i = some p)
    (hrun : s.removeOrder p = .ok s') : PoolsOk s' := by
  obtain ⟨m, hsame, hpool, hvL, hsL, htab⟩ := removeOrder_frame h.validL hrun
  refine ⟨hvL, hsL.trans h.sizeL, ?_, ?_, ?_⟩
  · rw [hpool]
    exact (hsame.pool.valid h.validO).release p
  · rw [hpool]
    exact hsame.pool.size.trans h.sizeO
  · intro j q hj
    rw [htab, (h.ids i p hi).2.2] at hj
    by_cases he : j = i
    · rw [he, Function.update_self] at hj
      exact absurd hj (by simp)
    · rw [Function.update_of_ne he] at hj
      obtain ⟨hlt, hused, hid⟩ := h.ids j q hj
      -- an order is named by its own id only
      have hne : q ≠ p := by
        intro e
        rw [e] at hid
        exact he (hid.symm.trans (h.ids i p hi).2.2)
      rw [hpool]
      refine ⟨hlt, (hsame.pool.used.mpr hused).release hne, ?_⟩
      unfold MemPool.data
      rw [MemPool.get_release]
      exact (congrArg OrderData.id_ (hsame.data q)).trans hid

theorem PoolsOk.setQty (h : PoolsOk s) (p q : Nat) :
    PoolsOk { s with order_pool_ := s.order_pool_.setQty p q } := by
  refine ⟨h.validL, h.sizeL, h.validO.set _ _, h.sizeO, ?_⟩
  intro i p' hi
  obtain ⟨hlt, hused, hid⟩ := h.ids i p' hi
  refine ⟨hlt, MemPool.used_set.mpr hused, ?_⟩
  show ((s.order_pool_.setQty p q).data p').id_ = i
  rw [MemPool.data_setQty]
  split <;> exact hid

end Updates

/-! ## `CLEAR` -/

/-- Distinct orders are given back one by one. -/
theorem clearOrders_spec {f : Nat → Option Nat} {is : List Nat} {m : MemPool (Order Nat)}
    (hnd : (is.filterMap f).Nodup) (hused : ∀ p ∈ is.filterMap f, m.Used p) :
    ∃ m', MarketLadder.clearOrders f is m = .ok m' ∧ m.Released m' (is.filterMap f) := by
  induction is generalizing m with
  | nil => exact ⟨m, rfl, .nil m⟩
  | cons i is ih =>
    unfold MarketLadder.clearOrders
    cases hi : f i with
    | none =>
      rw [List.filterMap_cons_none hi] at hnd hused ⊢
      exact ih hnd hused
    | some p =>
      rw [List.filterMap_cons_some hi] at hnd hused ⊢
      have hp := hused p (List.mem_cons_self ..)
      obtain ⟨hnot, hnd⟩ := List.nodup_cons.mp hnd
      obtain ⟨m', hrun, hrel⟩ := ih (m := m.release p) hnd fun q hq =>
        (hused q (List.mem_cons_of_mem _ hq)).release fun e => hnot (e ▸ hq)
      refine ⟨m', ?_, .cons hp hrel⟩
      dsimp only
      rw [MemPool.deallocate_ok hp, exec_ok_bind, hrun]

/-- From `best`, `next_entry_` leads through the live levels `L`, each met once,
and back. -/
structure LevelWalk (m : MemPool OrdersAtPrice) (best : Option Nat) (L : List Nat) : Prop where
  head : L.head? = best
  nodup : L.Nodup
  used : ∀ l ∈ L, m.Used l
  links : (L ++ best.toList).IsChain fun a b => m.nextEntry a = some b

/-- The loop behind the best level, read backwards: a run that ends has walked. -/
theorem clearLevelsLoop_inv {best fuel : Nat} {level : Option Nat} {m m' : MemPool OrdersAtPrice}
    (h : MarketLadder.clearLevelsLoop best fuel level m = .ok m') :
    ∃ L, (L ++ [best]).head? = level ∧ best ∉ L ∧ L.Nodup ∧ (∀ l ∈ L, m.Used l) ∧
      (L ++ [best]).IsChain (fun a b => m.nextEntry a = some b) ∧ m.Released m' L := by
  induction fuel generalizing level m with
  | zero => exact absurd h (by simp [MarketLadder.clearLevelsLoop])
  | succ fuel ih =>
    unfold MarketLadder.clearLevelsLoop at h
    split at h
    next he =>
      obtain rfl := Except.ok.inj h
      exact ⟨[], he.symm, by simp, List.nodup_nil, by simp, .singleton _, .nil m⟩
    next hne =>
      obtain ⟨⟨m₁, l⟩, hdealloc, hloop⟩ := exec_bind_ok h
      cases level with
      | none => exact absurd hdealloc (by simp [MarketLadder.deallocate?])
      | some l' =>
        obtain ⟨m₂, hm₂, hpair⟩ := exec_bind_ok hdealloc
        obtain ⟨hl, rfl⟩ := MemPool.deallocate_inv hm₂
        obtain ⟨rfl, rfl⟩ := Prod.mk.inj (Except.ok.inj hpair)
        obtain ⟨L, hhead, hbest, hnd, hused, hlinks, hrel⟩ := ih hloop
        have hnext : ∀ a, (m.release l').nextEntry a = m.nextEntry a :=
          fun a => congrArg OrdersAtPrice.next_entry_ (MemPool.get_release ..)
        simp only [hnext] at hhead hlinks
        -- a level met again would not be live any more
        have hnot : l' ∉ L := by
          intro hmem
          have := (hused l' hmem).2
          rw [MemPool.isFree_release, if_pos rfl] at this
          exact absurd this (by simp)
        refine ⟨l' :: L, rfl, ?_, List.nodup_cons.mpr ⟨hnot, hnd⟩, ?_, ?_, .cons hl hrel⟩
        · intro hmem
          rcases List.mem_cons.mp hmem with e | hmem
          · exact hne (by rw [e])
          · exact hbest hmem
        · intro q hq
          rcases List.mem_cons.mp hq with rfl | hq
          · exact hl
          · refine ⟨(hused q hq).1, ?_⟩
            have hfree := (hused q hq).2
            have hql : q ≠ l' := fun e => hnot (e ▸ hq)
            rwa [MemPool.isFree_release, if_neg hql] at hfree
        · rw [List.cons_append]
          refine List.isChain_cons.mpr ⟨fun y hy => ?_, hlinks⟩
          rw [← hhead]
          exact hy

/-- The loop along a list of live levels. -/
theorem clearLevelsLoop_spec {best : Nat} {L : List Nat} {fuel : Nat} {m : MemPool OrdersAtPrice}
    (hf : L.length < fuel) (hbest : best ∉ L) (hnd : L.Nodup) (hused : ∀ l ∈ L, m.Used l)
    (hlinks : (L ++ [best]).IsChain fun a b => m.nextEntry a = some b) :
    ∃ m', MarketLadder.clearLevelsLoop best fuel (L ++ [best]).head? m = .ok m' ∧
      m.Released m' L := by
  induction L generalizing fuel m with
  | nil =>
    obtain ⟨fuel, rfl⟩ : ∃ f, fuel = f + 1 := ⟨fuel - 1, by omega⟩
    exact ⟨m, by rw [MarketLadder.clearLevelsLoop]; exact if_pos rfl, .nil m⟩
  | cons l L ih =>
    obtain ⟨fuel, rfl⟩ : ∃ f, fuel = f + 1 := ⟨fuel - 1, by omega⟩
    obtain ⟨hnot, hnd⟩ := List.nodup_cons.mp hnd
    have hl := hused l (List.mem_cons_self ..)
    have hnext : ∀ a, (m.release l).nextEntry a = m.nextEntry a :=
      fun a => congrArg OrdersAtPrice.next_entry_ (MemPool.get_release ..)
    rw [List.cons_append] at hlinks
    obtain ⟨hhead, hlinks⟩ := List.isChain_cons.mp hlinks
    obtain ⟨m', hrun, hrel⟩ := @ih fuel (m.release l)
      (by rw [List.length_cons] at hf; omega) (fun h => hbest (List.mem_cons_of_mem _ h)) hnd
      (fun q hq => (hused q (List.mem_cons_of_mem _ hq)).release fun e => hnot (e ▸ hq))
      (by simpa only [hnext] using hlinks)
    refine ⟨m', ?_, .cons hl hrel⟩
    -- the freed block is read once more, and its link is still there
    have hstep : (m.release l).nextEntry l = (L ++ [best]).head? := by
      rw [hnext]
      obtain ⟨y, hy⟩ : ∃ y, (L ++ [best]).head? = some y := by
        cases L <;> exact ⟨_, rfl⟩
      rw [hhead y hy, hy]
    -- the walk is over only when it is back at `best`
    have hne : some l ≠ some best := by
      intro e
      exact hbest (by rw [Option.some.inj e]; exact List.mem_cons_self ..)
    show MarketLadder.clearLevelsLoop best (fuel + 1) (some l) m = .ok m'
    rw [MarketLadder.clearLevelsLoop, if_neg hne]
    simp only [MarketLadder.deallocate?, MemPool.deallocate_ok hl, exec_ok_bind, exec_pure, hstep,
      hrun]

/-- **A side that was cleared could be walked.** -/
theorem clearLevels_inv {best : Option Nat} {m m' : MemPool OrdersAtPrice}
    (h : MarketLadder.clearLevels best m = .ok m') :
    ∃ L, LevelWalk m best L ∧ m.Released m' L := by
  cases best with
  | none =>
    obtain rfl := Except.ok.inj h
    exact ⟨[], ⟨rfl, List.nodup_nil, by simp, .nil⟩, .nil m⟩
  | some best =>
    obtain ⟨m₁, hloop, hlast⟩ := exec_bind_ok h
    obtain ⟨L, hhead, hbest, hnd, hused, hlinks, hrel⟩ := clearLevelsLoop_inv hloop
    obtain ⟨hlive, rfl⟩ := MemPool.deallocate_inv hlast
    refine ⟨best :: L, ⟨rfl, List.nodup_cons.mpr ⟨hbest, hnd⟩, ?_, ?_⟩, ?_⟩
    · intro l hl
      rcases List.mem_cons.mp hl with rfl | hl
      · exact (hrel.used_iff.mp hlive).1
      · exact hused l hl
    · show (best :: (L ++ [best])).IsChain _
      refine List.isChain_cons.mpr ⟨fun y hy => ?_, hlinks⟩
      rw [← hhead]
      exact hy
    · exact (hrel.trans (.cons hlive (.nil _))).perm (List.perm_append_singleton best L)

/-- **A side that can be walked is cleared.** -/
theorem clearLevels_spec {best : Option Nat} {m : MemPool OrdersAtPrice} {L : List Nat}
    (h : LevelWalk m best L) :
    ∃ m', MarketLadder.clearLevels best m = .ok m' ∧ m.Released m' L := by
  cases best with
  | none =>
    obtain rfl : L = [] := List.head?_eq_none_iff.mp h.head
    exact ⟨m, rfl, .nil m⟩
  | some best =>
    obtain ⟨L, rfl⟩ : ∃ M, L = best :: M := List.head?_eq_some_iff.mp h.head
    obtain ⟨hnot, hnd⟩ := List.nodup_cons.mp h.nodup
    obtain ⟨hhead, hlinks⟩ := List.isChain_cons.mp
      (show (best :: (L ++ [best])).IsChain fun a b => m.nextEntry a = some b from h.links)
    have hused : ∀ l ∈ L, m.Used l := fun l hl => h.used l (List.mem_cons_of_mem _ hl)
    -- distinct live blocks: no more than the pool has
    have hlen : L.length < m.size + 1 := by
      have := length_le_of_lt hnd (n := m.size) fun l hl => (hused l hl).1
      omega
    obtain ⟨m₁, hloop, hrel⟩ := clearLevelsLoop_spec hlen hnot hnd hused hlinks
    have hlive : m₁.Used best :=
      hrel.used_iff.mpr ⟨h.used best (List.mem_cons_self ..), hnot⟩
    have hstart : m.nextEntry best = (L ++ [best]).head? := by
      obtain ⟨y, hy⟩ : ∃ y, (L ++ [best]).head? = some y := by
        cases L <;> exact ⟨_, rfl⟩
      rw [hhead y hy, hy]
    refine ⟨m₁.release best, ?_,
      (hrel.trans (.cons hlive (.nil _))).perm (List.perm_append_singleton best L)⟩
    simp only [MarketLadder.clearLevels, hstart, hloop, exec_ok_bind, MemPool.deallocate_ok hlive]

/-- The orders in the id table. -/
def MarketLadder.named (s : MarketLadder) : List Nat :=
  (List.range ME_MAX_ORDER_IDS).filterMap s.id_to_order_

theorem PoolsOk.named_nodup {s : MarketLadder} (h : PoolsOk s) : s.named.Nodup := by
  refine List.Nodup.filterMap ?_ List.nodup_range
  intro i j p hi hj
  exact (h.ids i p hi).2.2.symm.trans (h.ids j p hj).2.2

theorem PoolsOk.named_used {s : MarketLadder} (h : PoolsOk s) :
    ∀ p ∈ s.named, s.order_pool_.Used p := by
  intro p hp
  obtain ⟨i, _, hi⟩ := List.mem_filterMap.mp hp
  exact (h.ids i p hi).2.1

/-- What `CLEAR` leaves: no order, no level, and the price table as it was. The
blocks still in use are those that neither the id table nor the two lists
reached. -/
structure Cleared (s s' : MarketLadder) (levels : Nat) : Prop where
  best : ∀ b, s'.best b = none
  ids : ∀ i, s'.id_to_order_ i = none
  slots : s'.price_orders_at_price_ = s.price_orders_at_price_
  orders : s'.order_pool_.inUse + s.named.length = s.order_pool_.inUse
  levels : s'.orders_at_price_pool_.inUse + levels = s.orders_at_price_pool_.inUse
  pools : PoolsOk s'

/-- Both sides can be walked, and have no level in common. -/
structure Walkable (s : MarketLadder) (B A : List Nat) : Prop where
  bids : LevelWalk s.orders_at_price_pool_ s.bids_by_price_ B
  asks : LevelWalk s.orders_at_price_pool_ s.asks_by_price_ A
  apart : ∀ l ∈ A, l ∉ B

/-- The walk of the second side does not see that the first was cleared, as long
as it does not come there. -/
theorem LevelWalk.released_iff {m m' : MemPool OrdersAtPrice} {best : Option Nat} {L M : List Nat}
    (h : m.Released m' L) :
    LevelWalk m' best M ↔ LevelWalk m best M ∧ ∀ l ∈ M, l ∉ L := by
  have hnext : ∀ a, m'.nextEntry a = m.nextEntry a :=
    fun a => congrArg OrdersAtPrice.next_entry_ (h.get a)
  constructor
  · intro hw
    have hused := fun l hl => h.used_iff.mp (hw.used l hl)
    refine ⟨⟨hw.head, hw.nodup, fun l hl => (hused l hl).1, ?_⟩, fun l hl => (hused l hl).2⟩
    simpa only [hnext] using hw.links
  · rintro ⟨hw, hapart⟩
    refine ⟨hw.head, hw.nodup, fun l hl => h.used_iff.mpr ⟨hw.used l hl, hapart l hl⟩, ?_⟩
    simpa only [hnext] using hw.links

section Clear

variable {s s' : MarketLadder}

theorem PoolsOk.cleared (h : PoolsOk s) {om : MemPool (Order Nat)} {lm : MemPool OrdersAtPrice}
    {L : List Nat} (ho : s.order_pool_.Released om s.named)
    (hl : s.orders_at_price_pool_.Released lm L) :
    Cleared s { s with
      order_pool_ := om
      id_to_order_ := fun _ => none
      orders_at_price_pool_ := lm
      bids_by_price_ := none
      asks_by_price_ := none } L.length where
  best := fun b => by cases b <;> rfl
  ids := fun _ => rfl
  slots := rfl
  orders := ho.inUse
  levels := hl.inUse
  pools := ⟨hl.valid h.validL, hl.size.trans h.sizeL, ho.valid h.validO, ho.size.trans h.sizeO,
    fun _ _ hi => nomatch hi⟩

/-- **`CLEAR` returns if both sides can be walked.** -/
theorem clear_spec (h : PoolsOk s) {bids asks : List Nat} (hw : Walkable s bids asks) :
    ∃ s', MarketLadder.clear s = .ok s' ∧ Cleared s s' (bids.length + asks.length) := by
  obtain ⟨om, hom, ho⟩ := clearOrders_spec h.named_nodup h.named_used
  obtain ⟨m₁, h₁, hrel₁⟩ := clearLevels_spec hw.bids
  obtain ⟨m₂, h₂, hrel₂⟩ := clearLevels_spec
    ((LevelWalk.released_iff hrel₁).mpr ⟨hw.asks, hw.apart⟩)
  refine ⟨_, ?_, List.length_append ▸ h.cleared ho (hrel₁.trans hrel₂)⟩
  simp only [MarketLadder.clear, hom, h₁, h₂, exec_ok_bind, exec_pure]

/-- **Only then**, and this is all it does. -/
theorem clear_inv (h : PoolsOk s) (hrun : MarketLadder.clear s = .ok s') :
    ∃ bids asks, Walkable s bids asks ∧ Cleared s s' (bids.length + asks.length) := by
  obtain ⟨om, hom, hrun⟩ := exec_bind_ok hrun
  obtain ⟨m₁, h₁, hrun⟩ := exec_bind_ok hrun
  obtain ⟨m₂, h₂, hrun⟩ := exec_bind_ok hrun
  obtain ⟨om', hom', ho⟩ := clearOrders_spec h.named_nodup h.named_used
  have he : om' = om := Except.ok.inj (hom'.symm.trans hom)
  subst he
  obtain ⟨bids, hbids, hrel₁⟩ := clearLevels_inv h₁
  obtain ⟨asks, hasks, hrel₂⟩ := clearLevels_inv h₂
  obtain ⟨hasks, hapart⟩ := (LevelWalk.released_iff hrel₁).mp hasks
  refine ⟨bids, asks, ⟨hbids, hasks, hapart⟩, ?_⟩
  rw [← Except.ok.inj hrun, ← List.length_append]
  exact h.cleared ho (hrel₁.trans hrel₂)

end Clear

/-- `updateBBO` reads the containers. -/
theorem updateBBO_ladder {s s' : MarketOrderBook} {update_bid update_ask : Bool}
    (h : s.updateBBO update_bid update_ask = .ok s') : s'.ladder = s.ladder := by
  have hask : ∀ s₁ : MarketOrderBook, s₁.ladder = s.ladder →
      (if update_ask then do
        let x ← MarketLadder.topOfBook s₁.ladder false
        pure { s₁ with bbo_ := { s₁.bbo_ with ask_price_ := x.1, ask_qty_ := x.2 } }
      else pure s₁ : Exec MarketOrderBook) = .ok s' → s'.ladder = s.ladder := by
    intro s₁ hs₁ hrun
    split at hrun
    · obtain ⟨_, _, hrun⟩ := exec_bind_ok hrun
      rw [← Except.ok.inj hrun]
      exact hs₁
    · rw [← Except.ok.inj hrun]
      exact hs₁
  unfold MarketOrderBook.updateBBO at h
  dsimp only at h
  cases update_bid with
  | true =>
    rw [if_pos rfl] at h
    obtain ⟨x, _, hrun⟩ := exec_bind_ok h
    exact hask { s with bbo_ := { s.bbo_ with bid_price_ := x.1, bid_qty_ := x.2 } } rfl hrun
  | false => exact hask s rfl h

/-- An update that was processed was processed by the containers first. -/
theorem onMarketUpdate_inv {s s' : MarketOrderBook} {u : MEMarketUpdate}
    (h : s.onMarketUpdate u = .ok s') :
    ∃ l, MarketOrderBook.onUpdate s.ladder u = .ok l ∧
      ((u.type_ = .TRADE ∧ s' = s) ∨ (u.type_ ≠ .TRADE ∧ s'.ladder = l)) := by
  unfold MarketOrderBook.onMarketUpdate at h
  obtain ⟨l, hl, h⟩ := exec_bind_ok h
  refine ⟨l, hl, ?_⟩
  split at h
  next ht => exact Or.inl ⟨ht, (Except.ok.inj h).symm⟩
  next ht => exact Or.inr ⟨ht, updateBBO_ladder h⟩

theorem PoolsOk.onUpdate {s s' : MarketLadder} (h : PoolsOk s) {u : MEMarketUpdate}
    (hrun : MarketOrderBook.onUpdate s u = .ok s') : PoolsOk s' := by
  have hget : ∀ {entry : Option Nat}, s.getIdx u.order_id_ = .ok entry →
      entry = s.id_to_order_ u.order_id_ := by
    intro entry he
    unfold Ladder.getIdx at he
    split at he
    · exact (Except.ok.inj he).symm
    · exact absurd he (by simp)
  unfold MarketOrderBook.onUpdate at hrun
  split at hrun
  · exact h.allocateOrder hrun
  · obtain ⟨_, _, hrun⟩ := exec_bind_ok hrun
    obtain ⟨p, _, hrun⟩ := exec_bind_ok hrun
    rw [← Except.ok.inj hrun]
    exact h.setQty p u.qty_
  · obtain ⟨entry, he, hrun⟩ := exec_bind_ok hrun
    obtain ⟨p, hp, hrun⟩ := exec_bind_ok hrun
    have hentry : s.id_to_order_ u.order_id_ = some p := by
      rw [← hget he]
      cases entry with
      | none => exact absurd hp (by simp)
      | some q => exact congrArg some (Except.ok.inj hp)
    exact h.removeOrder hentry hrun
  · obtain ⟨_, _, _, hc⟩ := clear_inv h hrun
    exact hc.pools
  all_goals
    rw [← Except.ok.inj hrun]
    exact h

/-- **Whatever the book has processed**, its pools and its id table are in order. -/
theorem PoolsOk.onMarketUpdates {s s' : MarketOrderBook} {us : List MEMarketUpdate}
    (h : PoolsOk s.ladder) (hrun : s.onMarketUpdates us = .ok s') : PoolsOk s'.ladder := by
  induction us generalizing s with
  | nil =>
    rw [← Except.ok.inj hrun]
    exact h
  | cons u us ih =>
    obtain ⟨s₁, hstep, hrun⟩ := exec_bind_ok hrun
    refine ih ?_ hrun
    obtain ⟨l, hl, ⟨_, rfl⟩ | ⟨_, he⟩⟩ := onMarketUpdate_inv hstep
    · exact h
    · rw [he]
      exact h.onUpdate hl

end LowLatency
