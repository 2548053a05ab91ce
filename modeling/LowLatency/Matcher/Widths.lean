import LowLatency.Common.Wire
import LowLatency.Matcher.Owners

/-!
# Responses are values of their types

An id, a price or a quantity in a response is copied from the request or from a
block of the order pool, or is what a fill leaves of a quantity. So if all of
these are values of their C++ types, the response is (`processClientRequest_fits`),
and can be written to the wire and read back. As in `Owners`, nothing is assumed
of prices and ids: the claim on the pool is made for every block, used or not
(`BookFits`).
-/

namespace LowLatency

/-! ## What the routines do with the contents of blocks -/

section Contents

variable {K I : Type} [OrderKey K I] [DecidableEq I] {s s' : Ladder K I}

/-- Linking an order changes links only. -/
theorem addOrder_data {p : Nat} (h : s.addOrder p = .ok s') (q : Nat) :
    s'.order_pool_.data q = s.order_pool_.data q := by
  unfold Ladder.addOrder at h
  dsimp only at h
  simp only [exec_ok_bind] at h
  split at h
  · obtain ⟨⟨n, m⟩, _, h⟩ := exec_bind_ok h
    obtain ⟨s₁, hlink, hset⟩ := exec_bind_ok h
    rw [setIdx_ok hset]
    show s₁.order_pool_.data q = _
    rw [(addOrdersAtPrice_orders hlink).1]
    simp
  · obtain ⟨first, _, h⟩ := exec_bind_ok h
    obtain ⟨last, _, h⟩ := exec_bind_ok h
    rw [setIdx_ok h]
    simp

/-- A new order fills one block. -/
theorem allocateOrder_data {d : OrderData K} (h : s.allocateOrder d = .ok s') :
    ∃ n, ∀ q, s'.order_pool_.data q = if q = n then d else s.order_pool_.data q := by
  unfold Ladder.allocateOrder at h
  obtain ⟨⟨n, m⟩, halloc, h⟩ := exec_bind_ok h
  have hget := MemPool.get_of_store (MemPool.allocate_inv halloc).2
  refine ⟨n, fun q => ?_⟩
  rw [addOrder_data h q]
  show m.data q = _
  unfold MemPool.data
  rw [hget]
  split <;> rfl

/-- Unlinking an order and giving its block back leaves its contents. -/
theorem removeOrder_data {p : Nat} (h : s.removeOrder p = .ok s') (q : Nat) :
    s'.order_pool_.data q = s.order_pool_.data q := by
  have hrelease : ∀ (m m' : MemPool (Order K)), m.deallocate p = .ok m' →
      m'.data q = m.data q := by
    intro m m' hm
    rw [(MemPool.deallocate_inv hm).2]
    unfold MemPool.data
    rw [MemPool.get_release]
  unfold Ladder.removeOrder at h
  dsimp only at h
  simp only [exec_ok_bind] at h
  split at h
  · obtain ⟨s₁, hlevel, h⟩ := exec_bind_ok h
    obtain ⟨s₂, hset, h⟩ := exec_bind_ok h
    obtain ⟨m, hm, h⟩ := exec_bind_ok h
    rw [← Except.ok.inj h]
    show m.data q = _
    rw [hrelease _ _ hm, setIdx_ok hset, (removeOrdersAtPrice_orders hlevel).1]
  · obtain ⟨before, _, h⟩ := exec_bind_ok h
    obtain ⟨after, _, h⟩ := exec_bind_ok h
    obtain ⟨l, _, h⟩ := exec_bind_ok h
    obtain ⟨s₂, hset, h⟩ := exec_bind_ok h
    obtain ⟨m, hm, h⟩ := exec_bind_ok h
    rw [← Except.ok.inj h]
    show m.data q = _
    rw [hrelease _ _ hm, setIdx_ok hset]
    simp

end Contents

/-! ## Books -/

structure OrderFits (o : OrderData MEOrderId) : Prop where
  client_id : o.id_.client_id_ < 2 ^ 32
  client_order_id : o.id_.client_order_id_ < 2 ^ 64
  market_order_id : o.id_.market_order_id_ < 2 ^ 64
  price : PriceFits o.price_
  qty : o.qty_ < 2 ^ 32

/-- Every block of the order pool holds values of their types. -/
def BookFits (s : MELadder) : Prop := ∀ p, OrderFits (s.order_pool_.data p)

theorem bookFits_init : BookFits MEOrderBook.init.ladder := by
  intro p
  refine ⟨ClientId_INVALID_lt, OrderId_INVALID_lt, OrderId_INVALID_lt, ?_, ?_⟩
  · show PriceFits 0
    exact ⟨by decide, by decide⟩
  · show 0 < 2 ^ 32
    decide

/-- The values that `checkForMatch` has of the order being added. -/
structure Aggressor.Fits (a : Aggressor) : Prop where
  client_id : a.client_id_ < 2 ^ 32
  client_order_id : a.client_order_id_ < 2 ^ 64
  ticker_id : a.ticker_id_ < 2 ^ 32
  new_market_order_id : a.new_market_order_id_ < 2 ^ 64

/-- The quantities of a fill are at most those of the two orders. -/
theorem fits_fillRule {a : Aggressor} (ha : a.Fits) {N : Nat} (hN : N < 2 ^ 32) :
    FillRule a N BookFits MEClientResponse.Fits where
  fill := by
    intro s level itr leaves h _ hleaves r hr
    have ho := h itr
    have hqty := ho.qty
    rcases List.mem_cons.mp hr with rfl | hr
    · refine ⟨ha.client_id, ha.ticker_id, ha.client_order_id, ha.new_market_order_id, ho.price,
        ?_, ?_⟩
      · show min leaves _ < 2 ^ 32
        omega
      · show leaves - _ < 2 ^ 32
        omega
    · rw [List.mem_singleton.mp hr]
      refine ⟨ho.client_id, ha.ticker_id, ho.client_order_id, ho.market_order_id, ho.price, ?_, ?_⟩
      · show min leaves _ < 2 ^ 32
        omega
      · show _ - _ < 2 ^ 32
        omega
  setQty := by
    intro s itr v h hv p
    rw [MemPool.data_setQty]
    split
    · next hp =>
      subst hp
      have ho := h p
      exact ⟨ho.client_id, ho.client_order_id, ho.market_order_id, ho.price, hv.trans_lt ho.qty⟩
    · exact h p
  remove := by
    intro s s' p h hrun q
    rw [removeOrder_data hrun q]
    exact h q

/-- A book whose orders and next id are values of their types. -/
structure MEOrderBook.Fits (s : MEOrderBook) : Prop where
  orders : BookFits s.ladder
  next_id : s.next_market_order_id_ < 2 ^ 64

theorem MEOrderBook.fits_init : MEOrderBook.init.Fits := ⟨bookFits_init, by decide⟩

theorem acceptedEvent_fits {q : MEClientRequest} {id : Nat} (hq : q.Fits) (hid : id < 2 ^ 64) :
    ∀ r ∈ responses [acceptedEvent q.client_id_ q.order_id_ q.ticker_id_ id q.side_ q.price_ q.qty_],
      r.Fits := by
  intro r hr
  rw [List.mem_singleton.mp hr]
  refine ⟨hq.client_id, hq.ticker_id, hq.order_id, hid, hq.price, ?_, hq.qty⟩
  show 0 < 2 ^ 32
  decide

theorem add_fits {s s' : MEOrderBook} {q : MEClientRequest} {evs : List Event} (h : s.Fits)
    (hq : q.Fits)
    (hrun : s.add q.client_id_ q.order_id_ q.ticker_id_ q.side_ q.price_ q.qty_ = .ok (s', evs)) :
    s'.Fits ∧ ∀ r ∈ responses evs, r.Fits := by
  have hnext : wrap64 (s.next_market_order_id_ + 1) < 2 ^ 64 := Nat.mod_lt _ (by decide)
  have haccepted := acceptedEvent_fits hq h.next_id
  obtain ⟨leaves, l, evs₁, hmatch, hid', hend⟩ := MEOrderBook.add_inv hrun
  rw [← hid'] at hnext
  have ha : Aggressor.Fits ⟨q.client_id_, q.order_id_, q.ticker_id_, q.side_, q.price_,
      wrap32 s.next_market_order_id_⟩ :=
    ⟨hq.client_id, hq.order_id, hq.ticker_id,
      (Nat.mod_le _ _).trans_lt h.next_id⟩
  obtain ⟨hl, hleaves, hevs⟩ := checkForMatch_rule (fits_fillRule ha hq.qty) h.orders hmatch
  rcases hend with ⟨_, hs', rfl⟩ | ⟨_, o, hid, hside, hprice, hqty, halloc, rfl⟩
  · refine ⟨⟨by rw [hs']; exact hl, hnext⟩, fun r hr => ?_⟩
    simp only [responses, List.filterMap_cons] at hr
    rcases List.mem_cons.mp hr with rfl | hr
    · exact haccepted _ (List.mem_singleton_self _)
    · exact hevs r hr
  · obtain ⟨n, hdata⟩ := allocateOrder_data halloc
    refine ⟨⟨fun p => ?_, hnext⟩, fun r hr => ?_⟩
    · rw [hdata]
      split
      · refine ⟨?_, ?_, ?_, ?_, ?_⟩
        · rw [hid]
          exact hq.client_id
        · rw [hid]
          exact hq.order_id
        · rw [hid]
          exact h.next_id
        · rw [hprice]
          exact hq.price
        · rw [hqty]
          exact hleaves.trans_lt hq.qty
      · exact hl p
    · simp only [responses, addedEvent, List.filterMap_cons, List.filterMap_append,
        List.filterMap_nil, List.append_nil] at hr
      rcases List.mem_cons.mp hr with rfl | hr
      · exact haccepted _ (List.mem_singleton_self _)
      · exact hevs r hr

theorem cancel_fits {s s' : MEOrderBook} {q : MEClientRequest} {evs : List Event} (h : s.Fits)
    (hq : q.Fits) (hrun : s.cancel q.client_id_ q.order_id_ q.ticker_id_ = .ok (s', evs)) :
    s'.Fits ∧ ∀ r ∈ responses evs, r.Fits := by
  rcases MEOrderBook.cancel_inv hrun with ⟨rfl, rfl⟩ | ⟨p, _, hremove, hnext, rfl⟩
  · refine ⟨h, fun r hr => ?_⟩
    rw [List.mem_singleton.mp hr]
    exact ⟨hq.client_id, hq.ticker_id, hq.order_id, OrderId_INVALID_lt, Price_INVALID_fits,
      Qty_INVALID_lt, Qty_INVALID_lt⟩
  · refine ⟨⟨fun p' => ?_, by rw [hnext]; exact h.next_id⟩, fun r hr => ?_⟩
    · rw [removeOrder_data hremove p']
      exact h.orders p'
    · rw [List.mem_singleton.mp (show r ∈ [_] from hr)]
      have ho := h.orders p
      exact ⟨hq.client_id, hq.ticker_id, hq.order_id, ho.market_order_id, ho.price,
        Qty_INVALID_lt, ho.qty⟩

/-- **One request**: its responses are values of their types. -/
theorem processClientRequest_fits {s s' : MEOrderBook} {q : MEClientRequest} {evs : List Event}
    (h : s.Fits) (hq : q.Fits) (hrun : s.processClientRequest q = .ok (s', evs)) :
    s'.Fits ∧ ∀ r ∈ responses evs, r.Fits := by
  unfold MEOrderBook.processClientRequest at hrun
  split at hrun
  · exact add_fits h hq hrun
  · exact cancel_fits h hq hrun
  · exact absurd hrun (by simp)

end LowLatency
