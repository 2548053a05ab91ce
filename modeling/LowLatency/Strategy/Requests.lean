import LowLatency.Matcher.Widths
import LowLatency.Strategy.TickerIndependence

/-!
# What a strategy asks of its trade engine

A market update changes the books of a `StrategyEngine`, its features and its
profits, and then a strategy may call `moveOrders`, once, for the ticker of the
update and for its own clip (`processMarketUpdate_acts`). The two prices are
`Price`s, whatever the updates were: a price level has the price of the update
that brought it (`LevelsPriced`), and sums wrap.
-/

namespace LowLatency

/-! ## Price levels hold prices -/

/-- Every block of the level pool holds a `Price`. -/
def LevelsPriced {K I : Type} (s : Ladder K I) : Prop :=
  ∀ l, PriceFits (s.orders_at_price_pool_.levelPrice l)

section Levels

variable {K I : Type} {s s' : Ladder K I}

/-- Linking a level writes no price. -/
theorem addOrdersAtPrice_levelPrice {n : Nat} (h : s.addOrdersAtPrice n = .ok s') (l : Nat) :
    s'.orders_at_price_pool_.levelPrice l = s.orders_at_price_pool_.levelPrice l := by
  unfold Ladder.addOrdersAtPrice at h
  dsimp only at h
  split at h
  · rw [← Except.ok.inj h]
    simp
  · obtain ⟨⟨add_after, target⟩, _, h⟩ := exec_bind_ok h
    dsimp only at h
    split at h
    · split at h
      · obtain ⟨last, _, h⟩ := exec_bind_ok h
        obtain ⟨after, _, h⟩ := exec_bind_ok h
        rw [← Except.ok.inj h]
        simp
      · rw [exec_ok_bind] at h
        obtain ⟨after, _, h⟩ := exec_bind_ok h
        rw [← Except.ok.inj h]
        simp
    · obtain ⟨before, _, h⟩ := exec_bind_ok h
      split at h
      · rw [← Except.ok.inj h]
        simp
      · rw [← Except.ok.inj h]
        simp

/-- A block that is given back keeps its price. -/
theorem levelPrice_release (m : MemPool OrdersAtPrice) (p l : Nat) :
    (m.release p).levelPrice l = m.levelPrice l := by
  unfold MemPool.levelPrice
  rw [MemPool.get_release]

/-- Nor does unlinking one. -/
theorem removeOrdersAtPrice_levelPrice {side : Side} {price : Int}
    (h : s.removeOrdersAtPrice side price = .ok s') (l : Nat) :
    s'.orders_at_price_pool_.levelPrice l = s.orders_at_price_pool_.levelPrice l := by
  unfold Ladder.removeOrdersAtPrice at h
  dsimp only at h
  obtain ⟨_, _, h⟩ := exec_bind_ok h
  simp only [exec_ok_bind] at h
  split at h
  · obtain ⟨m, hm, h⟩ := exec_bind_ok h
    rw [setBest_orders_at_price_pool_] at hm
    rw [← Except.ok.inj h, (MemPool.deallocate_inv hm).2]
    exact levelPrice_release ..
  · obtain ⟨before, _, h⟩ := exec_bind_ok h
    obtain ⟨after, _, h⟩ := exec_bind_ok h
    obtain ⟨m, hm, h⟩ := exec_bind_ok h
    rw [← Except.ok.inj h, (MemPool.deallocate_inv hm).2]
    dsimp only
    rw [levelPrice_release]
    simp

variable [OrderKey K I] [DecidableEq I]

/-- A level that an order opens has the price of the order. -/
theorem LevelsPriced.addOrder (h : LevelsPriced s) {p : Nat}
    (hp : PriceFits (s.order_pool_.data p).price_) (hrun : s.addOrder p = .ok s') :
    LevelsPriced s' := by
  unfold Ladder.addOrder at hrun
  dsimp only at hrun
  simp only [exec_ok_bind] at hrun
  split at hrun
  · obtain ⟨⟨n, m⟩, halloc, hrun⟩ := exec_bind_ok hrun
    obtain ⟨s₁, hlink, hset⟩ := exec_bind_ok hrun
    have hget := MemPool.get_of_store (MemPool.allocate_inv halloc).2
    intro l
    rw [setIdx_ok hset]
    dsimp only
    rw [addOrdersAtPrice_levelPrice hlink]
    unfold MemPool.levelPrice
    rw [hget]
    split
    · exact hp
    · exact h l
  · obtain ⟨first, _, hrun⟩ := exec_bind_ok hrun
    obtain ⟨last, _, hrun⟩ := exec_bind_ok hrun
    rw [setIdx_ok hrun]
    exact h

theorem LevelsPriced.allocateOrder (h : LevelsPriced s) {d : OrderData K} (hd : PriceFits d.price_)
    (hrun : s.allocateOrder d = .ok s') : LevelsPriced s' := by
  unfold Ladder.allocateOrder at hrun
  obtain ⟨⟨p, m⟩, halloc, hrun⟩ := exec_bind_ok hrun
  refine LevelsPriced.addOrder (s := { s with order_pool_ := m }) h ?_ hrun
  show PriceFits (m.data p).price_
  unfold MemPool.data
  rw [MemPool.get_of_store (MemPool.allocate_inv halloc).2]
  obtain rfl := (MemPool.allocate_inv halloc).1
  simpa using hd

theorem LevelsPriced.removeOrder (h : LevelsPriced s) {p : Nat} (hrun : s.removeOrder p = .ok s') :
    LevelsPriced s' := by
  unfold Ladder.removeOrder at hrun
  dsimp only at hrun
  simp only [exec_ok_bind] at hrun
  split at hrun
  · obtain ⟨s₁, hlevel, hrun⟩ := exec_bind_ok hrun
    obtain ⟨s₂, hset, hrun⟩ := exec_bind_ok hrun
    obtain ⟨m, _, hrun⟩ := exec_bind_ok hrun
    intro l
    rw [← Except.ok.inj hrun, setIdx_ok hset]
    dsimp only
    rw [removeOrdersAtPrice_levelPrice hlevel]
    exact h l
  · obtain ⟨before, _, hrun⟩ := exec_bind_ok hrun
    obtain ⟨after, _, hrun⟩ := exec_bind_ok hrun
    obtain ⟨l₁, _, hrun⟩ := exec_bind_ok hrun
    obtain ⟨s₂, hset, hrun⟩ := exec_bind_ok hrun
    obtain ⟨m, _, hrun⟩ := exec_bind_ok hrun
    intro l
    rw [← Except.ok.inj hrun, setIdx_ok hset]
    dsimp only
    split
    · rw [(MemPool.level_setFirstOrder ..).2.1]
      exact h l
    · exact h l

end Levels

namespace MarketLadder

/-- Giving back all levels writes no price. -/
theorem clearLevelsLoop_levelPrice {best : Nat} {fuel : Nat} {level : Option Nat}
    {m m' : MemPool OrdersAtPrice} (h : clearLevelsLoop best fuel level m = .ok m') (l : Nat) :
    m'.levelPrice l = m.levelPrice l := by
  induction fuel generalizing level m with
  | zero => exact absurd h (by simp [clearLevelsLoop])
  | succ fuel ih =>
    unfold clearLevelsLoop at h
    split at h
    · rw [← Except.ok.inj h]
    · obtain ⟨⟨m₁, l₁⟩, hfree, h⟩ := exec_bind_ok h
      rw [ih h]
      cases level with
      | none => exact absurd hfree (by simp [deallocate?])
      | some p =>
        obtain ⟨m₂, hm, hret⟩ := exec_bind_ok hfree
        obtain ⟨rfl, -⟩ := Prod.mk.inj (Except.ok.inj hret)
        rw [(MemPool.deallocate_inv hm).2, levelPrice_release]

theorem clearLevels_levelPrice {best : Option Nat} {m m' : MemPool OrdersAtPrice}
    (h : clearLevels best m = .ok m') (l : Nat) : m'.levelPrice l = m.levelPrice l := by
  unfold clearLevels at h
  split at h
  · rw [← Except.ok.inj h]
  · obtain ⟨m₁, h₁, h₂⟩ := exec_bind_ok h
    rw [(MemPool.deallocate_inv h₂).2, levelPrice_release, clearLevelsLoop_levelPrice h₁]

theorem levelsPriced_clear {s s' : MarketLadder} (h : LevelsPriced s) (hrun : clear s = .ok s') :
    LevelsPriced s' := by
  obtain ⟨orders, _, hrun⟩ := exec_bind_ok hrun
  obtain ⟨levels, h₁, hrun⟩ := exec_bind_ok hrun
  obtain ⟨levels', h₂, hrun⟩ := exec_bind_ok hrun
  intro l
  rw [← Except.ok.inj hrun]
  dsimp only
  rw [clearLevels_levelPrice h₂, clearLevels_levelPrice h₁]
  exact h l

end MarketLadder

/-- The levels and the best prices of a replica are `Price`s. -/
structure MarketOrderBook.Priced (s : MarketOrderBook) : Prop where
  levels : LevelsPriced s.ladder
  bid : PriceFits s.bbo_.bid_price_
  ask : PriceFits s.bbo_.ask_price_

theorem MarketOrderBook.priced_init : MarketOrderBook.init.Priced where
  levels := fun _ => Price_INVALID_fits
  bid := Price_INVALID_fits
  ask := Price_INVALID_fits

section Update

variable {s s' : MarketOrderBook} {u : MEMarketUpdate}

theorem LevelsPriced.topOfBook {s : MarketLadder} (h : LevelsPriced s) {b : Bool} {t : Int × Nat}
    (hrun : MarketLadder.topOfBook s b = .ok t) : PriceFits t.1 := by
  unfold MarketLadder.topOfBook at hrun
  split at hrun
  · rw [← Except.ok.inj hrun]
    exact Price_INVALID_fits
  · obtain ⟨first, _, hrun⟩ := exec_bind_ok hrun
    obtain ⟨order, _, hrun⟩ := exec_bind_ok hrun
    obtain ⟨qty, _, hrun⟩ := exec_bind_ok hrun
    rw [← Except.ok.inj hrun]
    exact h _

theorem LevelsPriced.onUpdate {s s' : MarketLadder} (h : LevelsPriced s) (hu : PriceFits u.price_)
    (hrun : MarketOrderBook.onUpdate s u = .ok s') : LevelsPriced s' := by
  unfold MarketOrderBook.onUpdate at hrun
  cases ht : u.type_ with
  | ADD =>
    rw [ht] at hrun
    exact h.allocateOrder hu hrun
  | MODIFY =>
    rw [ht] at hrun
    obtain ⟨_, _, hrun⟩ := exec_bind_ok hrun
    obtain ⟨_, _, hrun⟩ := exec_bind_ok hrun
    rw [← Except.ok.inj hrun]
    exact h
  | CANCEL =>
    rw [ht] at hrun
    obtain ⟨_, _, hrun⟩ := exec_bind_ok hrun
    obtain ⟨_, _, hrun⟩ := exec_bind_ok hrun
    exact h.removeOrder hrun
  | CLEAR =>
    rw [ht] at hrun
    exact MarketLadder.levelsPriced_clear h hrun
  | INVALID | TRADE | SNAPSHOT_START | SNAPSHOT_END =>
    rw [ht] at hrun
    rw [← Except.ok.inj hrun]
    exact h

theorem MarketOrderBook.Priced.updateBBO (h : s.Priced) {bid ask : Bool}
    (hrun : s.updateBBO bid ask = .ok s') : s'.Priced := by
  -- the second half, from wherever the first one ends
  have hask : ∀ s₁ : MarketOrderBook, s₁.Priced → s₁.updateBBO false ask = .ok s' → s'.Priced := by
    intro s₁ hs₁ hrun
    unfold MarketOrderBook.updateBBO at hrun
    simp only [Bool.false_eq_true, if_false, exec_ok_bind] at hrun
    split at hrun
    · obtain ⟨top, htop, hrun⟩ := exec_bind_ok hrun
      rw [← Except.ok.inj hrun]
      exact ⟨hs₁.levels, hs₁.bid, hs₁.levels.topOfBook htop⟩
    · rw [← Except.ok.inj hrun]
      exact hs₁
  cases bid with
  | false => exact hask s h hrun
  | true =>
    unfold MarketOrderBook.updateBBO at hrun
    simp only [if_true] at hrun
    obtain ⟨top, htop, hrun⟩ := exec_bind_ok hrun
    refine hask { s with bbo_ := { s.bbo_ with bid_price_ := top.1, bid_qty_ := top.2 } }
      ⟨h.levels, h.levels.topOfBook htop, h.ask⟩ ?_
    unfold MarketOrderBook.updateBBO
    simpa using hrun

/-- **An update with a `Price`** leaves `Price`s. -/
theorem MarketOrderBook.Priced.onMarketUpdate (h : s.Priced) (hu : PriceFits u.price_)
    (hrun : s.onMarketUpdate u = .ok s') : s'.Priced := by
  unfold MarketOrderBook.onMarketUpdate at hrun
  obtain ⟨l, hl, hrun⟩ := exec_bind_ok hrun
  split at hrun
  · rw [← Except.ok.inj hrun]
    exact h
  · exact MarketOrderBook.Priced.updateBBO (s := { s with ladder := l })
      ⟨h.levels.onUpdate hu hl, h.bid, h.ask⟩ hrun

end Update

/-! ## The calls of a strategy -/

namespace StrategyEngine

variable {F : Type} [Double F] {e e' : StrategyEngine F} {os : List MEClientRequest} {t : Nat}
  {bbo : BBO} {u : MEMarketUpdate}

/-- The books of an engine, and what decides which of its callbacks do something. -/
def SameBooks (e e' : StrategyEngine F) : Prop :=
  e'.ticker_order_book_ = e.ticker_order_book_ ∧ e'.algo_type_ = e.algo_type_

theorem SameBooks.moveOrders {bid ask : Int} {clip : Nat}
    (h : e.moveOrders t bid ask clip = .ok (e', os)) : SameBooks e e' := by
  obtain ⟨⟨te, reqs⟩, _, hret⟩ := exec_bind_ok h
  obtain ⟨rfl, rfl⟩ := Prod.mk.inj (Except.ok.inj hret)
  exact ⟨rfl, rfl⟩

theorem SameBooks.algoOnOrderBookUpdate (h : e.algoOnOrderBookUpdate t bbo = .ok (e', os)) :
    SameBooks e e' := by
  unfold StrategyEngine.algoOnOrderBookUpdate at h
  split at h
  · unfold makerOnOrderBookUpdate at h
    dsimp only at h
    split at h
    · exact SameBooks.moveOrders h
    · obtain ⟨rfl, rfl⟩ := Prod.mk.inj (Except.ok.inj h)
      exact ⟨rfl, rfl⟩
  · obtain ⟨rfl, rfl⟩ := Prod.mk.inj (Except.ok.inj h)
    exact ⟨rfl, rfl⟩

theorem SameBooks.algoOnTradeUpdate (h : e.algoOnTradeUpdate u bbo = .ok (e', os)) :
    SameBooks e e' := by
  unfold StrategyEngine.algoOnTradeUpdate at h
  split at h
  · obtain ⟨rfl, rfl⟩ := Prod.mk.inj (Except.ok.inj h)
    exact ⟨rfl, rfl⟩
  · unfold takerOnTradeUpdate at h
    dsimp only at h
    split at h
    · split at h
      · split at h <;> exact SameBooks.moveOrders h
      · obtain ⟨rfl, rfl⟩ := Prod.mk.inj (Except.ok.inj h)
        exact ⟨rfl, rfl⟩
    · obtain ⟨rfl, rfl⟩ := Prod.mk.inj (Except.ok.inj h)
      exact ⟨rfl, rfl⟩

/-- A market update goes to the books, whatever the strategy then does. -/
theorem processMarketUpdate_books (h : e.processMarketUpdate u = .ok (e', os)) :
    e.ticker_order_book_.processMarketUpdate u = .ok e'.ticker_order_book_ ∧
      e'.algo_type_ = e.algo_type_ := by
  obtain ⟨books, hbooks, h⟩ := exec_bind_ok h
  dsimp only at h
  have hsame : e'.ticker_order_book_ = books ∧ e'.algo_type_ = e.algo_type_ := by
    split at h
    · exact SameBooks.algoOnTradeUpdate h
    · exact SameBooks.algoOnOrderBookUpdate h
  rw [hsame.1]
  exact ⟨hbooks, hsame.2⟩

/-- A response goes to the trade engine. -/
theorem onOrderUpdate_books {r : MEClientResponse} (h : e.onOrderUpdate r = .ok e') :
    e.toTradeEngine.onOrderUpdate r = .ok e'.toTradeEngine ∧ e'.ticker_cfg_ = e.ticker_cfg_ ∧
      SameBooks e e' := by
  obtain ⟨te, hte, hret⟩ := exec_bind_ok h
  obtain rfl := Except.ok.inj hret
  exact ⟨hte, rfl, rfl, rfl⟩

theorem onOrderUpdate_ok {r : MEClientResponse} {te : TradeEngine}
    (h : e.toTradeEngine.onOrderUpdate r = .ok te) : ∃ e', e.onOrderUpdate r = .ok e' := by
  unfold onOrderUpdate
  rw [h]
  exact ⟨_, rfl⟩

/-- The trade engine was left alone, or one call of `moveOrders` was made, at two
`Price`s. -/
def Acts (t : Nat) (e e' : StrategyEngine F) (os : List MEClientRequest) : Prop :=
  (e'.toTradeEngine = e.toTradeEngine ∧ os = []) ∨
    ∃ loss bid_price ask_price, PriceFits bid_price ∧ PriceFits ask_price ∧
      e.toTradeEngine.moveOrders loss t bid_price ask_price (e.ticker_cfg_ t).clip_ =
        .ok (e'.toTradeEngine, os)

theorem int64_fits (x : Int) : PriceFits (int64 x) :=
  ⟨by unfold int64; exact Int.le_bmod (by decide), by unfold int64; exact Int.bmod_lt (by decide)⟩

theorem Acts.moveOrders {bid ask : Int} (hbid : PriceFits bid) (hask : PriceFits ask)
    (h : e.moveOrders t bid ask (e.ticker_cfg_ t).clip_ = .ok (e', os)) : Acts t e e' os := by
  obtain ⟨⟨te, reqs⟩, hmove, hret⟩ := exec_bind_ok h
  obtain ⟨rfl, rfl⟩ := Prod.mk.inj (Except.ok.inj hret)
  exact .inr ⟨_, bid, ask, hbid, hask, hmove⟩

theorem Acts.algoOnOrderBookUpdate (h : e.algoOnOrderBookUpdate t bbo = .ok (e', os)) :
    Acts t e e' os := by
  unfold StrategyEngine.algoOnOrderBookUpdate at h
  split at h
  · unfold makerOnOrderBookUpdate at h
    dsimp only at h
    split at h
    · exact .moveOrders (int64_fits _) (int64_fits _) h
    · obtain ⟨rfl, rfl⟩ := Prod.mk.inj (Except.ok.inj h)
      exact .inl ⟨rfl, rfl⟩
  · obtain ⟨rfl, rfl⟩ := Prod.mk.inj (Except.ok.inj h)
    exact .inl ⟨rfl, rfl⟩

theorem Acts.algoOnTradeUpdate (hbid : PriceFits bbo.bid_price_) (hask : PriceFits bbo.ask_price_)
    (h : e.algoOnTradeUpdate u bbo = .ok (e', os)) : Acts u.ticker_id_ e e' os := by
  unfold StrategyEngine.algoOnTradeUpdate at h
  split at h
  · obtain ⟨rfl, rfl⟩ := Prod.mk.inj (Except.ok.inj h)
    exact .inl ⟨rfl, rfl⟩
  · unfold takerOnTradeUpdate at h
    dsimp only at h
    split at h
    · split at h
      · split at h
        · exact .moveOrders hask Price_INVALID_fits h
        · exact .moveOrders Price_INVALID_fits hbid h
      · obtain ⟨rfl, rfl⟩ := Prod.mk.inj (Except.ok.inj h)
        exact .inl ⟨rfl, rfl⟩
    · obtain ⟨rfl, rfl⟩ := Prod.mk.inj (Except.ok.inj h)
      exact .inl ⟨rfl, rfl⟩

/-- The books of all tickers hold `Price`s. -/
def Priced (e : StrategyEngine F) : Prop := ∀ t, (e.ticker_order_book_ t).Priced

theorem Priced.processMarketUpdate (h : e.Priced) (hu : PriceFits u.price_)
    (hrun : e.processMarketUpdate u = .ok (e', os)) : e'.Priced := by
  obtain ⟨_, _, hbooks⟩ := exec_bind_ok (processMarketUpdate_books hrun).1
  obtain ⟨s, hs, hret⟩ := exec_bind_ok hbooks
  intro t
  rw [← Except.ok.inj hret, Function.update_apply]
  split
  · exact (h _).onMarketUpdate hu hs
  · exact h t

/-- **What a market update makes a strategy do.** -/
theorem processMarketUpdate_acts (h : e.Priced) (hu : PriceFits u.price_)
    (hrun : e.processMarketUpdate u = .ok (e', os)) : Acts u.ticker_id_ e e' os := by
  have hpriced := h.processMarketUpdate hu hrun u.ticker_id_
  have hbooks := (processMarketUpdate_books hrun).1
  obtain ⟨books, hbooks', hrun⟩ := exec_bind_ok hrun
  obtain rfl := Except.ok.inj (hbooks'.symm.trans hbooks)
  dsimp only at hrun
  split at hrun
  · have hacts := Acts.algoOnTradeUpdate hpriced.bid hpriced.ask hrun
    exact hacts
  · have hacts := Acts.algoOnOrderBookUpdate hrun
    exact hacts

/-- `moveOrders` only minds the ticker. -/
theorem moveOrders_ok (ht : t < ME_MAX_TICKERS) (e : StrategyEngine F) (bid ask : Int)
    (clip : Nat) : ∃ e' os, e.moveOrders t bid ask clip = .ok (e', os) := by
  have hmove : ∀ loss, ∃ te os, e.toTradeEngine.moveOrders loss t bid ask clip = .ok (te, os) := by
    intro loss
    unfold TradeEngine.moveOrders
    rw [if_pos ht]
    exact ⟨_, _, rfl⟩
  obtain ⟨te, os, h⟩ := hmove (Double.lt (e.ticker_pnl_ t).total_pnl_ (e.ticker_cfg_ t).max_loss_)
  refine ⟨{ e with toTradeEngine := te }, os, ?_⟩
  unfold moveOrders
  dsimp only
  rw [h]
  rfl

/-- **Where the books take an update**, so does the engine. -/
theorem processMarketUpdate_ok {books : MarketOrderBookHashMap}
    (h : e.ticker_order_book_.processMarketUpdate u = .ok books) :
    ∃ e' os, e.processMarketUpdate u = .ok (e', os) := by
  have ht : u.ticker_id_ < ME_MAX_TICKERS := by
    obtain ⟨_, hassert, _⟩ := exec_bind_ok h
    exact of_decide_eq_true (ASSERT_ok hassert)
  unfold processMarketUpdate
  rw [h, exec_ok_bind]
  dsimp only
  split
  · unfold onTradeUpdate algoOnTradeUpdate
    dsimp only
    split
    · exact ⟨_, _, rfl⟩
    · unfold takerOnTradeUpdate
      dsimp only
      split
      · split
        · split <;> exact moveOrders_ok ht ..
        · exact ⟨_, _, rfl⟩
      · exact ⟨_, _, rfl⟩
  · unfold onOrderBookUpdate algoOnOrderBookUpdate
    dsimp only
    split
    · unfold makerOnOrderBookUpdate
      dsimp only
      split
      · exact moveOrders_ok ht ..
      · exact ⟨_, _, rfl⟩
    · exact ⟨_, _, rfl⟩

end StrategyEngine

end LowLatency
