import LowLatency.Lib.Unwinding
import LowLatency.Strategy.StrategyEngine

/-!
# Tickers do not influence each other

All tickers of an engine share one `FeatureEngine`, whose two features hold
whatever was computed last, and one `next_order_id_`. Here it is proved that
what the engine sends for a ticker does not depend on the others, order ids
apart, unless an input of another ticker ends the process: `tickers_independent`.
`tickers_cut_short` is how one can.

`Agrees t e₁ e₂` is what two engines must have in common for that: everything
kept per ticker, at `t`, with the ids of its two orders left out. The features
are not in it. They do not have to be, because a strategy acts only when both
sides of the book have a price, and the callback that reaches it has then just
recomputed the feature it reads from this very book (`mkt_price_recomputed`,
`agg_trade_qty_ratio_recomputed`).

An order's own `ticker_id_` goes into its cancel, so the other half of the
argument needs that the orders kept for another ticker do not carry `t`
(`OwnTickers`). A response can name an order that was never sent. It then has no
ticker at all, and its cancel is for `TickerId_INVALID`.
-/

namespace LowLatency

open Lib

/-- A request, its order id left out. -/
def MEClientRequest.anonymous (r : MEClientRequest) : MEClientRequest :=
  { r with order_id_ := OrderId_INVALID }

/-- A response, its client order id left out. -/
def MEClientResponse.anonymous (r : MEClientResponse) : MEClientResponse :=
  { r with client_order_id_ := OrderId_INVALID }

/-- An order, its id left out. -/
def OMOrder.anonymous (o : OMOrder) : OMOrder :=
  { o with order_id_ := OrderId_INVALID }

/-! ## Orders -/

namespace OrderManager

/-- The orders of ticker `t` differ in their ids only. -/
def AgreesAt (t : Nat) (m₁ m₂ : OrderManager) : Prop :=
  ∀ i, (m₁.ticker_side_order_ t i).anonymous = (m₂.ticker_side_order_ t i).anonymous

/-- An order carries the ticker it is kept for, or none. -/
def OwnTickers (m : OrderManager) : Prop :=
  ∀ t i, (m.ticker_side_order_ t i).ticker_id_ = t ∨
    (m.ticker_side_order_ t i).ticker_id_ = TickerId_INVALID

theorem init_ownTickers : init.OwnTickers := fun _ _ => .inr rfl

variable {m m₁ m₂ : OrderManager} {t t' : Nat} {side : Side} {o o₁ o₂ : OMOrder}

/-- Two orders that differ in their ids only agree in everything else. -/
theorem anonymous_eq_iff : o₁.anonymous = o₂.anonymous ↔
    o₁.ticker_id_ = o₂.ticker_id_ ∧ o₁.side_ = o₂.side_ ∧ o₁.price_ = o₂.price_ ∧
      o₁.qty_ = o₂.qty_ ∧ o₁.order_state_ = o₂.order_state_ := by
  simp [OMOrder.anonymous]

theorem setOrder_frame (hne : t' ≠ t) :
    (m.setOrder t side o).ticker_side_order_ t' = m.ticker_side_order_ t' := by
  simp only [setOrder]
  exact Function.update_of_ne hne _ _

theorem setOrder_at (i : Nat) : (m.setOrder t side o).ticker_side_order_ t i =
    if i = sideToIndex side then o else m.ticker_side_order_ t i := by
  simp only [setOrder, Function.update_self, Function.update_apply]

theorem AgreesAt.setOrder (h : AgreesAt t m₁ m₂) (ho : o₁.anonymous = o₂.anonymous) :
    AgreesAt t (m₁.setOrder t side o₁) (m₂.setOrder t side o₂) := by
  intro i
  rw [setOrder_at, setOrder_at]
  split
  · exact ho
  · exact h i

theorem OwnTickers.setOrder (h : OwnTickers m)
    (ho : o.ticker_id_ = t ∨ o.ticker_id_ = TickerId_INVALID) :
    OwnTickers (m.setOrder t side o) := by
  intro t' i
  by_cases hne : t' = t
  · subst hne
    rw [setOrder_at]
    split
    · exact ho
    · exact h t' i
  · rw [setOrder_frame hne]
    exact h t' i

/-- A response leaves the ticker of its order alone. -/
theorem onOrderUpdate_ownTickers (h : OwnTickers m) (r : MEClientResponse) :
    OwnTickers (m.onOrderUpdate r) := by
  have hown := h r.ticker_id_ (sideToIndex r.side_)
  unfold onOrderUpdate
  split
  · exact h.setOrder hown
  · exact h.setOrder hown
  · exact h.setOrder hown
  · exact h
  · exact h

theorem onOrderUpdate_frame (r : MEClientResponse) (hne : t ≠ r.ticker_id_) :
    (m.onOrderUpdate r).ticker_side_order_ t = m.ticker_side_order_ t := by
  unfold onOrderUpdate
  split <;> first | exact setOrder_frame hne | rfl

/-- Responses that differ in their client order id do the same. -/
theorem AgreesAt.onOrderUpdate {r₁ r₂ : MEClientResponse} (h : AgreesAt r₁.ticker_id_ m₁ m₂)
    (hr : r₁.anonymous = r₂.anonymous) :
    AgreesAt r₁.ticker_id_ (m₁.onOrderUpdate r₁) (m₂.onOrderUpdate r₂) := by
  obtain ⟨type, client, ticker, oid₁, moid, side, price, exec, leaves⟩ := r₁
  obtain ⟨type', client', ticker', oid₂, moid', side', price', exec', leaves'⟩ := r₂
  simp only [MEClientResponse.anonymous, MEClientResponse.mk.injEq, true_and] at hr
  obtain ⟨rfl, rfl, rfl, rfl, rfl, rfl, rfl, rfl⟩ := hr
  obtain ⟨hticker, hside, hprice, hqty, hstate⟩ := anonymous_eq_iff.mp (h (sideToIndex side))
  unfold OrderManager.onOrderUpdate
  cases type with
  | ACCEPTED => exact h.setOrder (anonymous_eq_iff.mpr ⟨hticker, hside, hprice, hqty, rfl⟩)
  | CANCELED => exact h.setOrder (anonymous_eq_iff.mpr ⟨hticker, hside, hprice, hqty, rfl⟩)
  | FILLED =>
    refine h.setOrder (anonymous_eq_iff.mpr ⟨hticker, hside, hprice, rfl, ?_⟩)
    show (if leaves = 0 then _ else _) = (if leaves = 0 then _ else _)
    rw [show (m₁.order ticker side).order_state_ = (m₂.order ticker side).order_state_ from hstate]
  | CANCEL_REJECTED => exact h
  | INVALID => exact h

/-! ### `moveOrder` -/

variable {client_id qty : Nat} {risk : RiskInfo} {loss : Bool} {price : Int}

theorem moveOrder_frame (hne : t' ≠ t) :
    (m.moveOrder client_id risk loss t price side qty).1.ticker_side_order_ t' =
      m.ticker_side_order_ t' := by
  rcases m.moveOrder_cases client_id risk loss t price side qty with h | ⟨_, h⟩ | ⟨_, _, h⟩
  · rw [h]
  · rw [h]
    exact setOrder_frame hne
  · rw [h]
    exact setOrder_frame hne

theorem moveOrder_ownTickers (h : OwnTickers m) :
    OwnTickers (m.moveOrder client_id risk loss t price side qty).1 := by
  rcases m.moveOrder_cases client_id risk loss t price side qty with hm | ⟨_, hm⟩ | ⟨_, _, hm⟩
  · rw [hm]
    exact h
  · rw [hm]
    exact h.setOrder (h t (sideToIndex side))
  · rw [hm]
    exact h.setOrder (.inl rfl)

/-- A request for an order of `t` is for `t`, or for no ticker. -/
theorem moveOrder_requests (h : OwnTickers m) :
    ∀ r ∈ (m.moveOrder client_id risk loss t price side qty).2,
      r.ticker_id_ = t ∨ r.ticker_id_ = TickerId_INVALID := by
  rcases m.moveOrder_cases client_id risk loss t price side qty with hm | ⟨_, hm⟩ | ⟨_, _, hm⟩
  · rw [hm]
    simp
  · rw [hm]
    intro r hr
    rw [List.mem_singleton.mp hr]
    exact h t (sideToIndex side)
  · rw [hm]
    intro r hr
    rw [List.mem_singleton.mp hr]
    exact .inl rfl

/-- **Orders that differ in their ids only are moved alike**: the decision reads
the state and the price, and the requests carry the rest. -/
theorem AgreesAt.moveOrder {client_id' : Nat} {risk' : RiskInfo} {loss' : Bool}
    (h : AgreesAt t m₁ m₂) (hclient : client_id = client_id') (hrisk : risk = risk')
    (hloss : loss = loss') (price : Int) (side : Side) (qty : Nat) :
    AgreesAt t (m₁.moveOrder client_id risk loss t price side qty).1
        (m₂.moveOrder client_id' risk' loss' t price side qty).1 ∧
      (m₁.moveOrder client_id risk loss t price side qty).2.map MEClientRequest.anonymous =
        (m₂.moveOrder client_id' risk' loss' t price side qty).2.map
          MEClientRequest.anonymous := by
  subst hclient hrisk hloss
  obtain ⟨hticker, hside, hprice, hqty, hstate⟩ := anonymous_eq_iff.mp (h (sideToIndex side))
  change (m₁.order t side).ticker_id_ = (m₂.order t side).ticker_id_ at hticker
  change (m₁.order t side).side_ = (m₂.order t side).side_ at hside
  change (m₁.order t side).price_ = (m₂.order t side).price_ at hprice
  change (m₁.order t side).qty_ = (m₂.order t side).qty_ at hqty
  change (m₁.order t side).order_state_ = (m₂.order t side).order_state_ at hstate
  have hcancel : AgreesAt t (m₁.cancelOrder client_id t side).1 (m₂.cancelOrder client_id t side).1 ∧
      (m₁.cancelOrder client_id t side).2.map MEClientRequest.anonymous =
        (m₂.cancelOrder client_id t side).2.map MEClientRequest.anonymous := by
    refine ⟨h.setOrder (anonymous_eq_iff.mpr ⟨hticker, hside, hprice, hqty, rfl⟩), ?_⟩
    simp [cancelOrder, MEClientRequest.anonymous, hticker, hside, hprice, hqty]
  have hnew : AgreesAt t (m₁.newOrder client_id t price side qty).1
        (m₂.newOrder client_id t price side qty).1 ∧
      (m₁.newOrder client_id t price side qty).2.map MEClientRequest.anonymous =
        (m₂.newOrder client_id t price side qty).2.map MEClientRequest.anonymous :=
    ⟨h.setOrder (anonymous_eq_iff.mpr ⟨rfl, rfl, rfl, rfl, rfl⟩), rfl⟩
  have hkeep : AgreesAt t (m₁, ([] : List MEClientRequest)).1 (m₂, ([] : List MEClientRequest)).1 ∧
      (m₁, ([] : List MEClientRequest)).2.map MEClientRequest.anonymous =
        (m₂, ([] : List MEClientRequest)).2.map MEClientRequest.anonymous := ⟨h, rfl⟩
  unfold OrderManager.moveOrder
  rw [hstate, hprice]
  split
  · split
    · exact hcancel
    · exact hkeep
  · split
    · split
      · exact hnew
      · exact hkeep
    · exact hkeep
  · split
    · split
      · exact hnew
      · exact hkeep
    · exact hkeep
  · exact hkeep
  · exact hkeep

end OrderManager

/-! ## Features -/

variable {F : Type}

/-- Whatever was computed before, a book update with both prices leaves the fair
price of this book. -/
theorem FeatureEngine.mkt_price_recomputed [Double F] (f₁ f₂ : FeatureEngine F) {bbo : BBO}
    (h : bbo.Valid) :
    (f₁.onOrderBookUpdate bbo).mkt_price_ = (f₂.onOrderBookUpdate bbo).mkt_price_ := by
  simp only [onOrderBookUpdate, if_pos h]

/-- Whatever was computed before, a trade with both prices in the book leaves
the ratio of this trade. -/
theorem FeatureEngine.agg_trade_qty_ratio_recomputed [Double F] (f₁ f₂ : FeatureEngine F)
    (u : MEMarketUpdate) {bbo : BBO} (h : bbo.Valid) :
    (f₁.onTradeUpdate u bbo).agg_trade_qty_ratio_ =
      (f₂.onTradeUpdate u bbo).agg_trade_qty_ratio_ := by
  simp only [onTradeUpdate, if_pos h]

/-! ## Engines -/

namespace StrategyEngine

/-- What two engines have in common at ticker `t`. -/
structure Agrees (t : Nat) (e₁ e₂ : StrategyEngine F) : Prop where
  client : e₁.client_id_ = e₂.client_id_
  algo : e₁.algo_type_ = e₂.algo_type_
  cfg : e₁.ticker_cfg_ t = e₂.ticker_cfg_ t
  risk : e₁.risk_cfg_ t = e₂.risk_cfg_ t
  book : e₁.ticker_order_book_ t = e₂.ticker_order_book_ t
  position : e₁.ticker_position_ t = e₂.ticker_position_ t
  pnl : e₁.ticker_pnl_ t = e₂.ticker_pnl_ t
  orders : OrderManager.AgreesAt t e₁.order_manager_ e₂.order_manager_

theorem Agrees.refl (t : Nat) (e : StrategyEngine F) : Agrees t e e :=
  ⟨rfl, rfl, rfl, rfl, rfl, rfl, rfl, fun _ => rfl⟩

/-- The ticker an input is for. -/
def Input.ticker : Input → Nat
  | .market u => u.ticker_id_
  | .response r => r.ticker_id_

/-- An input, its client order id left out. -/
def Input.anonymous : Input → Input
  | .market u => .market u
  | .response r => .response r.anonymous

/-- The input is for `t`. -/
def Input.isFor (t : Nat) (i : Input) : Bool := decide (i.ticker = t)

/-- What ticker `t` sees of a request. -/
def shown (t : Nat) (r : MEClientRequest) : Option MEClientRequest :=
  if r.ticker_id_ = t then some r.anonymous else none

theorem shown_congr {t : Nat} {os₁ os₂ : List MEClientRequest}
    (h : os₁.map MEClientRequest.anonymous = os₂.map MEClientRequest.anonymous) :
    os₁.filterMap (shown t) = os₂.filterMap (shown t) := by
  have hmap : ∀ os : List MEClientRequest, os.filterMap (shown t) =
      (os.map MEClientRequest.anonymous).filterMap
        fun r => if r.ticker_id_ = t then some r else none := by
    intro os
    rw [List.filterMap_map]
    rfl
  rw [hmap, hmap, h]

variable {t : Nat} {e e' e₁ e₂ : StrategyEngine F} {os : List MEClientRequest} {bbo : BBO}
  {u : MEMarketUpdate} {r r₁ r₂ : MEClientResponse}

/-! ### An input of another ticker -/

/-- A call for ticker `tk` left every other ticker alone and sent nothing in
its name. -/
structure Confined (tk : Nat) (e e' : StrategyEngine F) (os : List MEClientRequest) : Prop where
  client : e'.client_id_ = e.client_id_
  algo : e'.algo_type_ = e.algo_type_
  cfg : e'.ticker_cfg_ = e.ticker_cfg_
  risk : e'.risk_cfg_ = e.risk_cfg_
  book : ∀ t ≠ tk, e'.ticker_order_book_ t = e.ticker_order_book_ t
  position : ∀ t ≠ tk, e'.ticker_position_ t = e.ticker_position_ t
  pnl : ∀ t ≠ tk, e'.ticker_pnl_ t = e.ticker_pnl_ t
  orders : ∀ t ≠ tk,
    e'.order_manager_.ticker_side_order_ t = e.order_manager_.ticker_side_order_ t
  own : e.order_manager_.OwnTickers → e'.order_manager_.OwnTickers
  requests : e.order_manager_.OwnTickers →
    ∀ r ∈ os, r.ticker_id_ = tk ∨ r.ticker_id_ = TickerId_INVALID

theorem Confined.refl (tk : Nat) (e : StrategyEngine F) : Confined tk e e [] :=
  ⟨rfl, rfl, rfl, rfl, fun _ _ => rfl, fun _ _ => rfl, fun _ _ => rfl, fun _ _ => rfl, id,
    fun _ _ hr => absurd hr List.not_mem_nil⟩

/-- A silent call followed by another one. -/
theorem Confined.trans {tk : Nat} {e'' : StrategyEngine F} (h : Confined tk e e' [])
    (h' : Confined tk e' e'' os) : Confined tk e e'' os where
  client := h'.client.trans h.client
  algo := h'.algo.trans h.algo
  cfg := h'.cfg.trans h.cfg
  risk := h'.risk.trans h.risk
  book := fun t ht => (h'.book t ht).trans (h.book t ht)
  position := fun t ht => (h'.position t ht).trans (h.position t ht)
  pnl := fun t ht => (h'.pnl t ht).trans (h.pnl t ht)
  orders := fun t ht => (h'.orders t ht).trans (h.orders t ht)
  own := fun hown => h'.own (h.own hown)
  requests := fun hown => h'.requests (h.own hown)

/-- To ticker `t` an input of another one is as good as none. -/
theorem Confined.skip {tk : Nat} (h : Confined tk e e' os) (hown : e.order_manager_.OwnTickers)
    (hne : t ≠ tk) (ht : t < ME_MAX_TICKERS) (hagree : Agrees t e e₂) :
    Agrees t e' e₂ ∧ os.filterMap (shown t) = [] := by
  constructor
  · exact {
      client := h.client.trans hagree.client
      algo := h.algo.trans hagree.algo
      cfg := (congrFun h.cfg t).trans hagree.cfg
      risk := (congrFun h.risk t).trans hagree.risk
      book := (h.book t hne).trans hagree.book
      position := (h.position t hne).trans hagree.position
      pnl := (h.pnl t hne).trans hagree.pnl
      orders := by
        intro i
        rw [h.orders t hne]
        exact hagree.orders i }
  · apply List.filterMap_eq_nil_iff.mpr
    intro r hr
    apply if_neg
    intro hrt
    rcases h.requests hown r hr with htk | hinv
    · exact hne (hrt.symm.trans htk)
    · have hmax : ME_MAX_TICKERS < TickerId_INVALID := by decide
      omega

variable [Double F]

theorem Confined.moveOrders {tk : Nat} {bid ask : Int} {clip : Nat}
    (h : e.moveOrders tk bid ask clip = .ok (e', os)) : Confined tk e e' os := by
  obtain ⟨⟨te, reqs⟩, hmove, hret⟩ := exec_bind_ok h
  obtain ⟨rfl, rfl⟩ := Prod.mk.inj (Except.ok.inj hret)
  unfold TradeEngine.moveOrders at hmove
  split at hmove
  · obtain ⟨rfl, rfl⟩ := Prod.mk.inj (Except.ok.inj hmove)
    exact {
      client := rfl
      algo := rfl
      cfg := rfl
      risk := rfl
      book := fun _ _ => rfl
      position := fun _ _ => rfl
      pnl := fun _ _ => rfl
      orders := fun t ht =>
        (OrderManager.moveOrder_frame ht).trans (OrderManager.moveOrder_frame ht)
      own := fun hown =>
        OrderManager.moveOrder_ownTickers (OrderManager.moveOrder_ownTickers hown)
      requests := fun hown r hr => (List.mem_append.mp hr).elim
        (OrderManager.moveOrder_requests hown r)
        (OrderManager.moveOrder_requests (OrderManager.moveOrder_ownTickers hown) r) }
  · exact absurd hmove (by simp)

theorem Confined.algoOnOrderBookUpdate {tk : Nat}
    (h : e.algoOnOrderBookUpdate tk bbo = .ok (e', os)) : Confined tk e e' os := by
  unfold StrategyEngine.algoOnOrderBookUpdate at h
  split at h
  · unfold makerOnOrderBookUpdate at h
    simp only at h
    split at h
    · exact Confined.moveOrders h
    · obtain ⟨rfl, rfl⟩ := Prod.mk.inj (Except.ok.inj h)
      exact Confined.refl tk e
  · obtain ⟨rfl, rfl⟩ := Prod.mk.inj (Except.ok.inj h)
    exact Confined.refl tk e

theorem Confined.algoOnTradeUpdate
    (h : e.algoOnTradeUpdate u bbo = .ok (e', os)) : Confined u.ticker_id_ e e' os := by
  unfold StrategyEngine.algoOnTradeUpdate at h
  split at h
  · obtain ⟨rfl, rfl⟩ := Prod.mk.inj (Except.ok.inj h)
    exact Confined.refl u.ticker_id_ e
  · unfold takerOnTradeUpdate at h
    simp only at h
    split at h
    · split at h
      · split at h
        · exact Confined.moveOrders h
        · exact Confined.moveOrders h
      · obtain ⟨rfl, rfl⟩ := Prod.mk.inj (Except.ok.inj h)
        exact Confined.refl u.ticker_id_ e
    · obtain ⟨rfl, rfl⟩ := Prod.mk.inj (Except.ok.inj h)
      exact Confined.refl u.ticker_id_ e

/-- A new book for `tk`, after which the position and the features are
brought up to date. -/
theorem Confined.processMarketUpdate (h : e.processMarketUpdate u = .ok (e', os)) :
    Confined u.ticker_id_ e e' os := by
  obtain ⟨books, hbooks, h⟩ := exec_bind_ok h
  have hother : ∀ t ≠ u.ticker_id_, books t = e.ticker_order_book_ t := by
    obtain ⟨_, _, hbooks⟩ := exec_bind_ok hbooks
    obtain ⟨s, _, hret⟩ := exec_bind_ok hbooks
    rw [← Except.ok.inj hret]
    exact fun t ht => Function.update_of_ne ht _ _
  simp only at h
  split at h
  · refine Confined.trans ?_ (Confined.algoOnTradeUpdate h)
    exact { Confined.refl u.ticker_id_ e with book := hother }
  · refine Confined.trans ?_ (Confined.algoOnOrderBookUpdate h)
    exact { Confined.refl u.ticker_id_ e with
      book := hother
      pnl := fun t ht => Function.update_of_ne ht _ _ }

theorem Confined.onOrderUpdate (h : e.onOrderUpdate r = .ok e') :
    Confined r.ticker_id_ e e' [] := by
  obtain ⟨te, hte, hret⟩ := exec_bind_ok h
  rw [← Except.ok.inj hret]
  unfold TradeEngine.onOrderUpdate at hte
  split at hte
  · rw [← Except.ok.inj hte]
    exact { Confined.refl r.ticker_id_ e with
      position := by
        intro t ht
        show (if r.type_ = .FILLED then _ else _ : Nat → PositionInfo) t = _
        split
        · exact Function.update_of_ne ht _ _
        · rfl
      pnl := by
        intro t ht
        show (if r.type_ = .FILLED then _ else _ : Nat → PositionPnL F) t = _
        split
        · exact Function.update_of_ne ht _ _
        · rfl
      orders := fun t ht => OrderManager.onOrderUpdate_frame r ht
      own := fun hown => OrderManager.onOrderUpdate_ownTickers hown r }
  · exact absurd hte (by simp)

/-- **An input touches its own ticker only.** -/
theorem Confined.onInput {i : Input} (h : e.onInput i = .ok (e', os)) :
    Confined i.ticker e e' os := by
  cases i with
  | market u => exact Confined.processMarketUpdate h
  | response r =>
    obtain ⟨e'', hupd, hret⟩ := exec_bind_ok h
    obtain ⟨rfl, rfl⟩ := Prod.mk.inj (Except.ok.inj hret)
    exact Confined.onOrderUpdate hupd

/-! ### An input of the ticker itself -/

/-- Two outcomes that ticker `t` cannot tell apart. -/
abbrev AlikeAt (t : Nat) :
    Exec (StrategyEngine F × List MEClientRequest) →
      Exec (StrategyEngine F × List MEClientRequest) → Prop :=
  Alike (Agrees t) (shown t)

theorem Agrees.moveOrders (h : Agrees t e₁ e₂) (bid ask : Int) (clip : Nat) :
    AlikeAt t (e₁.moveOrders t bid ask clip) (e₂.moveOrders t bid ask clip) := by
  have hrisk : e₁.risk t = e₂.risk t := by
    unfold TradeEngine.risk
    rw [h.position, h.risk]
  have hloss : Double.lt (e₁.ticker_pnl_ t).total_pnl_ (e₁.ticker_cfg_ t).max_loss_ =
      Double.lt (e₂.ticker_pnl_ t).total_pnl_ (e₂.ticker_cfg_ t).max_loss_ := by
    rw [h.pnl, h.cfg]
  obtain ⟨hbuy, hbid⟩ := h.orders.moveOrder h.client hrisk hloss bid .BUY clip
  obtain ⟨hsell, hask⟩ := hbuy.moveOrder h.client hrisk hloss ask .SELL clip
  unfold StrategyEngine.moveOrders TradeEngine.moveOrders
  by_cases ht : t < ME_MAX_TICKERS
  · simp only [if_pos ht]
    refine Alike.go { h with orders := hsell } (shown_congr ?_)
    rw [List.map_append, List.map_append, hbid, hask]
  · simp only [if_neg ht]
    exact Alike.stop _

/-- The market maker decides alike as soon as the fair price is the same, and
reads it only where both prices are there. -/
theorem Agrees.makerOnOrderBookUpdate (h : Agrees t e₁ e₂)
    (hprice : bbo.Valid → e₁.feature_engine_.mkt_price_ = e₂.feature_engine_.mkt_price_) :
    AlikeAt t (e₁.makerOnOrderBookUpdate t bbo) (e₂.makerOnOrderBookUpdate t bbo) := by
  unfold StrategyEngine.makerOnOrderBookUpdate
  by_cases hv : bbo.Valid
  · simp only [hprice hv, h.cfg]
    split
    · exact h.moveOrders _ _ _
    · exact Alike.go h rfl
  · simp only [hv, false_and, if_false]
    exact Alike.go h rfl

/-- The same for the liquidity taker and the ratio of the trade. -/
theorem Agrees.takerOnTradeUpdate (h : Agrees u.ticker_id_ e₁ e₂)
    (hratio : bbo.Valid →
      e₁.feature_engine_.agg_trade_qty_ratio_ = e₂.feature_engine_.agg_trade_qty_ratio_) :
    AlikeAt u.ticker_id_ (e₁.takerOnTradeUpdate u bbo) (e₂.takerOnTradeUpdate u bbo) := by
  unfold StrategyEngine.takerOnTradeUpdate
  by_cases hv : bbo.Valid
  · simp only [hratio hv, h.cfg]
    split
    · split
      · split
        · exact h.moveOrders _ _ _
        · exact h.moveOrders _ _ _
      · exact Alike.go h rfl
    · exact Alike.go h rfl
  · simp only [hv, false_and, if_false]
    exact Alike.go h rfl

theorem Agrees.onOrderBookUpdate (h : Agrees t e₁ e₂) (bbo : BBO) :
    AlikeAt t (e₁.onOrderBookUpdate t bbo) (e₂.onOrderBookUpdate t bbo) := by
  unfold StrategyEngine.onOrderBookUpdate
  -- the position keeper and the feature engine come first
  generalize hg₁ : ({ e₁ with ticker_pnl_ := _, feature_engine_ := _ } : StrategyEngine F) = g₁
  generalize hg₂ : ({ e₂ with ticker_pnl_ := _, feature_engine_ := _ } : StrategyEngine F) = g₂
  have hg : Agrees t g₁ g₂ := by
    subst hg₁ hg₂
    exact { h with pnl := by simp only [Function.update_self, h.pnl, h.position] }
  have hprice : bbo.Valid → g₁.feature_engine_.mkt_price_ = g₂.feature_engine_.mkt_price_ := by
    subst hg₁ hg₂
    exact FeatureEngine.mkt_price_recomputed _ _
  unfold StrategyEngine.algoOnOrderBookUpdate
  rw [hg.algo]
  split
  · exact hg.makerOnOrderBookUpdate hprice
  · exact Alike.go hg rfl

theorem Agrees.onTradeUpdate (h : Agrees u.ticker_id_ e₁ e₂) (bbo : BBO) :
    AlikeAt u.ticker_id_ (e₁.onTradeUpdate u bbo) (e₂.onTradeUpdate u bbo) := by
  unfold StrategyEngine.onTradeUpdate
  generalize hg₁ : ({ e₁ with feature_engine_ := _ } : StrategyEngine F) = g₁
  generalize hg₂ : ({ e₂ with feature_engine_ := _ } : StrategyEngine F) = g₂
  have hg : Agrees u.ticker_id_ g₁ g₂ := by
    subst hg₁ hg₂
    exact { h with }
  have hratio : bbo.Valid →
      g₁.feature_engine_.agg_trade_qty_ratio_ = g₂.feature_engine_.agg_trade_qty_ratio_ := by
    subst hg₁ hg₂
    exact FeatureEngine.agg_trade_qty_ratio_recomputed _ _ u
  unfold StrategyEngine.algoOnTradeUpdate
  rw [hg.algo]
  split
  · exact Alike.go hg rfl
  · exact hg.takerOnTradeUpdate hratio

theorem Agrees.processMarketUpdate (h : Agrees u.ticker_id_ e₁ e₂) :
    AlikeAt u.ticker_id_ (e₁.processMarketUpdate u) (e₂.processMarketUpdate u) := by
  unfold StrategyEngine.processMarketUpdate MarketOrderBookHashMap.processMarketUpdate
  rw [h.book]
  cases ASSERT (decide (u.ticker_id_ < ME_MAX_TICKERS))
      ("Unknown ticker-id on update:" ++ u.toString) with
  | error f => exact Alike.stop f
  | ok _ =>
    cases (e₂.ticker_order_book_ u.ticker_id_).onMarketUpdate u with
    | error f => exact Alike.stop f
    | ok s =>
      simp only [exec_ok_bind, exec_pure, Function.update_self]
      have hbooks : Agrees u.ticker_id_
          { e₁ with
            ticker_order_book_ := Function.update e₁.ticker_order_book_ u.ticker_id_ s }
          { e₂ with
            ticker_order_book_ := Function.update e₂.ticker_order_book_ u.ticker_id_ s } :=
        { h with book := by simp only [Function.update_self] }
      split
      · exact hbooks.onTradeUpdate s.bbo_
      · exact hbooks.onOrderBookUpdate s.bbo_

theorem Agrees.onOrderUpdate (h : Agrees r₁.ticker_id_ e₁ e₂) (hr : r₁.anonymous = r₂.anonymous) :
    AlikeAt r₁.ticker_id_ (e₁.onInput (.response r₁)) (e₂.onInput (.response r₂)) := by
  have horders := h.orders.onOrderUpdate hr
  obtain ⟨type, client, ticker, oid₁, moid, side, price, exec, leaves⟩ := r₁
  obtain ⟨type', client', ticker', oid₂, moid', side', price', exec', leaves'⟩ := r₂
  simp only [MEClientResponse.anonymous, MEClientResponse.mk.injEq, true_and] at hr
  obtain ⟨rfl, rfl, rfl, rfl, rfl, rfl, rfl, rfl⟩ := hr
  simp only [StrategyEngine.onInput, StrategyEngine.onOrderUpdate, TradeEngine.onOrderUpdate]
  split
  · refine Alike.go { h with position := ?_, pnl := ?_, orders := horders } rfl
    · show (if type = .FILLED then _ else _ : Nat → PositionInfo) ticker =
        (if type = .FILLED then _ else _ : Nat → PositionInfo) ticker
      split
      · simp only [Function.update_self, h.position]
        rfl
      · exact h.position
    · show (if type = .FILLED then _ else _ : Nat → PositionPnL F) ticker =
        (if type = .FILLED then _ else _ : Nat → PositionPnL F) ticker
      split
      · simp only [Function.update_self, h.position, h.pnl]
        rfl
      · exact h.pnl
  · exact Alike.stop _

/-- **An engine unwinds at each of its tickers.** -/
theorem unwinds (ht : t < ME_MAX_TICKERS) :
    Unwinds (S := StrategyEngine F) onInput (fun e => e.order_manager_.OwnTickers) (Agrees t)
      (Input.isFor t) Input.anonymous (shown t) where
  inv := fun hown h => (Confined.onInput h).own hown
  skip := fun hown hagree hmine h =>
    (Confined.onInput h).skip hown (fun heq => of_decide_eq_false hmine heq.symm) ht hagree
  both := by
    intro e₁ e₂ i₁ i₂ h hmine₁ hmine₂ hnorm
    have ht₁ : i₁.ticker = t := of_decide_eq_true hmine₁
    subst ht₁
    cases i₁ with
    | market u₁ =>
      cases i₂ with
      | market u₂ =>
        obtain rfl := Input.market.inj hnorm
        exact h.processMarketUpdate
      | response r₂ => exact absurd hnorm (by simp [Input.anonymous])
    | response r₁ =>
      cases i₂ with
      | market u₂ => exact absurd hnorm (by simp [Input.anonymous])
      | response r₂ => exact h.onOrderUpdate (Input.response.inj hnorm)

/-! ### Whole histories -/

/-- What a history makes an engine send for `t`, order ids left out. -/
def sentFor (e : StrategyEngine F) (t : Nat) (h : List Input) : List MEClientRequest :=
  (run onInput e h).1.filterMap (shown t)

/-- No input of another ticker was the end of the process. -/
def Undisturbed (e : StrategyEngine F) (t : Nat) (h : List Input) : Prop :=
  Unwinds.NotCut (Input.isFor t) (run onInput e h)

/-- **Tickers do not influence each other.** Two histories with the same inputs
for `t`, up to client order ids, make an engine send the same requests for `t`,
up to order ids. An input of another ticker that ends the process can only cut
the requests short. -/
theorem tickers_independent (client_id : Nat) (algo_type : AlgoType)
    (ticker_cfg : Nat → TradeEngineCfg F) (ht : t < ME_MAX_TICKERS) (h₁ h₂ : List Input)
    (hsame : (h₁.filter (Input.isFor t)).map Input.anonymous =
      (h₂.filter (Input.isFor t)).map Input.anonymous) :
    let e := init client_id algo_type ticker_cfg
    (sentFor e t h₁ <+: sentFor e t h₂ ∨ sentFor e t h₂ <+: sentFor e t h₁) ∧
      (Undisturbed e t h₁ → Undisturbed e t h₂ → sentFor e t h₁ = sentFor e t h₂) := by
  intro e
  have hown : e.order_manager_.OwnTickers := OrderManager.init_ownTickers
  exact (unwinds ht).noninterference hown hown (Agrees.refl t e) (Agrees.refl t e)
    (Agrees.refl t e) hsame

/-- A resting order shows up in the feed. -/
def quote (ticker_id order_id : Nat) (side : Side) (price : Int) : Input :=
  .market
    { type_ := .ADD, ticker_id_ := ticker_id, order_id_ := order_id, side_ := side
      price_ := price, qty_ := 5, priority_ := 1 }

/-- A market maker that sees two quotes of ticker 0, alone or between quotes of
ticker 1, quotes ticker 0 in the same way. -/
theorem tickers_independent_quotes :
    let e := init 3 .MAKER fun _ => (⟨10, 1, ⟨100, 100⟩, -1000⟩ : TradeEngineCfg Rat)
    let alone := [quote 0 1 .BUY 100, quote 0 2 .SELL 104]
    let mixed := [quote 1 1 .BUY 10, quote 0 1 .BUY 100, quote 1 2 .SELL 20, quote 0 2 .SELL 104]
    sentFor e 0 alone = sentFor e 0 mixed ∧ (sentFor e 0 alone).length = 2 := by
  intro e alone mixed
  have halone : (run onInput e alone).2 = none := by decide +kernel
  have hmixed : (run onInput e mixed).2 = none := by decide +kernel
  refine ⟨(tickers_independent 3 .MAKER _ (by decide) alone mixed (by decide)).2 ?_ ?_,
    by decide +kernel⟩
  · intro i f hcut
    rw [halone] at hcut
    exact absurd hcut (by simp)
  · intro i f hcut
    rw [hmixed] at hcut
    exact absurd hcut (by simp)

/-- **Another ticker can end the process.** With the same two quotes of ticker 0 still
to come, an update of a ticker that is not there fails an `ASSERT`, and a `MODIFY` of an
order of ticker 1 that is not there writes through a null pointer. The engine that gets
one of them first sends nothing. -/
theorem tickers_cut_short :
    let e := init 3 .MAKER fun _ => (⟨10, 1, ⟨100, 100⟩, -1000⟩ : TradeEngineCfg Rat)
    let alone := [quote 0 1 .BUY 100, quote 0 2 .SELL 104]
    let noTicker := quote ME_MAX_TICKERS 1 .BUY 10
    let noOrder : Input :=
      .market { type_ := .MODIFY, ticker_id_ := 1, order_id_ := 7, side_ := .BUY, price_ := 10 }
    (sentFor e 0 alone).length = 2 ∧
    ((alone.filter (Input.isFor 0)).map Input.anonymous =
        ((noTicker :: alone).filter (Input.isFor 0)).map Input.anonymous ∧
      sentFor e 0 (noTicker :: alone) = [] ∧
      ∃ msg, (run onInput e (noTicker :: alone)).2 = some (noTicker, .assertion msg)) ∧
    (alone.filter (Input.isFor 0)).map Input.anonymous =
        ((noOrder :: alone).filter (Input.isFor 0)).map Input.anonymous ∧
      sentFor e 0 (noOrder :: alone) = [] ∧
      (run onInput e (noOrder :: alone)).2 = some (noOrder, .nullDeref) := by
  refine ⟨by decide +kernel, ⟨by decide, rfl, _, rfl⟩, by decide, ?_, ?_⟩
  · decide +kernel
  · decide +kernel

end StrategyEngine

end LowLatency
