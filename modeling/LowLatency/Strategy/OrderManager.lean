import LowLatency.Common.Types

/-!
# `OrderManager`, `RiskManager`, `PositionKeeper`: the trading client's orders

`src/trading/strategy/{om_order,order_manager,risk_manager,position_keeper}.h`
and the parts of `trade_engine.cpp` that drive them. A client keeps one order
per ticker and side. A strategy only ever calls `moveOrders`; a response only
ever reaches `TradeEngine::onOrderUpdate`. A call returns the requests it sent
through `sendClientRequest`, in order.

The profit-and-loss fields of `PositionInfo` are doubles, and nothing here reads
them but the last of the risk checks, `total_pnl_ < max_loss_`. Its outcome is
an argument, `loss`, of everything that runs the check.

`int32_t` sums are reduced to 32 bits. Where the source's sum would overflow,
which is undefined for the signed sum of the risk check and for the absolute
value of it, the value here is the wrapped one.
-/

namespace LowLatency

/-- An index which can be used to index into a `std::array`: `SELL` is -1, so
it comes first. -/
def sideToIndex : Side → Nat
  | .SELL => 0
  | .INVALID => 1
  | .BUY => 2
  | .MAX => 3

/-- Convert `BUY` to 1 and `SELL` to -1. -/
def sideToValue : Side → Int
  | .SELL => -1
  | .INVALID => 0
  | .BUY => 1
  | .MAX => 2

theorem sideToIndex_inj {s s' : Side} (h : sideToIndex s = sideToIndex s') : s = s' := by
  cases s <;> cases s' <;> first | rfl | exact absurd h (by decide)

/-- Reduction to `int32_t`. -/
def int32 (x : Int) : Int := Int.bmod x (2 ^ 32)

theorem int32_eq {x : Int} (h₁ : -(2 ^ 31) ≤ x) (h₂ : x < 2 ^ 31) : int32 x = x := by
  unfold int32
  exact Int.bmod_eq_of_le (by omega) (by omega)

/-- `std::abs` of an `int32_t`. There is no `int32_t` for the absolute value of
`-2 ^ 31`; it is reduced like the sums. -/
def abs32 (x : Int) : Int := int32 x.natAbs

/-! ## Positions and risk -/

structure PositionInfo where
  position_ : Int := 0
  volume_ : Nat := 0
deriving DecidableEq, Repr

/-- Process an execution and update the position and volume. -/
def PositionInfo.addFill (p : PositionInfo) (r : MEClientResponse) : PositionInfo where
  position_ := int32 (p.position_ + r.exec_qty_ * sideToValue r.side_)
  volume_ := wrap32 (p.volume_ + r.exec_qty_)

inductive RiskCheckResult
  | INVALID
  | ORDER_TOO_LARGE
  | POSITION_TOO_LARGE
  | LOSS_TOO_LARGE
  | ALLOWED
deriving DecidableEq, Repr

structure RiskCfg where
  max_order_size_ : Nat := 0
  max_position_ : Nat := 0
deriving DecidableEq, Repr

structure RiskInfo where
  position_info_ : PositionInfo
  risk_cfg_ : RiskCfg

/-- Check risk to see if we are allowed to send an order of the specified
quantity on the specified side. It looks at this order alone. -/
def RiskInfo.checkPreTradeRisk (i : RiskInfo) (loss : Bool) (side : Side) (qty : Nat) :
    RiskCheckResult :=
  if qty > i.risk_cfg_.max_order_size_ then .ORDER_TOO_LARGE
  else if abs32 (int32 (i.position_info_.position_ + sideToValue side * int32 qty))
      > int32 i.risk_cfg_.max_position_ then .POSITION_TOO_LARGE
  else if loss then .LOSS_TOO_LARGE
  else .ALLOWED

/-! ## Orders -/

inductive OMOrderState
  | INVALID
  | PENDING_NEW
  | LIVE
  | PENDING_CANCEL
  | DEAD
deriving DecidableEq, Repr

structure OMOrder where
  ticker_id_ : Nat := TickerId_INVALID
  order_id_ : Nat := OrderId_INVALID
  side_ : Side := .INVALID
  price_ : Int := Price_INVALID
  qty_ : Nat := Qty_INVALID
  order_state_ : OMOrderState := .INVALID
deriving DecidableEq, Repr

structure OrderManager where
  ticker_side_order_ : Nat → Nat → OMOrder
  next_order_id_ : Nat

namespace OrderManager

def init : OrderManager := ⟨fun _ _ => {}, 1⟩

/-- `ticker_side_order_.at(ticker_id).at(sideToIndex(side))`, `ticker_id` being
in range. -/
def order (m : OrderManager) (ticker_id : Nat) (side : Side) : OMOrder :=
  m.ticker_side_order_ ticker_id (sideToIndex side)

def setOrder (m : OrderManager) (ticker_id : Nat) (side : Side) (order : OMOrder) :
    OrderManager :=
  { m with
    ticker_side_order_ := Function.update m.ticker_side_order_ ticker_id
      (Function.update (m.ticker_side_order_ ticker_id) (sideToIndex side) order) }

/-- Process an order update from a client response and update the state of the
orders being managed. The order is found by ticker and side alone. -/
def onOrderUpdate (m : OrderManager) (r : MEClientResponse) : OrderManager :=
  let order := m.order r.ticker_id_ r.side_
  match r.type_ with
  | .ACCEPTED => m.setOrder r.ticker_id_ r.side_ { order with order_state_ := .LIVE }
  | .CANCELED => m.setOrder r.ticker_id_ r.side_ { order with order_state_ := .DEAD }
  | .FILLED => m.setOrder r.ticker_id_ r.side_
      { order with
        qty_ := r.leaves_qty_
        order_state_ := if r.leaves_qty_ = 0 then .DEAD else order.order_state_ }
  | .CANCEL_REJECTED | .INVALID => m

/-- Send a new order with the specified attributes. -/
def newOrder (m : OrderManager) (client_id ticker_id : Nat) (price : Int) (side : Side)
    (qty : Nat) : OrderManager × List MEClientRequest :=
  ({ m.setOrder ticker_id side ⟨ticker_id, m.next_order_id_, side, price, qty, .PENDING_NEW⟩ with
      next_order_id_ := wrap64 (m.next_order_id_ + 1) },
    [⟨.NEW, client_id, ticker_id, m.next_order_id_, side, price, qty⟩])

/-- Send a cancel for the order of a ticker and side. -/
def cancelOrder (m : OrderManager) (client_id ticker_id : Nat) (side : Side) :
    OrderManager × List MEClientRequest :=
  let order := m.order ticker_id side
  (m.setOrder ticker_id side { order with order_state_ := .PENDING_CANCEL },
    [⟨.CANCEL, client_id, order.ticker_id_, order.order_id_, order.side_, order.price_,
      order.qty_⟩])

/-- Move a single order on the specified side so that it has the specified price
and quantity. -/
def moveOrder (m : OrderManager) (client_id : Nat) (risk : RiskInfo) (loss : Bool)
    (ticker_id : Nat) (price : Int) (side : Side) (qty : Nat) :
    OrderManager × List MEClientRequest :=
  match (m.order ticker_id side).order_state_ with
  | .LIVE =>
    if (m.order ticker_id side).price_ ≠ price then m.cancelOrder client_id ticker_id side
    else (m, [])
  | .INVALID | .DEAD =>
    if price ≠ Price_INVALID then
      if risk.checkPreTradeRisk loss side qty = .ALLOWED then
        m.newOrder client_id ticker_id price side qty
      else (m, [])
    else (m, [])
  | .PENDING_NEW | .PENDING_CANCEL => (m, [])

/-- **What `moveOrder` can do**: nothing, cancel a live order, or send a new one
that passed the risk check. -/
theorem moveOrder_cases (m : OrderManager) (c : Nat) (risk : RiskInfo) (loss : Bool) (t : Nat)
    (price : Int) (side : Side) (qty : Nat) :
    m.moveOrder c risk loss t price side qty = (m, []) ∨
    ((m.order t side).order_state_ = .LIVE ∧
      m.moveOrder c risk loss t price side qty = m.cancelOrder c t side) ∨
    (((m.order t side).order_state_ = .INVALID ∨ (m.order t side).order_state_ = .DEAD) ∧
      risk.checkPreTradeRisk loss side qty = .ALLOWED ∧
      m.moveOrder c risk loss t price side qty = m.newOrder c t price side qty) := by
  -- the branch that `INVALID` and `DEAD` share
  have hsend : ∀ x : OrderManager × List MEClientRequest, x =
      (if price ≠ Price_INVALID then
        if risk.checkPreTradeRisk loss side qty = .ALLOWED then m.newOrder c t price side qty
        else (m, [])
      else (m, [])) → x = (m, []) ∨
        (risk.checkPreTradeRisk loss side qty = .ALLOWED ∧ x = m.newOrder c t price side qty) := by
    intro x hx
    split at hx
    · split at hx
      next hallowed => exact Or.inr ⟨hallowed, hx⟩
      next => exact Or.inl hx
    · exact Or.inl hx
  unfold moveOrder
  cases hst : (m.order t side).order_state_ with
  | LIVE =>
    -- a live order at another price is cancelled, at its own price left alone
    show (if (m.order t side).price_ ≠ price then _ else _) = _ ∨ _
    split
    · exact Or.inr (Or.inl ⟨rfl, rfl⟩)
    · exact Or.inl rfl
  | INVALID =>
    rcases hsend _ rfl with he | ⟨hallowed, he⟩
    · exact Or.inl he
    · exact Or.inr (Or.inr ⟨Or.inl rfl, hallowed, he⟩)
  | DEAD =>
    rcases hsend _ rfl with he | ⟨hallowed, he⟩
    · exact Or.inl he
    · exact Or.inr (Or.inr ⟨Or.inr rfl, hallowed, he⟩)
  | PENDING_NEW => exact Or.inl rfl
  | PENDING_CANCEL => exact Or.inl rfl

end OrderManager

/-! ## The engine around them -/

structure TradeEngine where
  client_id_ : Nat
  risk_cfg_ : Nat → RiskCfg
  order_manager_ : OrderManager
  ticker_position_ : Nat → PositionInfo

namespace TradeEngine

def init (client_id : Nat) (risk_cfg : Nat → RiskCfg) : TradeEngine :=
  ⟨client_id, risk_cfg, OrderManager.init, fun _ => {}⟩

/-- `RiskManager`'s view of a ticker. -/
def risk (e : TradeEngine) (ticker_id : Nat) : RiskInfo :=
  ⟨e.ticker_position_ ticker_id, e.risk_cfg_ ticker_id⟩

/-- Have orders of quantity `clip` at the specified buy and sell prices: the buy
order is moved first. -/
def moveOrders (e : TradeEngine) (loss : Bool) (ticker_id : Nat) (bid_price ask_price : Int)
    (clip : Nat) : Exec (TradeEngine × List MEClientRequest) :=
  if ticker_id < ME_MAX_TICKERS then
    let (m, bid) := e.order_manager_.moveOrder e.client_id_ (e.risk ticker_id) loss ticker_id
      bid_price .BUY clip
    let (m, ask) := m.moveOrder e.client_id_ (e.risk ticker_id) loss ticker_id ask_price .SELL clip
    .ok ({ e with order_manager_ := m }, bid ++ ask)
  else .error .outOfRange

/-- Process client responses: update the position keeper and inform the trading
algorithm, which hands the response to its order manager. -/
def onOrderUpdate (e : TradeEngine) (r : MEClientResponse) : Exec TradeEngine :=
  if r.ticker_id_ < ME_MAX_TICKERS then
    .ok { e with
      ticker_position_ :=
        if r.type_ = .FILLED then
          Function.update e.ticker_position_ r.ticker_id_
            ((e.ticker_position_ r.ticker_id_).addFill r)
        else e.ticker_position_
      order_manager_ := e.order_manager_.onOrderUpdate r }
  else .error .outOfRange

end TradeEngine

end LowLatency
