import LowLatency.Strategy.MarketOrderBook
import LowLatency.Strategy.OrderManager
import Mathlib.Data.Rat.Defs

/-!
# `TradeEngine` with its strategies

`src/trading/strategy/{feature_engine,market_maker,liquidity_taker,position_keeper}.h`
and `trade_engine.cpp`: what happens to a market update and to a client response
once the engine has read it from its queue. A `StrategyEngine` is a
`TradeEngine` (positions, orders and limits) with the parts that decide what to
do: the books of all tickers, the profit and loss of each position, one
`FeatureEngine` for all tickers, and the strategy. A call returns the requests
it sent, in order.

Doubles are a type `F` with operations nothing is known about (`Double`). An
integer enters an operation through its value, so one conversion serves
`int32_t`, `uint32_t` and `int64_t`. Integer subexpressions are computed in
their own type first, as in the source.

Only a `MAKER` or `TAKER` engine has an algorithm of its own. The callbacks of
any other `AlgoType` write a line to the log. `PositionInfo` starts out with
`open_vwap_` zero. Its `bbo_` is only printed.
-/

namespace LowLatency

/-- Reduction to `int64_t`. -/
def int64 (x : Int) : Int := Int.bmod x (2 ^ 64)

/-- The operations of `double` that the strategies use. -/
class Double (F : Type) extends Add F, Sub F, Mul F, Div F where
  ofInt : Int → F
  half : F
  Feature_INVALID : F
  lt : F → F → Bool
  ge : F → F → Bool
  ne : F → F → Bool

/-- Exact arithmetic, for the numbers that doubles represent. The invalid feature is a
NaN, and everything compares unequal to it. -/
instance ratDouble : Double ℚ where
  ofInt := fun x => (x : ℚ)
  half := 1 / 2
  Feature_INVALID := 0
  lt := fun a b => decide (a < b)
  ge := fun a b => decide (b ≤ a)
  ne := fun _ _ => true

open Double

/-- Both sides of the book have a price. -/
def BBO.Valid (bbo : BBO) : Prop :=
  bbo.bid_price_ ≠ Price_INVALID ∧ bbo.ask_price_ ≠ Price_INVALID

instance (bbo : BBO) : Decidable bbo.Valid := inferInstanceAs (Decidable (_ ∧ _))

variable {F : Type} [Double F]

/-! ## Features -/

structure FeatureEngine (F : Type) where
  mkt_price_ : F
  agg_trade_qty_ratio_ : F

namespace FeatureEngine

def init : FeatureEngine F := ⟨Feature_INVALID, Feature_INVALID⟩

/-- Process a change in order book and in this case compute the fair market
price. -/
def onOrderBookUpdate (f : FeatureEngine F) (bbo : BBO) : FeatureEngine F :=
  if bbo.Valid then
    { f with mkt_price_ :=
        ofInt (int64 (bbo.bid_price_ * bbo.ask_qty_ + bbo.ask_price_ * bbo.bid_qty_)) /
          ofInt (wrap32 (bbo.bid_qty_ + bbo.ask_qty_)) }
  else f

/-- Process a trade event and in this case compute the feature to capture
aggressive trade quantity ratio against the BBO quantity. -/
def onTradeUpdate (f : FeatureEngine F) (u : MEMarketUpdate) (bbo : BBO) : FeatureEngine F :=
  if bbo.Valid then
    { f with agg_trade_qty_ratio_ :=
        ofInt u.qty_ / ofInt (if u.side_ = .BUY then bbo.ask_qty_ else bbo.bid_qty_) }
  else f

end FeatureEngine

/-! ## Profit and loss -/

/-- The fields of `PositionInfo` that are doubles. -/
structure PositionPnL (F : Type) where
  real_pnl_ : F
  unreal_pnl_ : F
  total_pnl_ : F
  open_vwap_ : Nat → F

namespace PositionPnL

def init : PositionPnL F := ⟨ofInt 0, ofInt 0, ofInt 0, fun _ => ofInt 0⟩

/-- What an open position is worth at `price`, against what it was opened at. -/
def unrealPnl (open_vwap : Nat → F) (position : Int) (price : F) : F :=
  if position > 0 then
    (price - open_vwap (sideToIndex .BUY) / ofInt position.natAbs) * ofInt position.natAbs
  else
    (open_vwap (sideToIndex .SELL) / ofInt position.natAbs - price) * ofInt position.natAbs

/-- The volume-weighted prices after an execution that moved the position from
`old_position` to `position`, and the profit it realised. -/
def fillVwap (p : PositionPnL F) (old_position position : Int) (r : MEClientResponse) :
    (Nat → F) × F :=
  let side_index := sideToIndex r.side_
  let opp_side_index := sideToIndex (if r.side_ = .BUY then .SELL else .BUY)
  if int32 (old_position * sideToValue r.side_) ≥ 0 then -- opened / increased position
    (Function.update p.open_vwap_ side_index
      (p.open_vwap_ side_index + ofInt (int64 (r.price_ * r.exec_qty_))), p.real_pnl_)
  else -- decreased position
    let opp_side_vwap := p.open_vwap_ opp_side_index / ofInt old_position.natAbs
    let open_vwap := Function.update p.open_vwap_ opp_side_index
      (opp_side_vwap * ofInt position.natAbs)
    let real_pnl := p.real_pnl_ + ofInt (min (int32 r.exec_qty_) old_position.natAbs) *
      (opp_side_vwap - ofInt r.price_) * ofInt (sideToValue r.side_)
    if int32 (position * old_position) < 0 then -- flipped position to opposite sign
      (Function.update (Function.update open_vwap side_index
        (ofInt (int64 (r.price_ * position.natAbs)))) opp_side_index (ofInt 0), real_pnl)
    else (open_vwap, real_pnl)

/-- Process an execution. `old_position` and `position` are `position_` before
and after it. -/
def addFill (p : PositionPnL F) (old_position position : Int) (r : MEClientResponse) :
    PositionPnL F :=
  let (open_vwap, real_pnl) := p.fillVwap old_position position r
  if position = 0 then -- flat
    { real_pnl_ := real_pnl
      unreal_pnl_ := ofInt 0
      total_pnl_ := ofInt 0 + real_pnl
      open_vwap_ := Function.update (Function.update open_vwap (sideToIndex .SELL) (ofInt 0))
        (sideToIndex .BUY) (ofInt 0) }
  else
    let unreal_pnl := unrealPnl open_vwap position (ofInt r.price_)
    { real_pnl_ := real_pnl
      unreal_pnl_ := unreal_pnl
      total_pnl_ := unreal_pnl + real_pnl
      open_vwap_ := open_vwap }

/-- Process a change in top-of-book prices (BBO), and update unrealized pnl if
there is an open position. -/
def updateBBO (p : PositionPnL F) (position : Int) (bbo : BBO) : PositionPnL F :=
  if position ≠ 0 ∧ bbo.Valid then
    let mid_price := ofInt (int64 (bbo.bid_price_ + bbo.ask_price_)) * half
    let unreal_pnl := unrealPnl p.open_vwap_ position mid_price
    { p with
      unreal_pnl_ := unreal_pnl
      total_pnl_ := unreal_pnl + p.real_pnl_ }
  else p

end PositionPnL

/-! ## The engine -/

inductive AlgoType
  | MAKER
  | TAKER
deriving DecidableEq, Repr

/-- `max_loss_` is part of the source's `RiskCfg`. -/
structure TradeEngineCfg (F : Type) where
  clip_ : Nat
  threshold_ : F
  risk_cfg_ : RiskCfg
  max_loss_ : F

structure StrategyEngine (F : Type) extends TradeEngine where
  algo_type_ : AlgoType
  ticker_cfg_ : Nat → TradeEngineCfg F
  ticker_order_book_ : MarketOrderBookHashMap
  feature_engine_ : FeatureEngine F
  ticker_pnl_ : Nat → PositionPnL F

namespace StrategyEngine

def init (client_id : Nat) (algo_type : AlgoType) (ticker_cfg : Nat → TradeEngineCfg F) :
    StrategyEngine F where
  toTradeEngine := TradeEngine.init client_id fun t => (ticker_cfg t).risk_cfg_
  algo_type_ := algo_type
  ticker_cfg_ := ticker_cfg
  ticker_order_book_ := MarketOrderBookHashMap.init
  feature_engine_ := FeatureEngine.init
  ticker_pnl_ := fun _ => PositionPnL.init

/-- `OrderManager::moveOrders`, with the check of the loss limit made. -/
def moveOrders (e : StrategyEngine F) (ticker_id : Nat) (bid_price ask_price : Int) (clip : Nat) :
    Exec (StrategyEngine F × List MEClientRequest) := do
  let loss := lt (e.ticker_pnl_ ticker_id).total_pnl_ (e.ticker_cfg_ ticker_id).max_loss_
  let (te, reqs) ← e.toTradeEngine.moveOrders loss ticker_id bid_price ask_price clip
  return ({ e with toTradeEngine := te }, reqs)

/-- `MarketMaker::onOrderBookUpdate`: fetch the fair market price from the
feature engine, check against the trading threshold and modify the passive
orders. -/
def makerOnOrderBookUpdate (e : StrategyEngine F) (ticker_id : Nat) (bbo : BBO) :
    Exec (StrategyEngine F × List MEClientRequest) :=
  let fair_price := e.feature_engine_.mkt_price_
  if bbo.Valid ∧ ne fair_price Feature_INVALID then
    let clip := (e.ticker_cfg_ ticker_id).clip_
    let threshold := (e.ticker_cfg_ ticker_id).threshold_
    let bid_price := int64 (bbo.bid_price_ -
      if ge (fair_price - ofInt bbo.bid_price_) threshold then 0 else 1)
    let ask_price := int64 (bbo.ask_price_ +
      if ge (ofInt bbo.ask_price_ - fair_price) threshold then 0 else 1)
    e.moveOrders ticker_id bid_price ask_price clip
  else .ok (e, [])

/-- `LiquidityTaker::onTradeUpdate`: fetch the aggressive trade ratio from the
feature engine, check against the trading threshold and send aggressive
orders. -/
def takerOnTradeUpdate (e : StrategyEngine F) (u : MEMarketUpdate) (bbo : BBO) :
    Exec (StrategyEngine F × List MEClientRequest) :=
  let agg_qty_ratio := e.feature_engine_.agg_trade_qty_ratio_
  if bbo.Valid ∧ ne agg_qty_ratio Feature_INVALID then
    let clip := (e.ticker_cfg_ u.ticker_id_).clip_
    let threshold := (e.ticker_cfg_ u.ticker_id_).threshold_
    if ge agg_qty_ratio threshold then
      if u.side_ = .BUY then e.moveOrders u.ticker_id_ bbo.ask_price_ Price_INVALID clip
      else e.moveOrders u.ticker_id_ Price_INVALID bbo.bid_price_ clip
    else .ok (e, [])
  else .ok (e, [])

def algoOnOrderBookUpdate (e : StrategyEngine F) (ticker_id : Nat) (bbo : BBO) :
    Exec (StrategyEngine F × List MEClientRequest) :=
  match e.algo_type_ with
  | .MAKER => e.makerOnOrderBookUpdate ticker_id bbo
  | .TAKER => .ok (e, [])

def algoOnTradeUpdate (e : StrategyEngine F) (u : MEMarketUpdate) (bbo : BBO) :
    Exec (StrategyEngine F × List MEClientRequest) :=
  match e.algo_type_ with
  | .MAKER => .ok (e, [])
  | .TAKER => e.takerOnTradeUpdate u bbo

/-- Process changes to the order book: updates the position keeper, feature
engine and informs the trading algorithm about the update. -/
def onOrderBookUpdate (e : StrategyEngine F) (ticker_id : Nat) (bbo : BBO) :
    Exec (StrategyEngine F × List MEClientRequest) :=
  { e with
    ticker_pnl_ := Function.update e.ticker_pnl_ ticker_id
      ((e.ticker_pnl_ ticker_id).updateBBO (e.ticker_position_ ticker_id).position_ bbo)
    feature_engine_ := e.feature_engine_.onOrderBookUpdate bbo
    : StrategyEngine F }.algoOnOrderBookUpdate ticker_id bbo

/-- Process trade events: updates the feature engine and informs the trading
algorithm about the trade event. -/
def onTradeUpdate (e : StrategyEngine F) (u : MEMarketUpdate) (bbo : BBO) :
    Exec (StrategyEngine F × List MEClientRequest) :=
  { e with feature_engine_ := e.feature_engine_.onTradeUpdate u bbo
    : StrategyEngine F }.algoOnTradeUpdate u bbo

/-- Process one already-decoded market update synchronously. -/
def processMarketUpdate (e : StrategyEngine F) (u : MEMarketUpdate) :
    Exec (StrategyEngine F × List MEClientRequest) := do
  let books ← e.ticker_order_book_.processMarketUpdate u
  let e := { e with ticker_order_book_ := books }
  let bbo := (books u.ticker_id_).bbo_
  if u.type_ = .TRADE then e.onTradeUpdate u bbo
  else e.onOrderBookUpdate u.ticker_id_ bbo

/-- Process client responses: updates the position keeper and informs the
trading algorithm about the response. -/
def onOrderUpdate (e : StrategyEngine F) (r : MEClientResponse) : Exec (StrategyEngine F) := do
  let te ← e.toTradeEngine.onOrderUpdate r
  return { e with
    toTradeEngine := te
    ticker_pnl_ :=
      if r.type_ = .FILLED then
        Function.update e.ticker_pnl_ r.ticker_id_
          ((e.ticker_pnl_ r.ticker_id_).addFill (e.ticker_position_ r.ticker_id_).position_
            (te.ticker_position_ r.ticker_id_).position_ r)
      else e.ticker_pnl_ }

/-- What `run` takes from its two queues. -/
inductive Input
  | market (u : MEMarketUpdate)
  | response (r : MEClientResponse)
deriving DecidableEq, Repr

/-- One turn of either loop of `run`. -/
def onInput (e : StrategyEngine F) : Input → Exec (StrategyEngine F × List MEClientRequest)
  | .market u => e.processMarketUpdate u
  | .response r => do
    let e ← e.onOrderUpdate r
    return (e, [])

end StrategyEngine

end LowLatency
