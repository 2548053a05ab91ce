import LowLatency.Book.Ladder
import LowLatency.MarketData.Updates

/-!
# `MarketOrderBook`: the trading client's replica

`src/trading/strategy/market_order_book.{h,cpp}`. The containers are those of
the exchange, keyed by the market order id (`oid_to_order_`), with a cached
best bid and offer `bbo_` on top.

`trade_engine_` is the owner that `TradeEngine`'s constructor sets before any
update is delivered. Its two callbacks read the book and never write to it, so
they are not part of this file.

Three loops end only if the pointers lead back to where they started: the sum
over a level in `updateBBO` and the two walks of `CLEAR`. The first visits
blocks of the order pool, so after `size` steps it is going around in circles;
each step of the others frees a block, so they cannot take more. A null
`next_entry_` ends a walk of `CLEAR` in `deallocate`, whose first `ASSERT` it
fails.
-/

namespace LowLatency

structure BBO where
  bid_price_ : Int := Price_INVALID
  ask_price_ : Int := Price_INVALID
  bid_qty_ : Nat := Qty_INVALID
  ask_qty_ : Nat := Qty_INVALID
deriving DecidableEq, Repr

abbrev MarketLadder := Ladder Nat Nat

namespace MarketLadder

/-- The sum over the orders of a level behind the first, in `Qty`. -/
def sumQtyLoop (m : MemPool (Order Nat)) (first : Nat) : Nat → Nat → Nat → Exec Nat
  | 0, _, _ => .error .diverges
  | fuel + 1, order, qty =>
    if order = first then .ok qty
    else do
      let next ← deref (m.nextOrder order)
      sumQtyLoop m first fuel next (wrap32 (qty + (m.data order).qty_))

/-- Price and quantity of the best level, as `updateBBO` reads them. -/
def topOfBook (s : MarketLadder) (bid : Bool) : Exec (Int × Nat) :=
  match s.best bid with
  | none => .ok (Price_INVALID, Qty_INVALID)
  | some l => do
    let first ← deref (s.orders_at_price_pool_.firstOrder l)
    let order ← deref (s.order_pool_.nextOrder first)
    let qty ← sumQtyLoop s.order_pool_ first (s.order_pool_.size + 1) order
      (s.order_pool_.data first).qty_
    return (s.orders_at_price_pool_.levelPrice l, qty)

/-- `for (auto &order: oid_to_order_) if (order) order_pool_.deallocate(order)`,
over the ids listed. -/
def clearOrders (oid_to_order : Nat → Option Nat) :
    List Nat → MemPool (Order Nat) → Exec (MemPool (Order Nat))
  | [], m => .ok m
  | i :: is, m =>
    match oid_to_order i with
    | none => clearOrders oid_to_order is m
    | some order => do
      let m ← m.deallocate order
      clearOrders oid_to_order is m

/-- `deallocate` of a pointer that may be null. -/
def deallocate? (m : MemPool OrdersAtPrice) : Option Nat → Exec (MemPool OrdersAtPrice × Nat)
  | none => .error (.assertion "Element being deallocated does not belong to this Memory pool.")
  | some l => do
    let m ← m.deallocate l
    return (m, l)

/-- The walk over the levels of a side behind the best. -/
def clearLevelsLoop (best : Nat) :
    Nat → Option Nat → MemPool OrdersAtPrice → Exec (MemPool OrdersAtPrice)
  | 0, _, _ => .error .diverges
  | fuel + 1, level, m =>
    if level = some best then .ok m
    else do
      let (m, l) ← deallocate? m level
      clearLevelsLoop best fuel (m.nextEntry l) m

/-- Deallocate the levels of one side, the best one last. -/
def clearLevels (best : Option Nat) (m : MemPool OrdersAtPrice) : Exec (MemPool OrdersAtPrice) :=
  match best with
  | none => .ok m
  | some best => do
    let m ← clearLevelsLoop best (m.size + 1) (m.nextEntry best) m
    m.deallocate best

/-- The `CLEAR` branch of `onMarketUpdate`. It resets the id table, the two best
pointers and the pools, and nothing else. -/
def clear (s : MarketLadder) : Exec MarketLadder := do
  let orders ← clearOrders s.id_to_order_ (List.range ME_MAX_ORDER_IDS) s.order_pool_
  let levels ← clearLevels s.bids_by_price_ s.orders_at_price_pool_
  let levels ← clearLevels s.asks_by_price_ levels
  return { s with
    order_pool_ := orders
    id_to_order_ := fun _ => none
    orders_at_price_pool_ := levels
    bids_by_price_ := none
    asks_by_price_ := none }

end MarketLadder

structure MarketOrderBook where
  ladder : MarketLadder
  bbo_ : BBO

namespace MarketOrderBook

def init : MarketOrderBook := ⟨Ladder.init, {}⟩

/-- Update the BBO on the sides asked for. -/
def updateBBO (s : MarketOrderBook) (update_bid update_ask : Bool) : Exec MarketOrderBook := do
  let s ←
    if update_bid then do
      let (price, qty) ← MarketLadder.topOfBook s.ladder true
      .ok { s with bbo_ := { s.bbo_ with bid_price_ := price, bid_qty_ := qty } }
    else .ok s
  if update_ask then do
    let (price, qty) ← MarketLadder.topOfBook s.ladder false
    return { s with bbo_ := { s.bbo_ with ask_price_ := price, ask_qty_ := qty } }
  else return s

/-- The update is at or above the best bid. -/
def bidUpdated (s : MarketOrderBook) (u : MEMarketUpdate) : Bool :=
  decide (u.side_ = .BUY) &&
    match s.ladder.bids_by_price_ with
    | none => true
    | some l => decide (u.price_ ≥ s.ladder.orders_at_price_pool_.levelPrice l)

/-- The update is at or below the best ask. -/
def askUpdated (s : MarketOrderBook) (u : MEMarketUpdate) : Bool :=
  decide (u.side_ = .SELL) &&
    match s.ladder.asks_by_price_ with
    | none => true
    | some l => decide (u.price_ ≤ s.ladder.orders_at_price_pool_.levelPrice l)

/-- What an update does to the containers. -/
def onUpdate (s : MarketLadder) (u : MEMarketUpdate) : Exec MarketLadder :=
  match u.type_ with
  | .ADD => s.allocateOrder (orderOf u)
  | .MODIFY => do
    let entry ← s.getIdx u.order_id_
    let order ← deref entry
    return { s with order_pool_ := s.order_pool_.setQty order u.qty_ }
  | .CANCEL => do
    let entry ← s.getIdx u.order_id_
    let order ← deref entry
    s.removeOrder order
  | .CLEAR => MarketLadder.clear s
  | .INVALID | .TRADE | .SNAPSHOT_START | .SNAPSHOT_END => .ok s

/-- Process market data update and update the limit order book. A `TRADE` is
handed to the trade engine and returns before the BBO is touched. -/
def onMarketUpdate (s : MarketOrderBook) (u : MEMarketUpdate) : Exec MarketOrderBook := do
  let bid_updated := s.bidUpdated u
  let ask_updated := s.askUpdated u
  let l ← onUpdate s.ladder u
  if u.type_ = .TRADE then return s
  else ({ s with ladder := l } : MarketOrderBook).updateBBO bid_updated ask_updated

/-- Updates in a row. -/
def onMarketUpdates (s : MarketOrderBook) : List MEMarketUpdate → Exec MarketOrderBook
  | [] => .ok s
  | u :: us => do
    let s ← s.onMarketUpdate u
    s.onMarketUpdates us

end MarketOrderBook

/-- `ticker_order_book_` of the trade engine. -/
abbrev MarketOrderBookHashMap := Nat → MarketOrderBook

namespace MarketOrderBookHashMap

def init : MarketOrderBookHashMap := fun _ => MarketOrderBook.init

/-- `TradeEngine::processMarketUpdate`. -/
def processMarketUpdate (m : MarketOrderBookHashMap) (u : MEMarketUpdate) :
    Exec MarketOrderBookHashMap := do
  ASSERT (decide (u.ticker_id_ < ME_MAX_TICKERS)) ("Unknown ticker-id on update:" ++ u.toString)
  let s ← (m u.ticker_id_).onMarketUpdate u
  return Function.update m u.ticker_id_ s

/-- Updates in a row. -/
def processMarketUpdates (m : MarketOrderBookHashMap) :
    List MEMarketUpdate → Exec MarketOrderBookHashMap
  | [] => .ok m
  | u :: us => do
    let m ← m.processMarketUpdate u
    m.processMarketUpdates us

end MarketOrderBookHashMap

end LowLatency
