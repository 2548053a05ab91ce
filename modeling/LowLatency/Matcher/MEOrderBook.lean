import LowLatency.Book.Ladder

/-!
# `MEOrderBook`: the exchange's order book

`src/exchange/matcher/me_order_book.{h,cpp}`. An order is identified by the
client's `(client_id_, client_order_id_)`, which indexes `cid_oid_to_order_`,
and carries the `market_order_id_` under which the market data feed knows it.

A call returns the messages it sent, responses and market updates interleaved
as the two `send…` calls were made. The `client_response_` and `market_update_`
members are scratch space that is overwritten in full before every send, so
they are not part of the state.

Two conversions of the source are kept. `generateNewMarketOrderId` counts in
`uint64_t`. `checkForMatch` takes the new market order id as a `Qty`, so the
id that `match` reports to the aggressor is reduced to 32 bits.

The constructor of the production build leaves `cid_oid_to_order_`
uninitialised; only the benchmark build fills it with null. `init` is the book
with the null table.
-/

namespace LowLatency

/-- What identifies an order at the exchange. -/
structure MEOrderId where
  ticker_id_ : Nat := TickerId_INVALID
  client_id_ : Nat := ClientId_INVALID
  client_order_id_ : Nat := OrderId_INVALID
  market_order_id_ : Nat := OrderId_INVALID
deriving DecidableEq, Repr

instance : Inhabited MEOrderId := ⟨{}⟩

instance : OrderKey MEOrderId (Nat × Nat) where
  idx := fun k => (k.client_id_, k.client_order_id_)
  inRange := fun i => decide (i.1 < ME_MAX_NUM_CLIENTS) && decide (i.2 < ME_MAX_ORDER_IDS)

/-- A message sent through the matching engine. -/
inductive Event
  | response (r : MEClientResponse)
  | update (u : MEMarketUpdate)
deriving DecidableEq, Repr

/-- The market updates among the messages, in order. -/
def updates (evs : List Event) : List MEMarketUpdate :=
  evs.filterMap fun | .update u => some u | .response _ => none

/-- The client responses among the messages, in order. -/
def responses (evs : List Event) : List MEClientResponse :=
  evs.filterMap fun | .response r => some r | .update _ => none

/-- What `checkForMatch` knows of the order being added. -/
structure Aggressor where
  client_id_ : Nat
  client_order_id_ : Nat
  ticker_id_ : Nat
  side_ : Side
  price_ : Int
  /-- The market order id as `match` reports it. -/
  new_market_order_id_ : Nat

/-- The messages of one fill, up to the `TRADE`: the order `o` as it was, the
quantities left on both after the fill. -/
def fillEvents (a : Aggressor) (o : OrderData MEOrderId) (fill_qty leaves_qty qty : Nat) :
    List Event :=
  [.response {
      type_ := .FILLED, client_id_ := a.client_id_, ticker_id_ := a.ticker_id_,
      client_order_id_ := a.client_order_id_, market_order_id_ := a.new_market_order_id_,
      side_ := a.side_, price_ := o.price_, exec_qty_ := fill_qty, leaves_qty_ := leaves_qty },
   .response {
      type_ := .FILLED, client_id_ := o.id_.client_id_, ticker_id_ := a.ticker_id_,
      client_order_id_ := o.id_.client_order_id_, market_order_id_ := o.id_.market_order_id_,
      side_ := o.side_, price_ := o.price_, exec_qty_ := fill_qty, leaves_qty_ := qty },
   .update {
      type_ := .TRADE, order_id_ := OrderId_INVALID, ticker_id_ := a.ticker_id_,
      side_ := a.side_, price_ := o.price_, qty_ := fill_qty, priority_ := Priority_INVALID }]

/-- `CANCEL` of a passive order that a match exhausted: it carries the quantity
the order had before, and no priority. -/
def exhaustedEvent (a : Aggressor) (o : OrderData MEOrderId) : Event :=
  .update {
    type_ := .CANCEL, order_id_ := o.id_.market_order_id_, ticker_id_ := a.ticker_id_,
    side_ := o.side_, price_ := o.price_, qty_ := o.qty_, priority_ := Priority_INVALID }

/-- `MODIFY` of a passive order with quantity `qty` left. -/
def modifiedEvent (a : Aggressor) (o : OrderData MEOrderId) (qty : Nat) : Event :=
  .update {
    type_ := .MODIFY, order_id_ := o.id_.market_order_id_, ticker_id_ := a.ticker_id_,
    side_ := o.side_, price_ := o.price_, qty_ := qty, priority_ := o.priority_ }

abbrev MELadder := Ladder MEOrderId (Nat × Nat)

namespace MELadder

/-- `MEOrderBook::match`: the aggressor against the passive order `itr`. -/
def matchOrder (s : MELadder) (a : Aggressor) (itr leaves_qty : Nat) :
    Exec (Nat × MELadder × List Event) := do
  let o := s.order_pool_.data itr
  let fill_qty := min leaves_qty o.qty_
  let leaves_qty := leaves_qty - fill_qty
  let qty := o.qty_ - fill_qty
  let s := { s with order_pool_ := s.order_pool_.setQty itr qty }
  let evs := fillEvents a o fill_qty leaves_qty qty
  if qty = 0 then
    let s ← s.removeOrder itr
    return (leaves_qty, s, evs ++ [exhaustedEvent a o])
  else return (leaves_qty, s, evs ++ [modifiedEvent a o qty])

/-- The limit price does not reach an order of side `bid` at `itr_price`. -/
def outOfReach (bid : Bool) (price itr_price : Int) : Bool :=
  if bid then decide (price > itr_price) else decide (price < itr_price)

/-- The `while` loop of `checkForMatch` against side `bid`. Every iteration but
the last frees a block of the order pool, so `ME_MAX_ORDER_IDS + 1` of them are
all there can be. -/
def checkForMatchLoop (bid : Bool) (a : Aggressor) :
    Nat → MELadder → Nat → Exec (Nat × MELadder × List Event)
  | 0, _, _ => .error .diverges
  | fuel + 1, s, leaves_qty =>
    if leaves_qty = 0 then .ok (leaves_qty, s, [])
    else
      match s.best bid with
      | none => .ok (leaves_qty, s, [])
      | some level => do
        let itr ← deref (s.orders_at_price_pool_.firstOrder level)
        if outOfReach bid a.price_ (s.order_pool_.data itr).price_ then
          return (leaves_qty, s, [])
        else
          let (leaves_qty, s, evs) ← matchOrder s a itr leaves_qty
          let (leaves_qty, s, evs') ← checkForMatchLoop bid a fuel s leaves_qty
          return (leaves_qty, s, evs ++ evs')

def checkForMatch (s : MELadder) (a : Aggressor) (qty : Nat) :
    Exec (Nat × MELadder × List Event) :=
  match a.side_ with
  | .BUY => checkForMatchLoop false a (ME_MAX_ORDER_IDS + 1) s qty
  | .SELL => checkForMatchLoop true a (ME_MAX_ORDER_IDS + 1) s qty
  | _ => .ok (qty, s, [])

/-- One more than the priority of the last order in the level, or 1. -/
def getNextPriority (s : MELadder) (price : Int) : Exec Nat :=
  match s.getOrdersAtPrice price with
  | none => .ok 1
  | some l => do
    let first ← deref (s.orders_at_price_pool_.firstOrder l)
    let last ← deref (s.order_pool_.prevOrder first)
    return wrap64 ((s.order_pool_.data last).priority_ + 1)

end MELadder

structure MEOrderBook where
  ladder : MELadder
  next_market_order_id_ : Nat

/-- The response to an accepted order. -/
def acceptedEvent (client_id client_order_id ticker_id new_market_order_id : Nat) (side : Side)
    (price : Int) (qty : Nat) : Event :=
  .response {
    type_ := .ACCEPTED, client_id_ := client_id, ticker_id_ := ticker_id,
    client_order_id_ := client_order_id, market_order_id_ := new_market_order_id, side_ := side,
    price_ := price, exec_qty_ := 0, leaves_qty_ := qty }

/-- The update for an order that came to rest. -/
def addedEvent (o : OrderData MEOrderId) : Event :=
  .update {
    type_ := .ADD, order_id_ := o.id_.market_order_id_, ticker_id_ := o.id_.ticker_id_,
    side_ := o.side_, price_ := o.price_, qty_ := o.qty_, priority_ := o.priority_ }

/-- The update and the response for a cancelled order. -/
def canceledEvents (client_id order_id ticker_id : Nat) (o : OrderData MEOrderId) : List Event :=
  [.update {
      type_ := .CANCEL, order_id_ := o.id_.market_order_id_, ticker_id_ := ticker_id,
      side_ := o.side_, price_ := o.price_, qty_ := 0, priority_ := o.priority_ },
   .response {
      type_ := .CANCELED, client_id_ := client_id, ticker_id_ := ticker_id,
      client_order_id_ := order_id, market_order_id_ := o.id_.market_order_id_, side_ := o.side_,
      price_ := o.price_, exec_qty_ := Qty_INVALID, leaves_qty_ := o.qty_ }]

def rejectedEvent (client_id order_id ticker_id : Nat) : Event :=
  .response {
    type_ := .CANCEL_REJECTED, client_id_ := client_id, ticker_id_ := ticker_id,
    client_order_id_ := order_id, market_order_id_ := OrderId_INVALID, side_ := .INVALID,
    price_ := Price_INVALID, exec_qty_ := Qty_INVALID, leaves_qty_ := Qty_INVALID }

namespace MEOrderBook

def init : MEOrderBook := ⟨Ladder.init, 1⟩

/-- Match a new order and rest what is left of it. -/
def add (s : MEOrderBook) (client_id client_order_id ticker_id : Nat) (side : Side) (price : Int)
    (qty : Nat) : Exec (MEOrderBook × List Event) := do
  let new_market_order_id := s.next_market_order_id_
  let next_market_order_id := wrap64 (s.next_market_order_id_ + 1)
  let accepted := acceptedEvent client_id client_order_id ticker_id new_market_order_id side price
    qty
  let (leaves_qty, l, evs) ← MELadder.checkForMatch s.ladder
    ⟨client_id, client_order_id, ticker_id, side, price, wrap32 new_market_order_id⟩ qty
  if leaves_qty ≠ 0 then
    let priority ← MELadder.getNextPriority l price
    let order : OrderData MEOrderId :=
      ⟨⟨ticker_id, client_id, client_order_id, new_market_order_id⟩, side, price, leaves_qty,
        priority⟩
    let l ← l.allocateOrder order
    return (⟨l, next_market_order_id⟩, accepted :: (evs ++ [addedEvent order]))
  else return (⟨l, next_market_order_id⟩, accepted :: evs)

/-- Cancel an order, or reject the cancel when there is no such order. -/
def cancel (s : MEOrderBook) (client_id order_id ticker_id : Nat) :
    Exec (MEOrderBook × List Event) := do
  let exchange_order ←
    if client_id < ME_MAX_NUM_CLIENTS then s.ladder.getIdx (client_id, order_id) else .ok none
  match exchange_order with
  | none => return (s, [rejectedEvent client_id order_id ticker_id])
  | some p =>
    let o := s.ladder.order_pool_.data p
    let l ← s.ladder.removeOrder p
    return ({ s with ladder := l }, canceledEvents client_id order_id ticker_id o)

/-- `MatchingEngine::processClientRequest`, once the ticker's book is found. -/
def processClientRequest (s : MEOrderBook) (r : MEClientRequest) :
    Exec (MEOrderBook × List Event) :=
  match r.type_ with
  | .NEW => s.add r.client_id_ r.order_id_ r.ticker_id_ r.side_ r.price_ r.qty_
  | .CANCEL => s.cancel r.client_id_ r.order_id_ r.ticker_id_
  | .INVALID => .error (.assertion "Received invalid client-request-type:INVALID")

/-- Requests in a row: the book reached and the messages of each request. -/
def run (s : MEOrderBook) : List MEClientRequest → Exec (MEOrderBook × List (List Event))
  | [] => .ok (s, [])
  | r :: rs => do
    let (s, evs) ← s.processClientRequest r
    let (s, evss) ← s.run rs
    return (s, evs :: evss)

end MEOrderBook

end LowLatency
