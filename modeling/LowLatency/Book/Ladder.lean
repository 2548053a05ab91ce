import LowLatency.Common.MemPool
import LowLatency.Lib.Ring

/-!
# The price ladder: the containers both order books are built on

`MEOrderBook` (the exchange), `MarketOrderBook` (the trading client's replica)
and `UnorderedMapMEOrderBook` carry the same pointer structure and the same
four routines, written out once per class in the source:

* every resting order is a block of `order_pool_` and a node of its level's
  circular FIFO list (`prev_order_` / `next_order_`);
* every price level is a block of `orders_at_price_pool_` and a node of its
  side's circular list, best price first (`prev_entry_` / `next_entry_`);
* `price_orders_at_price_` finds a level by `priceToIndex`, with no side and no
  full price in the key; `id_to_order_` finds an order by its id.

The classes differ in what identifies an order: `(client_id_,
client_order_id_)` at the exchange, the market order id at the client. `Ladder`
is therefore generic in the identity `K` an order carries and the table index
`I` computed from it (`OrderKey`).

`addOrdersAtPrice`, `removeOrdersAtPrice`, `addOrder` and `removeOrder` follow
`me_order_book.h` statement by statement; each write through a pointer is one
`set…` on the pool it points into, so a read after a write sees it. A loop
whose end depends on the pointers read is given the number of iterations after
which it can only be going around in circles.
-/

namespace LowLatency

/-- What an order is, apart from its place in a list. -/
structure OrderData (K : Type) where
  id_ : K
  side_ : Side
  price_ : Int
  qty_ : Nat
  priority_ : Nat
deriving DecidableEq, Repr, Inhabited

/-- A node of a level's FIFO list. -/
structure Order (K : Type) extends OrderData K where
  prev_order_ : Option Nat
  next_order_ : Option Nat
deriving Inhabited

/-- A price level, itself a node of its side's list. -/
structure OrdersAtPrice where
  side_ : Side := .INVALID
  price_ : Int := Price_INVALID
  first_order_ : Option Nat := none
  prev_entry_ : Option Nat := none
  next_entry_ : Option Nat := none

instance : Inhabited OrdersAtPrice := ⟨{}⟩

/-- How an order's identity indexes the id table, and which indices the table
has (`std::array::at` throws on the others). -/
class OrderKey (K : Type) (I : outParam Type) where
  idx : K → I
  inRange : I → Bool

export OrderKey (idx inRange)

namespace MemPool

variable {K : Type}

/-! ## Links of orders -/

def data (m : MemPool (Order K)) (p : Nat) : OrderData K := (m.get p).toOrderData
def prevOrder (m : MemPool (Order K)) (p : Nat) : Option Nat := (m.get p).prev_order_
def nextOrder (m : MemPool (Order K)) (p : Nat) : Option Nat := (m.get p).next_order_

def setPrevOrder (m : MemPool (Order K)) (p : Nat) (v : Option Nat) : MemPool (Order K) :=
  m.set p { m.get p with prev_order_ := v }

def setNextOrder (m : MemPool (Order K)) (p : Nat) (v : Option Nat) : MemPool (Order K) :=
  m.set p { m.get p with next_order_ := v }

def setQty (m : MemPool (Order K)) (p : Nat) (q : Nat) : MemPool (Order K) :=
  m.set p { m.get p with qty_ := q }

@[simp] theorem data_setPrevOrder (m : MemPool (Order K)) (p q : Nat) (v : Option Nat) :
    (m.setPrevOrder p v).data q = m.data q := by
  unfold data setPrevOrder; rw [get_set]; split <;> simp_all

@[simp] theorem data_setNextOrder (m : MemPool (Order K)) (p q : Nat) (v : Option Nat) :
    (m.setNextOrder p v).data q = m.data q := by
  unfold data setNextOrder; rw [get_set]; split <;> simp_all

theorem data_setQty (m : MemPool (Order K)) (p q v : Nat) :
    (m.setQty p v).data q = if q = p then { m.data q with qty_ := v } else m.data q := by
  unfold data setQty; rw [get_set]; split <;> simp_all

theorem prevOrder_setPrevOrder (m : MemPool (Order K)) (p q : Nat) (v : Option Nat) :
    (m.setPrevOrder p v).prevOrder q = if q = p then v else m.prevOrder q := by
  unfold prevOrder setPrevOrder; rw [get_set]; split <;> rfl

@[simp] theorem prevOrder_setNextOrder (m : MemPool (Order K)) (p q : Nat) (v : Option Nat) :
    (m.setNextOrder p v).prevOrder q = m.prevOrder q := by
  unfold prevOrder setNextOrder; rw [get_set]; split <;> simp_all

@[simp] theorem prevOrder_setQty (m : MemPool (Order K)) (p q v : Nat) :
    (m.setQty p v).prevOrder q = m.prevOrder q := by
  unfold prevOrder setQty; rw [get_set]; split <;> simp_all

@[simp] theorem nextOrder_setPrevOrder (m : MemPool (Order K)) (p q : Nat) (v : Option Nat) :
    (m.setPrevOrder p v).nextOrder q = m.nextOrder q := by
  unfold nextOrder setPrevOrder; rw [get_set]; split <;> simp_all

theorem nextOrder_setNextOrder (m : MemPool (Order K)) (p q : Nat) (v : Option Nat) :
    (m.setNextOrder p v).nextOrder q = if q = p then v else m.nextOrder q := by
  unfold nextOrder setNextOrder; rw [get_set]; split <;> rfl

@[simp] theorem nextOrder_setQty (m : MemPool (Order K)) (p q v : Nat) :
    (m.setQty p v).nextOrder q = m.nextOrder q := by
  unfold nextOrder setQty; rw [get_set]; split <;> simp_all

/-! ## Links of levels -/

def levelSide (m : MemPool OrdersAtPrice) (l : Nat) : Side := (m.get l).side_
def levelPrice (m : MemPool OrdersAtPrice) (l : Nat) : Int := (m.get l).price_
def firstOrder (m : MemPool OrdersAtPrice) (l : Nat) : Option Nat := (m.get l).first_order_
def prevEntry (m : MemPool OrdersAtPrice) (l : Nat) : Option Nat := (m.get l).prev_entry_
def nextEntry (m : MemPool OrdersAtPrice) (l : Nat) : Option Nat := (m.get l).next_entry_

def setFirstOrder (m : MemPool OrdersAtPrice) (l : Nat) (v : Option Nat) : MemPool OrdersAtPrice :=
  m.set l { m.get l with first_order_ := v }

def setPrevEntry (m : MemPool OrdersAtPrice) (l : Nat) (v : Option Nat) : MemPool OrdersAtPrice :=
  m.set l { m.get l with prev_entry_ := v }

def setNextEntry (m : MemPool OrdersAtPrice) (l : Nat) (v : Option Nat) : MemPool OrdersAtPrice :=
  m.set l { m.get l with next_entry_ := v }

/-- Links written so far leave a level's side and price alone. -/
@[simp] theorem level_setPrevEntry (m : MemPool OrdersAtPrice) (p q : Nat) (v : Option Nat) :
    (m.setPrevEntry p v).levelSide q = m.levelSide q ∧
    (m.setPrevEntry p v).levelPrice q = m.levelPrice q ∧
    (m.setPrevEntry p v).firstOrder q = m.firstOrder q ∧
    (m.setPrevEntry p v).nextEntry q = m.nextEntry q := by
  unfold levelSide levelPrice firstOrder nextEntry setPrevEntry
  rw [get_set]
  split <;> simp_all

@[simp] theorem level_setNextEntry (m : MemPool OrdersAtPrice) (p q : Nat) (v : Option Nat) :
    (m.setNextEntry p v).levelSide q = m.levelSide q ∧
    (m.setNextEntry p v).levelPrice q = m.levelPrice q ∧
    (m.setNextEntry p v).firstOrder q = m.firstOrder q ∧
    (m.setNextEntry p v).prevEntry q = m.prevEntry q := by
  unfold levelSide levelPrice firstOrder prevEntry setNextEntry
  rw [get_set]
  split <;> simp_all

@[simp] theorem level_setFirstOrder (m : MemPool OrdersAtPrice) (p q : Nat) (v : Option Nat) :
    (m.setFirstOrder p v).levelSide q = m.levelSide q ∧
    (m.setFirstOrder p v).levelPrice q = m.levelPrice q ∧
    (m.setFirstOrder p v).prevEntry q = m.prevEntry q ∧
    (m.setFirstOrder p v).nextEntry q = m.nextEntry q := by
  unfold levelSide levelPrice prevEntry nextEntry setFirstOrder
  rw [get_set]
  split <;> simp_all

theorem prevEntry_setPrevEntry (m : MemPool OrdersAtPrice) (p q : Nat) (v : Option Nat) :
    (m.setPrevEntry p v).prevEntry q = if q = p then v else m.prevEntry q := by
  unfold prevEntry setPrevEntry; rw [get_set]; split <;> rfl

theorem nextEntry_setNextEntry (m : MemPool OrdersAtPrice) (p q : Nat) (v : Option Nat) :
    (m.setNextEntry p v).nextEntry q = if q = p then v else m.nextEntry q := by
  unfold nextEntry setNextEntry; rw [get_set]; split <;> rfl

theorem firstOrder_setFirstOrder (m : MemPool OrdersAtPrice) (p q : Nat) (v : Option Nat) :
    (m.setFirstOrder p v).firstOrder q = if q = p then v else m.firstOrder q := by
  unfold firstOrder setFirstOrder; rw [get_set]; split <;> rfl

end MemPool

/-! ## The containers -/

structure Ladder (K I : Type) where
  id_to_order_ : I → Option Nat
  orders_at_price_pool_ : MemPool OrdersAtPrice
  bids_by_price_ : Option Nat
  asks_by_price_ : Option Nat
  price_orders_at_price_ : Nat → Option Nat
  order_pool_ : MemPool (Order K)

namespace Ladder

variable {K I : Type}

/-- The constructor: empty tables and pools. -/
def init [Inhabited K] : Ladder K I where
  id_to_order_ := fun _ => none
  orders_at_price_pool_ := MemPool.init ME_MAX_PRICE_LEVELS default
  bids_by_price_ := none
  asks_by_price_ := none
  price_orders_at_price_ := fun _ => none
  order_pool_ := MemPool.init ME_MAX_ORDER_IDS default

/-- `side == Side::BUY`, the test that selects `bids_by_price_`. -/
def isBid (side : Side) : Bool := decide (side = .BUY)

/-- `bids_by_price_` or `asks_by_price_`. -/
def best (s : Ladder K I) (bid : Bool) : Option Nat :=
  if bid then s.bids_by_price_ else s.asks_by_price_

def setBest (s : Ladder K I) (bid : Bool) (v : Option Nat) : Ladder K I :=
  if bid then { s with bids_by_price_ := v } else { s with asks_by_price_ := v }

def getOrdersAtPrice (s : Ladder K I) (price : Int) : Option Nat :=
  s.price_orders_at_price_ (priceToIndex price)

/-- A level at `new` belongs behind one at `target`. -/
def addAfter (side : Side) (new target : Int) : Bool :=
  (decide (side = .SELL) && decide (target < new)) || (decide (side = .BUY) && decide (new < target))

/-- A level at `new` is more aggressive than one at `target`. -/
def addBefore (side : Side) (new target : Int) : Bool :=
  (decide (side = .BUY) && decide (target < new)) || (decide (side = .SELL) && decide (new < target))

/-- The search loop of `addOrdersAtPrice`. -/
def seekLoop (m : MemPool OrdersAtPrice) (side : Side) (price : Int) (best : Nat) :
    Nat → Bool → Nat → Exec (Bool × Nat)
  | 0, _, _ => .error .diverges
  | fuel + 1, add_after, target =>
    if add_after && decide (target ≠ best) then
      if addAfter side price (m.levelPrice target) then do
        let target ← deref (m.nextEntry target)
        seekLoop m side price best fuel true target
      else seekLoop m side price best fuel false target
    else .ok (add_after, target)

/-- Where the new level goes: behind the last level (`true`) or right before
the returned one (`false`). -/
def seek (m : MemPool OrdersAtPrice) (side : Side) (price : Int) (best : Nat) :
    Exec (Bool × Nat) := do
  if addAfter side price (m.levelPrice best) then
    let target ← deref (m.nextEntry best)
    seekLoop m side price best (m.size + 2) (addAfter side price (m.levelPrice target)) target
  else .ok (false, best)

/-- Add a new level into the price table and the list of its side. -/
def addOrdersAtPrice (s : Ladder K I) (new_orders_at_price : Nat) : Exec (Ladder K I) := do
  let n := new_orders_at_price
  let side := s.orders_at_price_pool_.levelSide n
  let price := s.orders_at_price_pool_.levelPrice n
  let s := { s with
    price_orders_at_price_ :=
      Function.update s.price_orders_at_price_ (priceToIndex price) (some n) }
  match s.best (isBid side) with
  | none =>
    let s := s.setBest (isBid side) (some n)
    return { s with
      orders_at_price_pool_ :=
        (s.orders_at_price_pool_.setNextEntry n (some n)).setPrevEntry n (some n) }
  | some best =>
    let m := s.orders_at_price_pool_
    let (add_after, target) ← seek m side price best
    if add_after then -- add new_orders_at_price after target.
      let target ← if target = best then deref (m.prevEntry best) else .ok target
      let m := m.setPrevEntry n (some target)
      let after ← deref (m.nextEntry target)
      let m := m.setPrevEntry after (some n)
      let m := m.setNextEntry n (m.nextEntry target)
      let m := m.setNextEntry target (some n)
      return { s with orders_at_price_pool_ := m }
    else -- add new_orders_at_price before target.
      let m := m.setPrevEntry n (m.prevEntry target)
      let m := m.setNextEntry n (some target)
      let before ← deref (m.prevEntry target)
      let m := m.setNextEntry before (some n)
      let m := m.setPrevEntry target (some n)
      if addBefore side price (m.levelPrice best) then
        let m := m.setNextEntry target
          (if m.nextEntry target = some best then some n else m.nextEntry target)
        return ({ s with orders_at_price_pool_ := m }).setBest (isBid side) (some n)
      else return { s with orders_at_price_pool_ := m }

/-- Remove a level from the price table and the list of its side. -/
def removeOrdersAtPrice (s : Ladder K I) (side : Side) (price : Int) : Exec (Ladder K I) := do
  let best := s.best (isBid side)
  let l ← deref (s.getOrdersAtPrice price)
  let s ←
    if s.orders_at_price_pool_.nextEntry l = some l then -- empty side of book.
      .ok (s.setBest (isBid side) none)
    else do
      let m := s.orders_at_price_pool_
      let before ← deref (m.prevEntry l)
      let m := m.setNextEntry before (m.nextEntry l)
      let after ← deref (m.nextEntry l)
      let m := m.setPrevEntry after (m.prevEntry l)
      let s := if best = some l then s.setBest (isBid side) (m.nextEntry l) else s
      let m := (m.setNextEntry l none).setPrevEntry l none
      .ok { s with orders_at_price_pool_ := m }
  let m ← s.orders_at_price_pool_.deallocate l
  return { s with
    price_orders_at_price_ := Function.update s.price_orders_at_price_ (priceToIndex price) none
    orders_at_price_pool_ := m }

section

variable [OrderKey K I] [DecidableEq I]

/-- `cid_oid_to_order_.at(..).at(..) = v`, or `oid_to_order_.at(..) = v`. -/
def setIdx (s : Ladder K I) (i : I) (v : Option Nat) : Exec (Ladder K I) :=
  if inRange (K := K) i then .ok { s with id_to_order_ := Function.update s.id_to_order_ i v }
  else .error .outOfRange

/-- `cid_oid_to_order_.at(..).at(..)`, or `oid_to_order_.at(..)`. -/
def getIdx (s : Ladder K I) (i : I) : Exec (Option Nat) :=
  if inRange (K := K) i then .ok (s.id_to_order_ i) else .error .outOfRange

/-- Add a single order at the end of the FIFO queue at the price level that
this order belongs in. -/
def addOrder (s : Ladder K I) (order : Nat) : Exec (Ladder K I) := do
  let o := s.order_pool_.data order
  let s ←
    match s.getOrdersAtPrice o.price_ with
    | none => do
      let s := { s with
        order_pool_ :=
          (s.order_pool_.setPrevOrder order (some order)).setNextOrder order (some order) }
      let (n, m) ← s.orders_at_price_pool_.allocate
        { side_ := o.side_, price_ := o.price_, first_order_ := some order }
      addOrdersAtPrice { s with orders_at_price_pool_ := m } n
    | some l => do
      let m := s.order_pool_
      let first_order ← deref (s.orders_at_price_pool_.firstOrder l)
      let last ← deref (m.prevOrder first_order)
      let m := m.setNextOrder last (some order)
      let m := m.setPrevOrder order (m.prevOrder first_order)
      let m := m.setNextOrder order (some first_order)
      let m := m.setPrevOrder first_order (some order)
      .ok { s with order_pool_ := m }
  s.setIdx (idx o.id_) (some order)

/-- `order_pool_.allocate(..)` followed by `addOrder`: how both books bring an
order to rest. -/
def allocateOrder (s : Ladder K I) (d : OrderData K) : Exec (Ladder K I) := do
  let (order, m) ← s.order_pool_.allocate { d with prev_order_ := none, next_order_ := none }
  addOrder { s with order_pool_ := m } order

/-- Remove and de-allocate provided order from the containers. -/
def removeOrder (s : Ladder K I) (order : Nat) : Exec (Ladder K I) := do
  let o := s.order_pool_.data order
  let orders_at_price := s.getOrdersAtPrice o.price_
  let s ←
    if s.order_pool_.prevOrder order = some order then -- only one element.
      s.removeOrdersAtPrice o.side_ o.price_
    else do -- remove the link.
      let m := s.order_pool_
      let order_before ← deref (m.prevOrder order)
      let order_after ← deref (m.nextOrder order)
      let m := m.setNextOrder order_before (some order_after)
      let m := m.setPrevOrder order_after (some order_before)
      let l ← deref orders_at_price
      let s :=
        if s.orders_at_price_pool_.firstOrder l = some order then
          { s with
            orders_at_price_pool_ := s.orders_at_price_pool_.setFirstOrder l (some order_after) }
        else s
      let m := (m.setNextOrder order none).setPrevOrder order none
      .ok { s with order_pool_ := m }
  let s ← s.setIdx (idx o.id_) none
  let m ← s.order_pool_.deallocate order
  return { s with order_pool_ := m }

end

/-! ## Reading a book -/

/-- The orders of level `l` in FIFO order, as `toString` walks them. -/
def levelOrders (s : Ladder K I) (l : Nat) : Option (List (OrderData K)) := do
  let first ← s.orders_at_price_pool_.firstOrder l
  let ps ← Lib.ringWalk s.order_pool_.nextOrder first (s.order_pool_.size + 1) first
  return ps.map s.order_pool_.data

/-- One level as a reader of the book sees it. -/
structure LevelView (K : Type) where
  side_ : Side
  price_ : Int
  orders : List (OrderData K)
deriving DecidableEq, Repr

def levelView (s : Ladder K I) (l : Nat) : Option (LevelView K) := do
  let os ← s.levelOrders l
  return ⟨s.orders_at_price_pool_.levelSide l, s.orders_at_price_pool_.levelPrice l, os⟩

/-- The levels of one side from the best pointer on, each with its orders:
everything `toString` prints of it. -/
def view (s : Ladder K I) (bid : Bool) : Option (List (LevelView K)) :=
  match s.best bid with
  | none => some []
  | some b => do
    let ls ← Lib.ringWalk s.orders_at_price_pool_.nextEntry b
      (s.orders_at_price_pool_.size + 1) b
    ls.mapM s.levelView

end Ladder

end LowLatency
