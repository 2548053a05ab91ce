import LowLatency.Common.MemPool

/-!
# `SnapshotSynthesizer` and the numbering of the feed

`src/exchange/market_data/`. The market data publisher numbers the updates of
the matching engine from 1 on and hands each, numbered, to the snapshot
synthesizer, which keeps the last known state of every live order as the `ADD`
that would recreate it: `ticker_orders_` finds it by ticker and market order
id, and one pool holds them all.

A snapshot is what `publishSnapshot` sends: `SNAPSHOT_START`, for each ticker a
`CLEAR` and its orders by ascending id, `SNAPSHOT_END`, with numbers of their
own from 0 on. START and END carry the number of the last incremental update
applied, in `order_id_`.
-/

namespace LowLatency

/-- The market data publisher: updates numbered from `n` on. -/
def publish (n : Nat) (us : List MEMarketUpdate) : List MDPMarketUpdate :=
  (us.zipIdx n).map fun p => ⟨p.2, p.1⟩

/-- `final_events` of the market data consumer: what it passes on of a list of
updates, all but the marks of a snapshot. -/
def finalEvents (us : List MEMarketUpdate) : List MEMarketUpdate :=
  us.filter fun u => decide (u.type_ ≠ .SNAPSHOT_START ∧ u.type_ ≠ .SNAPSHOT_END)

structure SnapshotSynthesizer where
  ticker_orders_ : Nat → Nat → Option Nat
  last_inc_seq_num_ : Nat
  order_pool_ : MemPool MEMarketUpdate

namespace SnapshotSynthesizer

def init : SnapshotSynthesizer where
  ticker_orders_ := fun _ _ => none
  last_inc_seq_num_ := 0
  order_pool_ := MemPool.init ME_MAX_ORDER_IDS {}

/-- `ticker_orders_.at(ticker_id).at(order_id)`. -/
def getOrder (s : SnapshotSynthesizer) (ticker_id order_id : Nat) : Exec (Option Nat) :=
  if ticker_id < ME_MAX_TICKERS ∧ order_id < ME_MAX_ORDER_IDS then
    .ok (s.ticker_orders_ ticker_id order_id)
  else .error .outOfRange

def setOrder (s : SnapshotSynthesizer) (ticker_id order_id : Nat) (v : Option Nat) :
    Nat → Nat → Option Nat :=
  Function.update s.ticker_orders_ ticker_id
    (Function.update (s.ticker_orders_ ticker_id) order_id v)

/-- The order a `MODIFY` or a `CANCEL` is about, checked against it. -/
def checkedOrder (s : SnapshotSynthesizer) (u : MEMarketUpdate) : Exec Nat := do
  let order ← s.getOrder u.ticker_id_ u.order_id_
  ASSERT order.isSome ("Received:" ++ u.toString ++ " but order does not exist.")
  let p ← deref order
  ASSERT (decide ((s.order_pool_.get p).order_id_ = u.order_id_))
    "Expecting existing order to match new one."
  ASSERT (decide ((s.order_pool_.get p).side_ = u.side_))
    "Expecting existing order to match new one."
  return p

/-- What an incremental update does to the orders of the snapshot. -/
def onUpdate (s : SnapshotSynthesizer) (u : MEMarketUpdate) : Exec SnapshotSynthesizer :=
  match u.type_ with
  | .ADD => do
    let order ← s.getOrder u.ticker_id_ u.order_id_
    ASSERT order.isNone ("Received:" ++ u.toString ++ " but order already exists:" ++
      match order with
      | some p => (s.order_pool_.get p).toString
      | none => "")
    let (p, m) ← s.order_pool_.allocate u
    return { s with
      order_pool_ := m
      ticker_orders_ := s.setOrder u.ticker_id_ u.order_id_ (some p) }
  | .MODIFY => do
    let p ← s.checkedOrder u
    return { s with
      order_pool_ := s.order_pool_.set p
        { s.order_pool_.get p with qty_ := u.qty_, price_ := u.price_ } }
  | .CANCEL => do
    let p ← s.checkedOrder u
    let m ← s.order_pool_.deallocate p
    return { s with
      order_pool_ := m
      ticker_orders_ := s.setOrder u.ticker_id_ u.order_id_ none }
  | .SNAPSHOT_START | .CLEAR | .SNAPSHOT_END | .TRADE | .INVALID =>
    -- `ticker_orders_.at` is evaluated whatever the type
    if u.ticker_id_ < ME_MAX_TICKERS then .ok s else .error .outOfRange

/-- Process an incremental market update and update the limit order book
snapshot. -/
def addToSnapshot (s : SnapshotSynthesizer) (m : MDPMarketUpdate) : Exec SnapshotSynthesizer := do
  let s ← s.onUpdate m.me_market_update_
  ASSERT (decide (m.seq_num_ = s.last_inc_seq_num_ + 1))
    "Expected incremental seq_nums to increase."
  return { s with last_inc_seq_num_ := m.seq_num_ }

def addAllToSnapshot (s : SnapshotSynthesizer) :
    List MDPMarketUpdate → Exec SnapshotSynthesizer
  | [] => .ok s
  | m :: ms => do
    let s ← s.addToSnapshot m
    s.addAllToSnapshot ms

/-- The live orders of a ticker, by ascending id. -/
def tickerOrders (s : SnapshotSynthesizer) (ticker_id : Nat) : List MEMarketUpdate :=
  (List.range ME_MAX_ORDER_IDS).filterMap fun i =>
    (s.ticker_orders_ ticker_id i).map s.order_pool_.get

/-- The messages of a snapshot cycle, in the order they are sent. -/
def snapshotMessages (s : SnapshotSynthesizer) : List MEMarketUpdate :=
  { type_ := .SNAPSHOT_START, order_id_ := s.last_inc_seq_num_ } ::
    ((List.range ME_MAX_TICKERS).flatMap fun t =>
      { type_ := .CLEAR, ticker_id_ := t } :: s.tickerOrders t) ++
    [{ type_ := .SNAPSHOT_END, order_id_ := s.last_inc_seq_num_ }]

/-- Publish a full snapshot cycle: `snapshot_size` numbers the messages. -/
def publishSnapshot (s : SnapshotSynthesizer) : List MDPMarketUpdate :=
  publish 0 s.snapshotMessages

end SnapshotSynthesizer

/-! ## Reads of the tables and of the numbered stream -/

/-- One entry of a table of tables is written. -/
theorem update_update_apply {α : Type} (f : Nat → Nat → α) (t₀ i₀ : Nat) (v : α) (t i : Nat) :
    Function.update f t₀ (Function.update (f t₀) i₀ v) t i =
      if t = t₀ ∧ i = i₀ then v else f t i := by
  by_cases ht : t = t₀
  · subst ht
    rw [Function.update_self]
    by_cases hi : i = i₀
    · rw [if_pos ⟨rfl, hi⟩, hi, Function.update_self]
    · rw [if_neg fun h => hi h.2, Function.update_of_ne hi]
  · rw [if_neg fun h => ht h.1, Function.update_of_ne ht]

theorem setOrder_apply (s : SnapshotSynthesizer) (t₀ i₀ : Nat) (v : Option Nat) (t i : Nat) :
    s.setOrder t₀ i₀ v t i = if t = t₀ ∧ i = i₀ then v else s.ticker_orders_ t i :=
  update_update_apply s.ticker_orders_ t₀ i₀ v t i

theorem publish_cons (n : Nat) (u : MEMarketUpdate) (us : List MEMarketUpdate) :
    publish n (u :: us) = ⟨n, u⟩ :: publish (n + 1) us := by
  unfold publish
  rw [List.zipIdx_cons, List.map_cons]

theorem publish_append (n : Nat) (us vs : List MEMarketUpdate) :
    publish n (us ++ vs) = publish n us ++ publish (n + us.length) vs := by
  unfold publish
  rw [List.zipIdx_append, List.map_append]

theorem publish_updates (n : Nat) (us : List MEMarketUpdate) :
    (publish n us).map MDPMarketUpdate.me_market_update_ = us := by
  unfold publish
  rw [List.map_map]
  exact List.zipIdx_map_fst n us

theorem publish_getElem? (n : Nat) (us : List MEMarketUpdate) (i : Nat) :
    (publish n us)[i]? = us[i]?.map fun u => ⟨n + i, u⟩ := by
  unfold publish
  rw [List.getElem?_map, List.getElem?_zipIdx, Option.map_map]
  rfl

theorem mem_publish {n : Nat} {us : List MEMarketUpdate} {m : MDPMarketUpdate} :
    m ∈ publish n us ↔ n ≤ m.seq_num_ ∧ us[m.seq_num_ - n]? = some m.me_market_update_ := by
  unfold publish
  rw [List.mem_map]
  constructor
  · rintro ⟨p, hp, rfl⟩
    obtain ⟨h₁, h₂⟩ := List.mem_zipIdx_iff_le_and_getElem?_sub.mp hp
    exact ⟨h₁, h₂⟩
  · rintro ⟨h₁, h₂⟩
    exact ⟨(m.me_market_update_, m.seq_num_),
      List.mem_zipIdx_iff_le_and_getElem?_sub.mpr ⟨h₁, h₂⟩, rfl⟩

end LowLatency
