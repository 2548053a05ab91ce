import Mathlib.Algebra.Order.Ring.Int
import Mathlib.Data.List.Basic
import Mathlib.Logic.Function.Basic

/-!
# Common types: capacities, ids, sides and the messages

`src/common/types.h` and the three message headers (`client_request.h`,
`client_response.h`, `market_update.h`). An id, a quantity or a priority is a
natural number, a price an integer, and every operation that can leave the
width of its C++ type reduces explicitly (`wrap32`, `wrap64`,
`priceToIndex`). Nothing else in the model overflows: a quantity is only ever
reduced by a fill that is at most as large, and a sequence number counts
messages.

The capacities are the production ones. The benchmark targets of
`CMakeLists.txt` redefine the number of clients and of order ids but keep the
256 price slots, which is the only value the proofs look at (it divides
`2 ^ 64`, so the conversion of a negative `int64_t` price to `size_t` in
`priceToIndex` agrees with the mathematical residue).
-/

namespace LowLatency

/-- Trading instruments. -/
def ME_MAX_TICKERS : Nat := 8

/-- Maximum size of the lock free queues that carry requests and responses. -/
def ME_MAX_CLIENT_UPDATES : Nat := 256 * 1024

/-- Maximum size of the lock free queues that carry market updates. -/
def ME_MAX_MARKET_UPDATES : Nat := 256 * 1024

/-- Maximum trading clients. -/
def ME_MAX_NUM_CLIENTS : Nat := 256

/-- Maximum number of orders per trading client, and the size of every order
pool. -/
def ME_MAX_ORDER_IDS : Nat := 1024 * 1024

/-- Maximum price level depth in the order books. -/
def ME_MAX_PRICE_LEVELS : Nat := 256

def OrderId_INVALID : Nat := 2 ^ 64 - 1
def TickerId_INVALID : Nat := 2 ^ 32 - 1
def ClientId_INVALID : Nat := 2 ^ 32 - 1
def Price_INVALID : Int := 2 ^ 63 - 1
def Qty_INVALID : Nat := 2 ^ 32 - 1
def Priority_INVALID : Nat := 2 ^ 64 - 1

/-- Conversion to `uint32_t`. -/
def wrap32 (n : Nat) : Nat := n % 2 ^ 32

/-- Conversion to `uint64_t`. -/
def wrap64 (n : Nat) : Nat := n % 2 ^ 64

theorem wrap32_eq {n : Nat} (h : n < 2 ^ 32) : wrap32 n = n := Nat.mod_eq_of_lt h

theorem wrap64_eq {n : Nat} (h : n < 2 ^ 64) : wrap64 n = n := Nat.mod_eq_of_lt h

inductive Side
  | INVALID
  | BUY
  | SELL
  | MAX
deriving DecidableEq, Repr, Inhabited

/-- `price % ME_MAX_PRICE_LEVELS`: the `int64_t` price is converted to
`size_t` before the remainder is taken. -/
def priceToIndex (price : Int) : Nat :=
  (price % 2 ^ 64).toNat % ME_MAX_PRICE_LEVELS

theorem priceToIndex_lt (p : Int) : priceToIndex p < ME_MAX_PRICE_LEVELS :=
  Nat.mod_lt _ (by decide)

/-- Two prices share a slot exactly when they are congruent modulo
`ME_MAX_PRICE_LEVELS`, whatever their signs. -/
theorem priceToIndex_eq_iff (p q : Int) :
    priceToIndex p = priceToIndex q ↔
      p % (ME_MAX_PRICE_LEVELS : Int) = q % (ME_MAX_PRICE_LEVELS : Int) := by
  simp only [priceToIndex, ME_MAX_PRICE_LEVELS]
  omega

/-- How a run of the code can fail to return: a null pointer is dereferenced,
`std::array::at` throws inside a `noexcept` function, an `ASSERT` exits the
process, or a loop never ends. -/
inductive Fault
  | nullDeref
  | outOfRange
  | assertion (msg : String)
  | diverges
deriving DecidableEq, Repr

abbrev Exec (α : Type) := Except Fault α

@[simp] theorem exec_ok_bind {α β : Type} (a : α) (f : α → Exec β) :
    ((Except.ok a : Exec α) >>= f) = f a := rfl

@[simp] theorem exec_error_bind {α β : Type} (e : Fault) (f : α → Exec β) :
    ((Except.error e : Exec α) >>= f) = .error e := rfl

@[simp] theorem exec_pure {α : Type} (a : α) : (pure a : Exec α) = .ok a := rfl

/-- A sequence that returned did so in both parts. -/
theorem exec_bind_ok {α β : Type} {x : Exec α} {f : α → Exec β} {b : β}
    (h : x >>= f = .ok b) : ∃ a, x = .ok a ∧ f a = .ok b := by
  cases x with
  | error e => exact absurd h (by simp)
  | ok a => exact ⟨a, rfl, h⟩

/-- Following a possibly null pointer. A pointer into a memory pool is the
index of its block. -/
def deref : Option Nat → Exec Nat
  | none => .error .nullDeref
  | some p => .ok p

@[simp] theorem deref_some (p : Nat) : deref (some p) = .ok p := rfl

theorem deref_inv {v : Option Nat} {p : Nat} (h : deref v = .ok p) : v = some p := by
  cases v with
  | none => exact absurd h (by simp [deref])
  | some q => exact congrArg some (Except.ok.inj h)

@[simp] theorem deref_none : deref none = .error .nullDeref := rfl

/-- `ASSERT(cond, msg)`. -/
def ASSERT (cond : Bool) (msg : String) : Exec Unit :=
  if cond then .ok () else .error (.assertion msg)

@[simp] theorem ASSERT_true (msg : String) : ASSERT true msg = .ok () := rfl

@[simp] theorem ASSERT_false (msg : String) : ASSERT false msg = .error (.assertion msg) := rfl

theorem ASSERT_ok {cond : Bool} {msg : String} {u : Unit} (h : ASSERT cond msg = .ok u) :
    cond = true := by
  cases cond with
  | true => rfl
  | false => exact absurd h (by simp)

/-! ## Messages -/

inductive ClientRequestType
  | INVALID
  | NEW
  | CANCEL
deriving DecidableEq, Repr

structure MEClientRequest where
  type_ : ClientRequestType := .INVALID
  client_id_ : Nat := ClientId_INVALID
  ticker_id_ : Nat := TickerId_INVALID
  order_id_ : Nat := OrderId_INVALID
  side_ : Side := .INVALID
  price_ : Int := Price_INVALID
  qty_ : Nat := Qty_INVALID
deriving DecidableEq, Repr

/-- A request as the order gateway sends it. -/
structure OMClientRequest where
  seq_num_ : Nat := 0
  me_client_request_ : MEClientRequest := {}
deriving DecidableEq, Repr

inductive ClientResponseType
  | INVALID
  | ACCEPTED
  | CANCELED
  | FILLED
  | CANCEL_REJECTED
deriving DecidableEq, Repr

structure MEClientResponse where
  type_ : ClientResponseType := .INVALID
  client_id_ : Nat := ClientId_INVALID
  ticker_id_ : Nat := TickerId_INVALID
  client_order_id_ : Nat := OrderId_INVALID
  market_order_id_ : Nat := OrderId_INVALID
  side_ : Side := .INVALID
  price_ : Int := Price_INVALID
  exec_qty_ : Nat := Qty_INVALID
  leaves_qty_ : Nat := Qty_INVALID
deriving DecidableEq, Repr

/-- A response as the order server sends it. -/
structure OMClientResponse where
  seq_num_ : Nat := 0
  me_client_response_ : MEClientResponse := {}
deriving DecidableEq, Repr

inductive MarketUpdateType
  | INVALID
  | CLEAR
  | ADD
  | MODIFY
  | CANCEL
  | TRADE
  | SNAPSHOT_START
  | SNAPSHOT_END
deriving DecidableEq, Repr

structure MEMarketUpdate where
  type_ : MarketUpdateType := .INVALID
  order_id_ : Nat := OrderId_INVALID
  ticker_id_ : Nat := TickerId_INVALID
  side_ : Side := .INVALID
  price_ : Int := Price_INVALID
  qty_ : Nat := Qty_INVALID
  priority_ : Nat := Priority_INVALID
deriving DecidableEq, Repr

/-- A number, or `INVALID` for the value that stands for none. -/
def numToString (invalid n : Nat) : String := if n = invalid then "INVALID" else toString n

def priceToString (price : Int) : String :=
  if price = Price_INVALID then "INVALID" else toString price

def sideToString : Side → String
  | .BUY => "BUY"
  | .SELL => "SELL"
  | .INVALID => "INVALID"
  | .MAX => "MAX"

def marketUpdateTypeToString : MarketUpdateType → String
  | .CLEAR => "CLEAR"
  | .ADD => "ADD"
  | .MODIFY => "MODIFY"
  | .CANCEL => "CANCEL"
  | .TRADE => "TRADE"
  | .SNAPSHOT_START => "SNAPSHOT_START"
  | .SNAPSHOT_END => "SNAPSHOT_END"
  | .INVALID => "INVALID"

def MEMarketUpdate.toString (u : MEMarketUpdate) : String :=
  "MEMarketUpdate [ type:" ++ marketUpdateTypeToString u.type_ ++
    " ticker:" ++ numToString TickerId_INVALID u.ticker_id_ ++
    " oid:" ++ numToString OrderId_INVALID u.order_id_ ++
    " side:" ++ sideToString u.side_ ++
    " qty:" ++ numToString Qty_INVALID u.qty_ ++
    " price:" ++ priceToString u.price_ ++
    " priority:" ++ numToString Priority_INVALID u.priority_ ++ "]"

structure MDPMarketUpdate where
  seq_num_ : Nat := 0
  me_market_update_ : MEMarketUpdate
deriving DecidableEq, Repr

end LowLatency
