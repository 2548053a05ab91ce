import LowLatency.Common.Wire
import LowLatency.MarketData.MarketDataConsumer

/-!
# `MarketDataConsumer` and its sockets

`src/common/mcast_socket.cpp` and `recvCallback` of
`src/trading/market_data/market_data_consumer.cpp` on the bytes of a socket.
`MDPMarketUpdate` is packed like the order messages (`Wire.lean`). Of
`McastSocket` only the receiving half is here; a multicast socket is written to by
the publisher alone.

The callback reads the messages in `inbound_data_` and copies what is behind them
to the front, with a `memcpy`. On the snapshot stream, and not in recovery, it
throws everything away instead, whole messages or not.

`recvCallback_eq` says what the callback is on the level of messages, which is
what `MarketDataConsumer.lean` starts from.
-/

namespace LowLatency

open Lib

/-! ## The message as bytes -/

def updateTypeBits : MarketUpdateType → Nat
  | .INVALID => 0
  | .CLEAR => 1
  | .ADD => 2
  | .MODIFY => 3
  | .CANCEL => 4
  | .TRADE => 5
  | .SNAPSHOT_START => 6
  | .SNAPSHOT_END => 7

def updateTypeOfBits : Nat → MarketUpdateType
  | 1 => .CLEAR
  | 2 => .ADD
  | 3 => .MODIFY
  | 4 => .CANCEL
  | 5 => .TRADE
  | 6 => .SNAPSHOT_START
  | 7 => .SNAPSHOT_END
  | _ => .INVALID

theorem updateTypeOfBits_updateTypeBits (t : MarketUpdateType) :
    updateTypeOfBits (updateTypeBits t) = t := by
  cases t <;> rfl

theorem updateTypeBits_lt (t : MarketUpdateType) : updateTypeBits t < 256 ^ 1 := by
  cases t <;> decide

structure MEMarketUpdate.Fits (u : MEMarketUpdate) : Prop where
  order_id : u.order_id_ < 2 ^ 64
  ticker_id : u.ticker_id_ < 2 ^ 32
  price : PriceFits u.price_
  qty : u.qty_ < 2 ^ 32
  priority : u.priority_ < 2 ^ 64

/-- The bytes of an `MEMarketUpdate`. -/
def MEMarketUpdate.bytes (u : MEMarketUpdate) : List UInt8 :=
  leBytes 1 (updateTypeBits u.type_) ++ (leBytes 8 u.order_id_ ++ (leBytes 4 u.ticker_id_ ++
    (leBytes 1 (sideBits u.side_) ++ (leBytes 8 (priceBits u.price_) ++ (leBytes 4 u.qty_ ++
      (leBytes 8 u.priority_ ++ []))))))

/-- The `MDPMarketUpdate` at the front of some bytes. -/
def MDPMarketUpdate.ofBytes (bs : List UInt8) : MDPMarketUpdate :=
  let (seq_num, bs) := readLE 8 bs
  let (type, bs) := readLE 1 bs
  let (order_id, bs) := readLE 8 bs
  let (ticker_id, bs) := readLE 4 bs
  let (side, bs) := readLE 1 bs
  let (price, bs) := readLE 8 bs
  let (qty, bs) := readLE 4 bs
  let (priority, _) := readLE 8 bs
  ⟨seq_num, ⟨updateTypeOfBits type, order_id, ticker_id, sideOfBits side, priceOfBits price, qty,
    priority⟩⟩

theorem MDPMarketUpdate.ofBytes_bytes {m : MDPMarketUpdate} (hseq : m.seq_num_ < 2 ^ 64)
    (hfits : m.me_market_update_.Fits) :
    ofBytes (leBytes 8 m.seq_num_ ++ m.me_market_update_.bytes) = m := by
  unfold ofBytes MEMarketUpdate.bytes
  rw [readLE_append (by omega)]
  dsimp only
  rw [readLE_append (updateTypeBits_lt _)]
  dsimp only
  rw [readLE_append (by have := hfits.order_id; omega)]
  dsimp only
  rw [readLE_append (by have := hfits.ticker_id; omega)]
  dsimp only
  rw [readLE_append (sideBits_lt _)]
  dsimp only
  rw [readLE_append (priceBits_lt _)]
  dsimp only
  rw [readLE_append (by have := hfits.qty; omega)]
  dsimp only
  rw [readLE_append (by have := hfits.priority; omega)]
  dsimp only
  rw [updateTypeOfBits_updateTypeBits, sideOfBits_sideBits, priceOfBits_priceBits hfits.price]

/-- `MDPMarketUpdate` as `sizeof(MDPMarketUpdate)` bytes. -/
def updateCodec : Codec MDPMarketUpdate where
  size := 42
  size_pos := by decide
  enc := fun m => leBytes 8 m.seq_num_ ++ m.me_market_update_.bytes
  dec := MDPMarketUpdate.ofBytes
  Ok := fun m => m.seq_num_ < 2 ^ 64 ∧ m.me_market_update_.Fits
  length_enc := by simp [MEMarketUpdate.bytes]
  dec_enc := fun _ h => MDPMarketUpdate.ofBytes_bytes h.1 h.2

/-! ## The socket -/

/-- The receiving half of a socket. -/
structure McastSocket where
  inbound_data_ : Nat → UInt8
  next_rcv_valid_index_ : Nat

namespace McastSocket

/-- What no callback has consumed yet. -/
def received (s : McastSocket) : List UInt8 := slice s.inbound_data_ 0 s.next_rcv_valid_index_

/-- A `recv` that returned these bytes. -/
def recv (s : McastSocket) (bytes : List UInt8) : McastSocket where
  inbound_data_ := memcpy s.inbound_data_ s.next_rcv_valid_index_ bytes
  next_rcv_valid_index_ := s.next_rcv_valid_index_ + bytes.length

theorem recv_received (s : McastSocket) (bytes : List UInt8) :
    (s.recv bytes).received = s.received ++ bytes := by
  have hcopy := slice_memcpy s.inbound_data_ 0 s.next_rcv_valid_index_ bytes
  rw [Nat.zero_add] at hcopy
  exact hcopy

/-- `MarketDataConsumer::recvCallback` for one of the two sockets, and what it
makes of the consumer. -/
def recvCallback (socket : McastSocket) (is_snapshot : Bool) (c : MarketDataConsumer) :
    McastSocket × MarketDataConsumer :=
  if is_snapshot && !c.in_recovery_ then ({ socket with next_rcv_valid_index_ := 0 }, c)
  else if socket.next_rcv_valid_index_ ≥ updateCodec.size then
    let (requests, i) := updateCodec.frames socket.inbound_data_ socket.next_rcv_valid_index_ 0
    ({ inbound_data_ := memcpy socket.inbound_data_ 0
        (slice socket.inbound_data_ i (socket.next_rcv_valid_index_ - i))
       next_rcv_valid_index_ := socket.next_rcv_valid_index_ - i },
      requests.foldl (MarketDataConsumer.recvMessage is_snapshot) c)
  else (socket, c)

/-- **The callback on the level of messages**: it passes the complete messages to
the consumer and keeps what is behind them. -/
theorem recvCallback_eq (socket : McastSocket) (is_snapshot : Bool) (c : MarketDataConsumer) :
    (socket.recvCallback is_snapshot c).2 =
      c.recvCallback is_snapshot (updateCodec.decode socket.received) ∧
    (socket.recvCallback is_snapshot c).1.received =
      if is_snapshot && !c.in_recovery_ then [] else updateCodec.rest socket.received := by
  have hlen : socket.received.length = socket.next_rcv_valid_index_ := length_slice ..
  unfold recvCallback MarketDataConsumer.recvCallback
  split
  · exact ⟨rfl, rfl⟩
  · split
    next hread =>
      rw [updateCodec.frames_eq _ (Nat.zero_le _), Nat.sub_zero, Nat.zero_add]
      have hle := Nat.div_mul_le_self socket.next_rcv_valid_index_ updateCodec.size
      generalize hi : socket.next_rcv_valid_index_ / updateCodec.size * updateCodec.size = i at hle
      have htail : updateCodec.rest socket.received =
          slice socket.inbound_data_ i (socket.next_rcv_valid_index_ - i) := by
        rw [Codec.rest, hlen, hi, received, drop_slice _ _ hle, Nat.zero_add]
      refine ⟨rfl, ?_⟩
      -- the copied bytes are all there is in the buffer afterwards
      have hcopy := slice_memcpy socket.inbound_data_ 0 0
        (slice socket.inbound_data_ i (socket.next_rcv_valid_index_ - i))
      rw [Nat.zero_add, Nat.zero_add, length_slice] at hcopy
      rw [htail]
      exact hcopy
    next hshort =>
      have hlt : socket.received.length < updateCodec.size := by omega
      rw [updateCodec.decode_of_lt hlt, updateCodec.rest_of_lt hlt]
      exact ⟨rfl, rfl⟩

end McastSocket

end LowLatency
