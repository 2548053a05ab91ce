import LowLatency.Common.Types
import LowLatency.Lib.Framing

/-!
# The order messages as bytes

`client_request.h` and `client_response.h` put their structures between
`#pragma pack(push, 1)` and `#pragma pack(pop)`: on the wire a message is its
fields one after the other, without padding, each in the byte order of the
machine. An enumerator is the byte of its value, a price its two's complement.

`Fits` says that the fields are values of their C++ types. Such messages are
read back as they were written: `requestCodec`, `responseCodec`.
-/

namespace LowLatency

open Lib

/-- `++` on a sequence number, a `size_t`. -/
def nextSeqNum (n : Nat) : Nat := wrap64 (n + 1)

theorem nextSeqNum_lt (n : Nat) : nextSeqNum n < 2 ^ 64 := Nat.mod_lt _ (by decide)

/-! ## Fields -/

def sideBits : Side → Nat
  | .INVALID => 0
  | .BUY => 1
  | .SELL => 255
  | .MAX => 2

def sideOfBits : Nat → Side
  | 1 => .BUY
  | 255 => .SELL
  | 2 => .MAX
  | _ => .INVALID

theorem sideOfBits_sideBits (s : Side) : sideOfBits (sideBits s) = s := by
  cases s <;> rfl

theorem sideBits_lt (s : Side) : sideBits s < 256 ^ 1 := by
  cases s <;> decide

def requestTypeBits : ClientRequestType → Nat
  | .INVALID => 0
  | .NEW => 1
  | .CANCEL => 2

def requestTypeOfBits : Nat → ClientRequestType
  | 1 => .NEW
  | 2 => .CANCEL
  | _ => .INVALID

theorem requestTypeOfBits_requestTypeBits (t : ClientRequestType) :
    requestTypeOfBits (requestTypeBits t) = t := by
  cases t <;> rfl

theorem requestTypeBits_lt (t : ClientRequestType) : requestTypeBits t < 256 ^ 1 := by
  cases t <;> decide

def responseTypeBits : ClientResponseType → Nat
  | .INVALID => 0
  | .ACCEPTED => 1
  | .CANCELED => 2
  | .FILLED => 3
  | .CANCEL_REJECTED => 4

def responseTypeOfBits : Nat → ClientResponseType
  | 1 => .ACCEPTED
  | 2 => .CANCELED
  | 3 => .FILLED
  | 4 => .CANCEL_REJECTED
  | _ => .INVALID

theorem responseTypeOfBits_responseTypeBits (t : ClientResponseType) :
    responseTypeOfBits (responseTypeBits t) = t := by
  cases t <;> rfl

theorem responseTypeBits_lt (t : ClientResponseType) : responseTypeBits t < 256 ^ 1 := by
  cases t <;> decide

/-- A value of the type `Price`. -/
def PriceFits (price : Int) : Prop := -(2 ^ 63) ≤ price ∧ price < 2 ^ 63

/-! The values that stand for none are values of their types. -/

theorem OrderId_INVALID_lt : OrderId_INVALID < 2 ^ 64 := by decide

theorem ClientId_INVALID_lt : ClientId_INVALID < 2 ^ 32 := by decide

theorem Qty_INVALID_lt : Qty_INVALID < 2 ^ 32 := by decide

theorem Price_INVALID_fits : PriceFits Price_INVALID := ⟨by decide, by decide⟩

def priceBits (price : Int) : Nat := (price % 2 ^ 64).toNat

def priceOfBits (n : Nat) : Int := if n < 2 ^ 63 then n else (n : Int) - 2 ^ 64

theorem priceOfBits_priceBits {price : Int} (h : PriceFits price) :
    priceOfBits (priceBits price) = price := by
  obtain ⟨hlo, hhi⟩ := h
  unfold priceOfBits priceBits
  split <;> omega

theorem priceBits_lt (price : Int) : priceBits price < 256 ^ 8 := by
  unfold priceBits
  omega

/-! ## Requests -/

structure MEClientRequest.Fits (r : MEClientRequest) : Prop where
  client_id : r.client_id_ < 2 ^ 32
  ticker_id : r.ticker_id_ < 2 ^ 32
  order_id : r.order_id_ < 2 ^ 64
  price : PriceFits r.price_
  qty : r.qty_ < 2 ^ 32

/-- The bytes of an `MEClientRequest`. -/
def MEClientRequest.bytes (r : MEClientRequest) : List UInt8 :=
  leBytes 1 (requestTypeBits r.type_) ++ (leBytes 4 r.client_id_ ++ (leBytes 4 r.ticker_id_ ++
    (leBytes 8 r.order_id_ ++ (leBytes 1 (sideBits r.side_) ++ (leBytes 8 (priceBits r.price_) ++
      (leBytes 4 r.qty_ ++ []))))))

/-- The `OMClientRequest` at the front of some bytes. -/
def OMClientRequest.ofBytes (bs : List UInt8) : OMClientRequest :=
  let (seq_num, bs) := readLE 8 bs
  let (type, bs) := readLE 1 bs
  let (client_id, bs) := readLE 4 bs
  let (ticker_id, bs) := readLE 4 bs
  let (order_id, bs) := readLE 8 bs
  let (side, bs) := readLE 1 bs
  let (price, bs) := readLE 8 bs
  let (qty, _) := readLE 4 bs
  ⟨seq_num, ⟨requestTypeOfBits type, client_id, ticker_id, order_id, sideOfBits side,
    priceOfBits price, qty⟩⟩

theorem OMClientRequest.ofBytes_bytes {m : OMClientRequest} (hseq : m.seq_num_ < 2 ^ 64)
    (hfits : m.me_client_request_.Fits) :
    ofBytes (leBytes 8 m.seq_num_ ++ m.me_client_request_.bytes) = m := by
  unfold ofBytes MEClientRequest.bytes
  rw [readLE_append (by omega)]
  dsimp only
  rw [readLE_append (requestTypeBits_lt _)]
  dsimp only
  rw [readLE_append (by have := hfits.client_id; omega)]
  dsimp only
  rw [readLE_append (by have := hfits.ticker_id; omega)]
  dsimp only
  rw [readLE_append (by have := hfits.order_id; omega)]
  dsimp only
  rw [readLE_append (sideBits_lt _)]
  dsimp only
  rw [readLE_append (priceBits_lt _)]
  dsimp only
  rw [readLE_append (by have := hfits.qty; omega)]
  dsimp only
  rw [requestTypeOfBits_requestTypeBits, sideOfBits_sideBits, priceOfBits_priceBits hfits.price]

/-- `OMClientRequest` as `sizeof(OMClientRequest)` bytes. -/
def requestCodec : Codec OMClientRequest where
  size := 38
  size_pos := by decide
  enc := fun m => leBytes 8 m.seq_num_ ++ m.me_client_request_.bytes
  dec := OMClientRequest.ofBytes
  Ok := fun m => m.seq_num_ < 2 ^ 64 ∧ m.me_client_request_.Fits
  length_enc := by simp [MEClientRequest.bytes]
  dec_enc := fun _ h => OMClientRequest.ofBytes_bytes h.1 h.2

/-! ## Responses -/

structure MEClientResponse.Fits (r : MEClientResponse) : Prop where
  client_id : r.client_id_ < 2 ^ 32
  ticker_id : r.ticker_id_ < 2 ^ 32
  client_order_id : r.client_order_id_ < 2 ^ 64
  market_order_id : r.market_order_id_ < 2 ^ 64
  price : PriceFits r.price_
  exec_qty : r.exec_qty_ < 2 ^ 32
  leaves_qty : r.leaves_qty_ < 2 ^ 32

/-- The bytes of an `MEClientResponse`. -/
def MEClientResponse.bytes (r : MEClientResponse) : List UInt8 :=
  leBytes 1 (responseTypeBits r.type_) ++ (leBytes 4 r.client_id_ ++ (leBytes 4 r.ticker_id_ ++
    (leBytes 8 r.client_order_id_ ++ (leBytes 8 r.market_order_id_ ++
      (leBytes 1 (sideBits r.side_) ++ (leBytes 8 (priceBits r.price_) ++
        (leBytes 4 r.exec_qty_ ++ (leBytes 4 r.leaves_qty_ ++ []))))))))

/-- The `OMClientResponse` at the front of some bytes. -/
def OMClientResponse.ofBytes (bs : List UInt8) : OMClientResponse :=
  let (seq_num, bs) := readLE 8 bs
  let (type, bs) := readLE 1 bs
  let (client_id, bs) := readLE 4 bs
  let (ticker_id, bs) := readLE 4 bs
  let (client_order_id, bs) := readLE 8 bs
  let (market_order_id, bs) := readLE 8 bs
  let (side, bs) := readLE 1 bs
  let (price, bs) := readLE 8 bs
  let (exec_qty, bs) := readLE 4 bs
  let (leaves_qty, _) := readLE 4 bs
  ⟨seq_num, ⟨responseTypeOfBits type, client_id, ticker_id, client_order_id, market_order_id,
    sideOfBits side, priceOfBits price, exec_qty, leaves_qty⟩⟩

theorem OMClientResponse.ofBytes_bytes {m : OMClientResponse} (hseq : m.seq_num_ < 2 ^ 64)
    (hfits : m.me_client_response_.Fits) :
    ofBytes (leBytes 8 m.seq_num_ ++ m.me_client_response_.bytes) = m := by
  unfold ofBytes MEClientResponse.bytes
  rw [readLE_append (by omega)]
  dsimp only
  rw [readLE_append (responseTypeBits_lt _)]
  dsimp only
  rw [readLE_append (by have := hfits.client_id; omega)]
  dsimp only
  rw [readLE_append (by have := hfits.ticker_id; omega)]
  dsimp only
  rw [readLE_append (by have := hfits.client_order_id; omega)]
  dsimp only
  rw [readLE_append (by have := hfits.market_order_id; omega)]
  dsimp only
  rw [readLE_append (sideBits_lt _)]
  dsimp only
  rw [readLE_append (priceBits_lt _)]
  dsimp only
  rw [readLE_append (by have := hfits.exec_qty; omega)]
  dsimp only
  rw [readLE_append (by have := hfits.leaves_qty; omega)]
  dsimp only
  rw [responseTypeOfBits_responseTypeBits, sideOfBits_sideBits, priceOfBits_priceBits hfits.price]

/-- `OMClientResponse` as `sizeof(OMClientResponse)` bytes. -/
def responseCodec : Codec OMClientResponse where
  size := 50
  size_pos := by decide
  enc := fun m => leBytes 8 m.seq_num_ ++ m.me_client_response_.bytes
  dec := OMClientResponse.ofBytes
  Ok := fun m => m.seq_num_ < 2 ^ 64 ∧ m.me_client_response_.Fits
  length_enc := by simp [MEClientResponse.bytes]
  dec_enc := fun _ h => OMClientResponse.ofBytes_bytes h.1 h.2

end LowLatency
