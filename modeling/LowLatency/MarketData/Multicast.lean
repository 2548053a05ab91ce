import LowLatency.MarketData.Datagrams
import LowLatency.MarketData.Mirror
import LowLatency.Matcher.UpdateWidths

/-!
# The market data feed over UDP

The market data once more, as bytes: `src/common/mcast_socket.cpp` with both its
halves, the loop of `market_data_publisher.cpp`, `publishSnapshot` of
`snapshot_synthesizer.cpp` and the callback of `market_data_consumer.cpp`. The
publisher copies number and update behind what is in its buffer; `sendAndRecv`
hands the whole buffer to the kernel, once, and forgets it whatever the kernel does
with it. The kernel takes no datagram longer than `MaxDatagram`, and may refuse any.
What it took may arrive at any time later, any number of times, or never.

`GapRecovery` and `Mirror` speak of datagrams as lists of messages. That is what they
are (`Shows`): every step here is a step there, for a datagram that the kernel refuses
is one that is never received. So a client shows the exchange's books
(`udp_mirrors_exchange`), and no byte is ever left in a buffer of the receiver. A cycle
always goes out. The increments do as long as the publisher finds no more than 1559 of
them waiting; those of a longer round are all lost.
-/

namespace LowLatency

open Lib

/-! ## The sending half of a socket -/

/-- Size of the send and receive buffers in bytes. -/
def McastBufferSize : Nat := 64 * 1024 * 1024

/-- The most that a UDP datagram carries. -/
def MaxDatagram : Nat := 65507

/-- The sending half of a `McastSocket`. -/
structure McastOutbound where
  outbound_data_ : Nat → UInt8
  next_send_valid_index_ : Nat

namespace McastOutbound

def init : McastOutbound := ⟨fun _ => 0, 0⟩

/-- What waits for `sendAndRecv`. -/
def unsent (s : McastOutbound) : List UInt8 := slice s.outbound_data_ 0 s.next_send_valid_index_

/-- Copy data to the send buffer. That there was room for it is asserted
afterwards. -/
def send (s : McastOutbound) (data : List UInt8) : Exec McastOutbound := do
  let s : McastOutbound :=
    { outbound_data_ := memcpy s.outbound_data_ s.next_send_valid_index_ data
      next_send_valid_index_ := s.next_send_valid_index_ + data.length }
  ASSERT (decide (s.next_send_valid_index_ < McastBufferSize))
    "Mcast socket buffer filled up and sendAndRecv() not called."
  return s

/-- The sending half of `sendAndRecv`: the socket afterwards, and what `::send` is
called with. -/
def sendAndRecv (s : McastOutbound) : McastOutbound × Option (List UInt8) :=
  ({ s with next_send_valid_index_ := 0 },
    if s.next_send_valid_index_ > 0 then some s.unsent else none)

theorem length_unsent (s : McastOutbound) : s.unsent.length = s.next_send_valid_index_ :=
  length_slice ..

/-- Nothing waits, or all of it is handed over. -/
theorem sendAndRecv_handed (s : McastOutbound) :
    (s.unsent = [] ∧ s.sendAndRecv.2 = none) ∨
      (s.unsent ≠ [] ∧ s.sendAndRecv.2 = some s.unsent) := by
  have hlen := s.length_unsent
  unfold sendAndRecv
  by_cases hpos : s.next_send_valid_index_ > 0
  · refine .inr ⟨fun hnil => ?_, if_pos hpos⟩
    rw [hnil, List.length_nil] at hlen
    omega
  · refine .inl ⟨List.eq_nil_of_length_eq_zero ?_, if_neg hpos⟩
    omega

/-- **Sent data goes behind what waits**, if there is room for more than it. -/
theorem send_eq (s : McastOutbound) (data : List UInt8) :
    (s.unsent.length + data.length < McastBufferSize ∧
      ∃ s', s.send data = .ok s' ∧ s'.unsent = s.unsent ++ data) ∨
    (McastBufferSize ≤ s.unsent.length + data.length ∧ s.send data =
      .error (.assertion "Mcast socket buffer filled up and sendAndRecv() not called.")) := by
  unfold send
  rw [s.length_unsent]
  by_cases hroom : s.next_send_valid_index_ + data.length < McastBufferSize
  · have hcopy := slice_memcpy s.outbound_data_ 0 s.next_send_valid_index_ data
    rw [Nat.zero_add] at hcopy
    refine .inl ⟨hroom, ⟨memcpy s.outbound_data_ s.next_send_valid_index_ data,
      s.next_send_valid_index_ + data.length⟩, ?_, hcopy⟩
    simp only [hroom, decide_true, ASSERT_true]
    rfl
  · refine .inr ⟨Nat.le_of_not_lt hroom, ?_⟩
    simp only [hroom, decide_false, ASSERT_false]
    rfl

theorem send_unsent {s s' : McastOutbound} {data : List UInt8} (h : s.send data = .ok s') :
    s'.unsent = s.unsent ++ data := by
  rcases s.send_eq data with ⟨_, s₁, hs₁, hunsent⟩ | ⟨_, herror⟩
  · obtain rfl := Except.ok.inj (h.symm.trans hs₁)
    exact hunsent
  · exact absurd (h.symm.trans herror) (by simp)

/-- Number and update, as the publisher sends them. -/
def sendUpdate (s : McastOutbound) (seq_num : Nat) (u : MEMarketUpdate) : Exec McastOutbound := do
  let s ← s.send (leBytes 8 seq_num)
  s.send u.bytes

theorem sendUpdate_unsent {s s' : McastOutbound} {seq_num : Nat} {u : MEMarketUpdate}
    (h : s.sendUpdate seq_num u = .ok s') :
    s'.unsent = s.unsent ++ updateCodec.enc ⟨seq_num, u⟩ := by
  obtain ⟨s₁, hs₁, h⟩ := exec_bind_ok h
  rw [send_unsent h, send_unsent hs₁, List.append_assoc]
  rfl

/-- There is room for number and update, or one of the two `ASSERT`s fires. -/
theorem sendUpdate_ok_iff (s : McastOutbound) (seq_num : Nat) (u : MEMarketUpdate) :
    (∃ s', s.sendUpdate seq_num u = .ok s') ↔ s.unsent.length + 42 < McastBufferSize := by
  have hnumber : (leBytes 8 seq_num).length = 8 := length_leBytes ..
  have hupdate : u.bytes.length = 34 := by simp [MEMarketUpdate.bytes]
  unfold sendUpdate
  rcases s.send_eq (leBytes 8 seq_num) with ⟨_, s₁, hs₁, hunsent⟩ | ⟨hfull, herror⟩
  · rw [hs₁, exec_ok_bind]
    rcases s₁.send_eq u.bytes with ⟨hroom, s₂, hs₂, _⟩ | ⟨hfull, herror⟩
    · rw [hunsent, List.length_append] at hroom
      exact ⟨fun _ => by omega, fun _ => ⟨s₂, hs₂⟩⟩
    · rw [hunsent, List.length_append] at hfull
      rw [herror]
      exact ⟨fun ⟨_, h⟩ => absurd h (by simp), fun h => absurd h (by omega)⟩
  · rw [herror, exec_error_bind]
    exact ⟨fun ⟨_, h⟩ => absurd h (by simp), fun h => absurd h (by omega)⟩

end McastOutbound

/-- `recv` of a datagram. What there is no room for is lost. -/
def McastSocket.recvDatagram (s : McastSocket) (datagram : List UInt8) : McastSocket :=
  s.recv (datagram.take (McastBufferSize - s.next_rcv_valid_index_))

/-- What the kernel may take of the datagrams handed to it. -/
def KernelTook (handed taken : List (List UInt8)) : Prop :=
  taken.Sublist handed ∧ ∀ d ∈ taken, d.length ≤ MaxDatagram

/-! ## A cycle -/

/-- `publishSnapshot` under way. -/
structure SnapshotCycle where
  snapshot_size : Nat
  snapshot_socket_ : McastOutbound
  handed : List (List UInt8)

namespace SnapshotCycle

/-- Send one message, with the next number. -/
def send (x : SnapshotCycle) (u : MEMarketUpdate) : Exec SnapshotCycle := do
  let socket ← x.snapshot_socket_.send (updateCodec.enc ⟨x.snapshot_size, u⟩)
  return { x with snapshot_size := x.snapshot_size + 1, snapshot_socket_ := socket }

def sendAndRecv (x : SnapshotCycle) : SnapshotCycle :=
  { x with
    snapshot_socket_ := x.snapshot_socket_.sendAndRecv.1
    handed := x.handed ++ x.snapshot_socket_.sendAndRecv.2.toList }

/-- Publish each order. -/
def sendOrders : List MEMarketUpdate → SnapshotCycle → Exec SnapshotCycle
  | [], x => .ok x
  | order :: orders, x => do
    let x ← x.send order
    sendOrders orders x.sendAndRecv

/-- The loop over the instruments. -/
def sendTickers (s : SnapshotSynthesizer) : List Nat → SnapshotCycle → Exec SnapshotCycle
  | [], x => .ok x
  | ticker_id :: ticker_ids, x => do
    let x ← x.send { type_ := .CLEAR, ticker_id_ := ticker_id }
    let x ← sendOrders (s.tickerOrders ticker_id) x
    sendTickers s ticker_ids x

end SnapshotCycle

/-- Publish a full snapshot cycle on a socket: the socket afterwards, and all that
`::send` is called with. -/
def SnapshotSynthesizer.sendSnapshot (s : SnapshotSynthesizer) (snapshot_socket : McastOutbound) :
    Exec (McastOutbound × List (List UInt8)) := do
  let x ← SnapshotCycle.send ⟨0, snapshot_socket, []⟩
    { type_ := .SNAPSHOT_START, order_id_ := s.last_inc_seq_num_ }
  let x ← SnapshotCycle.sendTickers s (List.range ME_MAX_TICKERS) x
  let x ← x.send { type_ := .SNAPSHOT_END, order_id_ := s.last_inc_seq_num_ }
  return (x.sendAndRecv.snapshot_socket_, x.sendAndRecv.handed)

namespace SnapshotCycle

/-- The messages `out` wait, and `ds` have gone out. -/
structure At (x : SnapshotCycle) (n : Nat) (out : List MDPMarketUpdate)
    (ds : List (List MDPMarketUpdate)) : Prop where
  size : x.snapshot_size = n
  unsent : x.snapshot_socket_.unsent = updateCodec.encode out
  handed : x.handed = ds.map updateCodec.encode

variable {x : SnapshotCycle} {n : Nat} {out : List MDPMarketUpdate}
  {ds : List (List MDPMarketUpdate)}

/-- How many messages there may be in the buffer. -/
theorem At.send (h : x.At n out ds) (hroom : out.length < 100) (u : MEMarketUpdate) :
    ∃ x', x.send u = .ok x' ∧ x'.At (n + 1) (out ++ [⟨n, u⟩]) ds := by
  have hlen : (updateCodec.enc ⟨x.snapshot_size, u⟩).length = 42 := updateCodec.length_enc _
  have hout : x.snapshot_socket_.unsent.length = out.length * 42 := by
    rw [h.unsent]
    exact updateCodec.length_encode out
  rcases x.snapshot_socket_.send_eq (updateCodec.enc ⟨x.snapshot_size, u⟩) with
    ⟨_, socket, hsend, hunsent⟩ | ⟨hfull, _⟩
  · refine ⟨{ x with snapshot_size := x.snapshot_size + 1, snapshot_socket_ := socket }, ?_,
      congrArg (· + 1) h.size, ?_, h.handed⟩
    · unfold SnapshotCycle.send
      rw [hsend]
      rfl
    · rw [hunsent, h.unsent, h.size, updateCodec.encode_append]
      simp
  · unfold McastBufferSize at hfull
    omega

theorem At.sendAndRecv (h : x.At n out ds) (hne : out ≠ []) :
    x.sendAndRecv.At n [] (ds ++ [out]) := by
  refine ⟨h.size, rfl, ?_⟩
  have hwaits : x.snapshot_socket_.unsent ≠ [] := by
    intro hnil
    have hlen := updateCodec.length_encode out
    rw [← h.unsent, hnil] at hlen
    have hpos := List.length_pos_of_ne_nil hne
    have hsize := updateCodec.size_pos
    exact absurd hlen (Nat.ne_of_lt (Nat.mul_pos hpos hsize))
  unfold SnapshotCycle.sendAndRecv
  rcases x.snapshot_socket_.sendAndRecv_handed with ⟨hnil, _⟩ | ⟨_, hsome⟩
  · exact absurd hnil hwaits
  · rw [hsome, h.handed, h.unsent, List.map_append]
    rfl

/-- A message of a cycle that `sendAndRecv` follows. -/
def Flushes (u : MEMarketUpdate) : Prop := ¬ (u.type_ = .SNAPSHOT_START ∨ u.type_ = .CLEAR)

/-- Messages of a cycle, from number `n` on, are sent when `out` waits: `ds` goes out
and `out'` waits then, as `datagrams` has it. -/
structure Sent (n : Nat) (out : List MDPMarketUpdate) (us : List MEMarketUpdate)
    (out' : List MDPMarketUpdate) (ds : List (List MDPMarketUpdate)) : Prop where
  datagrams : ∀ rest, datagrams out (publish n us ++ rest) = ds ++ datagrams out' rest
  short : ∀ d ∈ ds, d.length ≤ 100

theorem Sent.nil : Sent n out [] out [] := ⟨fun _ => rfl, by simp⟩

theorem Sent.append {us vs : List MEMarketUpdate} {out₁ out₂ : List MDPMarketUpdate}
    {ds₁ ds₂ : List (List MDPMarketUpdate)} (h : Sent n out us out₁ ds₁)
    (h' : Sent (n + us.length) out₁ vs out₂ ds₂) : Sent n out (us ++ vs) out₂ (ds₁ ++ ds₂) where
  datagrams := by
    intro rest
    rw [publish_append, List.append_assoc, h.datagrams, h'.datagrams, List.append_assoc]
  short := fun d hd => (List.mem_append.mp hd).elim (h.short d) (h'.short d)

theorem Sent.waiting {u : MEMarketUpdate} (hu : ¬ Flushes u) :
    Sent n out [u] (out ++ [⟨n, u⟩]) [] :=
  ⟨fun _ => if_pos (not_not.mp hu), by simp⟩

theorem Sent.flushed {u : MEMarketUpdate} (hu : Flushes u) (hroom : out.length < 100) :
    Sent n out [u] [] [out ++ [⟨n, u⟩]] := by
  refine ⟨fun _ => if_neg hu, fun d hd => ?_⟩
  rw [List.mem_singleton.mp hd, List.length_append]
  exact hroom

/-- **The orders of an instrument** go out one by one, the first with what waits. -/
theorem At.sendOrders {orders : List MEMarketUpdate} (hflush : ∀ u ∈ orders, Flushes u)
    (h : x.At n out ds) (hroom : out.length < 100) :
    ∃ x' out' ds', SnapshotCycle.sendOrders orders x = .ok x' ∧
      x'.At (n + orders.length) out' (ds ++ ds') ∧ out'.length ≤ out.length ∧
      Sent n out orders out' ds' := by
  induction orders generalizing x n out ds with
  | nil =>
    refine ⟨x, out, [], rfl, ?_, Nat.le_refl _, .nil⟩
    rw [List.append_nil]
    exact h
  | cons u us ih =>
    obtain ⟨x₁, hx₁, h₁⟩ := h.send hroom u
    obtain ⟨x', out', ds', hrun, hat, hle, hsent⟩ :=
      ih (fun v hv => hflush v (List.mem_cons_of_mem _ hv)) (h₁.sendAndRecv (by simp)) (by simp)
    have hfirst : Sent n out [u] [] _ := .flushed (hflush u (List.mem_cons_self ..)) hroom
    refine ⟨x', out', _, ?_, ?_, hle.trans (by simp), hfirst.append hsent⟩
    · unfold SnapshotCycle.sendOrders
      rw [hx₁]
      exact hrun
    · rw [← List.append_assoc, List.length_cons, Nat.add_comm us.length, ← Nat.add_assoc]
      exact hat

/-- The messages about some instruments. -/
def tickerMessages (s : SnapshotSynthesizer) (ticker_ids : List Nat) : List MEMarketUpdate :=
  ticker_ids.flatMap fun t => { type_ := .CLEAR, ticker_id_ := t } :: s.tickerOrders t

/-- **The loop over the instruments**: each adds a `CLEAR` to what waits, at most. -/
theorem At.sendTickers {s : SnapshotSynthesizer} (hflush : ∀ t, ∀ u ∈ s.tickerOrders t, Flushes u)
    {ticker_ids : List Nat} (h : x.At n out ds) (hroom : out.length + ticker_ids.length < 100) :
    ∃ x' out' ds', SnapshotCycle.sendTickers s ticker_ids x = .ok x' ∧
      x'.At (n + (tickerMessages s ticker_ids).length) out' (ds ++ ds') ∧
      out'.length ≤ out.length + ticker_ids.length ∧
      Sent n out (tickerMessages s ticker_ids) out' ds' := by
  induction ticker_ids generalizing x n out ds with
  | nil =>
    refine ⟨x, out, [], rfl, ?_, Nat.le_refl _, .nil⟩
    rw [List.append_nil]
    exact h
  | cons t ts ih =>
    rw [List.length_cons] at hroom
    generalize hclear : ({ type_ := .CLEAR, ticker_id_ := t } : MEMarketUpdate) = clear
    have hwaits : ¬ Flushes clear := by
      rw [← hclear]
      exact not_not.mpr (.inr rfl)
    have hsplit : tickerMessages s (t :: ts) =
        ([clear] ++ s.tickerOrders t) ++ tickerMessages s ts := by
      rw [← hclear, tickerMessages, List.flatMap_cons, List.singleton_append]
      rfl
    obtain ⟨x₁, hx₁, h₁⟩ := h.send (by omega) clear
    obtain ⟨x₂, out₂, ds₂, hrun₂, h₂, hle₂, hsent₂⟩ :=
      h₁.sendOrders (hflush t) (by rw [List.length_append, List.length_singleton]; omega)
    rw [List.length_append, List.length_singleton] at hle₂
    obtain ⟨x', out', ds', hrun, hat, hle, hsent⟩ := ih h₂ (by omega)
    have hnum : n + ([clear] ++ s.tickerOrders t).length = n + 1 + (s.tickerOrders t).length := by
      rw [List.length_append, List.length_singleton, Nat.add_assoc]
    refine ⟨x', out', ds₂ ++ ds', ?_, ?_, ?_, ?_⟩
    · unfold SnapshotCycle.sendTickers
      rw [hclear, hx₁, exec_ok_bind, hrun₂, exec_ok_bind]
      exact hrun
    · rw [hsplit, List.length_append, ← Nat.add_assoc, hnum, ← List.append_assoc]
      exact hat
    · rw [List.length_cons]
      omega
    · rw [← hnum] at hsent
      rw [hsplit]
      exact ((Sent.waiting hwaits).append hsent₂).append hsent

end SnapshotCycle

open SnapshotCycle (Flushes Sent tickerMessages)

/-- **A cycle always goes out**, in the datagrams that the model of messages has. -/
theorem SnapshotSynthesizer.Keeps.sendSnapshot {s : SnapshotSynthesizer} {L : LiveOrders}
    (hs : s.Keeps L) {socket : McastOutbound} (hsocket : socket.unsent = []) :
    ∃ socket', s.sendSnapshot socket =
        .ok (socket', (datagrams [] s.publishSnapshot).map updateCodec.encode) ∧
      socket'.unsent = [] ∧ ∀ d ∈ datagrams [] s.publishSnapshot, d.length ≤ 100 := by
  have hflush : ∀ t, ∀ u ∈ s.tickerOrders t, Flushes u := by
    intro t u hu
    obtain ⟨i, _, hi⟩ := List.mem_filterMap.mp hu
    obtain ⟨p, hp, rfl⟩ := Option.map_eq_some_iff.mp hi
    unfold Flushes
    rw [(hs.block hp).2.2.1]
    simp
  have hmessages : s.snapshotMessages =
      [{ type_ := .SNAPSHOT_START, order_id_ := s.last_inc_seq_num_ }] ++
        tickerMessages s (List.range ME_MAX_TICKERS) ++
        [{ type_ := .SNAPSHOT_END, order_id_ := s.last_inc_seq_num_ }] := rfl
  unfold SnapshotSynthesizer.publishSnapshot SnapshotSynthesizer.sendSnapshot
  rw [hmessages]
  generalize hstart : ({ type_ := .SNAPSHOT_START, order_id_ := s.last_inc_seq_num_ } :
    MEMarketUpdate) = start
  generalize hend : ({ type_ := .SNAPSHOT_END, order_id_ := s.last_inc_seq_num_ } :
    MEMarketUpdate) = last
  have hwaits : ¬ Flushes start := by
    rw [← hstart]
    exact not_not.mpr (.inl rfl)
  have hflushes : Flushes last := by
    rw [← hend]
    simp [Flushes]
  have h₀ : SnapshotCycle.At ⟨0, socket, []⟩ 0 [] [] := ⟨rfl, hsocket, rfl⟩
  obtain ⟨x₁, hx₁, h₁⟩ := h₀.send (by simp) start
  have hhead : ([] ++ [(⟨0, start⟩ : MDPMarketUpdate)]).length +
      (List.range ME_MAX_TICKERS).length < 100 := by
    rw [List.length_append, List.length_range]
    show 0 + 1 + 8 < 100
    decide
  obtain ⟨x₂, out, ds, hrun, h₂, hle, hsent⟩ := h₁.sendTickers hflush hhead
  have hnum : 0 + ([start] ++ tickerMessages s (List.range ME_MAX_TICKERS)).length =
      0 + 1 + (tickerMessages s (List.range ME_MAX_TICKERS)).length := by
    rw [List.length_append, List.length_singleton, Nat.add_assoc]
  rw [← hnum] at h₂
  have hroom := hle.trans_lt hhead
  obtain ⟨x₃, hx₃, h₃⟩ := h₂.send hroom last
  have h₄ := h₃.sendAndRecv (by simp)
  have hall := ((Sent.waiting hwaits).append hsent).append (Sent.flushed hflushes hroom)
  have hdatagrams := hall.datagrams []
  rw [List.append_nil, datagrams, List.append_nil] at hdatagrams
  rw [hdatagrams, hx₁, exec_ok_bind, hrun, exec_ok_bind, hx₃, exec_ok_bind]
  exact ⟨_, congrArg Except.ok (Prod.ext rfl h₄.handed), h₄.unsent, hall.short⟩

/-! ## What is sent can be read back -/

namespace SnapshotSynthesizer

/-- Every block of the pool holds values of their types. -/
def BlocksFit (s : SnapshotSynthesizer) : Prop := ∀ p, (s.order_pool_.get p).Fits

theorem fits_default : ({} : MEMarketUpdate).Fits :=
  ⟨OrderId_INVALID_lt, TickerId_INVALID_lt, Price_INVALID_fits, Qty_INVALID_lt,
    Priority_INVALID_lt⟩

theorem blocksFit_init : BlocksFit init := fun _ => fits_default

variable {s s' : SnapshotSynthesizer}

theorem BlocksFit.onUpdate (h : s.BlocksFit) {u : MEMarketUpdate} (hu : u.Fits)
    (hrun : s.onUpdate u = .ok s') : s'.BlocksFit := by
  unfold SnapshotSynthesizer.onUpdate at hrun
  split at hrun
  · -- ADD: one block is filled
    obtain ⟨order, _, hrun⟩ := exec_bind_ok hrun
    obtain ⟨_, _, hrun⟩ := exec_bind_ok hrun
    obtain ⟨⟨p, m⟩, halloc, hrun⟩ := exec_bind_ok hrun
    obtain rfl := Except.ok.inj hrun
    intro p'
    show (m.get p').Fits
    rw [MemPool.get_of_store (MemPool.allocate_inv halloc).2]
    split
    · exact hu
    · exact h p'
  · -- MODIFY
    obtain ⟨p, _, hrun⟩ := exec_bind_ok hrun
    obtain rfl := Except.ok.inj hrun
    intro p'
    show ((s.order_pool_.set p _).get p').Fits
    rw [MemPool.get_set]
    split
    · exact { h p with price := hu.price, qty := hu.qty }
    · exact h p'
  · -- CANCEL: a block is given back as it is
    obtain ⟨p, _, hrun⟩ := exec_bind_ok hrun
    obtain ⟨m, hm, hrun⟩ := exec_bind_ok hrun
    obtain rfl := Except.ok.inj hrun
    intro p'
    show (m.get p').Fits
    rw [(MemPool.deallocate_inv hm).2, MemPool.get_release]
    exact h p'
  all_goals
    split at hrun
    · obtain rfl := Except.ok.inj hrun
      exact h
    · exact absurd hrun (by simp)

theorem BlocksFit.addAllToSnapshot (h : s.BlocksFit) {ms : List MDPMarketUpdate}
    (hms : ∀ m ∈ ms, m.me_market_update_.Fits) (hrun : s.addAllToSnapshot ms = .ok s') :
    s'.BlocksFit := by
  induction ms generalizing s with
  | nil =>
    obtain rfl := Except.ok.inj hrun
    exact h
  | cons m ms ih =>
    obtain ⟨s₁, hstep, hrun⟩ := exec_bind_ok hrun
    refine ih ?_ (fun m' hm' => hms m' (List.mem_cons_of_mem _ hm')) hrun
    obtain ⟨s₂, hupdate, hstep⟩ := exec_bind_ok hstep
    obtain ⟨_, _, hstep⟩ := exec_bind_ok hstep
    obtain rfl := Except.ok.inj hstep
    have h₂ : s₂.BlocksFit := h.onUpdate (hms m (List.mem_cons_self ..)) hupdate
    exact h₂

theorem Built.blocksFit {us : List MEMarketUpdate} (h : Built us s) (hus : ∀ u ∈ us, u.Fits) :
    s.BlocksFit := by
  refine blocksFit_init.addAllToSnapshot (fun m hm => ?_) h.2
  obtain ⟨_, hget⟩ := mem_publish.mp hm
  exact hus _ (List.mem_of_mem_take (List.mem_of_getElem? hget))

theorem length_tickerMessages_le (s : SnapshotSynthesizer) (ticker_ids : List Nat) :
    (tickerMessages s ticker_ids).length ≤ ticker_ids.length * (ME_MAX_ORDER_IDS + 1) := by
  induction ticker_ids with
  | nil => exact Nat.zero_le _
  | cons t ts ih =>
    have horders : (s.tickerOrders t).length ≤ ME_MAX_ORDER_IDS := by
      have hle := List.length_filterMap_le (fun i => (s.ticker_orders_ t i).map s.order_pool_.get)
        (List.range ME_MAX_ORDER_IDS)
      rwa [List.length_range] at hle
    unfold tickerMessages at ih ⊢
    rw [List.flatMap_cons, List.length_append, List.length_cons, List.length_cons, Nat.succ_mul]
    omega

/-- **The messages of a cycle** are values of their types. -/
theorem BlocksFit.publishSnapshot (h : s.BlocksFit) (hlast : s.last_inc_seq_num_ < 2 ^ 64) :
    ∀ m ∈ s.publishSnapshot, updateCodec.Ok m := by
  intro m hm
  obtain ⟨_, hget⟩ := mem_publish.mp hm
  have hlen := (List.getElem?_eq_some_iff.mp hget).1
  constructor
  · have hle := s.length_tickerMessages_le (List.range ME_MAX_TICKERS)
    have hmessages : s.snapshotMessages.length =
        (tickerMessages s (List.range ME_MAX_TICKERS)).length + 2 := by
      show (_ :: (tickerMessages s _ ++ [_])).length = _
      rw [List.length_cons, List.length_append, List.length_singleton]
    rw [List.length_range] at hle
    simp only [ME_MAX_TICKERS, ME_MAX_ORDER_IDS] at hle hmessages
    omega
  · have hmem := List.mem_of_getElem? hget
    rw [snapshotMessages_eq] at hmem
    rcases List.mem_cons.mp hmem with hu | hmem
    · rw [hu]
      exact { fits_default with order_id := hlast }
    rcases List.mem_append.mp hmem with hmem | hu
    · obtain ⟨t, ht, hmem⟩ := List.mem_flatMap.mp hmem
      rcases List.mem_cons.mp hmem with hu | hmem
      · rw [hu]
        have ht' : t < 2 ^ 32 := (List.mem_range.mp ht).trans (by decide)
        exact { fits_default with ticker_id := ht' }
      · obtain ⟨i, _, hi⟩ := List.mem_filterMap.mp hmem
        obtain ⟨p, _, hp⟩ := Option.map_eq_some_iff.mp hi
        rw [← hp]
        exact h p
    · rw [List.mem_singleton.mp hu]
      exact { fits_default with order_id := hlast }

end SnapshotSynthesizer

/-! ## The feed -/

structure MulticastFeed where
  engine : MatchingEngine
  /-- written by the matching engine and not yet read by the publisher -/
  outgoing_md_updates_ : List MEMarketUpdate
  /-- the increments so far -/
  updates : List MEMarketUpdate
  next_inc_seq_num_ : Nat
  incremental_socket_ : McastOutbound
  /-- written by the publisher and not yet read by the synthesizer -/
  snapshot_md_updates_ : List MDPMarketUpdate
  synthesizer : SnapshotSynthesizer
  snapshot_socket_ : McastOutbound
  /-- datagrams taken by the kernel on the incremental stream -/
  incremental : List (List UInt8)
  /-- and on the snapshot stream, each behind the cycle it is of -/
  snapshot : List (List MDPMarketUpdate × List UInt8)
  consumer : MarketDataConsumer
  incremental_mcast_socket_ : McastSocket
  snapshot_mcast_socket_ : McastSocket

namespace MulticastFeed

open MarketDataConsumer (Joins)

def init : MulticastFeed where
  engine := MatchingEngine.init
  outgoing_md_updates_ := []
  updates := []
  next_inc_seq_num_ := 1
  incremental_socket_ := .init
  snapshot_md_updates_ := []
  synthesizer := .init
  snapshot_socket_ := .init
  incremental := []
  snapshot := []
  consumer := {}
  incremental_mcast_socket_ := ⟨fun _ => 0, 0⟩
  snapshot_mcast_socket_ := ⟨fun _ => 0, 0⟩

/-- A step of the publisher, the synthesizer or the consumer. -/
inductive Step (σ : MulticastFeed) : MulticastFeed → Prop
  /-- The publisher numbers the next update, sends it and forwards it. -/
  | publish {u : MEMarketUpdate} {us : List MEMarketUpdate} {socket : McastOutbound}
      (hu : σ.outgoing_md_updates_ = u :: us)
      (hsend : σ.incremental_socket_.sendUpdate σ.next_inc_seq_num_ u = .ok socket) :
      Step σ { σ with
        outgoing_md_updates_ := us
        updates := σ.updates ++ [u]
        next_inc_seq_num_ := nextSeqNum σ.next_inc_seq_num_
        incremental_socket_ := socket
        snapshot_md_updates_ := σ.snapshot_md_updates_ ++ [⟨σ.next_inc_seq_num_, u⟩] }
  /-- The publisher is done with a round. -/
  | sendAndRecv {taken : List (List UInt8)}
      (htaken : KernelTook σ.incremental_socket_.sendAndRecv.2.toList taken) :
      Step σ { σ with
        incremental_socket_ := σ.incremental_socket_.sendAndRecv.1
        incremental := σ.incremental ++ taken }
  | addToSnapshot {m : MDPMarketUpdate} {ms : List MDPMarketUpdate} {s : SnapshotSynthesizer}
      (hm : σ.snapshot_md_updates_ = m :: ms) (hs : σ.synthesizer.addToSnapshot m = .ok s) :
      Step σ { σ with snapshot_md_updates_ := ms, synthesizer := s }
  | publishSnapshot {socket : McastOutbound} {handed taken : List (List UInt8)}
      (hsend : σ.synthesizer.sendSnapshot σ.snapshot_socket_ = .ok (socket, handed))
      (htaken : KernelTook handed taken) :
      Step σ { σ with
        snapshot_socket_ := socket
        snapshot := σ.snapshot ++ taken.map (σ.synthesizer.publishSnapshot, ·) }
  /-- A datagram arrives on the incremental stream. -/
  | recvIncremental (d : List UInt8) (hd : d ∈ σ.incremental) :
      Step σ { σ with
        incremental_mcast_socket_ :=
          ((σ.incremental_mcast_socket_.recvDatagram d).recvCallback false σ.consumer).1
        consumer :=
          ((σ.incremental_mcast_socket_.recvDatagram d).recvCallback false σ.consumer).2 }
  /-- A datagram arrives on the snapshot stream. -/
  | recvSnapshot (cycle : List MDPMarketUpdate) (d : List UInt8) (hd : (cycle, d) ∈ σ.snapshot)
      (hjoins : Joins cycle σ.consumer (updateCodec.decode d)) :
      Step σ { σ with
        snapshot_mcast_socket_ :=
          ((σ.snapshot_mcast_socket_.recvDatagram d).recvCallback true σ.consumer).1
        consumer :=
          ((σ.snapshot_mcast_socket_.recvDatagram d).recvCallback true σ.consumer).2 }

/-- The requests that the matching engine has processed, and where that leaves
the feed. -/
inductive Runs : List MEClientRequest → MulticastFeed → Prop
  | init : Runs [] init
  | process {qs : List MEClientRequest} {σ : MulticastFeed} (h : Runs qs σ) (q : MEClientRequest)
      {e : MatchingEngine} {evs : List Event}
      (he : σ.engine.processClientRequest q = .ok (e, evs)) :
      Runs (qs ++ [q]) { σ with
        engine := e
        outgoing_md_updates_ := σ.outgoing_md_updates_ ++ LowLatency.updates evs }
  | step {qs : List MEClientRequest} {σ σ' : MulticastFeed} (h : Runs qs σ) (hs : Step σ σ') :
      Runs qs σ'

/-! ## Datagrams are messages -/

/-- The increments from one on to another. -/
def Consecutive (us : List MEMarketUpdate) (ms : List MDPMarketUpdate) : Prop :=
  ∃ i j, j ≤ us.length ∧ ms = ((LowLatency.publish 1 us).take j).drop i

/-- The bytes of `σ` are the messages of `μ`. -/
structure Shows (σ : MulticastFeed) (μ : MarketDataFeed) : Prop where
  engine : μ.engine = σ.engine
  outgoing : μ.outgoing_md_updates_ = σ.outgoing_md_updates_
  updates : μ.updates = σ.updates
  synthesizer : μ.synthesizer = σ.synthesizer
  consumer : μ.consumer = σ.consumer
  number : σ.next_inc_seq_num_ = wrap64 (σ.updates.length + 1)
  forwarded : σ.snapshot_md_updates_ =
    (LowLatency.publish 1 σ.updates).drop σ.synthesizer.last_inc_seq_num_
  unsent : σ.incremental_socket_.unsent = updateCodec.encode μ.outbound
  pending : ∃ i ≤ σ.updates.length, μ.outbound = (LowLatency.publish 1 σ.updates).drop i
  incremental : ∀ d ∈ σ.incremental, d.length ≤ MaxDatagram ∧
    ∃ ms ∈ μ.incremental, d = updateCodec.encode ms ∧ Consecutive σ.updates ms
  snapshot : ∀ x ∈ σ.snapshot, x.2.length ≤ MaxDatagram ∧
    ∃ ms, (x.1, ms) ∈ μ.snapshot ∧ x.2 = updateCodec.encode ms
  snapshot_socket : σ.snapshot_socket_.unsent = []
  received : σ.incremental_mcast_socket_.received = []
  snapshot_received : σ.snapshot_mcast_socket_.received = []

theorem shows_init : Shows init .init where
  engine := rfl
  outgoing := rfl
  updates := rfl
  synthesizer := rfl
  consumer := rfl
  number := rfl
  forwarded := rfl
  unsent := rfl
  pending := ⟨0, Nat.le_refl 0, rfl⟩
  incremental := fun _ h => absurd h (by simp [init])
  snapshot := fun _ h => absurd h (by simp [init])
  snapshot_socket := rfl
  received := rfl
  snapshot_received := rfl

/-- **A datagram arrives**: the callback reads its messages and leaves nothing. -/
theorem recvDatagram_encode {socket : McastSocket} (h : socket.received = [])
    {ms : List MDPMarketUpdate} (hok : ∀ m ∈ ms, updateCodec.Ok m)
    (hlen : (updateCodec.encode ms).length ≤ MaxDatagram) (b : Bool) (c : MarketDataConsumer) :
    ((socket.recvDatagram (updateCodec.encode ms)).recvCallback b c).1.received = [] ∧
      ((socket.recvDatagram (updateCodec.encode ms)).recvCallback b c).2 = c.recvCallback b ms := by
  have hzero : socket.next_rcv_valid_index_ = 0 := by
    rw [← length_slice socket.inbound_data_ 0 socket.next_rcv_valid_index_]
    exact congrArg List.length h
  have hroom : (updateCodec.encode ms).length ≤ McastBufferSize - socket.next_rcv_valid_index_ := by
    rw [hzero]
    exact hlen.trans (by decide)
  have hrecv : (socket.recvDatagram (updateCodec.encode ms)).received = updateCodec.encode ms := by
    unfold McastSocket.recvDatagram
    rw [List.take_of_length_le hroom, McastSocket.recv_received, h, List.nil_append]
  obtain ⟨hconsumer, hreceived⟩ :=
    McastSocket.recvCallback_eq (socket.recvDatagram (updateCodec.encode ms)) b c
  rw [hrecv, Codec.decode_encode hok] at hconsumer
  rw [hrecv, updateCodec.rest_encode] at hreceived
  exact ⟨hreceived.trans (ite_self _), hconsumer⟩

section

variable {σ σ' : MulticastFeed} {μ : MarketDataFeed} {qs : List MEClientRequest}

/-- The messages of the increments are values of their types. -/
theorem ok_numbered {us : List MEMarketUpdate} (hus : ∀ u ∈ us, u.Fits) (hlen : us.length < 2 ^ 64)
    {m : MDPMarketUpdate} (hm : MarketDataConsumer.Numbered us m.seq_num_ m.me_market_update_) :
    updateCodec.Ok m := by
  have hlt := (List.getElem?_eq_some_iff.mp hm.2).1
  exact ⟨by omega, hus _ (List.mem_of_getElem? hm.2)⟩

theorem length_publish (n : Nat) (us : List MEMarketUpdate) :
    (LowLatency.publish n us).length = us.length := by simp [LowLatency.publish]

theorem drop_publish_snoc {us : List MEMarketUpdate} {i : Nat} (hi : i ≤ us.length)
    (u : MEMarketUpdate) : (LowLatency.publish 1 (us ++ [u])).drop i =
      (LowLatency.publish 1 us).drop i ++ [⟨us.length + 1, u⟩] := by
  rw [publish_append, List.drop_append_of_le_length (by rwa [length_publish]),
    Nat.add_comm us.length]
  rfl

theorem Consecutive.append {us : List MEMarketUpdate} {ms : List MDPMarketUpdate}
    (h : Consecutive us ms) (vs : List MEMarketUpdate) : Consecutive (us ++ vs) ms := by
  obtain ⟨i, j, hj, rfl⟩ := h
  refine ⟨i, j, hj.trans (by simp), ?_⟩
  rw [publish_append, List.take_append_of_le_length (by rwa [length_publish])]

/-- **The publisher**: its next message. -/
theorem Shows.publish (h : Shows σ μ) (hμ : MarketDataFeed.Runs qs μ)
    {u : MEMarketUpdate} {us : List MEMarketUpdate} {socket : McastOutbound}
    (hlen : σ.updates.length + 1 < 2 ^ 64) (hu : σ.outgoing_md_updates_ = u :: us)
    (hsend : σ.incremental_socket_.sendUpdate σ.next_inc_seq_num_ u = .ok socket) :
    ∃ μ', MarketDataFeed.Runs qs μ' ∧ Shows { σ with
      outgoing_md_updates_ := us
      updates := σ.updates ++ [u]
      next_inc_seq_num_ := nextSeqNum σ.next_inc_seq_num_
      incremental_socket_ := socket
      snapshot_md_updates_ := σ.snapshot_md_updates_ ++ [⟨σ.next_inc_seq_num_, u⟩] } μ' := by
  have hout := h.outgoing.trans hu
  have hnum : σ.next_inc_seq_num_ = σ.updates.length + 1 := h.number.trans (Nat.mod_eq_of_lt hlen)
  have hlast : σ.synthesizer.last_inc_seq_num_ ≤ σ.updates.length := by
    have hfollows := hμ.inv.feed.synthesizer.1
    rwa [h.synthesizer, h.updates] at hfollows
  refine ⟨_, hμ.other (.publish hout) rfl (by rw [hout]; simp), ?_⟩
  obtain ⟨i, hi, hpending⟩ := h.pending
  exact { h with
    outgoing := rfl
    updates := congrArg (· ++ [u]) h.updates
    number := by
      rw [hnum, List.length_append]
      rfl
    forwarded := by
      rw [drop_publish_snoc hlast, h.forwarded, hnum]
    unsent := by
      rw [McastOutbound.sendUpdate_unsent hsend, h.unsent, hnum, h.updates,
        updateCodec.encode_append]
      simp
    pending := by
      refine ⟨i, hi.trans (by simp), ?_⟩
      rw [drop_publish_snoc hi, ← hpending, h.updates]
    incremental := by
      intro d hd
      obtain ⟨hle, ms, hms, heq, hrun⟩ := h.incremental d hd
      exact ⟨hle, ms, hms, heq, hrun.append [u]⟩
    snapshot := h.snapshot }

/-- **The end of a round.** -/
theorem Shows.sendAndRecv (h : Shows σ μ) (hμ : MarketDataFeed.Runs qs μ)
    {taken : List (List UInt8)}
    (htaken : KernelTook σ.incremental_socket_.sendAndRecv.2.toList taken) :
    ∃ μ', MarketDataFeed.Runs qs μ' ∧ Shows { σ with
      incremental_socket_ := σ.incremental_socket_.sendAndRecv.1
      incremental := σ.incremental ++ taken } μ' := by
  have hdone : ∃ i ≤ σ.updates.length,
      ([] : List MDPMarketUpdate) = (LowLatency.publish 1 σ.updates).drop i :=
    ⟨σ.updates.length, Nat.le_refl _, (List.drop_of_length_le (by rw [length_publish])).symm⟩
  rcases σ.incremental_socket_.sendAndRecv_handed with ⟨hnil, hnone⟩ | ⟨hne, hsome⟩
  · -- nothing was sent
    rw [hnone] at htaken
    obtain rfl := List.sublist_nil.mp htaken.1
    refine ⟨μ, hμ, { h with unsent := ?_, incremental := ?_ }⟩
    · rw [← h.unsent, hnil]
      rfl
    · intro d hd
      exact h.incremental d (by simpa using hd)
  · have houtbound : μ.outbound ≠ [] := fun hnil => hne (by rw [h.unsent, hnil]; rfl)
    refine ⟨_, hμ.other (.flush houtbound) rfl rfl, { h with
      unsent := rfl, pending := hdone, incremental := fun d hd => ?_ }⟩
    rcases List.mem_append.mp hd with hd | hd
    · obtain ⟨hle, ms, hms, heq, hrun⟩ := h.incremental d hd
      exact ⟨hle, ms, List.mem_append_left _ hms, heq, hrun⟩
    · have hin := htaken.1.subset hd
      rw [hsome] at hin
      rw [List.mem_singleton.mp (show d ∈ [σ.incremental_socket_.unsent] from hin)] at hd ⊢
      obtain ⟨i, _, hpending⟩ := h.pending
      refine ⟨htaken.2 _ hd, μ.outbound, List.mem_append_right _ (List.mem_singleton_self _),
        h.unsent, i, σ.updates.length, Nat.le_refl _, ?_⟩
      rw [List.take_of_length_le (by rw [length_publish]), hpending]

/-- **The synthesizer** reads the increments as they were published. -/
theorem Shows.addToSnapshot (h : Shows σ μ) (hμ : MarketDataFeed.Runs qs μ)
    {m : MDPMarketUpdate} {ms : List MDPMarketUpdate} {s : SnapshotSynthesizer}
    (hm : σ.snapshot_md_updates_ = m :: ms) (hs : σ.synthesizer.addToSnapshot m = .ok s) :
    ∃ μ', MarketDataFeed.Runs qs μ' ∧
      Shows { σ with snapshot_md_updates_ := ms, synthesizer := s } μ' := by
  have hqueue := h.forwarded.symm.trans hm
  have hget : (LowLatency.publish 1 σ.updates)[σ.synthesizer.last_inc_seq_num_]? = some m := by
    rw [← Nat.add_zero σ.synthesizer.last_inc_seq_num_, ← List.getElem?_drop, hqueue]
    rfl
  have hlast : s.last_inc_seq_num_ = σ.synthesizer.last_inc_seq_num_ + 1 := by
    obtain ⟨_, _, hs⟩ := exec_bind_ok hs
    obtain ⟨_, _, hs⟩ := exec_bind_ok hs
    obtain rfl := Except.ok.inj hs
    rw [publish_getElem?] at hget
    obtain ⟨u, _, rfl⟩ := Option.map_eq_some_iff.mp hget
    exact Nat.add_comm ..
  have hm' : (LowLatency.publish 1 μ.updates)[μ.synthesizer.last_inc_seq_num_]? = some m := by
    rw [h.updates, h.synthesizer]
    exact hget
  have hs' : μ.synthesizer.addToSnapshot m = .ok s := by
    rw [h.synthesizer]
    exact hs
  refine ⟨_, hμ.other (.addToSnapshot hm' hs') rfl rfl, { h with
    synthesizer := rfl, forwarded := ?_, pending := h.pending, incremental := h.incremental,
    snapshot := h.snapshot }⟩
  rw [hlast, ← List.drop_drop, hqueue]
  rfl

/-- **A cycle.** -/
theorem Shows.publishSnapshot (h : Shows σ μ) (hμ : MarketDataFeed.Runs qs μ)
    {socket : McastOutbound} {handed taken : List (List UInt8)}
    (hsend : σ.synthesizer.sendSnapshot σ.snapshot_socket_ = .ok (socket, handed))
    (htaken : KernelTook handed taken) :
    ∃ μ', MarketDataFeed.Runs qs μ' ∧ Shows { σ with
      snapshot_socket_ := socket
      snapshot := σ.snapshot ++ taken.map (σ.synthesizer.publishSnapshot, ·) } μ' := by
  have hkeeps := hμ.inv.feed.synthesizer.2
  rw [h.synthesizer] at hkeeps
  obtain ⟨socket', hok, hunsent, -⟩ := hkeeps.sendSnapshot h.snapshot_socket
  rw [hok, Except.ok.injEq, Prod.mk.injEq] at hsend
  obtain ⟨rfl, rfl⟩ := hsend
  refine ⟨_, hμ.other .publishSnapshot rfl rfl, { h with
    snapshot_socket := hunsent, pending := h.pending, incremental := h.incremental,
    snapshot := fun x hx => ?_ }⟩
  rcases List.mem_append.mp hx with hx | hx
  · obtain ⟨hle, ms, hms, heq⟩ := h.snapshot x hx
    exact ⟨hle, ms, List.mem_append_left _ hms, heq⟩
  · obtain ⟨d, hd, rfl⟩ := List.mem_map.mp hx
    obtain ⟨ms, hms, rfl⟩ := List.mem_map.mp (htaken.1.subset hd)
    refine ⟨htaken.2 _ hd, ms, List.mem_append_right _ ?_, rfl⟩
    rw [h.synthesizer]
    exact List.mem_map_of_mem hms

/-- **A datagram of the incremental stream.** -/
theorem Shows.recvIncremental (h : Shows σ μ) (hμ : MarketDataFeed.Runs qs μ)
    (hus : ∀ u ∈ σ.updates, u.Fits) (hlen : σ.updates.length < 2 ^ 64)
    {d : List UInt8} (hd : d ∈ σ.incremental) :
    ∃ μ', MarketDataFeed.Runs qs μ' ∧ Shows { σ with
      incremental_mcast_socket_ :=
        ((σ.incremental_mcast_socket_.recvDatagram d).recvCallback false σ.consumer).1
      consumer :=
        ((σ.incremental_mcast_socket_.recvDatagram d).recvCallback false σ.consumer).2 } μ' := by
  obtain ⟨hle, ms, hms, rfl, -⟩ := h.incremental d hd
  have hok : ∀ m ∈ ms, updateCodec.Ok m := by
    intro m hm
    have hnum := hμ.inv.feed.incremental ms hms m hm
    rw [h.updates] at hnum
    exact ok_numbered hus hlen hnum
  obtain ⟨hreceived, hconsumer⟩ := recvDatagram_encode h.received hok hle false σ.consumer
  refine ⟨_, hμ.other (.recvIncremental ms hms) rfl rfl, { h with
    received := hreceived, pending := h.pending, incremental := h.incremental,
    snapshot := h.snapshot, consumer := ?_ }⟩
  rw [hconsumer, h.consumer]

/-- **A datagram of the snapshot stream.** -/
theorem Shows.recvSnapshot (h : Shows σ μ) (hμ : MarketDataFeed.Runs qs μ)
    (hus : ∀ u ∈ σ.updates, u.Fits) (hlen : σ.updates.length < 2 ^ 64)
    {cycle : List MDPMarketUpdate} {d : List UInt8} (hd : (cycle, d) ∈ σ.snapshot)
    (hjoins : Joins cycle σ.consumer (updateCodec.decode d)) :
    ∃ μ', MarketDataFeed.Runs qs μ' ∧ Shows { σ with
      snapshot_mcast_socket_ :=
        ((σ.snapshot_mcast_socket_.recvDatagram d).recvCallback true σ.consumer).1
      consumer :=
        ((σ.snapshot_mcast_socket_.recvDatagram d).recvCallback true σ.consumer).2 } μ' := by
  obtain ⟨hle, ms, hms, rfl⟩ := h.snapshot (cycle, d) hd
  -- a message of a cycle of some synthesizer
  have hok : ∀ m ∈ ms, updateCodec.Ok m := by
    intro m hm
    obtain ⟨s, hfollows, hbuilt, hcycle, hin⟩ := hμ.inv.snapshot _ hms
    have hmem := hin m hm
    rw [hcycle] at hmem
    rw [h.updates] at hfollows hbuilt
    exact (hbuilt.blocksFit hus).publishSnapshot (hfollows.1.trans_lt hlen) m hmem
  rw [Codec.decode_encode hok, ← h.consumer] at hjoins
  obtain ⟨hreceived, hconsumer⟩ := recvDatagram_encode h.snapshot_received hok hle true σ.consumer
  refine ⟨_, hμ.other (.recvSnapshot cycle ms hms hjoins) rfl rfl, { h with
    snapshot_received := hreceived, pending := h.pending, incremental := h.incremental,
    snapshot := h.snapshot, consumer := ?_ }⟩
  rw [hconsumer, h.consumer]

theorem Step.updates_length (hs : Step σ σ') : σ.updates.length ≤ σ'.updates.length := by
  cases hs with
  | publish => simp
  | _ => exact Nat.le_refl _

/-- **Every step of the bytes is one of the messages.** -/
theorem Shows.step (h : Shows σ μ) (hμ : MarketDataFeed.Runs qs μ)
    (hus : ∀ u ∈ σ.updates, u.Fits) (hlen : σ'.updates.length < 2 ^ 64) (hs : Step σ σ') :
    ∃ μ', MarketDataFeed.Runs qs μ' ∧ Shows σ' μ' := by
  have hlen' := hs.updates_length.trans_lt hlen
  cases hs with
  | publish hu hsend => exact h.publish hμ (by simpa using hlen) hu hsend
  | sendAndRecv htaken => exact h.sendAndRecv hμ htaken
  | addToSnapshot hm hs => exact h.addToSnapshot hμ hm hs
  | publishSnapshot hsend htaken => exact h.publishSnapshot hμ hsend htaken
  | recvIncremental d hd => exact h.recvIncremental hμ hus hlen' hd
  | recvSnapshot cycle d hd hjoins => exact h.recvSnapshot hμ hus hlen' hd hjoins

end

variable {σ : MulticastFeed} {qs : List MEClientRequest}

/-- **A run of the bytes is one of the messages.** -/
theorem Runs.shows (h : Runs qs σ) (ha : Admissible qs) (hqs : ∀ q ∈ qs, q.Fits)
    (hlen : σ.updates.length < 2 ^ 64) : ∃ μ, MarketDataFeed.Runs qs μ ∧ Shows σ μ := by
  induction h with
  | init => exact ⟨_, .init, shows_init⟩
  | @process qs σ h q e evs he ih =>
    obtain ⟨μ, hμ, hshows⟩ := ih ha.of_append (fun q' hq' => hqs q' (List.mem_append_left _ hq'))
      hlen
    rw [← hshows.engine] at he
    exact ⟨_, hμ.process q he, { hshows with
      engine := rfl, outgoing := congrArg (· ++ LowLatency.updates evs) hshows.outgoing,
      pending := hshows.pending, incremental := hshows.incremental,
      snapshot := hshows.snapshot }⟩
  | step h hs ih =>
    obtain ⟨μ, hμ, hshows⟩ := ih ha hqs (hs.updates_length.trans_lt hlen)
    refine hshows.step hμ (fun u hu => history_fits hqs u ?_) hlen hs
    rw [← hμ.written_eq ha, hshows.updates]
    exact List.mem_append_left _ hu

/-- Everything on the way, and everything that waits in a buffer, is whole messages. -/
structure WholeMessages (σ : MulticastFeed) : Prop where
  received : σ.incremental_mcast_socket_.received = [] ∧ σ.snapshot_mcast_socket_.received = []
  incremental : ∀ d ∈ σ.incremental, ∃ ms, d = updateCodec.encode ms ∧ Consecutive σ.updates ms
  /-- The increments from the `i`-th on wait. The next one is copied behind them unless
  it fills the buffer, and the kernel takes them if there are at most 1559. -/
  waiting : ∃ i ≤ σ.updates.length,
    σ.incremental_socket_.unsent = updateCodec.encode ((LowLatency.publish 1 σ.updates).drop i) ∧
    (∀ u, (∃ socket, σ.incremental_socket_.sendUpdate σ.next_inc_seq_num_ u = .ok socket) ↔
      (σ.updates.length - i + 1) * 42 < McastBufferSize) ∧
    (KernelTook σ.incremental_socket_.sendAndRecv.2.toList
        σ.incremental_socket_.sendAndRecv.2.toList ↔ σ.updates.length - i ≤ 1559)
  cycle : ∃ socket handed,
    σ.synthesizer.sendSnapshot σ.snapshot_socket_ = .ok (socket, handed) ∧ KernelTook handed handed

theorem Shows.wholeMessages {μ : MarketDataFeed} (h : Shows σ μ) (hμ : MarketDataFeed.Runs qs μ) :
    WholeMessages σ where
  received := ⟨h.received, h.snapshot_received⟩
  incremental := by
    intro d hd
    obtain ⟨_, ms, _, heq, hrun⟩ := h.incremental d hd
    exact ⟨ms, heq, hrun⟩
  waiting := by
    obtain ⟨i, hi, hpending⟩ := h.pending
    have hunsent := h.unsent
    rw [hpending] at hunsent
    have hlength : σ.incremental_socket_.unsent.length = (σ.updates.length - i) * 42 := by
      rw [hunsent, updateCodec.length_encode, List.length_drop, length_publish]
      rfl
    refine ⟨i, hi, hunsent, fun u => ?_, ?_⟩
    · rw [McastOutbound.sendUpdate_ok_iff, hlength, Nat.succ_mul]
    · rcases σ.incremental_socket_.sendAndRecv_handed with ⟨hnil, hnone⟩ | ⟨_, hsome⟩
      · rw [hnil, List.length_nil] at hlength
        rw [hnone]
        exact ⟨fun _ => by omega, fun _ => ⟨List.Sublist.refl _, by simp⟩⟩
      · have hone : KernelTook [σ.incremental_socket_.unsent] [σ.incremental_socket_.unsent] ↔
            σ.incremental_socket_.unsent.length ≤ MaxDatagram :=
          ⟨fun h => h.2 _ (List.mem_singleton_self _),
            fun h => ⟨List.Sublist.refl _, by simpa using h⟩⟩
        rw [hsome]
        refine hone.trans ?_
        rw [hlength]
        unfold MaxDatagram
        omega
  cycle := by
    have hkeeps := hμ.inv.feed.synthesizer.2
    rw [h.synthesizer] at hkeeps
    obtain ⟨socket, hok, -, hshort⟩ := hkeeps.sendSnapshot h.snapshot_socket
    refine ⟨socket, _, hok, List.Sublist.refl _, fun d hd => ?_⟩
    obtain ⟨ms, hms, rfl⟩ := List.mem_map.mp hd
    rw [updateCodec.length_encode]
    exact (Nat.mul_le_mul_right _ (hshort ms hms)).trans (by decide)

open MarketDataFeed (lateRequests lateRequests_admissible restingOrder fillUpdates)

theorem lateRequests_fit : ∀ q ∈ lateRequests, q.Fits := by
  intro q hq
  rcases List.mem_cons.mp hq with rfl | hq
  · exact ⟨by decide, by decide, by decide, ⟨by decide, by decide⟩, by decide⟩
  · rw [List.mem_singleton.mp hq]
    exact ⟨by decide, by decide, by decide, ⟨by decide, by decide⟩, by decide⟩

/-- The increments of a sell order and of a fill of it wait to be sent. -/
theorem fill_waits : ∃ σ, Runs lateRequests σ ∧ σ.consumer = {} ∧
    σ.updates = restingOrder 10 :: fillUpdates ∧ σ.outgoing_md_updates_ = [] ∧
    σ.incremental_socket_.unsent =
      updateCodec.encode (LowLatency.publish 1 (restingOrder 10 :: fillUpdates)) ∧
    σ.incremental_mcast_socket_.received = [] := by
  have h₁ := Runs.init.process ⟨.NEW, 1, 0, 7, .SELL, 100, 10⟩ rfl
  have h₂ := h₁.process ⟨.NEW, 2, 0, 9, .BUY, 100, 4⟩ rfl
  -- one update after the other
  have hsend : ∀ (s : McastOutbound) (ms : List MDPMarketUpdate) (m : MDPMarketUpdate),
      s.unsent = updateCodec.encode ms → ms.length ≤ 2 →
      ∃ s', s.sendUpdate m.seq_num_ m.me_market_update_ = .ok s' ∧
        s'.unsent = updateCodec.encode (ms ++ [m]) := by
    intro s ms m hs hle
    obtain ⟨s', hs'⟩ := (s.sendUpdate_ok_iff m.seq_num_ m.me_market_update_).mpr (by
      have hlen := updateCodec.length_encode ms
      rw [← hs] at hlen
      have hsize : updateCodec.size = 42 := rfl
      unfold McastBufferSize
      rw [hsize] at hlen
      omega)
    refine ⟨s', hs', ?_⟩
    rw [McastOutbound.sendUpdate_unsent hs', hs, updateCodec.encode_append]
    simp
  obtain ⟨s₁, hs₁, hunsent₁⟩ := hsend .init [] ⟨1, restingOrder 10⟩ rfl (by simp)
  have h₃ := h₂.step (.publish rfl hs₁)
  obtain ⟨s₂, hs₂, hunsent₂⟩ := hsend s₁ _ ⟨2, fillUpdates.get ⟨0, by decide⟩⟩ hunsent₁ (by simp)
  have h₄ := h₃.step (.publish rfl hs₂)
  obtain ⟨s₃, hs₃, hunsent₃⟩ := hsend s₂ _ ⟨3, fillUpdates.get ⟨1, by decide⟩⟩ hunsent₂ (by simp)
  have h₅ := h₄.step (.publish rfl hs₃)
  exact ⟨_, h₅, rfl, rfl, rfl, hunsent₃, rfl⟩

end MulticastFeed

end LowLatency
