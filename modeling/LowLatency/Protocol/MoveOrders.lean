import LowLatency.Protocol.Orphans

/-!
# What `moveOrders` promises

The comment above `OrderManager::moveOrders` says that existing orders are
cancelled "if they are not at the specified price or of the specified
quantity". `AsPromised` puts it for one side: a slot that is `LIVE` after the
call holds the order that was asked for, one that did not was cancelled, and a
new order is sent neither without a price nor over an order still outstanding.

`moveOrder` compares prices only. Its quantity argument reaches nothing but the
new order of an empty slot, so a live order at its price that fills have made
smaller than `clip` stays as it is. `moveOrders_asPromised_iff`: this is the one
way in which the promise is broken, whatever the state.
-/

namespace LowLatency

namespace OrderManager

/-- The slot holds an order that may still rest or fill. -/
def Outstanding (o : OMOrder) : Prop :=
  o.order_state_ = .PENDING_NEW ∨ o.order_state_ = .LIVE ∨ o.order_state_ = .PENDING_CANCEL

/-- The request with which `cancelOrder` cancels an order. -/
def cancelRequest (client_id : Nat) (o : OMOrder) : MEClientRequest :=
  ⟨.CANCEL, client_id, o.ticker_id_, o.order_id_, o.side_, o.price_, o.qty_⟩

/-- The promise for one side: its slot before and after the call, and all the
call sent. -/
structure AsPromised (client_id : Nat) (before after : OMOrder) (side : Side) (price : Int)
    (clip : Nat) (sent : List MEClientRequest) : Prop where
  live : after.order_state_ = .LIVE → after.price_ = price ∧ after.qty_ = clip
  cancelled : before.order_state_ = .LIVE → before.price_ ≠ price ∨ before.qty_ ≠ clip →
    after.order_state_ = .PENDING_CANCEL ∧ cancelRequest client_id before ∈ sent
  unwanted : price = Price_INVALID → ∀ q ∈ sent, q.type_ = .NEW → q.side_ ≠ side
  outstanding : Outstanding before → ∀ q ∈ sent, q.type_ = .NEW → q.side_ ≠ side

/-- A live order at its price, but not of its quantity. -/
def OffQuantity (o : OMOrder) (price : Int) (clip : Nat) : Prop :=
  o.order_state_ = .LIVE ∧ o.price_ = price ∧ o.qty_ ≠ clip

variable {m m' : OrderManager} {c t clip : Nat} {risk : RiskInfo} {loss : Bool} {price : Int}
  {side : Side} {own sent : List MEClientRequest}

/-- The new orders of `moveOrder` are of its side. -/
theorem moveOrder_new_side (h : m.moveOrder c risk loss t price side clip = (m', own)) :
    ∀ q ∈ own, q.type_ = .NEW → q.side_ = side := by
  intro q hq hnew
  rcases m.moveOrder_cases c risk loss t price side clip with he | ⟨-, he⟩ | ⟨-, -, he⟩
  · obtain ⟨-, rfl⟩ := Prod.mk.inj (he.symm.trans h)
    exact absurd hq List.not_mem_nil
  · obtain ⟨-, rfl⟩ := Prod.mk.inj (he.symm.trans h)
    rw [List.mem_singleton.mp hq] at hnew
    exact absurd hnew (by simp)
  · obtain ⟨-, rfl⟩ := Prod.mk.inj (he.symm.trans h)
    rw [List.mem_singleton.mp hq]

/-- An order that is off its quantity is left alone. -/
theorem moveOrder_offQuantity (h : m.moveOrder c risk loss t price side clip = (m', own))
    (hoff : OffQuantity (m.order t side) price clip) : m' = m ∧ own = [] := by
  obtain ⟨hlive, hprice, _⟩ := hoff
  unfold moveOrder at h
  rw [hlive] at h
  simp only [hprice, ne_eq, not_true_eq_false, if_false] at h
  obtain ⟨rfl, rfl⟩ := Prod.mk.inj h
  exact ⟨rfl, rfl⟩

theorem order_newOrder (m : OrderManager) (c t : Nat) (price : Int) (side : Side) (qty : Nat) :
    (m.newOrder c t price side qty).1.order t side
      = ⟨t, m.next_order_id_, side, price, qty, .PENDING_NEW⟩ :=
  (order_setOrder m t side ⟨t, m.next_order_id_, side, price, qty, .PENDING_NEW⟩ t side).trans
    (if_pos ⟨rfl, rfl⟩)

theorem order_cancelOrder (m : OrderManager) (c t : Nat) (side : Side) :
    (m.cancelOrder c t side).1.order t side
      = { m.order t side with order_state_ := .PENDING_CANCEL } :=
  (order_setOrder ..).trans (if_pos ⟨rfl, rfl⟩)

/-- A slot without a live order, for whose side nothing is sent. -/
theorem AsPromised.of_quiet {o : OMOrder} (hlive : o.order_state_ ≠ .LIVE)
    (hquiet : ∀ q ∈ sent, q.type_ = .NEW → q.side_ ≠ side) :
    AsPromised c o o side price clip sent :=
  ⟨fun h => absurd h hlive, fun h => absurd h hlive, fun _ => hquiet, fun _ => hquiet⟩

/-- A live order that is not off its quantity: it is what was asked for, or it
is cancelled. -/
theorem moveOrder_live (h : m.moveOrder c risk loss t price side clip = (m', own))
    (hlive : (m.order t side).order_state_ = .LIVE)
    (hok : ¬ OffQuantity (m.order t side) price clip) (hown : ∀ q ∈ own, q ∈ sent)
    (hquiet : ∀ q ∈ sent, q.type_ = .NEW → q.side_ ≠ side) :
    AsPromised c (m.order t side) (m'.order t side) side price clip sent := by
  unfold moveOrder at h
  rw [hlive] at h
  dsimp only at h
  by_cases hprice : (m.order t side).price_ = price
  · have hqty : (m.order t side).qty_ = clip := by
      by_contra hne
      exact hok ⟨hlive, hprice, hne⟩
    rw [if_neg (not_not.mpr hprice)] at h
    obtain ⟨rfl, rfl⟩ := Prod.mk.inj h
    refine ⟨fun _ => ⟨hprice, hqty⟩, fun _ hd => ?_, fun _ => hquiet, fun _ => hquiet⟩
    rcases hd with hd | hd
    · exact absurd hprice hd
    · exact absurd hqty hd
  · rw [if_pos hprice] at h
    have hslot := order_cancelOrder m c t side
    rw [h] at hslot
    have hsent : cancelRequest c (m.order t side) ∈ own := by
      rw [← (Prod.mk.inj h).2]
      exact List.mem_singleton_self _
    refine ⟨fun hl => ?_, fun _ _ => ⟨by rw [hslot], hown _ hsent⟩, fun _ => hquiet,
      fun _ => hquiet⟩
    rw [hslot] at hl
    exact absurd hl (by simp)

/-- A free slot: a new order goes out for it only at a price. -/
theorem moveOrder_free (h : m.moveOrder c risk loss t price side clip = (m', own))
    (hfree : (m.order t side).order_state_ = .INVALID ∨ (m.order t side).order_state_ = .DEAD)
    (hother : ∀ q ∈ sent, q ∉ own → q.type_ = .NEW → q.side_ ≠ side) :
    AsPromised c (m.order t side) (m'.order t side) side price clip sent := by
  have hlive : (m.order t side).order_state_ ≠ .LIVE := by
    rcases hfree with hst | hst <;> simp [hst]
  by_cases hsends : m.Sends risk loss t price side clip
  · have he : m.moveOrder c risk loss t price side clip = m.newOrder c t price side clip := by
      unfold moveOrder
      rcases hfree with hst | hst <;> simp [hst, hsends.2.1, hsends.2.2]
    have hslot := order_newOrder m c t price side clip
    rw [← he, h] at hslot
    refine ⟨fun hl => ?_, fun hl => absurd hl hlive, fun hi => absurd hi hsends.2.1, fun ho => ?_⟩
    · rw [hslot] at hl
      exact absurd hl (by simp)
    · unfold Outstanding at ho
      rcases hfree with hst | hst <;> rw [hst] at ho <;> exact absurd ho (by simp)
  · rcases moveOrder_of_not_sends (c := c) hsends with he | ⟨hl, _⟩
    · obtain ⟨rfl, rfl⟩ := Prod.mk.inj (he.symm.trans h)
      exact .of_quiet hlive fun q hq => hother q hq List.not_mem_nil
    · exact absurd hl hlive

/-- **One side.** Whatever else the call sends, the promise is kept for the side
exactly when its order was not off its quantity. -/
theorem moveOrder_asPromised_iff (h : m.moveOrder c risk loss t price side clip = (m', own))
    (hown : ∀ q ∈ own, q ∈ sent)
    (hother : ∀ q ∈ sent, q ∉ own → q.type_ = .NEW → q.side_ ≠ side) :
    AsPromised c (m.order t side) (m'.order t side) side price clip sent ↔
      ¬ OffQuantity (m.order t side) price clip := by
  constructor
  · intro hp hoff
    obtain ⟨rfl, _⟩ := moveOrder_offQuantity h hoff
    exact hoff.2.2 (hp.live hoff.1).2
  · intro hok
    cases hst : (m.order t side).order_state_ with
    | INVALID => exact moveOrder_free h (Or.inl hst) hother
    | DEAD => exact moveOrder_free h (Or.inr hst) hother
    | LIVE =>
      -- over a live order nothing new is sent
      refine moveOrder_live h hst hok hown fun q hq hnew => ?_
      by_cases hm : q ∈ own
      · rcases m.moveOrder_cases c risk loss t price side clip with he | ⟨_, he⟩ | ⟨hst', _⟩
        · obtain ⟨_, rfl⟩ := Prod.mk.inj (he.symm.trans h)
          exact absurd hm List.not_mem_nil
        · obtain ⟨_, rfl⟩ := Prod.mk.inj (he.symm.trans h)
          rw [List.mem_singleton.mp hm] at hnew
          exact absurd hnew (by simp)
        · rw [hst] at hst'
          exact absurd hst' (by simp)
      · exact hother q hq hm hnew
    | PENDING_NEW =>
      unfold moveOrder at h
      rw [hst] at h
      obtain ⟨rfl, rfl⟩ := Prod.mk.inj h
      exact .of_quiet (by simp [hst]) fun q hq => hother q hq List.not_mem_nil
    | PENDING_CANCEL =>
      unfold moveOrder at h
      rw [hst] at h
      obtain ⟨rfl, rfl⟩ := Prod.mk.inj h
      exact .of_quiet (by simp [hst]) fun q hq => hother q hq List.not_mem_nil

end OrderManager

namespace TradeEngine

open OrderManager

/-- **What `moveOrders` promises** it keeps exactly when neither side has a live
order at its target price with a quantity other than `clip`. -/
theorem moveOrders_asPromised_iff (e : TradeEngine) (loss : Bool) {t : Nat}
    (ht : t < ME_MAX_TICKERS) (bid_price ask_price : Int) (clip : Nat) :
    ∃ e' sent, e.moveOrders loss t bid_price ask_price clip = .ok (e', sent) ∧
      ((AsPromised e.client_id_ (e.order_manager_.order t .BUY) (e'.order_manager_.order t .BUY)
            .BUY bid_price clip sent ∧
          AsPromised e.client_id_ (e.order_manager_.order t .SELL)
            (e'.order_manager_.order t .SELL) .SELL ask_price clip sent) ↔
        ¬ OffQuantity (e.order_manager_.order t .BUY) bid_price clip ∧
          ¬ OffQuantity (e.order_manager_.order t .SELL) ask_price clip) := by
  obtain ⟨m₁, bid, hbid⟩ : ∃ m₁ bid, e.order_manager_.moveOrder e.client_id_ (e.risk t) loss t
      bid_price .BUY clip = (m₁, bid) := ⟨_, _, rfl⟩
  obtain ⟨m₂, ask, hask⟩ : ∃ m₂ ask, m₁.moveOrder e.client_id_ (e.risk t) loss t
      ask_price .SELL clip = (m₂, ask) := ⟨_, _, rfl⟩
  refine ⟨{ e with order_manager_ := m₂ }, bid ++ ask, ?_, ?_⟩
  · simp only [moveOrders, if_pos ht, hbid, hask]
  · have hbuy := order_moveOrder_other hask (show Side.BUY ≠ .SELL by decide) t
    have hsell := order_moveOrder_other hbid (show Side.SELL ≠ .BUY by decide) t
    -- what one side sends is no new order of the other
    have hb : ∀ q ∈ bid ++ ask, q ∉ bid → q.type_ = .NEW → q.side_ ≠ .BUY := by
      intro q hq hno hnew
      rw [moveOrder_new_side hask q ((List.mem_append.mp hq).resolve_left hno) hnew]
      decide
    have ha : ∀ q ∈ bid ++ ask, q ∉ ask → q.type_ = .NEW → q.side_ ≠ .SELL := by
      intro q hq hno hnew
      rw [moveOrder_new_side hbid q ((List.mem_append.mp hq).resolve_right hno) hnew]
      decide
    have h₁ := moveOrder_asPromised_iff hbid (fun q hq => List.mem_append_left _ hq) hb
    have h₂ := moveOrder_asPromised_iff hask (fun q hq => List.mem_append_right _ hq) ha
    rw [← hbuy] at h₁
    rw [hsell] at h₂
    exact and_congr h₁ h₂

/-- A resting order of 10 after a fill of 6. -/
def partlyFilled : Exec TradeEngine := do
  let (e, _) ← (init 1 fun _ => ⟨100, 100⟩).moveOrders false 0 100 Price_INVALID 10
  let e ← e.onOrderUpdate ⟨.ACCEPTED, 1, 0, 1, 1, .BUY, 100, 0, 10⟩
  e.onOrderUpdate ⟨.FILLED, 1, 0, 1, 1, .BUY, 100, 6, 4⟩

/-- The call that asks for 10 at the same price leaves it at 4. -/
theorem moveOrders_partlyFilled : ∃ e, partlyFilled = .ok e ∧
    ∃ e', e.moveOrders false 0 100 Price_INVALID 10 = .ok (e', []) ∧
      e'.order_manager_.order 0 .BUY = ⟨0, 1, .BUY, 100, 4, .LIVE⟩ ∧
      ¬ AsPromised e.client_id_ (e.order_manager_.order 0 .BUY) (e'.order_manager_.order 0 .BUY)
        .BUY 100 10 [] := by
  refine ⟨_, rfl, _, rfl, rfl, fun h => ?_⟩
  exact absurd (h.live rfl).2 (by decide)

/-- Moving a price: the live order is cancelled, and nothing is sent for the
other side. -/
theorem moveOrders_asPromised_iff_moved : ∃ e, partlyFilled = .ok e ∧
    ∃ e' sent, e.moveOrders false 0 101 Price_INVALID 10 = .ok (e', sent) ∧
      AsPromised e.client_id_ (e.order_manager_.order 0 .BUY) (e'.order_manager_.order 0 .BUY)
        .BUY 101 10 sent := by
  refine ⟨_, rfl, ?_⟩
  obtain ⟨e', sent, hrun, hiff⟩ := moveOrders_asPromised_iff
    (match partlyFilled with
      | .ok e => e
      | .error _ => init 1 fun _ => {}) false (t := 0) (by decide) 101 Price_INVALID 10
  refine ⟨e', sent, hrun, (hiff.mpr ⟨?_, ?_⟩).1⟩
  · rintro ⟨_, hprice, _⟩
    exact absurd hprice (by decide)
  · rintro ⟨hlive, _⟩
    exact absurd hlive (by decide)

end TradeEngine

end LowLatency
