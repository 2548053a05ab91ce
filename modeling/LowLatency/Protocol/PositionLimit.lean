import LowLatency.Protocol.Safety

/-!
# The position limit over whole runs

`checkPreTradeRisk` looks at the position and at the one order it is asked about.
It does not know of the order on the other side, nor of fills on their way. The
limit holds all the same: on each side there is at most one order, the position
only moves by what that order has left, and an order was checked against a
position no further from the limit than the fills that come before its own can
bring it back to.

`PositionInv` says this for one side at a time: the position in the direction of
the side, together with what the side's order has left, is within the limit. A
fill moves quantity from the second to the first; a fill on the other side only
takes from the first.
-/

namespace LowLatency

/-- What the client believes its order has left: nothing once the slot is over. -/
def OMOrder.unfilled (o : OMOrder) : Nat :=
  match o.order_state_ with
  | .INVALID | .DEAD => 0
  | .PENDING_NEW | .LIVE | .PENDING_CANCEL => o.qty_

theorem OMOrder.unfilled_of_idle {o : OMOrder}
    (h : o.order_state_ = .INVALID ∨ o.order_state_ = .DEAD) : o.unfilled = 0 := by
  unfold unfilled
  rcases h with he | he <;> rw [he]

theorem OMOrder.unfilled_of_working {o : OMOrder} (h₁ : o.order_state_ ≠ .INVALID)
    (h₂ : o.order_state_ ≠ .DEAD) : o.unfilled = o.qty_ := by
  unfold unfilled
  cases hst : o.order_state_ <;> first | rfl | exact absurd hst h₁ | exact absurd hst h₂

/-- A fill leaves what it says is left. -/
theorem OMOrder.unfilled_applied_fill {o : OMOrder} {r : MEClientResponse} (ht : r.type_ = .FILLED)
    (h₁ : o.order_state_ ≠ .INVALID) (h₂ : o.order_state_ ≠ .DEAD) :
    (o.applied r).unfilled = r.leaves_qty_ := by
  unfold applied
  rw [ht]
  by_cases hz : r.leaves_qty_ = 0
  · rw [hz]
    exact unfilled_of_idle (Or.inr rfl)
  · exact unfilled_of_working (by simpa [hz] using h₁) (by simpa [hz] using h₂)

/-- No other response adds to what is left, the order being under way. -/
theorem OMOrder.unfilled_applied_le {o : OMOrder} {r : MEClientResponse} (ht : r.type_ ≠ .FILLED)
    (h₁ : o.order_state_ ≠ .INVALID) (h₂ : o.order_state_ ≠ .DEAD) :
    (o.applied r).unfilled ≤ o.unfilled := by
  rw [unfilled_of_working h₁ h₂]
  unfold applied
  cases hty : r.type_ with
  | FILLED => exact absurd hty ht
  | ACCEPTED => exact Nat.le_refl _
  | CANCELED => exact Nat.zero_le _
  | CANCEL_REJECTED => exact Nat.le_of_eq (unfilled_of_working h₁ h₂)
  | INVALID => exact Nat.le_of_eq (unfilled_of_working h₁ h₂)

/-- The position in the direction of a side. -/
def PositionInfo.toward (p : PositionInfo) (b : Bool) : Int :=
  sideToValue (sideOf b) * p.position_

@[simp] theorem sideToValue_bid : sideToValue (sideOf true) = 1 := rfl

@[simp] theorem sideToValue_ask : sideToValue (sideOf false) = -1 := rfl

/-- The limits of a ticker are small enough for the arithmetic of the check. -/
def RiskCfg.Small (cfg : RiskCfg) : Prop := cfg.max_order_size_ + cfg.max_position_ < 2 ^ 31

instance (cfg : RiskCfg) : Decidable cfg.Small := inferInstanceAs (Decidable (_ < _))

/-- On both sides, what is left to fill does not lead past the limit. -/
def WithinLimit (cfg : RiskCfg) (p : PositionInfo) (unfilled : Bool → Nat) : Prop :=
  ∀ b, p.toward b + unfilled b ≤ cfg.max_position_

namespace WithinLimit

variable {cfg : RiskCfg} {p : PositionInfo} {unfilled unfilled' : Bool → Nat}

theorem bounds (h : WithinLimit cfg p unfilled) :
    -(cfg.max_position_ : Int) ≤ p.position_ ∧ p.position_ ≤ cfg.max_position_ := by
  have hbuy := h true
  have hsell := h false
  unfold PositionInfo.toward at hbuy hsell
  rw [sideToValue_bid] at hbuy
  rw [sideToValue_ask] at hsell
  omega

theorem mono (h : WithinLimit cfg p unfilled) (hle : ∀ b, unfilled' b ≤ unfilled b) :
    WithinLimit cfg p unfilled' := by
  intro b
  have h₁ := h b
  have h₂ := hle b
  omega

/-- **What the risk check says of the order it allows.** -/
theorem of_allowed (h : WithinLimit cfg p unfilled) (hsmall : cfg.Small) {loss b : Bool} {qty : Nat}
    (hcheck : (⟨p, cfg⟩ : RiskInfo).checkPreTradeRisk loss (sideOf b) qty = .ALLOWED) :
    p.toward b + qty ≤ cfg.max_position_ := by
  obtain ⟨hlo, hhi⟩ := h.bounds
  unfold RiskCfg.Small at hsmall
  unfold RiskInfo.checkPreTradeRisk at hcheck
  dsimp only at hcheck
  split at hcheck
  next => exact absurd hcheck (by decide)
  next hqty =>
    split at hcheck
    next => exact absurd hcheck (by decide)
    next hpos =>
      -- no step of the sum leaves 32 bits
      rw [int32_eq (x := (qty : Int)) (by omega) (by omega),
        int32_eq (x := (cfg.max_position_ : Int)) (by omega) (by omega)] at hpos
      unfold PositionInfo.toward
      cases b
      · rw [sideToValue_ask] at hpos ⊢
        rw [int32_eq (by omega) (by omega), abs32, int32_eq (by omega) (by omega)] at hpos
        omega
      · rw [sideToValue_bid] at hpos ⊢
        rw [int32_eq (by omega) (by omega), abs32, int32_eq (by omega) (by omega)] at hpos
        omega

/-- **A fill** of the order on side `b`. -/
theorem addFill (h : WithinLimit cfg p unfilled) (hsmall : cfg.Small) {b : Bool}
    {r : MEClientResponse} (hside : r.side_ = sideOf b)
    (hsum : unfilled' b + r.exec_qty_ = unfilled b)
    (hother : unfilled' (!b) = unfilled (!b)) :
    WithinLimit cfg (p.addFill r) unfilled' := by
  unfold RiskCfg.Small at hsmall
  obtain ⟨hlo, hhi⟩ := h.bounds
  have hbuy := h true
  have hsell := h false
  intro b'
  show sideToValue (sideOf b') * int32 (p.position_ + r.exec_qty_ * sideToValue r.side_)
    + (unfilled' b' : Int) ≤ _
  unfold PositionInfo.toward at hbuy hsell
  rw [hside]
  cases b with
  | false =>
    -- a sale: the order on the buy side keeps what it has left
    have hkeep : unfilled' true = unfilled true := hother
    rw [sideToValue_bid] at hbuy
    rw [sideToValue_ask] at hsell ⊢
    rw [int32_eq (by omega) (by omega)]
    cases b'
    · rw [sideToValue_ask]
      omega
    · rw [sideToValue_bid]
      omega
  | true =>
    have hkeep : unfilled' false = unfilled false := hother
    rw [sideToValue_bid] at hbuy ⊢
    rw [sideToValue_ask] at hsell
    rw [int32_eq (by omega) (by omega)]
    cases b'
    · rw [sideToValue_ask]
      omega
    · rw [sideToValue_bid]
      omega

end WithinLimit

/-- The client's slots of a ticker. -/
def OrderManager.unfilled (m : OrderManager) (t : Nat) (b : Bool) : Nat :=
  (m.order t (sideOf b)).unfilled

structure PositionInv {X : Type} (cfg : Nat → RiskCfg) (s : TradingSystem X) : Prop where
  risk : s.client.risk_cfg_ = cfg
  within : ∀ t < ME_MAX_TICKERS, (cfg t).Small →
    WithinLimit (cfg t) (s.client.ticker_position_ t) (s.client.order_manager_.unfilled t)

theorem positionInv_init {X : Type} (x : X) (c : Nat) (cfg : Nat → RiskCfg) :
    PositionInv cfg (TradingSystem.init x c cfg) := by
  refine ⟨rfl, fun t _ _ b => ?_⟩
  show sideToValue (sideOf b) * 0 + ((0 : Nat) : Int) ≤ ((cfg t).max_position_ : Int)
  rw [Int.mul_zero]
  omega

section Step

variable {cfg : Nat → RiskCfg} {s s' : TradingSystem RefExchange} {t : Nat} {b : Bool}

/-- **One order is moved.** Only a new order adds to what is left to fill, and it
was checked. -/
theorem PositionInv.moveOrder (h : PositionInv cfg s) {loss : Bool} {price : Int} {qty : Nat}
    {m : OrderManager} {qs : List MEClientRequest}
    (hm : s.client.order_manager_.moveOrder s.client.client_id_ (s.client.risk t) loss t price
      (sideOf b) qty = (m, qs)) : PositionInv cfg (s.moved m qs) := by
  refine ⟨h.risk, fun t' ht' hsmall => ?_⟩
  have hw := h.within t' ht' hsmall
  show WithinLimit (cfg t') (s.client.ticker_position_ t') (m.unfilled t')
  rcases s.client.order_manager_.moveOrder_cases s.client.client_id_ (s.client.risk t) loss t price
    (sideOf b) qty with he | ⟨hlive, he⟩ | ⟨_, hallowed, he⟩
  · obtain ⟨rfl, _⟩ := Prod.mk.inj (he.symm.trans hm)
    exact hw
  · -- a cancel on its way does not change what is left
    obtain ⟨rfl, _⟩ := Prod.mk.inj (he.symm.trans hm)
    refine hw.mono fun b' => ?_
    unfold OrderManager.unfilled
    rw [order_setOrder_slot]
    split
    next hslot =>
      obtain ⟨rfl, rfl⟩ := hslot
      rw [OMOrder.unfilled_of_working (o := s.client.order_manager_.order t' (sideOf b'))
        (by rw [hlive]; decide) (by rw [hlive]; decide)]
      exact Nat.le_refl _
    next => exact Nat.le_refl _
  · obtain ⟨rfl, _⟩ := Prod.mk.inj (he.symm.trans hm)
    intro b'
    show PositionInfo.toward _ b' + (((s.client.order_manager_.setOrder t (sideOf b) _).order t'
      (sideOf b')).unfilled : Int) ≤ _
    rw [order_setOrder_slot]
    split
    next hslot =>
      obtain ⟨rfl, rfl⟩ := hslot
      unfold TradeEngine.risk at hallowed
      rw [h.risk] at hallowed
      exact hw.of_allowed hsmall hallowed
    next => exact hw b'

/-- **A response is read.** -/
theorem PositionInv.read (h : PositionInv cfg s) (hinv : ProtocolInv s) {r : MEClientResponse}
    {rs : List MEClientResponse} (hrs : s.responses = r :: rs)
    (hrisk : s'.client.risk_cfg_ = s.client.risk_cfg_)
    (hmanager : s'.client.order_manager_ = s.client.order_manager_.onOrderUpdate r)
    (hposition : s'.client.ticker_position_ = if r.type_ = .FILLED then
      Function.update s.client.ticker_position_ r.ticker_id_
        ((s.client.ticker_position_ r.ticker_id_).addFill r) else s.client.ticker_position_) :
    PositionInv cfg s' := by
  have hr := hinv.responses r (by rw [hrs]; exact List.mem_cons_self ..)
  refine ⟨hrisk.trans h.risk, fun t ht hsmall => ?_⟩
  have hw := h.within t ht hsmall
  have hunfilled : ∀ b, s'.client.order_manager_.unfilled t b
      = if t = r.ticker_id_ ∧ sideOf b = r.side_ then
          ((s.client.order_manager_.order t (sideOf b)).applied r).unfilled
        else s.client.order_manager_.unfilled t b := by
    intro b
    unfold OrderManager.unfilled
    rw [hmanager, OrderManager.order_onOrderUpdate]
    split <;> rfl
  by_cases htick : t = r.ticker_id_
  · subst htick
    rcases hr.side with ⟨hrej, hside⟩ | ⟨_, b, hside⟩
    · -- a rejected cancel reaches no slot
      rw [hposition, if_neg (by rw [hrej]; decide)]
      refine hw.mono fun b => ?_
      rw [hunfilled, if_neg fun hh => sideOf_ne_invalid b (hh.2.trans hside)]
    · have hslot := hinv.slots _ hr.ticker b
      rw [hrs] at hslot
      have hother : s'.client.order_manager_.unfilled r.ticker_id_ (!b)
          = s.client.order_manager_.unfilled r.ticker_id_ (!b) := by
        rw [hunfilled, if_neg]
        intro hh
        exact Bool.not_ne_self b (sideOf_inj (hh.2.trans hside))
      have hself : s'.client.order_manager_.unfilled r.ticker_id_ b
          = ((s.client.order_manager_.order r.ticker_id_ (sideOf b)).applied r).unfilled := by
        rw [hunfilled, if_pos ⟨rfl, hside.symm⟩]
      have hone : r ∈ slotResponses r.ticker_id_ b (r :: rs) := by
        rw [slotResponses_cons_of ⟨rfl, hside⟩]
        exact List.mem_cons_self ..
      obtain ⟨_, _, q, seen, hknown⟩ := hslot.response hone
      obtain ⟨hinvalid, hdead⟩ := hknown.working
      by_cases hfill : r.type_ = .FILLED
      · rw [hposition, if_pos hfill, Function.update_self]
        obtain ⟨hsum, _⟩ := hslot.fill ⟨rfl, hside⟩ hfill
        refine hw.addFill hsmall hside ?_ hother
        rw [hself, OMOrder.unfilled_applied_fill hfill hinvalid hdead]
        unfold OrderManager.unfilled
        rw [OMOrder.unfilled_of_working hinvalid hdead]
        exact hsum
      · rw [hposition, if_neg hfill]
        refine hw.mono fun b' => ?_
        by_cases hb : b' = b
        · rw [hb, hself]
          exact OMOrder.unfilled_applied_le hfill hinvalid hdead
        · rw [Bool.eq_not_of_ne hb, hother]
  · -- another ticker
    have hpos : s'.client.ticker_position_ t = s.client.ticker_position_ t := by
      rw [hposition]
      split
      · rw [Function.update_of_ne htick]
      · rfl
    rw [hpos]
    refine hw.mono fun b => ?_
    rw [hunfilled, if_neg fun hh => htick hh.1]

/-- **Every action keeps the limit.** The exchange's part does not touch the
client. -/
theorem PositionInv.step {a : Action} (hinv : ProtocolInv s) (h : PositionInv cfg s)
    (ha : Allowed s a) (hstep : s.step RefExchange.serve a = .ok s') : PositionInv cfg s' := by
  cases a with
  | moveOrders loss t bid ask clip =>
    obtain ⟨m₁, qs₁, h₁⟩ : ∃ m qs, s.client.order_manager_.moveOrder s.client.client_id_
        (s.client.risk t) loss t bid .BUY clip = (m, qs) := ⟨_, _, rfl⟩
    obtain ⟨m₂, qs₂, h₂⟩ : ∃ m qs, m₁.moveOrder s.client.client_id_ (s.client.risk t) loss t ask
        .SELL clip = (m, qs) := ⟨_, _, rfl⟩
    have hmoved := s.step_moveOrders RefExchange.serve ha h₁ h₂
    rw [Except.ok.inj (hstep.symm.trans hmoved)]
    exact (h.moveOrder (b := true) h₁).moveOrder (b := false) h₂
  | serve =>
    unfold TradingSystem.step at hstep
    dsimp only at hstep
    split at hstep
    · rw [← Except.ok.inj hstep]
      exact h
    · rw [← Except.ok.inj hstep]
      exact ⟨h.risk, h.within⟩
  | serveOther q =>
    rw [← Except.ok.inj hstep]
    exact ⟨h.risk, h.within⟩
  | consume =>
    unfold TradingSystem.step at hstep
    dsimp only at hstep
    split at hstep
    · rw [← Except.ok.inj hstep]
      exact h
    next r rs hrs =>
      have hr := (hinv.responses r (by rw [hrs]; exact List.mem_cons_self ..)).ticker
      obtain ⟨e, he, _, hmanager, hrisk, hposition⟩ := onOrderUpdate_ok s.client hr
      rw [he] at hstep
      rw [← Except.ok.inj hstep]
      exact h.read hinv hrs hrisk hmanager hposition

end Step

/-- **Position limit.** In every interleaving, the position of a ticker whose
limits are small enough to add up in 32 bits stays within its limit. -/
theorem position_within_limit (c : Nat) (hc : c < ME_MAX_NUM_CLIENTS) (cfg : Nat → RiskCfg)
    (as : List Action) (ha : AllowedAll (TradingSystem.init RefExchange.init c cfg) as) :
    ∃ s, (TradingSystem.init MatchingEngine.init c cfg).run MatchingEngine.processClientRequest as
        = .ok s ∧
      ∀ t < ME_MAX_TICKERS, (cfg t).max_order_size_ + (cfg t).max_position_ < 2 ^ 31 →
        (s.client.ticker_position_ t).position_.natAbs ≤ (cfg t).max_position_ := by
  obtain ⟨s, s', hrun, hsim, _, h⟩ := system_run (P := PositionInv cfg)
    (fun _ _ _ hinv hp ha hstep => PositionInv.step hinv hp ha hstep)
    (systemSim_init c cfg) (protocolInv_init hc cfg) (positionInv_init _ c cfg) ha
  refine ⟨s, hrun, fun t ht hsmall => ?_⟩
  rw [hsim.client]
  obtain ⟨hlo, hhi⟩ := (h.within t ht hsmall).bounds
  omega

/-- Two buys of 10 with a limit of 15: the first is filled in two parts, the
second is refused. -/
theorem position_within_limit_small : ∃ s,
    (TradingSystem.init MatchingEngine.init 1 fun _ => ⟨10, 15⟩).run
      MatchingEngine.processClientRequest
      [.moveOrders false 0 100 Price_INVALID 10, .serve, .serveOther ⟨.NEW, 2, 0, 5, .SELL, 100, 4⟩,
        .serveOther ⟨.NEW, 2, 0, 6, .SELL, 99, 20⟩, .consume, .consume, .consume,
        .moveOrders false 0 100 Price_INVALID 10, .serve, .consume] = .ok s ∧
    (s.client.ticker_position_ 0).position_.natAbs ≤ 15 := by
  obtain ⟨s, hrun, hlimit⟩ := position_within_limit 1 (by decide) (fun _ => ⟨10, 15⟩)
    [.moveOrders false 0 100 Price_INVALID 10, .serve, .serveOther ⟨.NEW, 2, 0, 5, .SELL, 100, 4⟩,
      .serveOther ⟨.NEW, 2, 0, 6, .SELL, 99, 20⟩, .consume, .consume, .consume,
      .moveOrders false 0 100 Price_INVALID 10, .serve, .consume] (by decide)
  exact ⟨s, hrun, hlimit 0 (by decide) (by decide)⟩

end LowLatency
