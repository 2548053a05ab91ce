import LowLatency.Protocol.Safety

/-!
# No order is orphaned

A slot leaves `LIVE` and `PENDING_CANCEL` only on a response: `CANCELED`, or
`FILLED` with nothing left. The exchange owes that response as long as the order
is live, because it is then still to be filled or cancelled, and it has sent it
once the order is gone. So every such slot can still move on, with one
exception. An order of quantity 0 passes the risk check, the exchange answers it
with `ACCEPTED` and nothing else, and it never rests: the slot is `LIVE` for an
order that does not exist and for which nothing is on its way. A cancel is
rejected, with no side, and reaches no slot.

`OrderManager.Sends` is when `moveOrder` sends a new order. `slots_not_orphaned`
is about the runs in which it never does so with quantity 0, as with a clip of 0
(the default configuration of a ticker); `slots_orphaned` is a run in which it
does.
-/

namespace LowLatency

/-- `moveOrder` sends a new order: the slot is free, there is a price, and the
risk check allows the quantity. -/
def OrderManager.Sends (m : OrderManager) (risk : RiskInfo) (loss : Bool) (t : Nat) (price : Int)
    (side : Side) (qty : Nat) : Prop :=
  ((m.order t side).order_state_ = .INVALID ∨ (m.order t side).order_state_ = .DEAD) ∧
    price ≠ Price_INVALID ∧ risk.checkPreTradeRisk loss side qty = .ALLOWED

theorem moveOrder_of_not_sends {m : OrderManager} {c : Nat} {risk : RiskInfo} {loss : Bool}
    {t : Nat} {price : Int} {side : Side} {qty : Nat}
    (h : ¬ m.Sends risk loss t price side qty) :
    m.moveOrder c risk loss t price side qty = (m, []) ∨
      ((m.order t side).order_state_ = .LIVE ∧
        m.moveOrder c risk loss t price side qty = m.cancelOrder c t side) := by
  rcases m.moveOrder_cases c risk loss t price side qty with he | ⟨hlive, he⟩ | ⟨hidle, hok, he⟩
  · exact Or.inl he
  · exact Or.inr ⟨hlive, he⟩
  · have hprice : price = Price_INVALID := by
      by_contra hne
      exact h ⟨hidle, hne, hok⟩
    left
    unfold OrderManager.moveOrder
    rcases hidle with hst | hst <;> rw [hst] <;> simp [hprice]

/-- Moving one order leaves the other slots alone. -/
theorem order_moveOrder_other {m m' : OrderManager} {c : Nat} {risk : RiskInfo} {loss : Bool}
    {t : Nat} {price : Int} {side side' : Side} {qty : Nat} {qs : List MEClientRequest}
    (h : m.moveOrder c risk loss t price side qty = (m', qs)) (hs : side' ≠ side) (t' : Nat) :
    m'.order t' side' = m.order t' side' := by
  rcases m.moveOrder_cases c risk loss t price side qty with he | ⟨-, he⟩ | ⟨-, -, he⟩
  · obtain ⟨rfl, -⟩ := Prod.mk.inj (he.symm.trans h)
    rfl
  · obtain ⟨rfl, -⟩ := Prod.mk.inj (he.symm.trans h)
    exact (OrderManager.order_setOrder ..).trans (if_neg fun hh => hs hh.2)
  · obtain ⟨rfl, -⟩ := Prod.mk.inj (he.symm.trans h)
    exact (OrderManager.order_setOrder m t side _ t' side').trans (if_neg fun hh => hs hh.2)

/-- The action sends no order of quantity 0. -/
def NoEmptyOrder (s : TradingSystem RefExchange) (a : Action) : Prop :=
  ∀ loss t bid ask, a = .moveOrders loss t bid ask 0 →
    ¬ s.client.order_manager_.Sends (s.client.risk t) loss t bid .BUY 0 ∧
      ¬ s.client.order_manager_.Sends (s.client.risk t) loss t ask .SELL 0

/-- Every order under way has something left. -/
def OrderManager.NoEmptySlot (m : OrderManager) : Prop :=
  ∀ t b, (m.order t (sideOf b)).order_state_ ≠ .INVALID →
    (m.order t (sideOf b)).order_state_ ≠ .DEAD → 0 < (m.order t (sideOf b)).qty_

theorem OrderManager.NoEmptySlot.moveOrder {m m' : OrderManager} {c : Nat} {risk : RiskInfo}
    {loss b : Bool} {t : Nat} {price : Int} {qty : Nat} {qs : List MEClientRequest}
    (h : m.NoEmptySlot) (hm : m.moveOrder c risk loss t price (sideOf b) qty = (m', qs))
    (hqty : qty = 0 → ¬ m.Sends risk loss t price (sideOf b) qty) : m'.NoEmptySlot := by
  -- a cancel on its way does not change what is left
  have hcancel : (m.order t (sideOf b)).order_state_ = .LIVE →
      (m.cancelOrder c t (sideOf b)).1.NoEmptySlot := by
    intro hlive t' b' h₁ h₂
    unfold OrderManager.cancelOrder at h₁ h₂ ⊢
    dsimp only at h₁ h₂ ⊢
    rw [order_setOrder_slot] at h₁ h₂ ⊢
    split at h₁
    next hslot =>
      obtain ⟨rfl, rfl⟩ := hslot
      rw [if_pos ⟨rfl, rfl⟩]
      exact h t' b' (by rw [hlive]; decide) (by rw [hlive]; decide)
    next hslot =>
      rw [if_neg hslot] at h₂ ⊢
      exact h t' b' h₁ h₂
  by_cases hz : qty = 0
  · rcases moveOrder_of_not_sends (c := c) (hqty hz) with he | ⟨hlive, he⟩
    · obtain ⟨rfl, -⟩ := Prod.mk.inj (he.symm.trans hm)
      exact h
    · obtain ⟨rfl, -⟩ := Prod.mk.inj (he.symm.trans hm)
      exact hcancel hlive
  · rcases m.moveOrder_cases c risk loss t price (sideOf b) qty with
      he | ⟨hlive, he⟩ | ⟨-, -, he⟩
    · obtain ⟨rfl, -⟩ := Prod.mk.inj (he.symm.trans hm)
      exact h
    · obtain ⟨rfl, -⟩ := Prod.mk.inj (he.symm.trans hm)
      exact hcancel hlive
    · obtain ⟨rfl, -⟩ := Prod.mk.inj (he.symm.trans hm)
      intro t' b' h₁ h₂
      have hord : ∀ t' b', (m.newOrder c t price (sideOf b) qty).1.order t' (sideOf b') =
          if t' = t ∧ b' = b then ⟨t, m.next_order_id_, sideOf b, price, qty, .PENDING_NEW⟩
          else m.order t' (sideOf b') := fun t' b' => order_setOrder_slot m t b _ t' b'
      have hord' := hord t' b'
      unfold OrderManager.newOrder at hord'
      dsimp only at hord'
      rw [hord'] at h₁ h₂ ⊢
      split
      next => exact Nat.pos_of_ne_zero hz
      next hslot =>
        rw [if_neg hslot] at h₁ h₂
        exact h t' b' h₁ h₂

/-- A response for an order under way leaves it over or with something left. -/
theorem OMOrder.applied_pos {o : OMOrder} {r : MEClientResponse} (h : 0 < o.qty_)
    (hdead : (o.applied r).order_state_ ≠ .DEAD) : 0 < (o.applied r).qty_ := by
  unfold applied at hdead ⊢
  cases ht : r.type_ with
  | FILLED =>
    rw [ht] at hdead
    dsimp only at hdead ⊢
    split at hdead
    · exact absurd rfl hdead
    next hne => exact Nat.pos_of_ne_zero hne
  | ACCEPTED | CANCELED | CANCEL_REJECTED | INVALID => exact h

theorem OrderManager.NoEmptySlot.read {s : TradingSystem RefExchange} (hinv : ProtocolInv s)
    (h : s.client.order_manager_.NoEmptySlot) {r : MEClientResponse} {rs : List MEClientResponse}
    (hrs : s.responses = r :: rs) : (s.client.order_manager_.onOrderUpdate r).NoEmptySlot := by
  intro t b h₁ h₂
  rw [OrderManager.order_onOrderUpdate] at h₁ h₂ ⊢
  split
  next hslot =>
    obtain ⟨rfl, hside⟩ := hslot
    rw [if_pos ⟨rfl, hside⟩] at h₂
    have hr := hinv.responses r (by rw [hrs]; exact List.mem_cons_self ..)
    have hone : r ∈ slotResponses r.ticker_id_ b s.responses :=
      List.mem_filter.mpr ⟨by rw [hrs]; exact List.mem_cons_self .., by simp [hside]⟩
    obtain ⟨-, -, q, seen, hknown⟩ := (hinv.slots _ hr.ticker b).response hone
    exact OMOrder.applied_pos (h _ b hknown.working.1 hknown.working.2) h₂
  next hslot =>
    rw [if_neg hslot] at h₁ h₂
    exact h t b h₁ h₂

/-- **Every action that sends no empty order** leaves no empty slot. -/
theorem noEmptySlot_step {s s' : TradingSystem RefExchange} {a : Action} (hinv : ProtocolInv s)
    (h : s.client.order_manager_.NoEmptySlot) (ha : Allowed s a) (hq : NoEmptyOrder s a)
    (hstep : s.step RefExchange.serve a = .ok s') : s'.client.order_manager_.NoEmptySlot := by
  cases a with
  | moveOrders loss t bid ask clip =>
    obtain ⟨m₁, qs₁, h₁⟩ : ∃ m qs, s.client.order_manager_.moveOrder s.client.client_id_
        (s.client.risk t) loss t bid .BUY clip = (m, qs) := ⟨_, _, rfl⟩
    obtain ⟨m₂, qs₂, h₂⟩ : ∃ m qs, m₁.moveOrder s.client.client_id_ (s.client.risk t) loss t ask
        .SELL clip = (m, qs) := ⟨_, _, rfl⟩
    rw [Except.ok.inj (hstep.symm.trans (s.step_moveOrders RefExchange.serve ha h₁ h₂))]
    have hbid : m₁.NoEmptySlot := by
      refine h.moveOrder (b := true) h₁ ?_
      rintro rfl
      exact (hq loss t bid ask rfl).1
    refine hbid.moveOrder (b := false) h₂ ?_
    rintro rfl
    unfold OrderManager.Sends
    rw [show sideOf false = .SELL from rfl, order_moveOrder_other h₁ (by decide)]
    exact (hq loss t bid ask rfl).2
  | serve =>
    unfold TradingSystem.step at hstep
    dsimp only at hstep
    split at hstep
    · rw [← Except.ok.inj hstep]
      exact h
    · rw [← Except.ok.inj hstep]
      exact h
  | serveOther q =>
    rw [← Except.ok.inj hstep]
    exact h
  | consume =>
    unfold TradingSystem.step at hstep
    dsimp only at hstep
    split at hstep
    · rw [← Except.ok.inj hstep]
      exact h
    next r rs hrs =>
      have hr := (hinv.responses r (by rw [hrs]; exact List.mem_cons_self ..)).ticker
      obtain ⟨e, he, -, hmanager, -⟩ := onOrderUpdate_ok s.client hr
      rw [he] at hstep
      rw [← Except.ok.inj hstep]
      show e.order_manager_.NoEmptySlot
      rw [hmanager]
      exact h.read hinv hrs

/-- The response that ends an order. -/
def EndsOrder (r : MEClientResponse) : Prop :=
  (r.type_ = .FILLED ∧ r.leaves_qty_ = 0) ∨ r.type_ = .CANCELED

/-- A history that goes on after its first part and has come to an end ends
with the response that says so. -/
theorem Life.ends {q : MEClientRequest} {seen rest : List MEClientResponse} {leaves : Nat}
    {canceled : Bool} (h : Life q (seen ++ rest) leaves canceled) (hseen : seen ≠ [])
    (hrest : rest ≠ []) (hend : canceled = true ∨ leaves = 0) : ∃ r ∈ rest, EndsOrder r := by
  obtain ⟨init, r, rfl⟩ : ∃ init r, rest = init ++ [r] :=
    ⟨rest.dropLast, rest.getLast hrest, (List.dropLast_append_getLast hrest).symm⟩
  refine ⟨r, by simp, ?_⟩
  rw [← List.append_assoc] at h
  rcases h.snoc_cases with ⟨hnil, -⟩ | ⟨_, -, ht, -, -, hl, hc⟩ | ⟨-, ht, -⟩
  · exact absurd hnil (by simp [hseen])
  · rcases hend with he | he
    · rw [hc] at he
      exact absurd he (by decide)
    · exact Or.inl ⟨ht, hl.symm.trans he⟩
  · exact Or.inr ht

/-- **What a slot in `LIVE` or `PENDING_CANCEL` waits for.** -/
theorem SlotInv.awaited {c t : Nat} {b : Bool} {o : OMOrder} {qs : List MEClientRequest}
    {B : Book MEOrderId} {rs : List MEClientResponse} (h : SlotInv c t b o qs B rs)
    (hbook : ∀ b, ∀ d ∈ B b, d.side_ = sideOf b)
    (hst : o.order_state_ = .LIVE ∨ o.order_state_ = .PENDING_CANCEL) (hqty : 0 < o.qty_) :
    (∃ d ∈ B b, d.id_.client_id_ = c ∧ d.id_.client_order_id_ = o.order_id_) ∨
      ∃ r ∈ slotResponses t b rs, r.client_order_id_ = o.order_id_ ∧ EndsOrder r := by
  cases h with
  | idle hstate =>
    rcases hstate with he | he <;> rw [he] at hst <;> exact absurd hst (by decide)
  | sent q hstate =>
    rw [hstate] at hst
    exact absurd hst (by decide)
  | working q seen leaves canceled hclient hside hnews hlife hstanding honly hid hknown =>
    obtain ⟨hseen, hpart⟩ : seen ≠ [] ∧ Life q seen o.qty_ false := by
      rcases hknown with ⟨-, he, -⟩ | ⟨hne, hl, -⟩
      · rw [he] at hst
        exact absurd hst (by decide)
      · exact ⟨hne, hl⟩
    rcases hstanding with ⟨-, -, b', d, hd, hrests⟩ | ⟨hend, -⟩
    · -- the order is live, and on the side of its slot
      have hb : b' = b := sideOf_inj ((hbook b' d hd).symm.trans (hrests.side.trans hside))
      subst hb
      exact Or.inl ⟨d, hd, hrests.client.trans hclient, hrests.order.trans hid.symm⟩
    · -- the order is gone: what ended it is still on its way, for the slot has something left
      have hrest : slotResponses t b rs ≠ [] := by
        intro hnil
        rw [hnil, List.append_nil] at hlife
        rcases hend with he | he
        · exact absurd (hlife.canceled_unique hpart) (by rw [he]; decide)
        · have := hlife.leaves_unique hpart
          omega
      obtain ⟨r, hr, hends⟩ := hlife.ends hseen hrest hend
      refine Or.inr ⟨r, hr, ?_, hends⟩
      exact (hlife.concerns r (List.mem_append_right _ hr)).order.trans hid.symm

/-- **No managed order is orphaned**, whatever the configuration and the
interleaving, as long as `moveOrder` never sends an order of quantity 0: a slot
in `LIVE` or `PENDING_CANCEL` has its order live at the exchange, or the response
that ends it on its way to the client. -/
theorem slots_not_orphaned (c : Nat) (hc : c < ME_MAX_NUM_CLIENTS) (cfg : Nat → RiskCfg)
    (as : List Action) (ha : AllowedAll (TradingSystem.init RefExchange.init c cfg) as)
    (hq : Along NoEmptyOrder (TradingSystem.init RefExchange.init c cfg) as) :
    ∃ s, (TradingSystem.init MatchingEngine.init c cfg).run MatchingEngine.processClientRequest as
        = .ok s ∧
      ∀ t < ME_MAX_TICKERS, ∀ b,
        (s.client.order_manager_.order t (sideOf b)).order_state_ = .LIVE ∨
          (s.client.order_manager_.order t (sideOf b)).order_state_ = .PENDING_CANCEL →
        (∃ o ∈ liveOrders s t b,
            o.id_.client_order_id_ = (s.client.order_manager_.order t (sideOf b)).order_id_) ∨
          ∃ r ∈ slotResponses t b s.responses,
            r.client_order_id_ = (s.client.order_manager_.order t (sideOf b)).order_id_ ∧
              EndsOrder r := by
  obtain ⟨s, s', hrun, hsim, h, hp⟩ := system_run_along
    (P := fun s => s.client.order_manager_.NoEmptySlot)
    (fun _ _ _ hinv hp ha hq hstep => noEmptySlot_step hinv hp ha hq hstep)
    (systemSim_init c cfg) (protocolInv_init hc cfg) (fun _ _ h => absurd rfl h) ha hq
  refine ⟨s, hrun, ?_⟩
  intro t ht b hst
  rw [hsim.client] at hst ⊢
  rw [hsim.responses]
  have hwork : (s'.client.order_manager_.order t (sideOf b)).order_state_ ≠ .INVALID ∧
      (s'.client.order_manager_.order t (sideOf b)).order_state_ ≠ .DEAD := by
    rcases hst with he | he <;> rw [he] <;> decide
  have haw := (h.slots t ht b).awaited (h.books t).side hst (hp t b hwork.1 hwork.2)
  rcases haw with ⟨d, hd, hdc, hdk⟩ | haw
  · refine Or.inl ⟨d, List.mem_filter.mpr ⟨?_, ?_⟩, hdk⟩
    · rw [restingOrders_sim (hsim.exchange t) b]
      exact hd
    · rw [hsim.client]
      exact decide_eq_true hdc
  · exact Or.inr haw

/-- A bid of 10 is accepted and then being cancelled. -/
theorem slots_not_orphaned_small : ∃ s,
    (TradingSystem.init MatchingEngine.init 1 fun _ => ⟨100, 100⟩).run
      MatchingEngine.processClientRequest
      [.moveOrders false 0 100 Price_INVALID 10, .serve, .consume,
        .moveOrders false 0 99 Price_INVALID 10] = .ok s ∧
    ((s.client.order_manager_.order 0 .BUY).order_state_ = .LIVE ∨
        (s.client.order_manager_.order 0 .BUY).order_state_ = .PENDING_CANCEL →
      (∃ o ∈ liveOrders s 0 true,
          o.id_.client_order_id_ = (s.client.order_manager_.order 0 .BUY).order_id_) ∨
        ∃ r ∈ slotResponses 0 true s.responses,
          r.client_order_id_ = (s.client.order_manager_.order 0 .BUY).order_id_ ∧
            EndsOrder r) := by
  have hmove : ∀ s bid, NoEmptyOrder s (.moveOrders false 0 bid Price_INVALID 10) := by
    intro s bid loss t bid' ask heq
    exact absurd heq (by simp)
  have hother : ∀ s a, (a = .serve ∨ a = .consume) → NoEmptyOrder s a := by
    rintro s a (rfl | rfl) loss t bid ask heq
    · exact absurd heq (by simp)
    · exact absurd heq (by simp)
  obtain ⟨s, hrun, hslot⟩ := slots_not_orphaned 1 (by decide) (fun _ => ⟨100, 100⟩)
    [.moveOrders false 0 100 Price_INVALID 10, .serve, .consume,
      .moveOrders false 0 99 Price_INVALID 10] (by decide)
    ⟨hmove _ _, fun _ _ => ⟨hother _ _ (Or.inl rfl), fun _ _ => ⟨hother _ _ (Or.inr rfl),
      fun _ _ => ⟨hmove _ _, fun _ _ => trivial⟩⟩⟩⟩
  exact ⟨s, hrun, hslot 0 (by decide) true⟩

/-- With the default configuration of a ticker the clip is 0: the order is sent
and accepted, its slot is `LIVE`, and neither the exchange nor the channels know
of it. -/
theorem slots_orphaned : ∃ (c : Nat) (cfg : Nat → RiskCfg) (as : List Action)
    (s : TradingSystem MatchingEngine),
    c < ME_MAX_NUM_CLIENTS ∧ AllowedAll (TradingSystem.init RefExchange.init c cfg) as ∧
    (TradingSystem.init MatchingEngine.init c cfg).run MatchingEngine.processClientRequest as
      = .ok s ∧
    (s.client.order_manager_.order 0 .BUY).order_state_ = .LIVE ∧
    liveOrders s 0 true = [] ∧ s.requests = [] ∧ s.responses = [] := by
  refine ⟨1, fun _ => {}, [.moveOrders false 0 100 Price_INVALID 0, .serve, .consume], _,
    by decide, by decide, rfl, ?_, ?_, ?_, ?_⟩
  · decide
  · decide
  · decide
  · decide

end LowLatency
