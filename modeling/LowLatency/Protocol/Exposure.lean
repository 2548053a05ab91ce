import LowLatency.Protocol.PositionLimit

/-!
# What a client can still trade

The position limit of `PositionLimit` is about what the client knows. What is
open on a side is more than that: fills that it has not read, the order that
rests at the exchange, and a new order that has not arrived there. `exposure`
adds them up, and it is all in the slot: an order's history accounts for its
quantity (`Life.conserved`), so what the slot has left is what is on its way to
be read as a fill and what rests (`SlotInv.exposure_le`). The limit therefore
covers everything that can still be executed.
-/

namespace LowLatency

/-- A client's orders among those of a side. -/
def ownOrders (c : Nat) (l : List (OrderData MEOrderId)) : List (OrderData MEOrderId) :=
  l.filter fun o => decide (o.id_.client_id_ = c)

/-- What client `c` has open on a side of a ticker: fills on their way to it, what
rests, and new orders on their way to the exchange. -/
def exposure (c t : Nat) (b : Bool) (qs : List MEClientRequest) (l : List (OrderData MEOrderId))
    (rs : List MEClientResponse) : Nat :=
  executed (slotResponses t b rs) + ((ownOrders c l).map OrderData.qty_).sum +
    ((news t b qs).map MEClientRequest.qty_).sum

section Slot

variable {c t : Nat} {b : Bool} {o : OMOrder} {qs : List MEClientRequest} {r : RefBook}
  {rs : List MEClientResponse}

theorem ownOrders_of_noLive {B : Book MEOrderId} (h : NoLive c B b) : ownOrders c (B b) = [] :=
  List.filter_eq_nil_iff.mpr fun d hd hc => h d hd (of_decide_eq_true hc)

/-- Orders under one id are one order. -/
theorem ownOrders_of_onlyLive {B : Book MEOrderId} {k : Nat} (hs : Singles (ownOrder c k) B)
    (h : OnlyLive c k B b) : ownOrders c (B b) = [] ∨
      ∃ d ∈ B b, Is (ownOrder c k) d ∧ ownOrders c (B b) = [d] := by
  have his : ∀ d ∈ ownOrders c (B b), Is (ownOrder c k) d := by
    intro d hd
    obtain ⟨hmem, hc⟩ := List.mem_filter.mp hd
    exact is_ownOrder.mpr ⟨of_decide_eq_true hc, h d hmem (of_decide_eq_true hc)⟩
  have hpw := (hs.pairwise b).sublist
    (List.filter_sublist (p := fun d => decide (d.id_.client_id_ = c)))
  cases hl : ownOrders c (B b) with
  | nil => exact Or.inl rfl
  | cons d ds =>
    have hd : d ∈ ownOrders c (B b) := by rw [hl]; exact List.mem_cons_self ..
    refine Or.inr ⟨d, (List.mem_filter.mp hd).1, his d hd, ?_⟩
    cases ds with
    | nil => rfl
    | cons d' ds =>
      have hd' : d' ∈ ownOrders c (B b) := by simp [hl]
      change (ownOrders c (B b)).Pairwise _ at hpw
      rw [hl] at hpw
      exact absurd ⟨his d hd, his d' hd'⟩
        ((List.pairwise_cons.mp hpw).1 d' (List.mem_cons_self ..))

/-- **What rests for a slot** is its order, or nothing. -/
theorem SlotInv.rests (h : SlotInv c t b o qs r.book rs) (hinv : r.Inv) :
    ownOrders c (r.book b) = [] ∨ ∃ d, ownOrders c (r.book b) = [d] ∧
      d.id_.client_order_id_ = o.order_id_ ∧ o.order_state_ ≠ .INVALID ∧ o.order_state_ ≠ .DEAD := by
  cases h with
  | idle _ _ _ hlive | sent _ _ _ _ hlive => exact Or.inl (ownOrders_of_noLive hlive)
  | working q _ _ _ _ _ _ _ _ honly hid hknown =>
    refine (ownOrders_of_onlyLive (hinv.singles c q.order_id_) honly).imp_right ?_
    rintro ⟨d, _, hd, hone⟩
    exact ⟨d, hone, (is_ownOrder.mp hd).2.trans hid.symm, hknown.working⟩

/-- **What is open is in the slot.** -/
theorem SlotInv.exposure_le (h : SlotInv c t b o qs r.book rs) (hinv : r.Inv) :
    exposure c t b qs (r.book b) rs ≤ o.unfilled := by
  unfold exposure
  cases h with
  | idle _ hnews hrs hlive =>
    rw [hnews, hrs, ownOrders_of_noLive hlive]
    exact Nat.zero_le _
  | sent q hstate hnews hrs hlive _ hqty =>
    rw [hnews, hrs, ownOrders_of_noLive hlive,
      OMOrder.unfilled_of_working (by rw [hstate]; decide) (by rw [hstate]; decide), hqty]
    simp [executed]
  | working q seen leaves canceled _ _ hnews hlife hstanding honly _ hknown =>
    rw [hnews, OMOrder.unfilled_of_working hknown.working.1 hknown.working.2]
    -- what the slot has left is executed by now, or left
    have hleft : executed (slotResponses t b rs) + leaves = o.qty_ := by
      have hall := hlife.conserved
      rw [executed_append] at hall
      rcases hknown with ⟨hseen, _, hqty⟩ | ⟨_, hread, _⟩
      · rw [hseen] at hall
        have hnone : executed [] = 0 := rfl
        omega
      · have := hread.conserved
        omega
    have hrest : ((ownOrders c (r.book b)).map OrderData.qty_).sum ≤ leaves := by
      rcases ownOrders_of_onlyLive (hinv.singles c q.order_id_) honly with
        hnone | ⟨d, hd, his, hone⟩
      · rw [hnone]
        exact Nat.zero_le _
      · rw [hone, List.map_singleton, List.sum_singleton]
        -- an order that rests is the one of the history, with what that has left
        rcases hstanding with ⟨_, _, b', d', hd', hrests⟩ | ⟨_, habsent⟩
        · rw [(hinv.singles c q.order_id_).eq hd hd' his hrests.is, hrests.qty]
        · exact absurd his (habsent b d hd)
    simp only [List.map_nil, List.sum_nil]
    omega

end Slot

/-- **The limit covers everything that is open.** -/
theorem PositionInv.exposure_le {cfg : Nat → RiskCfg} {s : TradingSystem RefExchange}
    (h : PositionInv cfg s) (hinv : ProtocolInv s) {t : Nat} (ht : t < ME_MAX_TICKERS)
    (hsmall : (cfg t).Small) (b : Bool) :
    (s.client.ticker_position_ t).toward b +
      exposure s.client.client_id_ t b s.requests ((s.exchange t).book b) s.responses ≤
      (cfg t).max_position_ := by
  have hslot := (hinv.slots t ht b).exposure_le (hinv.books t)
  have hlimit := h.within t ht hsmall b
  unfold OrderManager.unfilled at hlimit
  omega

end LowLatency
