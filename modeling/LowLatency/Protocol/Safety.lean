import LowLatency.Protocol.Slots
import LowLatency.Matcher.Conservation

/-!
# Order-management protocol safety

`ProtocolInv` holds between any two actions, whatever the interleaving: every
slot is in order (`SlotInv`), the order ids in the slots are the client's own and
all different, and what is in the channels is well formed. Each action touches
one slot or one book, and the slot lemmas say what happens there; the rest of
this file is that nothing else is touched.

The client's own requests are not assumed to be well formed. That a new order's
id is not live at the exchange follows from the invariant: an order of the client
that rests is the order of its slot, and no two slots share an id.
-/

namespace LowLatency

theorem sideOf_inj {b b' : Bool} (h : sideOf b = sideOf b') : b = b' := by
  cases b <;> cases b' <;> first | rfl | exact absurd h (by decide)

theorem sideOf_ne_invalid (b : Bool) : sideOf b ≠ .INVALID := by cases b <;> decide

/-- A request of the client on its way. -/
structure OwnRequest (c next : Nat) (q : MEClientRequest) : Prop where
  client : q.client_id_ = c
  type : q.type_ ≠ .INVALID
  ticker : q.ticker_id_ < ME_MAX_TICKERS
  order : q.order_id_ < next
  side : q.type_ = .NEW → ∃ b, q.side_ = sideOf b

/-- A response to the client on its way. -/
structure OwnResponse (r : MEClientResponse) : Prop where
  ticker : r.ticker_id_ < ME_MAX_TICKERS
  side : (r.type_ = .CANCEL_REJECTED ∧ r.side_ = .INVALID) ∨
    (r.type_ ≠ .CANCEL_REJECTED ∧ ∃ b, r.side_ = sideOf b)

structure ProtocolInv (s : TradingSystem RefExchange) : Prop where
  client : s.client.client_id_ < ME_MAX_NUM_CLIENTS
  books : ∀ t, (s.exchange t).Inv
  slots : ∀ t < ME_MAX_TICKERS, ∀ b, SlotInv s.client.client_id_ t b
    (s.client.order_manager_.order t (sideOf b)) s.requests (s.exchange t).book s.responses
  named : ∀ t b, (s.client.order_manager_.order t (sideOf b)).order_state_ ≠ .INVALID →
    (s.client.order_manager_.order t (sideOf b)).ticker_id_ = t ∧
      (s.client.order_manager_.order t (sideOf b)).order_id_
        < s.client.order_manager_.next_order_id_
  distinct : ∀ t b t' b', (s.client.order_manager_.order t (sideOf b)).order_state_ ≠ .INVALID →
    (s.client.order_manager_.order t' (sideOf b')).order_state_ ≠ .INVALID →
    (s.client.order_manager_.order t (sideOf b)).order_id_
      = (s.client.order_manager_.order t' (sideOf b')).order_id_ → t = t' ∧ b = b'
  requests : ∀ q ∈ s.requests,
    OwnRequest s.client.client_id_ s.client.order_manager_.next_order_id_ q
  responses : ∀ r ∈ s.responses, OwnResponse r
  ids : IdsLeft s

theorem protocolInv_init {c : Nat} (hc : c < ME_MAX_NUM_CLIENTS) (cfg : Nat → RiskCfg) :
    ProtocolInv (TradingSystem.init RefExchange.init c cfg) where
  client := hc
  books := fun _ => RefBook.inv_init
  slots := fun t _ b => .idle (Or.inl rfl) rfl rfl (by
    intro o ho
    exact absurd ho (by simp [TradingSystem.init, RefExchange.init, RefBook.init, Book.empty]))
  named := fun _ _ h => absurd rfl h
  distinct := fun _ _ _ _ h => absurd rfl h
  requests := by simp [TradingSystem.init]
  responses := by simp [TradingSystem.init]
  ids := by
    show 1 ≤ ME_MAX_ORDER_IDS
    decide

/-! ## What a slot says -/

section Slot

variable {c t : Nat} {b : Bool} {o : OMOrder} {qs : List MEClientRequest} {B : Book MEOrderId}
  {rs : List MEClientResponse}

/-- A new order on its way is the order of its slot. -/
theorem SlotInv.of_news (h : SlotInv c t b o qs B rs) {q : MEClientRequest}
    (hq : q ∈ news t b qs) :
    o.order_id_ = q.order_id_ ∧ o.order_state_ = .PENDING_NEW ∧ NoLive c B b := by
  cases h with
  | idle _ hnews =>
    rw [hnews] at hq
    exact absurd hq (by simp)
  | working _ _ _ _ _ _ hnews =>
    rw [hnews] at hq
    exact absurd hq (by simp)
  | sent q' hstate hnews _ hlive hid =>
    rw [hnews, List.mem_singleton] at hq
    subst hq
    exact ⟨hid, hstate, hlive⟩

/-- An order of the client that rests is the order of its slot. -/
theorem SlotInv.of_live (h : SlotInv c t b o qs B rs) {d : OrderData MEOrderId} (hd : d ∈ B b)
    (hc : d.id_.client_id_ = c) : d.id_.client_order_id_ = o.order_id_ ∧
      o.order_state_ ≠ .INVALID ∧ o.order_state_ ≠ .DEAD := by
  cases h with
  | idle _ _ _ hlive => exact absurd hc (hlive d hd)
  | sent _ _ _ _ hlive => exact absurd hc (hlive d hd)
  | working q seen _ _ _ _ _ _ _ honly hid hknown =>
    exact ⟨(honly d hd hc).trans hid.symm, hknown.working⟩

/-- A slot that is over has nothing in flight and nothing at the exchange. -/
theorem SlotInv.of_idle (h : SlotInv c t b o qs B rs)
    (hstate : o.order_state_ = .INVALID ∨ o.order_state_ = .DEAD) :
    news t b qs = [] ∧ slotResponses t b rs = [] ∧ NoLive c B b := by
  cases h with
  | idle _ hnews hrs hlive => exact ⟨hnews, hrs, hlive⟩
  | sent _ hst =>
    rw [hst] at hstate
    exact absurd hstate (by decide)
  | working _ _ _ _ _ _ _ _ _ _ _ hknown =>
    exfalso
    rcases hknown with ⟨_, he, _⟩ | ⟨_, _, he | he⟩ <;> rw [he] at hstate <;>
      exact absurd hstate (by decide)

end Slot

/-! ## The exchange takes a request -/

section Serve

variable {s : TradingSystem RefExchange} {p : MEClientRequest}

/-- A slot of another book sees nothing of a request. -/
theorem slotInv_other {c t : Nat} {b : Bool} {o : OMOrder} {qs : List MEClientRequest}
    {R : RefExchange} {rs : List MEClientResponse} (h : SlotInv c t b o qs (R t).book rs)
    (ht : t ≠ p.ticker_id_) :
    SlotInv c t b o qs (R.step p t).book (rs ++ forClient c (R.stepEvents wrap32 p)) := by
  have hnone : slotResponses t b (forClient c (R.stepEvents wrap32 p)) = [] := by
    refine List.filter_eq_nil_iff.mpr fun x hx hh => ?_
    have hx' := (List.mem_filter.mp hx).1
    have hticker := (mem_responses_step (r := R p.ticker_id_) hx').1
    exact ht ((of_decide_eq_true hh).1.symm.trans hticker)
  rw [RefExchange.step_other ht]
  refine h.congr rfl ?_
  rw [slotResponses_append, hnone, List.append_nil]

/-- What is sent to the client is well formed. -/
theorem ownResponse_step {R : RefExchange} {c : Nat} (hinv : ∀ t, (R t).Inv) (ha : R.Admits p) :
    ∀ r ∈ forClient c (R.stepEvents wrap32 p), OwnResponse r := by
  intro r hr
  obtain ⟨hticker, h⟩ := mem_responses_step (r := R p.ticker_id_) (List.mem_filter.mp hr).1
  refine ⟨hticker ▸ ha.1, ?_⟩
  rcases h with ⟨ht, hty, _, _, hs⟩ | ⟨hty, b, o, ho, _, _, hs⟩ | ⟨hty, hs, _⟩
  · refine Or.inr ⟨by rcases hty with he | he <;> rw [he] <;> decide,
      Ladder.isBid p.side_, ?_⟩
    rw [hs, sideOf_isBid (ha.2.side ht)]
  · refine Or.inr ⟨by rcases hty with he | he <;> rw [he] <;> decide, b, ?_⟩
    rw [hs]
    exact (hinv _).side b o ho
  · exact Or.inl ⟨hty, hs⟩

/-- **A request of another client.** -/
theorem ProtocolInv.serveOther (h : ProtocolInv s) (hc : p.client_id_ ≠ s.client.client_id_)
    (ha : s.exchange.Admits p) :
    ProtocolInv { s with
      exchange := s.exchange.step p
      responses := s.responses ++
        forClient s.client.client_id_ (s.exchange.stepEvents wrap32 p) } where
  client := h.client
  books := RefExchange.step_forall h.books ((h.books _).step ha.2)
  slots := by
    intro t ht b
    by_cases hte : t = p.ticker_id_
    · subst hte
      show SlotInv _ _ _ _ _ (s.exchange.step p p.ticker_id_).book _
      rw [RefExchange.step_self]
      exact (h.slots _ ht b).step (h.books _) ha.2 rfl (fun hp => hc hp.2.1)
        fun _ hc' => absurd hc' hc
    · exact slotInv_other (h.slots t ht b) hte
  named := h.named
  distinct := h.distinct
  requests := h.requests
  responses := by
    intro r hr
    rcases List.mem_append.mp hr with hr | hr
    · exact h.responses r hr
    · exact ownResponse_step h.books ha r hr
  ids := h.ids

/-- **The client's next request is well formed** where the exchange takes it. -/
theorem ProtocolInv.admits (h : ProtocolInv s) {qs : List MEClientRequest}
    (hqs : s.requests = p :: qs) (hprice : s.exchange.PriceFits p) : s.exchange.Admits p := by
  have hp := h.requests p (by rw [hqs]; exact List.mem_cons_self ..)
  refine ⟨hp.ticker, ?_, Nat.lt_of_lt_of_le hp.order h.ids, hp.type, ?_, ?_, hprice⟩
  · rw [hp.client]
    exact h.client
  · intro hnew
    obtain ⟨b, hb⟩ := hp.side hnew
    rw [hb]
    cases b
    · exact Or.inr rfl
    · exact Or.inl rfl
  · -- an order of the client under this id would be the order of another slot
    rintro hnew ⟨b', d, hd, hi⟩
    obtain ⟨b, hb⟩ := hp.side hnew
    have hmem : p ∈ news p.ticker_id_ b s.requests :=
      List.mem_filter.mpr ⟨by rw [hqs]; exact List.mem_cons_self .., by simp [hnew, hb]⟩
    obtain ⟨hid, hst, hlive⟩ := (h.slots _ hp.ticker b).of_news hmem
    obtain ⟨hdc, hdk⟩ := Prod.mk.inj hi
    have hdc' := hdc.trans hp.client
    obtain ⟨hdo, hst', _⟩ := (h.slots _ hp.ticker b').of_live hd hdc'
    have hbb := (h.distinct _ b _ b' (by rw [hst]; decide) hst'
      (hid.trans (hdk.symm.trans hdo))).2
    rw [← hbb] at hd
    exact hlive d hd hdc'

/-- **The client's next request.** -/
theorem ProtocolInv.serve (h : ProtocolInv s) {qs : List MEClientRequest}
    (hqs : s.requests = p :: qs) (ha : s.exchange.Admits p) :
    ProtocolInv { s with
      requests := qs
      exchange := s.exchange.step p
      responses := s.responses ++
        forClient s.client.client_id_ (s.exchange.stepEvents wrap32 p) } where
  client := h.client
  books := RefExchange.step_forall h.books ((h.books _).step ha.2)
  slots := by
    intro t ht b
    have hp := h.requests p (by rw [hqs]; exact List.mem_cons_self ..)
    have hslot := h.slots t ht b
    rw [hqs] at hslot
    -- a slot that is not the request's forgets it
    have hdrop : ¬ (p.type_ = .NEW ∧ p.ticker_id_ = t ∧ p.side_ = sideOf b) →
        SlotInv s.client.client_id_ t b (s.client.order_manager_.order t (sideOf b)) qs
          (s.exchange t).book s.responses := by
      intro hne
      exact hslot.congr (news_cons_of_not hne qs).symm rfl
    by_cases hte : t = p.ticker_id_
    · subst hte
      show SlotInv _ _ _ _ _ (s.exchange.step p p.ticker_id_).book _
      rw [RefExchange.step_self]
      by_cases hnew : p.type_ = .NEW ∧ p.side_ = sideOf b
      · exact hslot.accept (h.books _) ha.2 hnew.1 hp.client rfl hnew.2
      · refine (hdrop fun hh => hnew ⟨hh.1, hh.2.2⟩).step (h.books _) ha.2 rfl
          (fun hh => hnew ⟨hh.1, hh.2.2⟩) fun hty _ hst he => ?_
        -- a new order for the other side: its id is in the other slot
        obtain ⟨b', hb'⟩ := hp.side hty
        have hmem : p ∈ news p.ticker_id_ b' s.requests :=
          List.mem_filter.mpr ⟨by rw [hqs]; exact List.mem_cons_self .., by simp [hty, hb']⟩
        obtain ⟨hid, hst', _⟩ := (h.slots _ ht b').of_news hmem
        have hbb := (h.distinct _ b' _ b (by rw [hst']; decide) hst (hid.trans he)).2
        exact hnew ⟨hty, by rw [hb', hbb]⟩
    · exact slotInv_other (hdrop fun hh => hte hh.2.1.symm) hte
  named := h.named
  distinct := h.distinct
  requests := fun q hq => h.requests q (by rw [hqs]; exact List.mem_cons_of_mem _ hq)
  responses := by
    intro r hr
    rcases List.mem_append.mp hr with hr | hr
    · exact h.responses r hr
    · exact ownResponse_step h.books ha r hr
  ids := h.ids

end Serve

/-! ## The client moves an order -/

/-- The system after the order manager became `m` and sent `qs`. -/
def TradingSystem.moved {X : Type} (s : TradingSystem X) (m : OrderManager)
    (qs : List MEClientRequest) : TradingSystem X :=
  { s with
    client := { s.client with order_manager_ := m }
    requests := s.requests ++ qs }

/-- Both orders are moved, the buy first; the second move looks at the position
the first one looked at. -/
theorem TradingSystem.step_moveOrders {X : Type}
    (proc : X → MEClientRequest → Exec (X × List Event)) (s : TradingSystem X) {loss : Bool}
    {t : Nat} {bid ask : Int} {clip : Nat} (ht : t < ME_MAX_TICKERS) {m₁ m₂ : OrderManager}
    {qs₁ qs₂ : List MEClientRequest}
    (h₁ : s.client.order_manager_.moveOrder s.client.client_id_ (s.client.risk t) loss t bid .BUY
      clip = (m₁, qs₁))
    (h₂ : m₁.moveOrder s.client.client_id_ (s.client.risk t) loss t ask .SELL clip = (m₂, qs₂)) :
    s.step proc (.moveOrders loss t bid ask clip) = .ok ((s.moved m₁ qs₁).moved m₂ qs₂) := by
  simp only [TradingSystem.step, TradeEngine.moveOrders, if_pos ht, h₁, h₂, exec_ok_bind,
    exec_pure, TradingSystem.moved, List.append_assoc]

/-- The order is changed in slot `(t, b)` and nowhere else. -/
theorem order_setOrder_slot (m : OrderManager) (t : Nat) (b : Bool) (o : OMOrder) (t' : Nat)
    (b' : Bool) : (m.setOrder t (sideOf b) o).order t' (sideOf b')
      = if t' = t ∧ b' = b then o else m.order t' (sideOf b') := by
  rw [OrderManager.order_setOrder]
  by_cases h : t' = t ∧ b' = b
  · rw [if_pos h, if_pos ⟨h.1, by rw [h.2]⟩]
  · rw [if_neg h, if_neg fun hh => h ⟨hh.1, sideOf_inj hh.2⟩]

section Move

variable {s s' : TradingSystem RefExchange} {t : Nat} {b : Bool}

/-- **One slot changes.** The new order is the old one under its id, or it has an
id above all others; nothing else sees a difference. -/
theorem ProtocolInv.replace (h : ProtocolInv s) {o : OMOrder}
    (hclient : s'.client.client_id_ = s.client.client_id_) (hexchange : s'.exchange = s.exchange)
    (horder : ∀ t' b', s'.client.order_manager_.order t' (sideOf b')
      = if t' = t ∧ b' = b then o else s.client.order_manager_.order t' (sideOf b'))
    (hnext : s.client.order_manager_.next_order_id_ ≤ s'.client.order_manager_.next_order_id_)
    (hids : IdsLeft s')
    (hslot : t < ME_MAX_TICKERS →
      SlotInv s.client.client_id_ t b o s'.requests (s.exchange t).book s'.responses)
    (hnews : ∀ t' b', ¬ (t' = t ∧ b' = b) → news t' b' s'.requests = news t' b' s.requests)
    (hrs : ∀ t' b', ¬ (t' = t ∧ b' = b) →
      slotResponses t' b' s'.responses = slotResponses t' b' s.responses)
    (hticker : o.ticker_id_ = t)
    (hid : ((s.client.order_manager_.order t (sideOf b)).order_state_ ≠ .INVALID ∧
        o.order_id_ = (s.client.order_manager_.order t (sideOf b)).order_id_) ∨
      (s.client.order_manager_.next_order_id_ ≤ o.order_id_ ∧
        o.order_id_ < s'.client.order_manager_.next_order_id_))
    (hrequests : ∀ q ∈ s'.requests, q ∈ s.requests ∨
      OwnRequest s.client.client_id_ s'.client.order_manager_.next_order_id_ q)
    (hresponses : ∀ r ∈ s'.responses, r ∈ s.responses) : ProtocolInv s' := by
  refine ⟨hclient ▸ h.client, hexchange ▸ h.books, ?_, ?_, ?_, ?_, ?_, hids⟩
  · intro t' ht' b'
    rw [horder, hclient, hexchange]
    split
    next he =>
      obtain ⟨rfl, rfl⟩ := he
      exact hslot ht'
    next he => exact (h.slots t' ht' b').congr (hnews t' b' he) (hrs t' b' he)
  · intro t' b' hst
    rw [horder] at hst ⊢
    split
    next he =>
      refine ⟨hticker.trans he.1.symm, ?_⟩
      -- its id was handed out before, or just now
      rcases hid with ⟨hne, he'⟩ | ⟨_, hlt⟩
      · rw [he']
        exact Nat.lt_of_lt_of_le (h.named t b hne).2 hnext
      · exact hlt
    next he =>
      rw [if_neg he] at hst
      exact ⟨(h.named t' b' hst).1, Nat.lt_of_lt_of_le (h.named t' b' hst).2 hnext⟩
  · -- two slots: the changed one keeps its id or got one above all others
    have hone : ∀ t' b', ¬ (t' = t ∧ b' = b) →
        (s.client.order_manager_.order t' (sideOf b')).order_state_ ≠ .INVALID →
        o.order_id_ ≠ (s.client.order_manager_.order t' (sideOf b')).order_id_ := by
      intro t' b' hne hst he
      rcases hid with ⟨hst', he'⟩ | ⟨hle, _⟩
      · obtain ⟨h₁, h₂⟩ := h.distinct t b t' b' hst' hst (he'.symm.trans he)
        exact hne ⟨h₁.symm, h₂.symm⟩
      · have := (h.named t' b' hst).2
        omega
    intro t₁ b₁ t₂ b₂ hst₁ hst₂ he
    rw [horder] at hst₁ hst₂
    rw [horder, horder] at he
    by_cases h₁ : t₁ = t ∧ b₁ = b <;> by_cases h₂ : t₂ = t ∧ b₂ = b
    · exact ⟨h₁.1.trans h₂.1.symm, h₁.2.trans h₂.2.symm⟩
    · rw [if_neg h₂] at hst₂
      rw [if_pos h₁, if_neg h₂] at he
      exact absurd he (hone t₂ b₂ h₂ hst₂)
    · rw [if_neg h₁] at hst₁
      rw [if_neg h₁, if_pos h₂] at he
      exact absurd he.symm (hone t₁ b₁ h₁ hst₁)
    · rw [if_neg h₁] at hst₁
      rw [if_neg h₂] at hst₂
      rw [if_neg h₁, if_neg h₂] at he
      exact h.distinct t₁ b₁ t₂ b₂ hst₁ hst₂ he
  · intro q hq
    rw [hclient]
    rcases hrequests q hq with hq | hq
    · have hq' := h.requests q hq
      exact ⟨hq'.client, hq'.type, hq'.ticker, Nat.lt_of_lt_of_le hq'.order hnext, hq'.side⟩
    · exact hq
  · exact fun r hr => h.responses r (hresponses r hr)

/-- **A cancel** of a live order. -/
theorem ProtocolInv.cancelOrder (h : ProtocolInv s) (ht : t < ME_MAX_TICKERS)
    (hlive : (s.client.order_manager_.order t (sideOf b)).order_state_ = .LIVE)
    {m : OrderManager} {qs : List MEClientRequest}
    (hm : s.client.order_manager_.cancelOrder s.client.client_id_ t (sideOf b) = (m, qs)) :
    ProtocolInv (s.moved m qs) := by
  obtain ⟨rfl, rfl⟩ := Prod.mk.inj hm
  have hne : (s.client.order_manager_.order t (sideOf b)).order_state_ ≠ .INVALID := by
    rw [hlive]
    decide
  obtain ⟨hticker, hlt⟩ := h.named t b hne
  -- a cancel is no new order of any slot
  have hnews : ∀ t' b' x, x.type_ = .CANCEL → news t' b' (s.requests ++ [x])
      = news t' b' s.requests := by
    intro t' b' x hx
    rw [news_append, news_cons_of_not fun hh => absurd (hx.symm.trans hh.1) (by decide)]
    exact List.append_nil _
  refine h.replace rfl rfl
    (order_setOrder_slot s.client.order_manager_ t b _) (Nat.le_refl _) h.ids ?_
    (fun t' b' _ => hnews t' b' _ rfl) (fun _ _ _ => rfl) hticker (Or.inl ⟨hne, rfl⟩) ?_
    fun r hr => hr
  · intro _
    suffices hslot : SlotInv s.client.client_id_ t b _ s.requests (s.exchange t).book s.responses from
      hslot.congr (hnews t b _ rfl) rfl
    cases h.slots t ht b with
    | idle hst =>
      rw [hlive] at hst
      exact absurd hst (by decide)
    | sent _ hst =>
      rw [hlive] at hst
      exact absurd hst (by decide)
    | working q seen lv cd h₁ h₂ h₃ h₄ h₅ h₆ h₇ h₈ =>
      refine .working q seen lv cd h₁ h₂ h₃ h₄ h₅ h₆ h₇ ?_
      rcases h₈ with ⟨_, he, _⟩ | ⟨hne, hl, _⟩
      · rw [hlive] at he
        exact absurd he (by decide)
      · exact Or.inr ⟨hne, hl, Or.inr rfl⟩
  · intro q hq
    refine (List.mem_append.mp hq).imp_right fun hq => ?_
    rw [List.mem_singleton.mp hq]
    exact ⟨rfl, nofun, Nat.lt_of_le_of_lt (Nat.le_of_eq hticker) ht, hlt, nofun⟩

/-- **A new order** in a slot that is over. -/
theorem ProtocolInv.newOrder (h : ProtocolInv s) (ht : t < ME_MAX_TICKERS) {price : Int} {qty : Nat}
    (hover : (s.client.order_manager_.order t (sideOf b)).order_state_ = .INVALID ∨
      (s.client.order_manager_.order t (sideOf b)).order_state_ = .DEAD)
    {m : OrderManager} {qs : List MEClientRequest}
    (hm : s.client.order_manager_.newOrder s.client.client_id_ t price (sideOf b) qty = (m, qs))
    (hids : m.next_order_id_ ≤ ME_MAX_ORDER_IDS) : ProtocolInv (s.moved m qs) := by
  obtain ⟨rfl, rfl⟩ := Prod.mk.inj hm
  set k := s.client.order_manager_.next_order_id_ with hk
  set q : MEClientRequest := ⟨.NEW, s.client.client_id_, t, k, sideOf b, price, qty⟩ with hq
  -- ids are left, so the counter does not wrap
  have hnext : wrap64 (k + 1) = k + 1 := by
    refine wrap64_eq ?_
    have hle : k ≤ ME_MAX_ORDER_IDS := h.ids
    simp only [ME_MAX_ORDER_IDS] at hle
    omega
  refine h.replace rfl rfl
    (order_setOrder_slot s.client.order_manager_ t b ⟨t, k, sideOf b, price, qty, .PENDING_NEW⟩)
    ?_ hids ?_ ?_ (fun _ _ _ => rfl) rfl (Or.inr ⟨Nat.le_refl _, ?_⟩) ?_ fun r hr => hr
  · show k ≤ wrap64 (k + 1)
    omega
  · intro _
    -- nothing of the slot is on its way or at rest, so the new order is alone there
    obtain ⟨hnews, hrs, hlive⟩ := (h.slots t ht b).of_idle hover
    refine .sent q rfl ?_ hrs hlive rfl rfl
    show news t b (s.requests ++ [q]) = [q]
    rw [news_append, hnews, news_cons_of (q := q) ⟨rfl, rfl, rfl⟩]
    rfl
  · intro t' b' hne
    show news t' b' (s.requests ++ [q]) = _
    rw [news_append, news_cons_of_not fun hh => hne ⟨hh.2.1.symm, sideOf_inj hh.2.2.symm⟩]
    exact List.append_nil _
  · show k < wrap64 (k + 1)
    omega
  · intro p hp
    refine (List.mem_append.mp hp).imp_right fun hp => ?_
    rw [List.mem_singleton.mp hp]
    refine ⟨rfl, by show ClientRequestType.NEW ≠ .INVALID; decide, ht, ?_, fun _ => ⟨b, rfl⟩⟩
    show k < wrap64 (k + 1)
    omega

/-- **One order is moved.** -/
theorem ProtocolInv.moveOrder (h : ProtocolInv s) (ht : t < ME_MAX_TICKERS) (risk : RiskInfo)
    (loss : Bool) (price : Int) (qty : Nat) {m : OrderManager} {qs : List MEClientRequest}
    (hm : s.client.order_manager_.moveOrder s.client.client_id_ risk loss t price (sideOf b) qty
      = (m, qs)) (hids : m.next_order_id_ ≤ ME_MAX_ORDER_IDS) : ProtocolInv (s.moved m qs) := by
  rcases s.client.order_manager_.moveOrder_cases s.client.client_id_ risk loss t price (sideOf b) qty
    with he | ⟨hlive, he⟩ | ⟨hover, _, he⟩
  · obtain ⟨rfl, rfl⟩ := Prod.mk.inj (he.symm.trans hm)
    have hmoved : s.moved s.client.order_manager_ [] = s := by
      unfold TradingSystem.moved
      rw [List.append_nil]
    rw [hmoved]
    exact h
  · exact h.cancelOrder ht hlive (he.symm.trans hm)
  · exact h.newOrder ht hover (he.symm.trans hm) hids

/-- A move does not take ids back. -/
theorem next_le_moveOrder (m : OrderManager) (c : Nat) (risk : RiskInfo) (loss : Bool) (t : Nat)
    (price : Int) (side : Side) (qty : Nat) (hids : m.next_order_id_ < 2 ^ 64 - 1) :
    m.next_order_id_ ≤ (m.moveOrder c risk loss t price side qty).1.next_order_id_ := by
  rcases m.moveOrder_cases c risk loss t price side qty with he | ⟨_, he⟩ | ⟨_, _, he⟩
  · rw [he]
  · rw [he]
    exact Nat.le_refl _
  · rw [he]
    show m.next_order_id_ ≤ wrap64 (m.next_order_id_ + 1)
    rw [wrap64_eq] <;> omega

/-- A move takes at most one id. -/
theorem next_moveOrder_le (m : OrderManager) (c : Nat) (risk : RiskInfo) (loss : Bool) (t : Nat)
    (price : Int) (side : Side) (qty : Nat) :
    (m.moveOrder c risk loss t price side qty).1.next_order_id_ ≤ m.next_order_id_ + 1 := by
  rcases m.moveOrder_cases c risk loss t price side qty with he | ⟨_, he⟩ | ⟨_, _, he⟩
  · rw [he]
    exact Nat.le_succ _
  · rw [he]
    exact Nat.le_succ _
  · rw [he]
    exact Nat.mod_le ..

end Move

/-! ## The client reads a response -/

section Read

variable {s s' : TradingSystem RefExchange} {r : MEClientResponse} {rs : List MEClientResponse}

theorem next_onOrderUpdate (m : OrderManager) (r : MEClientResponse) :
    (m.onOrderUpdate r).next_order_id_ = m.next_order_id_ := by
  unfold OrderManager.onOrderUpdate
  cases r.type_ <;> rfl

/-- A response for a ticker that exists is processed. -/
theorem onOrderUpdate_ok (e : TradeEngine) (hr : r.ticker_id_ < ME_MAX_TICKERS) :
    ∃ e', e.onOrderUpdate r = .ok e' ∧ e'.client_id_ = e.client_id_ ∧
      e'.order_manager_ = e.order_manager_.onOrderUpdate r ∧ e'.risk_cfg_ = e.risk_cfg_ ∧
      e'.ticker_position_ = if r.type_ = .FILLED then Function.update e.ticker_position_
        r.ticker_id_ ((e.ticker_position_ r.ticker_id_).addFill r) else e.ticker_position_ := by
  unfold TradeEngine.onOrderUpdate
  rw [if_pos hr]
  exact ⟨_, rfl, rfl, rfl, rfl, rfl⟩

/-- **A response is read.** A rejected cancel has no side and reaches no slot. -/
theorem ProtocolInv.read (h : ProtocolInv s) (hrs : s.responses = r :: rs)
    (hclient : s'.client.client_id_ = s.client.client_id_) (hexchange : s'.exchange = s.exchange)
    (hmanager : s'.client.order_manager_ = s.client.order_manager_.onOrderUpdate r)
    (hrequests : s'.requests = s.requests) (hresponses : s'.responses = rs) : ProtocolInv s' := by
  have hr := h.responses r (by rw [hrs]; exact List.mem_cons_self ..)
  have hnext : s'.client.order_manager_.next_order_id_
      = s.client.order_manager_.next_order_id_ := by
    rw [hmanager, next_onOrderUpdate]
  have hids : IdsLeft s' := by
    unfold IdsLeft
    rw [hnext]
    exact h.ids
  have hmem : ∀ x ∈ s'.responses, x ∈ s.responses := by
    intro x hx
    rw [hrs]
    rw [hresponses] at hx
    exact List.mem_cons_of_mem _ hx
  rcases hr.side with ⟨_, hside⟩ | ⟨_, b, hside⟩
  · -- no slot is touched
    have horder : ∀ t b, s'.client.order_manager_.order t (sideOf b)
        = s.client.order_manager_.order t (sideOf b) := by
      intro t b
      rw [hmanager, OrderManager.order_onOrderUpdate, if_neg]
      intro hh
      exact sideOf_ne_invalid b (hh.2.trans hside)
    refine ⟨hclient ▸ h.client, hexchange ▸ h.books, ?_, ?_, ?_, ?_,
      fun x hx => h.responses x (hmem x hx), hids⟩
    · intro t ht b
      rw [horder, hclient, hexchange, hrequests, hresponses]
      refine (h.slots t ht b).congr rfl ?_
      rw [hrs, slotResponses_cons_of_not fun hh => sideOf_ne_invalid b (hh.2.symm.trans hside)]
    · intro t b hst
      rw [horder] at hst ⊢
      rw [hnext]
      exact h.named t b hst
    · intro t b t' b' hst hst' he
      rw [horder] at hst hst'
      rw [horder, horder] at he
      exact h.distinct t b t' b' hst hst' he
    · intro q hq
      rw [hclient, hnext]
      rw [hrequests] at hq
      exact h.requests q hq
  · -- the slot of the response
    have hslot := h.slots _ hr.ticker b
    rw [hrs] at hslot
    have hone : r ∈ slotResponses r.ticker_id_ b (r :: rs) := by
      rw [slotResponses_cons_of ⟨rfl, hside⟩]
      exact List.mem_cons_self ..
    -- a slot with a response on its way is in use, so its id stays distinct
    have hne : (s.client.order_manager_.order r.ticker_id_ (sideOf b)).order_state_ ≠ .INVALID := by
      obtain ⟨_, _, q, seen, hknown⟩ := hslot.response hone
      exact hknown.working.1
    refine h.replace (t := r.ticker_id_) (b := b)
      (o := (s.client.order_manager_.order r.ticker_id_ (sideOf b)).applied r) hclient hexchange
      ?_ (Nat.le_of_eq hnext.symm) hids ?_ ?_ ?_ ?_
      (Or.inl ⟨hne, OMOrder.applied_order_id ..⟩) ?_ hmem
    · intro t' b'
      rw [hmanager, OrderManager.order_onOrderUpdate, hside]
      by_cases hh : t' = r.ticker_id_ ∧ b' = b
      · obtain ⟨rfl, rfl⟩ := hh
        rw [if_pos ⟨rfl, rfl⟩, if_pos ⟨rfl, rfl⟩]
      · rw [if_neg hh, if_neg fun hh' => hh ⟨hh'.1, sideOf_inj hh'.2⟩]
    · intro _
      rw [hrequests, hresponses]
      exact hslot.consume ⟨rfl, hside⟩
    · intro t' b' _
      rw [hrequests]
    · intro t' b' hh
      rw [hresponses, hrs, slotResponses_cons_of_not fun hh' => hh ⟨hh'.1.symm,
        sideOf_inj (hh'.2.symm.trans hside)⟩]
    · rw [OMOrder.applied_ticker_id]
      exact (h.named _ b hne).1
    · intro q hq
      rw [hrequests] at hq
      exact Or.inl hq

end Read

/-! ## Runs -/

/-- **Every allowed action returns and keeps the invariant.** -/
theorem ProtocolInv.step {s : TradingSystem RefExchange} (h : ProtocolInv s) {a : Action}
    (ha : Allowed s a) (hids : ∀ s', s.step RefExchange.serve a = .ok s' → IdsLeft s') :
    ∃ s', s.step RefExchange.serve a = .ok s' ∧ ProtocolInv s' := by
  cases a with
  | moveOrders loss t bid ask clip =>
    have ht : t < ME_MAX_TICKERS := ha
    obtain ⟨m₁, qs₁, h₁⟩ : ∃ m qs, s.client.order_manager_.moveOrder s.client.client_id_
        (s.client.risk t) loss t bid .BUY clip = (m, qs) := ⟨_, _, rfl⟩
    obtain ⟨m₂, qs₂, h₂⟩ : ∃ m qs, m₁.moveOrder s.client.client_id_ (s.client.risk t) loss t ask
        .SELL clip = (m, qs) := ⟨_, _, rfl⟩
    have hstep := s.step_moveOrders RefExchange.serve ht h₁ h₂
    have hids₂ : m₂.next_order_id_ ≤ ME_MAX_ORDER_IDS := hids _ hstep
    refine ⟨_, hstep, ?_⟩
    -- the first move left ids for the second
    have hids₁ : m₁.next_order_id_ ≤ ME_MAX_ORDER_IDS := by
      by_contra hgt
      have hold : s.client.order_manager_.next_order_id_ ≤ ME_MAX_ORDER_IDS := h.ids
      have hstep₁ : m₁.next_order_id_ ≤ s.client.order_manager_.next_order_id_ + 1 := by
        have := next_moveOrder_le s.client.order_manager_ s.client.client_id_ (s.client.risk t) loss
          t bid .BUY clip
        rwa [h₁] at this
      have := next_le_moveOrder m₁ s.client.client_id_ (s.client.risk t) loss t ask .SELL clip
        (by simp only [ME_MAX_ORDER_IDS] at hold; omega)
      rw [h₂] at this
      exact hgt (Nat.le_trans this hids₂)
    exact (h.moveOrder (b := true) ht _ loss bid clip h₁ hids₁).moveOrder (b := false) ht _ loss ask
      clip h₂ hids₂
  | serve =>
    cases hqs : s.requests with
    | nil =>
      refine ⟨s, ?_, h⟩
      simp only [TradingSystem.step, hqs]
    | cons q qs =>
      obtain ⟨hprice, _⟩ := ha q (by rw [hqs]; rfl)
      refine ⟨_, ?_, h.serve hqs (h.admits hqs hprice)⟩
      simp only [TradingSystem.step, hqs]
      rfl
  | serveOther q => exact ⟨_, rfl, h.serveOther ha.1 ha.2.1⟩
  | consume =>
    cases hrs : s.responses with
    | nil =>
      refine ⟨s, ?_, h⟩
      simp only [TradingSystem.step, hrs]
    | cons r rs =>
      have hr := (h.responses r (by rw [hrs]; exact List.mem_cons_self ..)).ticker
      obtain ⟨e, he, hclient, hmanager, _⟩ := onOrderUpdate_ok s.client hr
      refine ⟨{ s with client := e, responses := rs }, ?_, h.read hrs hclient rfl hmanager rfl rfl⟩
      simp only [TradingSystem.step, hrs, he, exec_ok_bind, exec_pure]

/-- The system with the matching engine, and the one with the reference. -/
structure SystemSim (s : TradingSystem MatchingEngine) (s' : TradingSystem RefExchange) : Prop where
  client : s.client = s'.client
  requests : s.requests = s'.requests
  responses : s.responses = s'.responses
  exchange : EngineSim s.exchange s'.exchange

/-- The exchange's part of an action. -/
theorem process_sim {s : TradingSystem MatchingEngine} {s' : TradingSystem RefExchange}
    (hsim : SystemSim s s') (hinv : ∀ t, (s'.exchange t).Inv) {q : MEClientRequest}
    (ha : s'.exchange.Admits q) (hf : s'.exchange.StepFits q) {s₁' : TradingSystem RefExchange}
    (h : s'.process RefExchange.serve q = .ok s₁') :
    ∃ s₁, s.process MatchingEngine.processClientRequest q = .ok s₁ ∧ SystemSim s₁ s₁' := by
  obtain ⟨e, he, hesim⟩ := engine_step_sim hsim.exchange hinv ha hf
  have h' := Except.ok.inj h
  subst h'
  refine ⟨{ s with
      exchange := e
      responses := s.responses ++
        forClient s.client.client_id_ (s'.exchange.stepEvents wrap32 q) }, ?_, ?_⟩
  · simp only [TradingSystem.process, he, exec_ok_bind, exec_pure]
  · refine ⟨hsim.client, hsim.requests, ?_, hesim⟩
    show s.responses ++ _ = s'.responses ++ _
    rw [hsim.responses, hsim.client]

/-- **Forward simulation** of the system, one action. -/
theorem system_step_sim {s : TradingSystem MatchingEngine} {s' s₁' : TradingSystem RefExchange}
    {a : Action} (hsim : SystemSim s s') (h : ProtocolInv s') (ha : Allowed s' a)
    (hstep : s'.step RefExchange.serve a = .ok s₁') :
    ∃ s₁, s.step MatchingEngine.processClientRequest a = .ok s₁ ∧ SystemSim s₁ s₁' := by
  cases a with
  | moveOrders loss t bid ask clip =>
    obtain ⟨⟨e, qs⟩, he, hs⟩ := exec_bind_ok hstep
    have hs' := Except.ok.inj hs
    subst hs'
    refine ⟨{ s with client := e, requests := s.requests ++ qs }, ?_, rfl, ?_, hsim.responses,
      hsim.exchange⟩
    · simp only [TradingSystem.step, hsim.client, he, exec_ok_bind, exec_pure]
    · show s.requests ++ qs = s'.requests ++ qs
      rw [hsim.requests]
  | serve =>
    simp only [TradingSystem.step, hsim.requests] at hstep ⊢
    cases hqs : s'.requests with
    | nil =>
      rw [hqs] at hstep
      have hs' := Except.ok.inj hstep
      subst hs'
      exact ⟨s, rfl, hsim⟩
    | cons q qs =>
      rw [hqs] at hstep
      obtain ⟨hprice, hf⟩ := ha q (by rw [hqs]; rfl)
      -- both sides take the same request from the queue
      have hpopped : SystemSim { s with requests := qs } { s' with requests := qs } :=
        ⟨hsim.client, rfl, hsim.responses, hsim.exchange⟩
      exact process_sim hpopped h.books (h.admits hqs hprice) hf hstep
  | serveOther q => exact process_sim hsim h.books ha.2.1 ha.2.2 hstep
  | consume =>
    simp only [TradingSystem.step, hsim.responses] at hstep ⊢
    cases hrs : s'.responses with
    | nil =>
      rw [hrs] at hstep
      have hs' := Except.ok.inj hstep
      subst hs'
      exact ⟨s, rfl, hsim⟩
    | cons r rs =>
      rw [hrs] at hstep
      obtain ⟨e, he, hs⟩ := exec_bind_ok hstep
      have hs' := Except.ok.inj hs
      subst hs'
      refine ⟨{ s with client := e, responses := rs }, ?_, rfl, hsim.requests, rfl, hsim.exchange⟩
      simp only [hsim.client, he, exec_ok_bind, exec_pure]

/-- A condition on the actions of a run, each at the state it is taken in. -/
def Along (Q : TradingSystem RefExchange → Action → Prop) :
    TradingSystem RefExchange → List Action → Prop
  | _, [] => True
  | s, a :: as => Q s a ∧ ∀ s', s.step RefExchange.serve a = .ok s' → Along Q s' as

theorem along_of_forall {Q : TradingSystem RefExchange → Action → Prop} (h : ∀ s a, Q s a)
    (s : TradingSystem RefExchange) (as : List Action) : Along Q s as := by
  induction as generalizing s with
  | nil => trivial
  | cons a as ih => exact ⟨h s a, fun s' _ => ih s'⟩

/-- **Every run**: the system does not fault, follows the reference, and the
invariant holds where it ends. A property of the reference that every allowed
action of the kind `Q` keeps holds there too, if all its actions are of that
kind. -/
theorem system_run_along {P : TradingSystem RefExchange → Prop}
    {Q : TradingSystem RefExchange → Action → Prop}
    (hP : ∀ s a s', ProtocolInv s → P s → Allowed s a → Q s a →
      s.step RefExchange.serve a = .ok s' → P s')
    {s : TradingSystem MatchingEngine} {s' : TradingSystem RefExchange} {as : List Action}
    (hsim : SystemSim s s') (h : ProtocolInv s') (hp : P s') (ha : AllowedAll s' as)
    (hq : Along Q s' as) :
    ∃ s₁ s₁', s.run MatchingEngine.processClientRequest as = .ok s₁ ∧ SystemSim s₁ s₁' ∧
      ProtocolInv s₁' ∧ P s₁' := by
  induction as generalizing s s' with
  | nil => exact ⟨s, s', rfl, hsim, h, hp⟩
  | cons a as ih =>
    obtain ⟨s₁', hstep', h₁⟩ := h.step ha.1 fun s₁' he => (ha.2 s₁' he).1
    obtain ⟨s₁, hstep, hsim₁⟩ := system_step_sim hsim h ha.1 hstep'
    obtain ⟨s₂, s₂', hrun, hsim₂, h₂, hp₂⟩ := ih hsim₁ h₁ (hP _ _ _ h hp ha.1 hq.1 hstep')
      (ha.2 s₁' hstep').2 (hq.2 s₁' hstep')
    refine ⟨s₂, s₂', ?_, hsim₂, h₂, hp₂⟩
    simp only [TradingSystem.run, hstep, exec_ok_bind, hrun]

/-- The same for a property that every allowed action keeps. -/
theorem system_run {P : TradingSystem RefExchange → Prop}
    (hP : ∀ s a s', ProtocolInv s → P s → Allowed s a → s.step RefExchange.serve a = .ok s' → P s')
    {s : TradingSystem MatchingEngine} {s' : TradingSystem RefExchange} {as : List Action}
    (hsim : SystemSim s s') (h : ProtocolInv s') (hp : P s') (ha : AllowedAll s' as) :
    ∃ s₁ s₁', s.run MatchingEngine.processClientRequest as = .ok s₁ ∧ SystemSim s₁ s₁' ∧
      ProtocolInv s₁' ∧ P s₁' :=
  system_run_along (fun s a s' hi hp ha _ => hP s a s' hi hp ha) hsim h hp ha
    (along_of_forall (fun _ _ => trivial) s' as)

theorem systemSim_init (c : Nat) (cfg : Nat → RiskCfg) :
    SystemSim (TradingSystem.init MatchingEngine.init c cfg)
      (TradingSystem.init RefExchange.init c cfg) := ⟨rfl, rfl, rfl, engineSim_init⟩

/-- The client's orders at the exchange on one side of a ticker. -/
def liveOrders (s : TradingSystem MatchingEngine) (t : Nat) (b : Bool) :
    List (OrderData MEOrderId) :=
  (restingOrders (s.exchange t) b).filter fun o =>
    decide (o.id_.client_id_ = s.client.client_id_)

/-- **Order-management protocol safety.** In every interleaving, for every ticker
and side: at most one order of the client is live at the exchange; every response
on its way that says something about an order says it about the order in the slot
`onOrderUpdate` will find; and while that slot is `INVALID` or `DEAD` no order of
the client is live there, nor is any on its way. -/
theorem orderManagement_safe (c : Nat) (hc : c < ME_MAX_NUM_CLIENTS) (cfg : Nat → RiskCfg)
    (as : List Action) (ha : AllowedAll (TradingSystem.init RefExchange.init c cfg) as) :
    ∃ s, (TradingSystem.init MatchingEngine.init c cfg).run MatchingEngine.processClientRequest as
        = .ok s ∧
      (∀ t < ME_MAX_TICKERS, ∀ b, (liveOrders s t b).length ≤ 1) ∧
      (∀ r ∈ s.responses, r.type_ = .ACCEPTED ∨ r.type_ = .FILLED ∨ r.type_ = .CANCELED →
        r.client_order_id_ = (s.client.order_manager_.order r.ticker_id_ r.side_).order_id_) ∧
      (∀ t < ME_MAX_TICKERS, ∀ b,
        (s.client.order_manager_.order t (sideOf b)).order_state_ = .INVALID ∨
          (s.client.order_manager_.order t (sideOf b)).order_state_ = .DEAD →
        liveOrders s t b = [] ∧ news t b s.requests = [] ∧ slotResponses t b s.responses = []) := by
  obtain ⟨s, s', hrun, hsim, h, _⟩ := system_run (P := fun _ => True) (fun _ _ _ _ _ _ _ => trivial)
    (systemSim_init c cfg) (protocolInv_init hc cfg) trivial ha
  have hrest : ∀ t b, restingOrders (s.exchange t) b = (s'.exchange t).book b :=
    fun t b => restingOrders_sim (hsim.exchange t) b
  refine ⟨s, hrun, ?_, ?_, ?_⟩
  · -- all live orders of the side are under one id, and no two orders are
    intro t ht b
    unfold liveOrders
    rw [hrest, hsim.client]
    have hpw := ((h.books t).distinct b).sublist (List.filter_sublist
      (p := fun o => decide (o.id_.client_id_ = s'.client.client_id_)))
    have hall : ∀ o ∈ ((s'.exchange t).book b).filter
        (fun o => decide (o.id_.client_id_ = s'.client.client_id_)),
        idx o.id_ = (s'.client.client_id_,
          (s'.client.order_manager_.order t (sideOf b)).order_id_) := by
      intro o ho
      obtain ⟨hmem, hcl⟩ := List.mem_filter.mp ho
      have hcl' := of_decide_eq_true hcl
      show (o.id_.client_id_, o.id_.client_order_id_) = _
      rw [hcl', ((h.slots t ht b).of_live hmem hcl').1]
    cases hl : ((s'.exchange t).book b).filter
        (fun o => decide (o.id_.client_id_ = s'.client.client_id_)) with
    | nil => exact Nat.zero_le _
    | cons o os =>
      cases os with
      | nil => exact Nat.le_refl _
      | cons o' os =>
        rw [hl] at hpw hall
        refine absurd ?_ ((List.pairwise_cons.mp hpw).1 o' (List.mem_cons_self ..))
        rw [hall o (List.mem_cons_self ..),
          hall o' (List.mem_cons_of_mem _ (List.mem_cons_self ..))]
  · intro r hr hty
    rw [hsim.responses] at hr
    rw [hsim.client]
    -- only a rejected cancel names no slot
    have hown := h.responses r hr
    rcases hown.side with ⟨hrej, _⟩ | ⟨_, b, hside⟩
    · rw [hrej] at hty
      exact absurd hty (by decide)
    · rw [hside]
      exact ((h.slots _ hown.ticker b).response
        (List.mem_filter.mpr ⟨hr, decide_eq_true ⟨rfl, hside⟩⟩)).1
  · intro t ht b hst
    rw [hsim.client] at hst
    -- an idle slot has nothing at the exchange and nothing on its way
    obtain ⟨hnews, hrs, hlive⟩ := (h.slots t ht b).of_idle hst
    rw [hsim.requests, hsim.responses]
    refine ⟨List.filter_eq_nil_iff.mpr fun o ho hcl => ?_, hnews, hrs⟩
    rw [hrest] at ho
    rw [hsim.client] at hcl
    exact hlive o ho (of_decide_eq_true hcl)

/-- A bid is sent, partly filled while its cancel is on the way, and cancelled. -/
theorem orderManagement_safe_small : ∃ s,
    (TradingSystem.init MatchingEngine.init 1 fun _ => ⟨100, 100⟩).run
      MatchingEngine.processClientRequest
      [.moveOrders false 0 100 Price_INVALID 10, .serve, .consume,
        .moveOrders false 0 99 Price_INVALID 10, .serveOther ⟨.NEW, 2, 0, 5, .SELL, 100, 4⟩,
        .serve, .consume, .consume] = .ok s ∧
    ∀ t < ME_MAX_TICKERS, ∀ b, (liveOrders s t b).length ≤ 1 := by
  obtain ⟨s, hrun, hone, _⟩ := orderManagement_safe 1 (by decide) (fun _ => ⟨100, 100⟩)
    [.moveOrders false 0 100 Price_INVALID 10, .serve, .consume,
      .moveOrders false 0 99 Price_INVALID 10, .serveOther ⟨.NEW, 2, 0, 5, .SELL, 100, 4⟩,
      .serve, .consume, .consume] (by decide)
  exact ⟨s, hrun, hone⟩

end LowLatency
