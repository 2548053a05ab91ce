import LowLatency.Protocol.Model
import LowLatency.Matcher.Lifecycle

/-!
# One slot of the order manager

A slot is a ticker and a side. `SlotInv` says how the client's view of its order
there, the two channels and the exchange's book fit together:

* nothing: the slot is `INVALID` or `DEAD`, nothing about it is in flight, and the
  exchange has no order of the client there;
* sent: the request is on its way, and that is all;
* working: the exchange has taken the request. The responses the client has read,
  followed by those on their way, are a history of the order (`Life`); the slot
  stands where the part that was read left it, the book where the whole did.

`onOrderUpdate` looks at ticker and side only. That this finds the right order is
the last point: whatever is in flight for a slot is about the order in the slot.
-/

namespace LowLatency

/-- The new orders for a slot among requests. -/
def news (t : Nat) (b : Bool) (qs : List MEClientRequest) : List MEClientRequest :=
  qs.filter fun q => decide (q.type_ = .NEW ∧ q.ticker_id_ = t ∧ q.side_ = sideOf b)

/-- The responses that `onOrderUpdate` applies to a slot. -/
def slotResponses (t : Nat) (b : Bool) (rs : List MEClientResponse) : List MEClientResponse :=
  rs.filter fun r => decide (r.ticker_id_ = t ∧ r.side_ = sideOf b)

/-- A client's order, by its own id. -/
def ownOrder (c k : Nat) : OrderPred := fun i _ => decide (i = (c, k))

/-- The exchange has no order of client `c` on side `b`. -/
def NoLive (c : Nat) (B : Book MEOrderId) (b : Bool) : Prop := ∀ o ∈ B b, o.id_.client_id_ ≠ c

/-- It has none but the one with order id `k`. -/
def OnlyLive (c k : Nat) (B : Book MEOrderId) (b : Bool) : Prop :=
  ∀ o ∈ B b, o.id_.client_id_ = c → o.id_.client_order_id_ = k

/-- The slot stands where the responses `seen` left it. -/
def Known (q : MEClientRequest) (seen : List MEClientResponse) (o : OMOrder) : Prop :=
  (seen = [] ∧ o.order_state_ = .PENDING_NEW ∧ o.qty_ = q.qty_) ∨
    (seen ≠ [] ∧ Life q seen o.qty_ false ∧
      (o.order_state_ = .LIVE ∨ o.order_state_ = .PENDING_CANCEL))

/-- Its order is under way. -/
theorem Known.working {q : MEClientRequest} {seen : List MEClientResponse} {o : OMOrder}
    (h : Known q seen o) : o.order_state_ ≠ .INVALID ∧ o.order_state_ ≠ .DEAD := by
  rcases h with ⟨_, he, _⟩ | ⟨_, _, he | he⟩ <;> rw [he] <;> decide

inductive SlotInv (c t : Nat) (b : Bool) (o : OMOrder) (qs : List MEClientRequest)
    (B : Book MEOrderId) (rs : List MEClientResponse) : Prop
  | idle (hstate : o.order_state_ = .INVALID ∨ o.order_state_ = .DEAD) (hnews : news t b qs = [])
      (hrs : slotResponses t b rs = []) (hlive : NoLive c B b)
  | sent (q : MEClientRequest) (hstate : o.order_state_ = .PENDING_NEW) (hnews : news t b qs = [q])
      (hrs : slotResponses t b rs = []) (hlive : NoLive c B b) (hid : o.order_id_ = q.order_id_)
      (hqty : o.qty_ = q.qty_)
  | working (q : MEClientRequest) (seen : List MEClientResponse) (leaves : Nat) (canceled : Bool)
      (hclient : q.client_id_ = c) (hside : q.side_ = sideOf b) (hnews : news t b qs = [])
      (hlife : Life q (seen ++ slotResponses t b rs) leaves canceled)
      (hstanding : Standing (ownOrder c q.order_id_) q B leaves canceled)
      (honly : OnlyLive c q.order_id_ B b) (hid : o.order_id_ = q.order_id_)
      (hknown : Known q seen o)

/-- The invariant of a slot looks at what is in flight for it, and at nothing
else in the channels. -/
theorem SlotInv.congr {c t : Nat} {b : Bool} {o : OMOrder} {qs qs' : List MEClientRequest}
    {B : Book MEOrderId} {rs rs' : List MEClientResponse} (h : SlotInv c t b o qs B rs)
    (hqs : news t b qs' = news t b qs) (hrs : slotResponses t b rs' = slotResponses t b rs) :
    SlotInv c t b o qs' B rs' := by
  cases h with
  | idle h₁ h₂ h₃ h₄ => exact .idle h₁ (hqs.trans h₂) (hrs.trans h₃) h₄
  | sent q h₁ h₂ h₃ h₄ h₅ h₆ => exact .sent q h₁ (hqs.trans h₂) (hrs.trans h₃) h₄ h₅ h₆
  | working q seen lv cd h₁ h₂ h₃ h₄ h₅ h₆ h₇ h₈ =>
    exact .working q seen lv cd h₁ h₂ (hqs.trans h₃) (by rw [hrs]; exact h₄) h₅ h₆ h₇ h₈

section Filters

variable {t : Nat} {b : Bool}

theorem news_append (qs qs' : List MEClientRequest) :
    news t b (qs ++ qs') = news t b qs ++ news t b qs' := List.filter_append ..

theorem news_cons_of_not {q : MEClientRequest}
    (h : ¬ (q.type_ = .NEW ∧ q.ticker_id_ = t ∧ q.side_ = sideOf b)) (qs : List MEClientRequest) :
    news t b (q :: qs) = news t b qs := List.filter_cons_of_neg (by simpa using h)

theorem news_cons_of {q : MEClientRequest}
    (h : q.type_ = .NEW ∧ q.ticker_id_ = t ∧ q.side_ = sideOf b) (qs : List MEClientRequest) :
    news t b (q :: qs) = q :: news t b qs := List.filter_cons_of_pos (by simpa using h)

theorem slotResponses_append (rs rs' : List MEClientResponse) :
    slotResponses t b (rs ++ rs') = slotResponses t b rs ++ slotResponses t b rs' :=
  List.filter_append ..

theorem slotResponses_cons_of_not {r : MEClientResponse}
    (h : ¬ (r.ticker_id_ = t ∧ r.side_ = sideOf b)) (rs : List MEClientResponse) :
    slotResponses t b (r :: rs) = slotResponses t b rs := List.filter_cons_of_neg (by simpa using h)

theorem slotResponses_cons_of {r : MEClientResponse} (h : r.ticker_id_ = t ∧ r.side_ = sideOf b)
    (rs : List MEClientResponse) :
    slotResponses t b (r :: rs) = r :: slotResponses t b rs :=
  List.filter_cons_of_pos (by simpa using h)

end Filters

theorem is_ownOrder {c k : Nat} {o : OrderData MEOrderId} :
    Is (ownOrder c k) o ↔ o.id_.client_id_ = c ∧ o.id_.client_order_id_ = k := by
  show decide ((o.id_.client_id_, o.id_.client_order_id_) = (c, k)) = true ↔ _
  rw [decide_eq_true_iff, Prod.mk.injEq]

theorem RefBook.Inv.singles {r : RefBook} (h : r.Inv) (c k : Nat) :
    Singles (ownOrder c k) r.book := by
  have heq : ∀ {o o' : OrderData MEOrderId}, Is (ownOrder c k) o ∧ Is (ownOrder c k) o' →
      idx o.id_ = idx o'.id_ := by
    intro o o' hh
    exact (of_decide_eq_true hh.1 : idx o.id_ = (c, k)).trans (of_decide_eq_true hh.2).symm
  exact ⟨fun b => (h.distinct b).imp fun hne hh => hne (heq hh),
    fun o ho o' ho' hh => h.apart o ho o' ho' (heq hh)⟩

section Step

variable {c t : Nat} {b : Bool} {r : RefBook} {p : MEClientRequest}

/-- The responses a request sends to a slot. -/
def emitted (c t : Nat) (b : Bool) (r : RefBook) (p : MEClientRequest) : List MEClientResponse :=
  slotResponses t b (forClient c (r.stepEvents wrap32 p))

/-- Nothing of the client's on the side, and nothing new: no response. -/
theorem emitted_of_noLive (hinv : r.Inv) (hlive : NoLive c r.book b)
    (hp : ¬ (p.type_ = .NEW ∧ p.client_id_ = c ∧ p.side_ = sideOf b)) :
    emitted c t b r p = [] := by
  unfold emitted slotResponses forClient
  rw [List.filter_filter]
  refine List.filter_eq_nil_iff.mpr fun x hx hh => ?_
  simp only [Bool.and_eq_true, decide_eq_true_iff] at hh
  obtain ⟨⟨_, hside⟩, hclient⟩ := hh
  obtain ⟨_, h⟩ := mem_responses_step hx
  rcases h with ⟨ht, _, hc, _, hs⟩ | ⟨_, b', o, ho, hc, _, hs⟩ | ⟨_, hs, _⟩
  · exact hp ⟨ht, hc ▸ hclient, hs ▸ hside⟩
  · -- an order of the client on that side
    have hb : b' = b := by
      have := (hinv.side b' o ho).symm.trans (hs.symm.trans hside)
      cases b' <;> cases b <;> first | rfl | exact absurd this (by decide)
    subst hb
    exact hlive o ho (hc ▸ hclient)
  · rw [hside] at hs
    cases b <;> exact absurd hs (by decide)

/-- Nothing of the client's on the side, and nothing new: nothing appears. -/
theorem noLive_step (ha : r.Admits p) (hlive : NoLive c r.book b)
    (hp : ¬ (p.type_ = .NEW ∧ p.client_id_ = c ∧ p.side_ = sideOf b)) :
    NoLive c (r.step p).book b := by
  intro o ho hc
  rcases mem_step ho with ⟨ht, hb, he⟩ | ⟨o', ho', he⟩
  · refine hp ⟨ht, by rw [he] at hc; exact hc, ?_⟩
    rw [hb]
    exact (sideOf_isBid (ha.side ht)).symm
  · exact hlive o' ho' (by rw [RefBook.strip_id he]; exact hc)

theorem onlyLive_step {k : Nat} (ha : r.Admits p) (honly : OnlyLive c k r.book b)
    (hp : p.type_ = .NEW → p.client_id_ = c → p.side_ = sideOf b → p.order_id_ = k) :
    OnlyLive c k (r.step p).book b := by
  intro o ho hc
  rcases mem_step ho with ⟨ht, hb, he⟩ | ⟨o', ho', he⟩
  · rw [he] at hc ⊢
    refine hp ht hc ?_
    rw [hb]
    exact (sideOf_isBid (ha.side ht)).symm
  · rw [← RefBook.strip_id he] at hc ⊢
    exact honly o' ho' hc

/-- **What is sent to a slot is about its order**: if the client has no other
order on the side, the slot's responses and those about the order are the same. -/
theorem emitted_eq_about {k : Nat} {q : MEClientRequest} (rs : List MEClientResponse) {leaves : Nat}
    {canceled : Bool} (hinv : r.Inv) (ht : p.ticker_id_ = t) (hside : q.side_ = sideOf b)
    (honly : OnlyLive c k r.book b)
    (hp : p.type_ = .NEW → p.client_id_ = c → p.side_ = sideOf b → p.order_id_ = k)
    (hlife : Life q (rs ++ about (ownOrder c k) (responses (r.stepEvents wrap32 p))) leaves
      canceled) :
    emitted c t b r p = about (ownOrder c k) (responses (r.stepEvents wrap32 p)) := by
  unfold emitted slotResponses forClient about
  rw [List.filter_filter]
  refine List.filter_congr fun x hx => ?_
  obtain ⟨hticker, h⟩ := mem_responses_step hx
  rw [Bool.eq_iff_iff]
  simp only [Bool.and_eq_true, decide_eq_true_iff, ownOrder, Prod.mk.injEq]
  constructor
  · rintro ⟨⟨_, hs⟩, hc⟩
    rcases h with ⟨htype, hty, hc', hk, hs'⟩ | ⟨hty, b', o, ho, hc', hk, hs'⟩ | ⟨_, hs', _⟩
    · refine ⟨?_, hc, hk.trans (hp htype (hc' ▸ hc) (hs' ▸ hs))⟩
      rcases hty with he | he <;> rw [he] <;> decide
    · have hb : b' = b := by
        have := (hinv.side b' o ho).symm.trans (hs'.symm.trans hs)
        cases b' <;> cases b <;> first | rfl | exact absurd this (by decide)
      subst hb
      refine ⟨?_, hc, hk.trans (honly o ho (hc' ▸ hc))⟩
      rcases hty with he | he <;> rw [he] <;> decide
    · rw [hs] at hs'
      cases b <;> exact absurd hs' (by decide)
  · rintro ⟨hty, hc, hk⟩
    -- a response about the order is of its side
    have hmem : x ∈ about (ownOrder c k) (responses (r.stepEvents wrap32 p)) :=
      List.mem_filter.mpr ⟨hx, by simp [hty, ownOrder, hc, hk]⟩
    exact ⟨⟨hticker.trans ht, (hlife.concerns x (List.mem_append_right _ hmem)).side.trans hside⟩,
      hc⟩

/-- **A request that is not a new order for the slot.** -/
theorem SlotInv.step {o : OMOrder} {qs : List MEClientRequest} {rs : List MEClientResponse}
    (h : SlotInv c t b o qs r.book rs) (hinv : r.Inv) (ha : r.Admits p) (ht : p.ticker_id_ = t)
    (hp : ¬ (p.type_ = .NEW ∧ p.client_id_ = c ∧ p.side_ = sideOf b))
    (hk : p.type_ = .NEW → p.client_id_ = c → o.order_state_ ≠ .INVALID →
      p.order_id_ ≠ o.order_id_) :
    SlotInv c t b o qs (r.step p).book (rs ++ forClient c (r.stepEvents wrap32 p)) := by
  have hp' : ∀ k, p.type_ = .NEW → p.client_id_ = c → p.side_ = sideOf b → p.order_id_ = k :=
    fun _ h₁ h₂ h₃ => absurd ⟨h₁, h₂, h₃⟩ hp
  cases h with
  | idle hstate hnews hrs hlive =>
    refine .idle hstate hnews ?_ (noLive_step ha hlive hp)
    rw [slotResponses_append, hrs, List.nil_append]
    exact emitted_of_noLive hinv hlive hp
  | sent q hstate hnews hrs hlive hid hqty =>
    refine .sent q hstate hnews ?_ (noLive_step ha hlive hp) hid hqty
    rw [slotResponses_append, hrs, List.nil_append]
    exact emitted_of_noLive hinv hlive hp
  | working q seen leaves canceled hclient hside hnews hlife hstanding honly hid hknown =>
    obtain ⟨hstate, _⟩ := hknown.working
    -- a new order of the client has another id
    have hbrings : p.type_ = .NEW → ¬ Brings (ownOrder c q.order_id_) wrap32 r p := by
      intro hnew hor
      have hpk : (p.client_id_, p.order_id_) = (c, q.order_id_) := by
        rcases hor with he | he <;> exact of_decide_eq_true he
      obtain ⟨h₁, h₂⟩ := Prod.mk.inj hpk
      exact hk hnew h₁ hstate (h₂.trans hid.symm)
    obtain ⟨leaves', canceled', hlife', hstanding'⟩ := life_step hinv
      (hinv.singles c q.order_id_) hbrings hlife hstanding
    refine .working q seen leaves' canceled' hclient hside hnews ?_ hstanding'
      (onlyLive_step ha honly (hp' _)) hid hknown
    rw [slotResponses_append, ← List.append_assoc]
    have hem := emitted_eq_about _ hinv ht hside honly (hp' _) hlife'
    unfold emitted at hem
    rw [hem]
    exact hlife'

/-- **The request of the slot reaches the exchange.** -/
theorem SlotInv.accept {o : OMOrder} {qs : List MEClientRequest} {rs : List MEClientResponse}
    (h : SlotInv c t b o (p :: qs) r.book rs) (hinv : r.Inv) (ha : r.Admits p)
    (hnew : p.type_ = .NEW) (hc : p.client_id_ = c) (ht : p.ticker_id_ = t)
    (hs : p.side_ = sideOf b) :
    SlotInv c t b o qs (r.step p).book (rs ++ forClient c (r.stepEvents wrap32 p)) := by
  cases h with
  | idle _ hnews =>
    rw [news_cons_of ⟨hnew, ht, hs⟩] at hnews
    exact absurd hnews (by simp)
  | working _ _ _ _ _ _ hnews =>
    rw [news_cons_of ⟨hnew, ht, hs⟩] at hnews
    exact absurd hnews (by simp)
  | sent q hstate hnews hrs hlive hid hqty =>
    rw [news_cons_of ⟨hnew, ht, hs⟩] at hnews
    obtain ⟨rfl, hqs⟩ := List.cons.inj hnews
    have honly : OnlyLive c p.order_id_ r.book b := fun o' ho' hc' => absurd hc' (hlive o' ho')
    have habs : ∀ b', Absent (ownOrder c p.order_id_) (r.book b') := by
      intro b' o' ho' hP
      obtain ⟨h₁, h₂⟩ := is_ownOrder.mp hP
      refine ha.fresh hnew ⟨b', o', ho', ?_⟩
      show (o'.id_.client_id_, o'.id_.client_order_id_) = _
      rw [h₁, h₂, hc]
    have hkey : ∀ m, ownOrder c p.order_id_ (p.client_id_, p.order_id_) m = true := by
      intro m
      rw [hc]
      exact decide_eq_true rfl
    obtain ⟨leaves, hlife, hstanding⟩ := life_accept (f := wrap32) hinv hnew habs (hkey _) (hkey _)
    refine .working p [] leaves false hc hs hqs ?_ hstanding
      (onlyLive_step ha honly fun _ _ _ => rfl) hid (Or.inl ⟨rfl, hstate, hqty⟩)
    rw [slotResponses_append, hrs, List.nil_append, List.nil_append]
    have hem := emitted_eq_about [] hinv ht hs honly (fun _ _ _ => rfl) hlife
    unfold emitted at hem
    rw [hem]
    exact hlife

/-- A slot whose order has come to its end is empty. -/
theorem SlotInv.finish {o : OMOrder} {qs : List MEClientRequest} {rs : List MEClientResponse}
    {B : Book MEOrderId} {q : MEClientRequest} {seen : List MEClientResponse} {leaves leaves' : Nat}
    {canceled canceled' : Bool} (hseen : seen ≠ []) (hnews : news t b qs = [])
    (hlife : Life q (seen ++ slotResponses t b rs) leaves canceled)
    (hstanding : Standing (ownOrder c q.order_id_) q B leaves canceled)
    (honly : OnlyLive c q.order_id_ B b) (h : Life q seen leaves' canceled')
    (hend : canceled' = true ∨ leaves' = 0) (hstate : o.order_state_ = .DEAD) :
    SlotInv c t b o qs B rs := by
  obtain ⟨leaves₁, canceled₁, h₁, hnil, hcons⟩ := hlife.of_append hseen
  have hl : leaves₁ = leaves' := h₁.leaves_unique h
  have hc : canceled₁ = canceled' := h₁.canceled_unique h
  rw [hl, hc] at hnil hcons
  -- nothing can follow
  have hrs : slotResponses t b rs = [] := by
    by_contra hne
    obtain ⟨hc', hpos⟩ := hcons hne
    rcases hend with he | he
    · rw [hc'] at he
      exact absurd he (by decide)
    · omega
  obtain ⟨rfl, rfl⟩ := hnil hrs
  refine .idle (Or.inr hstate) hnews hrs fun o' ho' hc' => ?_
  rcases hstanding with ⟨hc'', hpos, _⟩ | ⟨_, habs⟩
  · rcases hend with he | he
    · rw [hc''] at he
      exact absurd he (by decide)
    · omega
  · exact habs b o' ho' (is_ownOrder.mpr ⟨hc', honly o' ho' hc'⟩)

end Step

/-! ## Reading a response -/

/-- What `onOrderUpdate` makes of the order it finds. -/
def OMOrder.applied (o : OMOrder) (r : MEClientResponse) : OMOrder :=
  match r.type_ with
  | .ACCEPTED => { o with order_state_ := .LIVE }
  | .CANCELED => { o with order_state_ := .DEAD }
  | .FILLED =>
    { o with
      qty_ := r.leaves_qty_
      order_state_ := if r.leaves_qty_ = 0 then .DEAD else o.order_state_ }
  | .CANCEL_REJECTED | .INVALID => o

theorem OMOrder.applied_order_id (o : OMOrder) (r : MEClientResponse) :
    (o.applied r).order_id_ = o.order_id_ := by
  unfold applied
  split <;> rfl

theorem OMOrder.applied_ticker_id (o : OMOrder) (r : MEClientResponse) :
    (o.applied r).ticker_id_ = o.ticker_id_ := by
  unfold applied
  split <;> rfl

theorem OrderManager.order_setOrder (m : OrderManager) (t : Nat) (s : Side) (o : OMOrder) (t' : Nat)
    (s' : Side) : (m.setOrder t s o).order t' s' = if t' = t ∧ s' = s then o else m.order t' s' := by
  show Function.update m.ticker_side_order_ t (Function.update (m.ticker_side_order_ t)
    (sideToIndex s) o) t' (sideToIndex s') = if _ then o else m.ticker_side_order_ t' (sideToIndex s')
  by_cases ht : t' = t
  · subst ht
    rw [Function.update_self]
    by_cases hs : s' = s
    · rw [if_pos ⟨rfl, hs⟩, hs, Function.update_self]
    · rw [if_neg fun h => hs h.2, Function.update_of_ne fun h => hs (sideToIndex_inj h)]
  · rw [if_neg fun h => ht h.1, Function.update_of_ne ht]

theorem OrderManager.order_onOrderUpdate (m : OrderManager) (r : MEClientResponse) (t : Nat)
    (s : Side) : (m.onOrderUpdate r).order t s
      = if t = r.ticker_id_ ∧ s = r.side_ then (m.order t s).applied r else m.order t s := by
  unfold OrderManager.onOrderUpdate
  by_cases hts : t = r.ticker_id_ ∧ s = r.side_
  · obtain ⟨rfl, rfl⟩ := hts
    rw [if_pos ⟨rfl, rfl⟩]
    unfold OMOrder.applied
    cases r.type_ <;> simp only [OrderManager.order_setOrder, and_self, if_true]
  · rw [if_neg hts]
    cases r.type_ <;> simp only [OrderManager.order_setOrder, if_neg hts]

section Consume

variable {c t : Nat} {b : Bool} {o : OMOrder} {qs : List MEClientRequest} {B : Book MEOrderId}
  {r : MEClientResponse} {rs : List MEClientResponse}

/-- **A response for a slot is about its order**, which is neither `INVALID` nor
`DEAD`; a fill takes from what the slot knows to be left. -/
theorem SlotInv.response (h : SlotInv c t b o qs B rs) (hr : r ∈ slotResponses t b rs) :
    r.client_order_id_ = o.order_id_ ∧ r.type_ ≠ .CANCEL_REJECTED ∧
      ∃ q seen, Known q seen o := by
  cases h with
  | idle _ _ hrs =>
    rw [hrs] at hr
    exact absurd hr (by simp)
  | sent _ _ _ hrs =>
    rw [hrs] at hr
    exact absurd hr (by simp)
  | working q seen leaves canceled hclient hside hnews hlife hstanding honly hid hknown =>
    have hmem := List.mem_append_right seen hr
    exact ⟨(hlife.concerns r hmem).order.trans hid.symm, hlife.not_rejected r hmem, q, seen, hknown⟩

/-- The first response on its way to a slot continues what the slot has seen. -/
theorem SlotInv.head (h : SlotInv c t b o qs B (r :: rs))
    (hr : r.ticker_id_ = t ∧ r.side_ = sideOf b) :
    ∃ q seen leaves canceled leaves' canceled', q.client_id_ = c ∧ q.side_ = sideOf b ∧
      news t b qs = [] ∧ Life q (seen ++ [r] ++ slotResponses t b rs) leaves canceled ∧
      Standing (ownOrder c q.order_id_) q B leaves canceled ∧ OnlyLive c q.order_id_ B b ∧
      o.order_id_ = q.order_id_ ∧ Known q seen o ∧ Life q (seen ++ [r]) leaves' canceled' := by
  cases h with
  | idle _ _ hrs =>
    rw [slotResponses_cons_of hr] at hrs
    exact absurd hrs (by simp)
  | sent _ _ _ hrs =>
    rw [slotResponses_cons_of hr] at hrs
    exact absurd hrs (by simp)
  | working q seen leaves canceled hclient hside hnews hlife hstanding honly hid hknown =>
    rw [slotResponses_cons_of hr, List.append_cons] at hlife
    obtain ⟨leaves', canceled', h', _⟩ := hlife.of_append (by simp)
    exact ⟨q, seen, leaves, canceled, leaves', canceled', hclient, hside, hnews, hlife, hstanding,
      honly, hid, hknown, h'⟩

/-- What a slot knows once something was read. -/
theorem Known.of_life {q : MEClientRequest} {seen : List MEClientResponse} {leaves : Nat}
    {canceled : Bool} (h : Known q seen o) (hl : Life q seen leaves canceled) :
    o.qty_ = leaves ∧ (o.order_state_ = .LIVE ∨ o.order_state_ = .PENDING_CANCEL) := by
  rcases h with ⟨he, _⟩ | ⟨_, hl', hst⟩
  · exact absurd he hl.ne_nil
  · exact ⟨hl'.leaves_unique hl, hst⟩

/-- **Reading a response keeps the slot in order.** -/
theorem SlotInv.consume (h : SlotInv c t b o qs B (r :: rs))
    (hr : r.ticker_id_ = t ∧ r.side_ = sideOf b) : SlotInv c t b (o.applied r) qs B rs := by
  obtain ⟨q, seen, leaves, canceled, leaves', canceled', hclient, hside, hnews, hlife, hstanding,
    honly, hid, hknown, h'⟩ := h.head hr
  rcases h'.snoc_cases with ⟨rfl, ht, hl, hc⟩ | ⟨leaves₀, h₀, ht, hex, hsum, hl, hc⟩ | ⟨h₀, ht, hc⟩
  · -- accepted: the slot goes live with its whole quantity
    have hqty : o.qty_ = q.qty_ := by
      rcases hknown with ⟨_, _, hq⟩ | ⟨hne, _⟩
      · exact hq
      · exact absurd rfl hne
    refine .working q ([] ++ [r]) leaves canceled hclient hside hnews hlife hstanding honly
      (by rw [OMOrder.applied_order_id, hid]) (Or.inr ⟨by simp, ?_, ?_⟩)
    · unfold OMOrder.applied
      rw [ht]
      show Life q _ o.qty_ false
      rw [hqty, ← hl, ← hc]
      exact h'
    · unfold OMOrder.applied
      rw [ht]
      exact Or.inl rfl
  · obtain ⟨_, hstate⟩ := hknown.of_life h₀
    by_cases hz : r.leaves_qty_ = 0
    · -- the last bit: the slot is done
      refine SlotInv.finish (by simp) hnews hlife hstanding honly h' (Or.inr (hl.trans hz)) ?_
      unfold OMOrder.applied
      rw [ht]
      exact if_pos hz
    · refine .working q (seen ++ [r]) leaves canceled hclient hside hnews hlife hstanding honly
        (by rw [OMOrder.applied_order_id, hid]) (Or.inr ⟨by simp, ?_, ?_⟩)
      · unfold OMOrder.applied
        rw [ht]
        show Life q _ r.leaves_qty_ false
        rw [← hl, ← hc]
        exact h'
      · unfold OMOrder.applied
        rw [ht]
        show (if r.leaves_qty_ = 0 then _ else _) = _ ∨ (if r.leaves_qty_ = 0 then _ else _) = _
        rw [if_neg hz]
        exact hstate
  · -- cancelled
    refine SlotInv.finish (by simp) hnews hlife hstanding honly h' (Or.inl hc) ?_
    unfold OMOrder.applied
    rw [ht]

/-- **A fill takes from what the slot has left.** -/
theorem SlotInv.fill (h : SlotInv c t b o qs B (r :: rs))
    (hr : r.ticker_id_ = t ∧ r.side_ = sideOf b) (ht : r.type_ = .FILLED) :
    r.leaves_qty_ + r.exec_qty_ = o.qty_ ∧
      (o.order_state_ = .LIVE ∨ o.order_state_ = .PENDING_CANCEL) := by
  obtain ⟨q, seen, _, _, _, _, _, _, _, _, _, _, _, hknown, h'⟩ := h.head hr
  rcases h'.snoc_cases with ⟨_, ht', _⟩ | ⟨leaves₀, h₀, _, _, hsum, _⟩ | ⟨_, ht', _⟩
  · rw [ht] at ht'
    exact absurd ht' (by decide)
  · obtain ⟨hq, hst⟩ := hknown.of_life h₀
    exact ⟨hsum.trans hq.symm, hst⟩
  · rw [ht] at ht'
    exact absurd ht' (by decide)

end Consume

end LowLatency
