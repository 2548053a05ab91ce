import LowLatency.MarketData.Datagrams
import LowLatency.MarketData.Mirror
import LowLatency.Matcher.Widths

/-!
# Market updates are values of their types

What `Widths` says of the responses, for the updates of a run. They carry a priority
as well, which is counted in 64 bits, and no client id. The claim is about the
reference book: the quantity of a `MODIFY` is what a fill leaves of an order.
-/

namespace LowLatency

theorem TickerId_INVALID_lt : TickerId_INVALID < 2 ^ 32 := by decide

theorem Priority_INVALID_lt : Priority_INVALID < 2 ^ 64 := by decide

/-- What of an order goes out on the market data feed. -/
structure QuoteFits (o : OrderData MEOrderId) : Prop where
  ticker_id : o.id_.ticker_id_ < 2 ^ 32
  market_order_id : o.id_.market_order_id_ < 2 ^ 64
  price : PriceFits o.price_
  qty : o.qty_ < 2 ^ 32
  priority : o.priority_ < 2 ^ 64

theorem QuoteFits.setQty {o : OrderData MEOrderId} (h : QuoteFits o) {qty : Nat}
    (hqty : qty ≤ o.qty_) : QuoteFits { o with qty_ := qty } :=
  { h with qty := hqty.trans_lt h.qty }

/-- **A sweep** of orders whose fields fit. -/
theorem sweep_fits {b : Bool} {a : Aggressor} (ha : a.ticker_id_ < 2 ^ 32) {leaves : Nat}
    {l : List (OrderData MEOrderId)} (h : ∀ o ∈ l, QuoteFits o) :
    (sweep b a leaves l).leaves ≤ leaves ∧ (∀ o ∈ (sweep b a leaves l).queue, QuoteFits o) ∧
      ∀ u ∈ updates (sweep b a leaves l).events, u.Fits := by
  induction l generalizing leaves with
  | nil => exact ⟨Nat.le_refl _, h, fun u hu => absurd hu (by simp [sweep])⟩
  | cons o os ih =>
    have ho := h o (List.mem_cons_self ..)
    have hos : ∀ o' ∈ os, QuoteFits o' := fun o' ho' => h o' (List.mem_cons_of_mem _ ho')
    have htrade : (min leaves o.qty_) < 2 ^ 32 := (Nat.min_le_right ..).trans_lt ho.qty
    simp only [sweep]
    split
    · exact ⟨Nat.le_refl _, h, fun u hu => absurd hu (by simp)⟩
    · split
      · -- the order is exhausted
        obtain ⟨hle, hqueue, hevents⟩ := @ih (leaves - min leaves o.qty_) hos
        refine ⟨hle.trans (Nat.sub_le ..), hqueue, fun u hu => ?_⟩
        simp only [fillEvents, exhaustedEvent, updates_response, updates_update, List.cons_append,
          List.nil_append, List.mem_cons] at hu
        rcases hu with rfl | rfl | hu
        · exact ⟨OrderId_INVALID_lt, ha, ho.price, htrade, Priority_INVALID_lt⟩
        · exact ⟨ho.market_order_id, ha, ho.price, ho.qty, Priority_INVALID_lt⟩
        · exact hevents u hu
      · refine ⟨Nat.sub_le .., fun o' ho' => ?_, fun u hu => ?_⟩
        · rcases List.mem_cons.mp ho' with rfl | ho'
          · exact ho.setQty (Nat.sub_le ..)
          · exact hos o' ho'
        · simp only [fillEvents, modifiedEvent, updates_response, updates_update, updates_nil,
            List.cons_append, List.nil_append, List.mem_cons, List.not_mem_nil, or_false] at hu
          rcases hu with rfl | rfl
          · exact ⟨OrderId_INVALID_lt, ha, ho.price, htrade, Priority_INVALID_lt⟩
          · exact ⟨ho.market_order_id, ha, ho.price, (Nat.sub_le ..).trans_lt ho.qty, ho.priority⟩

namespace RefBook

/-- Its orders and its next id are values of their types. -/
structure Quotes (r : RefBook) : Prop where
  orders : ∀ b, ∀ o ∈ r.book b, QuoteFits o
  next_id : r.next_market_order_id_ < 2 ^ 64

theorem quotes_init : init.Quotes := ⟨by simp [init, Book.empty], by decide⟩

variable {r : RefBook} {q : MEClientRequest}

theorem nextPriority_lt (l : List (OrderData MEOrderId)) (price : Int) :
    nextPriority l price < 2 ^ 64 := by
  unfold nextPriority
  split
  · decide
  · exact Nat.mod_lt _ (by decide)

/-- What comes to rest. -/
theorem Quotes.resting (h : r.Quotes) (hq : q.Fits) : QuoteFits (r.resting q) where
  ticker_id := hq.ticker_id
  market_order_id := h.next_id
  price := hq.price
  qty := (sweep_fits (a := r.aggressor id q) hq.ticker_id (h.orders _)).1.trans_lt hq.qty
  priority := nextPriority_lt ..

theorem Quotes.matched (h : r.Quotes) (hq : q.Fits) (b : Bool) :
    ∀ o ∈ r.matched q b, QuoteFits o := by
  unfold RefBook.matched
  by_cases hb : b = !Ladder.isBid q.side_
  · subst hb
    rw [Function.update_self]
    exact (sweep_fits (a := r.aggressor id q) hq.ticker_id (h.orders _)).2.1
  · rw [Function.update_of_ne hb]
    exact h.orders b

theorem Quotes.step (h : r.Quotes) (hq : q.Fits) : (r.step q).Quotes := by
  unfold RefBook.step
  split
  · refine ⟨fun b o ho => ?_, Nat.mod_lt _ (by decide)⟩
    unfold RefBook.add at ho
    dsimp only at ho
    split at ho
    · exact h.matched hq b o ho
    · rcases Book.mem_rest.mp ho with ⟨-, rfl⟩ | ho
      · exact h.resting hq
      · exact h.matched hq b o ho
  · exact ⟨fun b o ho => h.orders b o (List.mem_of_mem_filter ho), h.next_id⟩
  · exact h

/-- **One request**: its updates are values of their types. -/
theorem Quotes.stepEvents (h : r.Quotes) (hq : q.Fits) (fillId : Nat → Nat) :
    ∀ u ∈ updates (r.stepEvents fillId q), u.Fits := by
  intro u hu
  unfold RefBook.stepEvents at hu
  split at hu
  · simp only [addEvents, acceptedEvent, updates_response, updates_append, List.mem_append] at hu
    rcases hu with hu | hu
    · exact (sweep_fits (a := r.aggressor fillId q) hq.ticker_id (h.orders _)).2.2 u hu
    · split at hu
      · exact absurd hu (by simp)
      · simp only [addedEvent, updates_update, updates_nil, List.mem_singleton] at hu
        have ho := h.resting hq
        rw [hu]
        exact ⟨ho.market_order_id, ho.ticker_id, ho.price, ho.qty, ho.priority⟩
  · unfold cancelEvents at hu
    split at hu
    · exact absurd hu (by simp [rejectedEvent])
    next o hfind =>
      simp only [canceledEvents, updates_update, updates_response, updates_nil,
        List.mem_singleton] at hu
      have ho : QuoteFits o := by
        rcases List.mem_append.mp (List.mem_of_find?_eq_some hfind) with ho | ho
        · exact h.orders true o ho
        · exact h.orders false o ho
      rw [hu]
      have hnone : 0 < 2 ^ 32 := by decide
      exact ⟨ho.market_order_id, hq.ticker_id, ho.price, hnone, ho.priority⟩
  · exact absurd hu (by simp)

end RefBook

/-- **A run of requests** that are values of their types: so are its updates. -/
theorem runEvents_fits {R : RefExchange} (h : ∀ t, (R t).Quotes) {qs : List MEClientRequest}
    (hqs : ∀ q ∈ qs, q.Fits) (fillId : Nat → Nat) :
    ∀ u ∈ updates (R.runEvents fillId qs).flatten, u.Fits := by
  induction qs generalizing R with
  | nil => exact fun u hu => absurd hu (by simp [RefExchange.runEvents])
  | cons q qs ih =>
    have hq := hqs q (List.mem_cons_self ..)
    intro u hu
    simp only [RefExchange.runEvents, List.flatten_cons, updates_append, List.mem_append] at hu
    rcases hu with hu | hu
    · exact (h _).stepEvents hq fillId u hu
    · exact ih (RefExchange.step_forall h ((h _).step hq))
        (fun q' hq' => hqs q' (List.mem_cons_of_mem _ hq')) u hu

theorem history_fits {qs : List MEClientRequest} (hqs : ∀ q ∈ qs, q.Fits) :
    ∀ u ∈ history qs, u.Fits := runEvents_fits (fun _ => RefBook.quotes_init) hqs wrap32

end LowLatency
