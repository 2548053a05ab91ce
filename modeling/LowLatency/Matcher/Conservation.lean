import LowLatency.Matcher.Book
import LowLatency.Matcher.Lifecycle
import LowLatency.Matcher.Resting

/-!
# Conservation of quantity over whole runs

Two laws of the exchange's output streams. Order by order, told apart by the
market order id: what was ordered is executed, cancelled or still resting
(`Life`, `Life.conserved`). Fill by fill: a `TRADE` comes with the two `FILLED`
of its sides (`Paired`), so as much is bought as sold as traded.

The run lemmas split a run at the request that brought the order. Before it no
order has its id, ids being handed out in ascending order; at it the history
begins; after it no other request gets the id again.
-/

namespace LowLatency

/-! ## Trades -/

/-- Neither a `FILLED` nor a `TRADE`. -/
def Event.quiet : Event → Prop
  | .response r => r.type_ ≠ .FILLED
  | .update u => u.type_ ≠ .TRADE

/-- Every `TRADE` follows its two `FILLED`, which are of opposite sides and of
its price and quantity; there are no others. -/
inductive Paired : List Event → Prop
  | nil : Paired []
  | quiet {e : Event} {evs : List Event} (he : e.quiet) (h : Paired evs) : Paired (e :: evs)
  | trade {f f' : MEClientResponse} {u : MEMarketUpdate} {evs : List Event}
      (hf : f.type_ = .FILLED) (hf' : f'.type_ = .FILLED) (hu : u.type_ = .TRADE)
      (hside : (f.side_ = .BUY ∧ f'.side_ = .SELL) ∨ (f.side_ = .SELL ∧ f'.side_ = .BUY))
      (hprice : f.price_ = u.price_ ∧ f'.price_ = u.price_)
      (hqty : f.exec_qty_ = u.qty_ ∧ f'.exec_qty_ = u.qty_) (h : Paired evs) :
      Paired (.response f :: .response f' :: .update u :: evs)

theorem Paired.append {es fs : List Event} (he : Paired es) (hf : Paired fs) :
    Paired (es ++ fs) := by
  induction he with
  | nil => exact hf
  | quiet he _ ih => exact Paired.quiet he ih
  | trade h₁ h₂ h₃ h₄ h₅ h₆ _ ih => exact Paired.trade h₁ h₂ h₃ h₄ h₅ h₆ ih

/-- What the `FILLED` responses of one side add up to. -/
def filledOn (side : Side) (evs : List Event) : Nat :=
  executed ((responses evs).filter fun r => decide (r.side_ = side))

/-- What the `TRADE` updates add up to. -/
def traded (evs : List Event) : Nat :=
  (((updates evs).filter fun u => decide (u.type_ = .TRADE)).map MEMarketUpdate.qty_).sum

theorem filledOn_response (side : Side) (r : MEClientResponse) (evs : List Event) :
    filledOn side (.response r :: evs)
      = (if r.side_ = side ∧ r.type_ = .FILLED then r.exec_qty_ else 0) + filledOn side evs := by
  unfold filledOn executed
  rw [responses_response, List.filter_cons]
  by_cases hs : r.side_ = side
  · by_cases ht : r.type_ = .FILLED <;> simp [hs, ht]
  · simp [hs]

theorem filledOn_update (side : Side) (u : MEMarketUpdate) (evs : List Event) :
    filledOn side (.update u :: evs) = filledOn side evs := by
  unfold filledOn
  rw [responses_update]

theorem traded_response (r : MEClientResponse) (evs : List Event) :
    traded (.response r :: evs) = traded evs := by
  unfold traded
  rw [updates_response]

theorem traded_update (u : MEMarketUpdate) (evs : List Event) :
    traded (.update u :: evs) = (if u.type_ = .TRADE then u.qty_ else 0) + traded evs := by
  unfold traded
  rw [updates_update, List.filter_cons]
  by_cases ht : u.type_ = .TRADE <;> simp [ht]

/-- **Bought, sold and traded are one quantity.** -/
theorem Paired.balanced {evs : List Event} (h : Paired evs) :
    filledOn .BUY evs = traded evs ∧ filledOn .SELL evs = traded evs := by
  induction h with
  | nil => exact ⟨rfl, rfl⟩
  | @quiet e evs he _ ih =>
    cases e with
    | response r =>
      have hr : r.type_ ≠ .FILLED := he
      simpa [filledOn_response, traded_response, hr] using ih
    | update u =>
      have hu : u.type_ ≠ .TRADE := he
      simpa [filledOn_update, traded_update, hu] using ih
  | trade hf hf' hu hside _ hqty _ ih =>
    simp only [filledOn_response, filledOn_update, traded_response, traded_update, hf, hf', hu,
      and_true, if_true]
    rcases hside with ⟨h₁, h₂⟩ | ⟨h₁, h₂⟩ <;>
      simp only [h₁, h₂, if_true, reduceCtorEq, if_false] <;> omega

/-- The messages of a sweep are paired. -/
theorem sweep_paired {b : Bool} {a : Aggressor} (ha : a.side_ = sideOf !b)
    {l : List (OrderData MEOrderId)} (hl : ∀ o ∈ l, o.side_ = sideOf b) (leaves : Nat) :
    Paired (sweep b a leaves l).events := by
  induction l generalizing leaves with
  | nil => exact Paired.nil
  | cons o os ih =>
    have hside : (a.side_ = .BUY ∧ o.side_ = .SELL) ∨ (a.side_ = .SELL ∧ o.side_ = .BUY) := by
      rw [ha, hl o (List.mem_cons_self ..)]
      cases b
      · exact Or.inl ⟨rfl, rfl⟩
      · exact Or.inr ⟨rfl, rfl⟩
    simp only [sweep]
    split
    · exact Paired.nil
    · split
      · exact Paired.trade rfl rfl rfl hside ⟨rfl, rfl⟩ ⟨rfl, rfl⟩
          (Paired.quiet (by simp [exhaustedEvent, Event.quiet])
            (ih (fun o' ho' => hl o' (List.mem_cons_of_mem _ ho')) _))
      · exact Paired.trade rfl rfl rfl hside ⟨rfl, rfl⟩ ⟨rfl, rfl⟩
          (Paired.quiet (by simp [modifiedEvent, Event.quiet]) Paired.nil)

/-- The messages of a request are paired. -/
theorem step_paired {r : RefBook} {q : MEClientRequest} (hinv : r.Inv) (ha : r.Admits q)
    (fillId : Nat → Nat) : Paired (r.stepEvents fillId q) := by
  unfold RefBook.stepEvents
  split
  next hq =>
    refine Paired.quiet (by simp [acceptedEvent, Event.quiet]) (Paired.append ?_ ?_)
    · refine sweep_paired ?_ (hinv.side _) _
      rw [Bool.not_not]
      exact (sideOf_isBid (ha.side hq)).symm
    · split
      · exact Paired.nil
      · exact Paired.quiet (by simp [addedEvent, Event.quiet]) Paired.nil
  next =>
    unfold RefBook.cancelEvents
    split
    · exact Paired.quiet (by simp [rejectedEvent, Event.quiet]) Paired.nil
    · exact Paired.quiet (by simp [Event.quiet])
        (Paired.quiet (by simp [Event.quiet]) Paired.nil)
  next => exact Paired.nil

/-- The messages of a run are paired. -/
theorem run_paired {r : RefBook} {qs : List MEClientRequest} (hinv : r.Inv) (ha : r.AdmitsAll qs)
    (fillId : Nat → Nat) : Paired (r.runEvents fillId qs).flatten := by
  induction qs generalizing r with
  | nil => exact Paired.nil
  | cons q qs ih =>
    rw [RefBook.runEvents, List.flatten_cons]
    exact (step_paired hinv ha.1 fillId).append (ih (hinv.step ha.1) ha.2)

/-! ## Orders by market order id -/

/-- The order with market order id `m`. -/
def withId (m : Nat) : OrderPred := fun _ m' => decide (m' = m)

theorem is_withId {m : Nat} {o : OrderData MEOrderId} :
    Is (withId m) o ↔ o.id_.market_order_id_ = m := decide_eq_true_iff

theorem RefBook.Numbered.singles {r : RefBook} (h : r.Numbered) (m : Nat) :
    Singles (withId m) r.book where
  pairwise := fun b => (h.ids b).imp fun hne hh =>
    hne ((is_withId.mp hh.1).trans (is_withId.mp hh.2).symm)
  apart := fun o ho o' ho' hh =>
    h.idsApart o ho o' ho' ((is_withId.mp hh.1).trans (is_withId.mp hh.2).symm)

theorem not_brings_withId {m : Nat} {r : RefBook} {q : MEClientRequest}
    (h : r.next_market_order_id_ ≠ m) : ¬ Brings (withId m) id r q := by
  intro hor
  rcases hor with he | he <;> exact h (of_decide_eq_true he)

namespace RefBook

theorem run_append (r : RefBook) (qs qs' : List MEClientRequest) :
    r.run (qs ++ qs') = (r.run qs).run qs' := List.foldl_append ..

theorem runEvents_append (fillId : Nat → Nat) (r : RefBook) (qs qs' : List MEClientRequest) :
    r.runEvents fillId (qs ++ qs') = r.runEvents fillId qs ++ (r.run qs).runEvents fillId qs' := by
  induction qs generalizing r with
  | nil => rfl
  | cons q qs ih =>
    rw [List.cons_append, runEvents, runEvents, ih, List.cons_append]
    rfl

theorem admitsAll_append {r : RefBook} {qs qs' : List MEClientRequest} :
    r.AdmitsAll (qs ++ qs') ↔ r.AdmitsAll qs ∧ (r.run qs).AdmitsAll qs' := by
  induction qs generalizing r with
  | nil => exact ⟨fun h => ⟨trivial, h⟩, fun h => h.2⟩
  | cons q qs ih =>
    show r.Admits q ∧ (r.step q).AdmitsAll (qs ++ qs') ↔ _
    rw [ih, ← and_assoc]
    rfl

theorem fitsAll_append {r : RefBook} {qs qs' : List MEClientRequest} :
    r.FitsAll (qs ++ qs') ↔ r.FitsAll qs ∧ (r.run qs).FitsAll qs' := by
  induction qs generalizing r with
  | nil => exact ⟨fun h => ⟨trivial, h⟩, fun h => h.2⟩
  | cons q qs ih =>
    show (r.step q).Fits ∧ (r.step q).FitsAll (qs ++ qs') ↔ _
    rw [ih, ← and_assoc]
    rfl

theorem idsBelow_append {n : Nat} {r : RefBook} {qs qs' : List MEClientRequest} :
    IdsBelow n r (qs ++ qs') ↔ IdsBelow n r qs ∧ IdsBelow n (r.run qs) qs' := by
  induction qs generalizing r with
  | nil => exact ⟨fun h => ⟨trivial, h⟩, fun h => h.2⟩
  | cons q qs ih =>
    show (q.type_ = .NEW → r.next_market_order_id_ < n) ∧ IdsBelow n (r.step q) (qs ++ qs') ↔ _
    rw [ih, ← and_assoc]
    rfl

/-- A request that gets an id below `2 ^ 32` moves the counter past it. -/
theorem next_step {r : RefBook} {q : MEClientRequest}
    (h : q.type_ = .NEW → r.next_market_order_id_ < 2 ^ 32) :
    (r.step q).next_market_order_id_
      = if q.type_ = .NEW then r.next_market_order_id_ + 1 else r.next_market_order_id_ := by
  unfold step
  cases hq : q.type_ with
  | NEW =>
    have := h hq
    exact wrap64_eq (by omega)
  | CANCEL => rfl
  | INVALID => rfl

theorem next_le_step {r : RefBook} {q : MEClientRequest}
    (h : q.type_ = .NEW → r.next_market_order_id_ < 2 ^ 32) :
    r.next_market_order_id_ ≤ (r.step q).next_market_order_id_ := by
  rw [next_step h]
  split <;> omega

theorem next_le_run {r : RefBook} {qs : List MEClientRequest} (h : IdsBelow (2 ^ 32) r qs) :
    r.next_market_order_id_ ≤ (r.run qs).next_market_order_id_ := by
  induction qs generalizing r with
  | nil => exact Nat.le_refl _
  | cons q qs ih => exact Nat.le_trans (next_le_step h.1) (ih h.2)

end RefBook

section Run

variable {r : RefBook} {q : MEClientRequest} {m : Nat}

/-- Ids below `2 ^ 32` are far from coming round. -/
theorem numbered_step (hn : r.Numbered) (hinv : r.Inv)
    (h : q.type_ = .NEW → r.next_market_order_id_ < 2 ^ 32) : (r.step q).Numbered := by
  refine hn.step hinv fun hq => ?_
  have := h hq
  unfold OrderId_INVALID
  omega

/-- Before its id is handed out, nothing is said about an order. -/
theorem run_before {qs : List MEClientRequest} (hid : RefBook.IdsBelow (2 ^ 32) r qs)
    (habs : ∀ b, Absent (withId m) (r.book b)) (hm : (r.run qs).next_market_order_id_ ≤ m) :
    about (withId m) (responses (r.runEvents id qs).flatten) = [] ∧
      ∀ b, Absent (withId m) ((r.run qs).book b) := by
  induction qs generalizing r with
  | nil => exact ⟨rfl, habs⟩
  | cons q qs ih =>
    obtain ⟨hnone, habs'⟩ := step_absent (f := id) (p := q) habs fun hq =>
      not_brings_withId (by
        have h₁ := RefBook.next_le_run hid.2
        rw [RefBook.next_step hid.1, if_pos hq] at h₁
        have h₂ : ((r.step q).run qs).next_market_order_id_ ≤ m := hm
        omega)
    obtain ⟨hnone', habs''⟩ := ih hid.2 habs' hm
    refine ⟨?_, habs''⟩
    rw [RefBook.runEvents, List.flatten_cons, responses_append, about_append, hnone, hnone']
    rfl

/-- After its request, the history of an order goes on as a history. -/
theorem run_after {qs : List MEClientRequest} {p : MEClientRequest} (hinv : r.Inv) (hn : r.Numbered)
    (ha : r.AdmitsAll qs) (hid : RefBook.IdsBelow (2 ^ 32) r qs)
    (hm : m < r.next_market_order_id_)
    {rs : List MEClientResponse} {leaves : Nat} {canceled : Bool} (h : Life p rs leaves canceled)
    (hst : Standing (withId m) p r.book leaves canceled) :
    ∃ leaves' canceled',
      Life p (rs ++ about (withId m) (responses (r.runEvents id qs).flatten)) leaves' canceled' ∧
      Standing (withId m) p (r.run qs).book leaves' canceled' := by
  induction qs generalizing r rs leaves canceled with
  | nil => exact ⟨leaves, canceled, by simpa [RefBook.runEvents, about] using h, hst⟩
  | cons q qs ih =>
    obtain ⟨leaves₁, canceled₁, h₁, hst₁⟩ := life_step (f := id) (p := q) hinv (hn.singles m)
      (fun _ => not_brings_withId hm.ne') h hst
    obtain ⟨leaves₂, canceled₂, h₂, hst₂⟩ := ih (hinv.step ha.1) (numbered_step hn hinv hid.1) ha.2
      hid.2 (Nat.lt_of_lt_of_le hm (RefBook.next_le_step hid.1)) h₁ hst₁
    refine ⟨leaves₂, canceled₂, ?_, hst₂⟩
    rw [RefBook.runEvents, List.flatten_cons, responses_append, about_append, ← List.append_assoc]
    exact h₂

end Run

/-- Orders of `P` do not appear in a run whose requests bring none. -/
theorem run_absent {P : OrderPred} {r : RefBook} (qs : List MEClientRequest)
    (habs : ∀ b, Absent P (r.book b))
    (hqs : ∀ q ∈ qs, q.type_ = .NEW → ∀ m, P (q.client_id_, q.order_id_) m = false) :
    ∀ b, Absent P ((r.run qs).book b) := by
  induction qs generalizing r with
  | nil => exact habs
  | cons q qs ih =>
    have hq : q.type_ = .NEW → ¬ Brings P id r q := by
      intro ht hor
      have hno := hqs q (List.mem_cons_self ..) ht
      rcases hor with he | he <;> rw [hno] at he <;> exact absurd he (by simp)
    exact ih (step_absent habs hq).2 fun q' hq' => hqs q' (List.mem_cons_of_mem _ hq')

/-- A cancel without an order is rejected, and changes nothing. -/
theorem cancel_rejected {s : MEOrderBook} {r : RefBook} (h : Sim s r) {c : MEClientRequest}
    (hc : c.type_ = .CANCEL) (hclient : c.client_id_ < ME_MAX_NUM_CLIENTS)
    (horder : c.order_id_ < ME_MAX_ORDER_IDS)
    (hno : ∀ b, ∀ o ∈ r.book b, idx o.id_ ≠ (c.client_id_, c.order_id_)) :
    s.processClientRequest c
      = .ok (s, [rejectedEvent c.client_id_ c.order_id_ c.ticker_id_]) := by
  obtain ⟨G, hr, hb, _⟩ := h
  have hin : inRange (K := MEOrderId) ((c.client_id_, c.order_id_) : Nat × Nat) = true := by
    show (decide (c.client_id_ < _) && decide (c.order_id_ < _)) = true
    simp [hclient, horder]
  have hget : s.ladder.getIdx (c.client_id_, c.order_id_)
      = .ok (s.ladder.id_to_order_ (c.client_id_, c.order_id_)) := by
    simp [Ladder.getIdx, hin]
  rcases find?_sim hr hb (c.client_id_, c.order_id_) with ⟨hnone, _⟩ | ⟨b, p, d, _, hpd, hdi, _⟩
  · simp [MEOrderBook.processClientRequest, hc, MEOrderBook.cancel, hclient, hget, hnone]
  · have hd : d ∈ r.book b := by
      rw [← hb]
      exact mem_bookOf_of_flat hpd
    exact absurd hdi (hno b d hd)

/-- The responses that name the market order id `m`. -/
def ofOrder (m : Nat) (rs : List MEClientResponse) : List MEClientResponse :=
  rs.filter fun r => decide (r.market_order_id_ = m)

/-- The responses about an order are those that name its id. -/
theorem about_withId {r : RefBook} {qs : List MEClientRequest} {fillId : Nat → Nat} {m : Nat}
    (hm : m < OrderId_INVALID) :
    about (withId m) (responses (r.runEvents fillId qs).flatten)
      = ofOrder m (responses (r.runEvents fillId qs).flatten) := by
  induction qs generalizing r with
  | nil => rfl
  | cons q qs ih =>
    rw [RefBook.runEvents, List.flatten_cons, responses_append, about_append, ih]
    unfold ofOrder
    rw [List.filter_append]
    congr 1
    refine List.filter_congr fun x hx => ?_
    by_cases ht : x.type_ = .CANCEL_REJECTED
    · -- a rejected cancel names no order
      have hne : x.market_order_id_ ≠ m := by
        obtain ⟨_, h⟩ := mem_responses_step hx
        rcases h with ⟨_, hor, _⟩ | ⟨hor, _⟩ | ⟨_, _, hm'⟩
        · rcases hor with he | he <;> rw [he] at ht <;> exact absurd ht (by simp)
        · rcases hor with he | he <;> rw [he] at ht <;> exact absurd ht (by simp)
        · omega
      simp [ht, hne]
    · simp [ht, withId]

/-! ## Whole runs -/

theorem restingOrders_sim {s : MEOrderBook} {r : RefBook} (h : Sim s r) (b : Bool) :
    restingOrders s b = r.book b := by
  obtain ⟨G, hr, hb, _⟩ := h
  unfold restingOrders
  rw [hr.view b, Option.getD_some, flatMap_levelsOf, hb]

/-- The account of the order that request `q` brought under market order id `m`,
in the book `s` and after the responses `rs`: its responses are a history, its
quantity is conserved, and it rests with what it has left until that is nothing
or it is cancelled. -/
structure Account (q : MEClientRequest) (m : Nat) (rs : List MEClientResponse) (s : MEOrderBook)
    (leaves : Nat) (canceled : Bool) : Prop where
  life : Life q (ofOrder m rs) leaves canceled
  conserved : q.qty_ = executed (ofOrder m rs) + leaves
  resting : canceled = false → 0 < leaves →
    ∃ b, ∃ o ∈ restingOrders s b, o.id_.market_order_id_ = m ∧ o.qty_ = leaves
  gone : canceled = true ∨ leaves = 0 → ∀ b, ∀ o ∈ restingOrders s b, o.id_.market_order_id_ ≠ m

/-- The history of one order in the reference, over the whole run. -/
theorem run_life {pre post : List MEClientRequest} {q : MEClientRequest} (hq : q.type_ = .NEW)
    (ha : RefBook.init.AdmitsAll (pre ++ q :: post))
    (hid : RefBook.IdsBelow (2 ^ 32) RefBook.init (pre ++ q :: post)) {m : Nat}
    (hm : (RefBook.init.run pre).next_market_order_id_ = m) :
    ∃ leaves canceled,
      Life q (ofOrder m (responses (RefBook.init.runEvents id (pre ++ q :: post)).flatten)) leaves
        canceled ∧
      Standing (withId m) q (RefBook.init.run (pre ++ q :: post)).book leaves canceled := by
  obtain ⟨hapre, haq, hapost⟩ := RefBook.admitsAll_append.mp ha
  obtain ⟨hidpre, hidq, hidpost⟩ := RefBook.idsBelow_append.mp hid
  have hm32 : m < 2 ^ 32 := hm ▸ hidq hq
  have hinv := RefBook.inv_init.run hapre
  have hnum : (RefBook.init.run pre).Numbered := by
    have hlt : ∀ {r : RefBook} {qs : List MEClientRequest}, RefBook.IdsBelow (2 ^ 32) r qs →
        RefBook.IdsBelow OrderId_INVALID r qs := by
      intro r qs h
      induction qs generalizing r with
      | nil => trivial
      | cons q qs ih =>
        refine ⟨fun hq => Nat.lt_of_lt_of_le (h.1 hq) ?_, ih h.2⟩
        unfold OrderId_INVALID
        omega
    exact RefBook.numbered_init.run RefBook.inv_init hapre (hlt hidpre)
  -- before: nothing; at `q`: accepted; after: a history goes on
  obtain ⟨hnone, habs⟩ := run_before (m := m) hidpre (by simp [Absent, RefBook.init, Book.empty])
    (Nat.le_of_eq hm)
  obtain ⟨leaves₁, h₁, hst₁⟩ := life_accept (f := id) hinv hq habs (decide_eq_true hm)
    (decide_eq_true hm)
  obtain ⟨leaves, canceled, h, hst⟩ := run_after (hinv.step haq) (numbered_step hnum hinv hidq)
    hapost hidpost (by rw [RefBook.next_step hidq, if_pos hq, hm]; exact Nat.lt_succ_self m) h₁ hst₁
  refine ⟨leaves, canceled, ?_, ?_⟩
  · rw [← about_withId (by unfold OrderId_INVALID; omega), RefBook.runEvents_append,
      List.flatten_append, responses_append, about_append, hnone, List.nil_append,
      RefBook.runEvents, List.flatten_cons, responses_append, about_append]
    exact h
  · rw [RefBook.run_append]
    exact hst

/-- While its id is not used again, a live order under an order's index is that
order. -/
theorem run_same_id {pre post : List MEClientRequest} {q : MEClientRequest} (hq : q.type_ = .NEW)
    (ha : (RefBook.init.run pre).Admits q) (hpost : ∀ p ∈ post, p.type_ = .NEW →
      (p.client_id_, p.order_id_) ≠ (q.client_id_, q.order_id_)) :
    ∀ b, ∀ o ∈ (RefBook.init.run (pre ++ q :: post)).book b,
      idx o.id_ = (q.client_id_, q.order_id_) →
      o.id_.market_order_id_ = (RefBook.init.run pre).next_market_order_id_ := by
  set r := RefBook.init.run pre with hr
  set P : OrderPred := fun i m =>
    decide (i = (q.client_id_, q.order_id_)) && decide (m ≠ r.next_market_order_id_) with hP
  have habs : ∀ b, Absent P ((r.step q).book b) := by
    intro b o ho hPo
    obtain ⟨hi, hm⟩ := Bool.and_eq_true_iff.mp hPo
    rcases mem_step ho with ⟨_, _, he⟩ | ⟨o', ho', he⟩
    · rw [he] at hm
      exact of_decide_eq_true hm rfl
    · rw [← RefBook.strip_id he] at hi
      exact ha.fresh hq ⟨b, o', ho', of_decide_eq_true hi⟩
  have habs' := run_absent post habs fun p hp ht m => by
    rw [hP, Bool.and_eq_false_iff]
    exact Or.inl (decide_eq_false (hpost p hp ht))
  intro b o ho hi
  by_contra hne
  rw [RefBook.run_append] at ho
  exact habs' b o ho (by
    show (decide _ && decide _) = true
    rw [decide_eq_true hi, decide_eq_true hne]
    rfl)

/-- **Lifecycle and conservation.** Take any well-formed run that fits the pools,
with ids that fit in 32 bits. Every order it accepted has an account under the
market order id the book gave it; once that is closed, a cancel of its id (which
the client has not used again) is rejected and changes nothing. Every `TRADE`
comes with its two `FILLED`, and as much is bought as sold as traded. -/
theorem order_lifecycle (qs : List MEClientRequest) (ha : RefBook.init.AdmitsAll qs)
    (hf : RefBook.init.FitsAll qs) (hid : RefBook.IdsBelow (2 ^ 32) RefBook.init qs) :
    ∃ s evss, MEOrderBook.init.run qs = .ok (s, evss) ∧
      (∀ pre q post, qs = pre ++ q :: post → q.type_ = .NEW →
        ∃ s₀ evss₀ leaves canceled, MEOrderBook.init.run pre = .ok (s₀, evss₀) ∧
          Account q s₀.next_market_order_id_ (responses evss.flatten) s leaves canceled ∧
          (canceled = true ∨ leaves = 0 →
            (∀ p ∈ post, p.type_ = .NEW →
              (p.client_id_, p.order_id_) ≠ (q.client_id_, q.order_id_)) →
            ∀ c : MEClientRequest, c.type_ = .CANCEL → c.client_id_ = q.client_id_ →
              c.order_id_ = q.order_id_ → s.processClientRequest c
                = .ok (s, [rejectedEvent c.client_id_ c.order_id_ c.ticker_id_]))) ∧
      Paired evss.flatten ∧ filledOn .BUY evss.flatten = traded evss.flatten ∧
      filledOn .SELL evss.flatten = traded evss.flatten := by
  obtain ⟨s, hrun, hsim⟩ := run_sim qs sim_init RefBook.inv_init ha hf
  rw [runEvents_wrap32 hid] at hrun
  have hpaired := run_paired RefBook.inv_init ha id
  refine ⟨s, _, hrun, ?_, hpaired, hpaired.balanced⟩
  intro pre q post hqs hq
  subst hqs
  obtain ⟨hapre, haq, _⟩ := RefBook.admitsAll_append.mp ha
  obtain ⟨s₀, hrun₀, G₀, _, _, hnext⟩ := run_sim pre sim_init RefBook.inv_init hapre
    (RefBook.fitsAll_append.mp hf).1
  obtain ⟨leaves, canceled, hlife, hst⟩ := run_life hq ha hid hnext.symm
  have hgone : canceled = true ∨ leaves = 0 → ∀ b, Absent (withId s₀.next_market_order_id_)
      ((RefBook.init.run (pre ++ q :: post)).book b) := by
    intro hc
    rcases hst with ⟨hc', hpos, _⟩ | ⟨_, habs⟩
    · exfalso
      rcases hc with hc | hc
      · rw [hc] at hc'
        exact absurd hc' (by simp)
      · omega
    · exact habs
  refine ⟨s₀, _, leaves, canceled, hrun₀, ⟨hlife, hlife.conserved, ?_, ?_⟩, ?_⟩
  · intro hc hpos
    rcases hst with ⟨_, _, b, o, ho, hr⟩ | ⟨hgone, _⟩
    · exact ⟨b, o, by rw [restingOrders_sim hsim]; exact ho, is_withId.mp hr.is, hr.qty⟩
    · exfalso
      rcases hgone with hg | hg
      · rw [hc] at hg
        exact absurd hg (by simp)
      · omega
  · intro hc b o ho
    rw [restingOrders_sim hsim] at ho
    exact fun he => hgone hc b o ho (is_withId.mpr he)
  · intro hc hpost c hct hcc hco
    refine cancel_rejected hsim hct (hcc ▸ haq.client) (hco ▸ haq.order) fun b o ho hi => ?_
    rw [hcc, hco] at hi
    refine hgone hc b o ho (is_withId.mpr ?_)
    rw [hnext]
    exact run_same_id hq haq hpost b o ho hi

/-- A bid filled by two asks, the second of which keeps a rest that is then
cancelled. -/
theorem order_lifecycle_small : ∃ s evss, MEOrderBook.init.run
    [⟨.NEW, 1, 0, 7, .BUY, 100, 10⟩, ⟨.NEW, 2, 0, 1, .SELL, 100, 4⟩,
      ⟨.NEW, 2, 0, 2, .SELL, 99, 8⟩, ⟨.CANCEL, 2, 0, 2, .SELL, 99, 8⟩] = .ok (s, evss) ∧
    Paired evss.flatten ∧ filledOn .BUY evss.flatten = traded evss.flatten ∧
    filledOn .SELL evss.flatten = traded evss.flatten := by
  obtain ⟨s, evss, hrun, _, hpaired, hbuy, hsell⟩ := order_lifecycle
    [⟨.NEW, 1, 0, 7, .BUY, 100, 10⟩, ⟨.NEW, 2, 0, 1, .SELL, 100, 4⟩,
      ⟨.NEW, 2, 0, 2, .SELL, 99, 8⟩, ⟨.CANCEL, 2, 0, 2, .SELL, 99, 8⟩]
    (by decide) (by decide) (by decide)
  exact ⟨s, evss, hrun, hpaired, hbuy, hsell⟩

end LowLatency
