import LowLatency.Book.InRange
import LowLatency.Matcher.Owners
import LowLatency.Matcher.Rings
import LowLatency.MarketData.SnapshotSynthesizer
import LowLatency.Strategy.MarketOrderBook

/-!
# Market order ids and the tables of their consumers

`generateNewMarketOrderId` counts on for as long as the exchange runs. The tables
that find an order by its market order id, `ticker_orders_` of the snapshot
synthesizer and `oid_to_order_` of the client's book, have `ME_MAX_ORDER_IDS`
entries: as many as orders can be live, not as many as can ever be sent. An order
that rests under a later id is published to consumers that cannot file it.

`published_orders_indexable_iff` says exactly when that does not happen: every order
that is given an id from `ME_MAX_ORDER_IDS` on is used up by the resting orders that
its limit reaches (`MEOrderBook.RestsBelow`). An order that is filled on arrival is
never published under its own id, so it does no harm. The way there is that a pointer
of a book leads to an order that once rested (`Leads`), and so under an id that was
published with its `ADD`. That holds of books with broken rings, too, but what a
match finds in these cannot be told from their resting orders: if such an order finds
a book that is not in order (`MEOrderBook.OrderlyFrom`), the condition is about the
match itself (`MEOrderBook.FilledFrom`). Runs of well-formed requests have no such
books.
-/

namespace LowLatency

/-- The order an update names, if it names one, has an id below `n`. -/
def Indexable (n : Nat) (u : MEMarketUpdate) : Prop :=
  u.type_ = .ADD ∨ u.type_ = .MODIFY ∨ u.type_ = .CANCEL → u.order_id_ < n

/-! ## One book -/

/-- A new order that is given an id from `n` on is used up by the resting orders that
its limit reaches. -/
def MEOrderBook.RestsBelow (n : Nat) (s : MEOrderBook) (q : MEClientRequest) : Prop :=
  q.type_ = .NEW → n ≤ s.next_market_order_id_ → ¬ s.LeavesOver q

/-- A new order that is given an id from `n` on finds a book whose rings are in
order. -/
def MEOrderBook.OrderlyFrom (n : Nat) (s : MEOrderBook) (q : MEClientRequest) : Prop :=
  q.type_ = .NEW → n ≤ s.next_market_order_id_ → Ordered s.ladder

/-- Matching leaves nothing of the order. -/
def MEOrderBook.FilledOnArrival (s : MEOrderBook) (q : MEClientRequest) : Prop :=
  ∃ l evs, MELadder.checkForMatch s.ladder (s.aggressor q) q.qty_ = .ok (0, l, evs)

/-- Matching leaves nothing of a new order that is given an id from `n` on. -/
def MEOrderBook.FilledFrom (n : Nat) (s : MEOrderBook) (q : MEClientRequest) : Prop :=
  q.type_ = .NEW → n ≤ s.next_market_order_id_ → s.FilledOnArrival q

/-- As long as the rings are in order, the resting orders tell. -/
theorem MEOrderBook.filledOnArrival_iff {s : MEOrderBook} (h : Ordered s.ladder)
    (q : MEClientRequest) : s.FilledOnArrival q ↔ ¬ s.LeavesOver q := by
  obtain ⟨G, hG⟩ := h
  obtain ⟨l, evs, _, hmatch, _⟩ := shelved_matchRule.checkForMatch hG q
  unfold FilledOnArrival LeavesOver
  rw [hmatch]
  constructor
  · rintro ⟨_, _, hzero⟩
    have hleaves := (Prod.mk.inj (Except.ok.inj hzero)).1
    omega
  · intro hnot
    exact ⟨l, evs, by rw [show q.qty_ - ((s.reached q).map OrderData.qty_).sum = 0 by omega]⟩

/-- Every pointer leads to an order with an id below `n`. -/
abbrev IdsBelow (n : Nat) (s : MELadder) : Prop := Leads (fun k => k.market_order_id_ < n) s

/-- An update among the messages of a request for `ticker_id`. -/
def UpdateFor (n ticker_id : Nat) (e : Event) : Prop :=
  ∀ u, e = .update u → u.ticker_id_ = ticker_id ∧ Indexable n u

theorem UpdateFor.response (n ticker_id : Nat) (r : MEClientResponse) :
    UpdateFor n ticker_id (.response r) := fun _ h => absurd h (by simp)

/-- What is published of a fill names the passive order. -/
theorem indexable_sweepRule (n N : Nat) (a : Aggressor) :
    SweepRule a N (IdsBelow n) (UpdateFor n a.ticker_id_) where
  fill := by
    intro s itr leaves _ _ _ e he
    unfold fillEvents at he
    rcases List.mem_cons.mp he with rfl | he
    · exact .response _ _ _
    rcases List.mem_cons.mp he with rfl | he
    · exact .response _ _ _
    · intro u hu
      rw [List.mem_singleton.mp he] at hu
      obtain rfl := Event.update.inj hu
      exact ⟨rfl, by simp [Indexable]⟩
  exhausted := by
    intro s itr h hitr u hu
    obtain ⟨_, level, _, hfirst⟩ := hitr
    obtain rfl := Event.update.inj hu
    exact ⟨rfl, fun _ => h.first level itr hfirst⟩
  modified := by
    intro s itr qty h hitr u hu
    obtain ⟨_, level, _, hfirst⟩ := hitr
    obtain rfl := Event.update.inj hu
    exact ⟨rfl, fun _ => h.first level itr hfirst⟩
  setQty := fun h _ => h.setQty _ _
  remove := fun h _ hrun => h.removeOrder hrun

/-- **One request** publishes ids below `n` only, if an order that would rest is
given one. -/
theorem MEOrderBook.processClientRequest_indexable {n : Nat} {s s' : MEOrderBook}
    {q : MEClientRequest} {evs : List Event} (h : IdsBelow n s.ladder) (hq : s.FilledFrom n q)
    (hrun : s.processClientRequest q = .ok (s', evs)) :
    IdsBelow n s'.ladder ∧ ∀ e ∈ evs, UpdateFor n q.ticker_id_ e := by
  unfold MEOrderBook.processClientRequest at hrun
  split at hrun
  next htype =>
    obtain ⟨leaves, l, evs₁, hmatch, _, hend⟩ := MEOrderBook.add_inv hrun
    obtain ⟨hl, _, hevs⟩ := (indexable_sweepRule n _ _).checkForMatch h hmatch
    rcases hend with ⟨_, hs', rfl⟩ | ⟨hleaves, o, hid, _, _, _, halloc, rfl⟩
    · rw [hs']
      refine ⟨hl, fun e he => ?_⟩
      rcases List.mem_cons.mp he with rfl | he
      · exact .response _ _ _
      · exact hevs e he
    · have hnew : o.id_.market_order_id_ < n := by
        rw [hid]
        by_contra hge
        obtain ⟨l₀, evs₀, hzero⟩ := hq htype (Nat.le_of_not_lt hge)
        exact hleaves (Prod.mk.inj (Except.ok.inj (hmatch.symm.trans hzero))).1
      refine ⟨hl.allocateOrder hnew halloc, fun e he => ?_⟩
      rcases List.mem_cons.mp he with rfl | he
      · exact .response _ _ _
      rcases List.mem_append.mp he with he | he
      · exact hevs e he
      · intro u hu
        rw [List.mem_singleton.mp he] at hu
        obtain rfl := Event.update.inj hu
        refine ⟨?_, fun _ => hnew⟩
        show o.id_.ticker_id_ = _
        rw [hid]
  next =>
    rcases MEOrderBook.cancel_inv hrun with ⟨rfl, rfl⟩ | ⟨p, hp, hremove, _, rfl⟩
    · refine ⟨h, fun e he => ?_⟩
      rw [List.mem_singleton.mp he]
      exact .response _ _ _
    · refine ⟨h.removeOrder hremove, fun e he => ?_⟩
      rcases List.mem_cons.mp he with rfl | he
      · intro u hu
        obtain rfl := Event.update.inj hu
        exact ⟨rfl, fun _ => h.id _ p hp⟩
      · rw [List.mem_singleton.mp he]
        exact .response _ _ _
  next => exact absurd hrun (by simp)

/-- An order that rests is published, under the id it was given. -/
theorem MEOrderBook.filledFrom_of_indexable {n : Nat} {s s' : MEOrderBook} {q : MEClientRequest}
    {evs : List Event} (hrun : s.processClientRequest q = .ok (s', evs))
    (h : ∀ u ∈ updates evs, Indexable n u) : s.FilledFrom n q := by
  intro htype hge
  simp only [MEOrderBook.processClientRequest, htype] at hrun
  obtain ⟨leaves, l, evs₁, hmatch, _, hend⟩ := MEOrderBook.add_inv hrun
  rcases hend with ⟨rfl, _, _⟩ | ⟨_, o, hid, _, _, _, _, rfl⟩
  · exact ⟨l, evs₁, hmatch⟩
  · have hadd := h _ (by
      simp only [updates_response, acceptedEvent, addedEvent, updates_append, updates_update,
        updates_nil]
      exact List.mem_append_right _ (List.mem_singleton_self _)) (Or.inl rfl)
    have hlt : o.id_.market_order_id_ < n := hadd
    rw [hid] at hlt
    exact absurd hge (Nat.not_le.mpr hlt)

/-! ## The engine -/

namespace MatchingEngine

/-- **A whole run** publishes ids below `n` only, if no order rests under
another. -/
theorem run_indexable {n : Nat} {qs : List MEClientRequest} {e e' : MatchingEngine}
    {evss : List (List Event)} (h : ∀ t, IdsBelow n (e t).ladder)
    (hq : AllAlong (MEOrderBook.FilledFrom n) e qs) (hrun : e.run qs = .ok (e', evss)) :
    ∀ u ∈ updates evss.flatten, u.ticker_id_ < ME_MAX_TICKERS ∧ Incremental u ∧
      Indexable n u := by
  induction qs generalizing e evss with
  | nil =>
    obtain ⟨_, rfl⟩ : e = e' ∧ [] = evss := by simpa [run] using hrun
    exact fun u hu => absurd hu (by simp)
  | cons q qs ih =>
    obtain ⟨e₁, evs, evss₁, hstep, hrest, rfl⟩ := run_cons_inv hrun
    obtain ⟨hticker, s, hbook, rfl⟩ := processClientRequest_inv hstep
    obtain ⟨hs, hevs⟩ := MEOrderBook.processClientRequest_indexable (h _) hq.1 hbook
    have h₁ : ∀ t, IdsBelow n (Function.update e q.ticker_id_ s t).ladder := by
      intro t
      by_cases ht : t = q.ticker_id_
      · rw [ht, Function.update_self]
        exact hs
      · rw [Function.update_of_ne ht]
        exact h t
    intro u hu
    rw [List.flatten_cons, updates_append] at hu
    rcases List.mem_append.mp hu with hu | hu
    · obtain ⟨ht, hn⟩ := hevs _ (mem_updates.mp hu) u rfl
      exact ⟨by rw [ht]; exact hticker, (LowLatency.processClientRequest_incremental hbook).updates hu, hn⟩
    · exact ih h₁ (hq.2 _ _ hstep) hrest u hu

theorem allAlong_of_indexable {n : Nat} {qs : List MEClientRequest} {e e' : MatchingEngine}
    {evss : List (List Event)} (hrun : e.run qs = .ok (e', evss))
    (h : ∀ u ∈ updates evss.flatten, Indexable n u) :
    AllAlong (MEOrderBook.FilledFrom n) e qs := by
  induction qs generalizing e evss with
  | nil => trivial
  | cons q qs ih =>
    obtain ⟨e₁, evs, evss₁, hstep, hrest, rfl⟩ := run_cons_inv hrun
    rw [List.flatten_cons, updates_append] at h
    obtain ⟨_, s, hbook, _⟩ := processClientRequest_inv hstep
    refine ⟨MEOrderBook.filledFrom_of_indexable hbook
      fun u hu => h u (List.mem_append_left _ hu), ?_⟩
    intro e₂ evs₂ hstep₂
    obtain ⟨rfl, _⟩ := Prod.mk.inj (Except.ok.inj (hstep.symm.trans hstep₂))
    exact ih hrest fun u hu => h u (List.mem_append_right _ hu)

/-- The two conditions are one where the rings are in order. -/
theorem allAlong_restsBelow_iff {n : Nat} {qs : List MEClientRequest} {e : MatchingEngine}
    (h : AllAlong (MEOrderBook.OrderlyFrom n) e qs) :
    AllAlong (MEOrderBook.FilledFrom n) e qs ↔ AllAlong (MEOrderBook.RestsBelow n) e qs := by
  induction qs generalizing e with
  | nil => exact Iff.rfl
  | cons q qs ih =>
    refine and_congr ?_ ?_
    · refine forall₂_congr fun hnew hge => ?_
      exact MEOrderBook.filledOnArrival_iff (h.1 hnew hge) q
    · exact forall₃_congr fun e' evs hstep => ih (h.2 _ _ hstep)

/-- Well-formed requests find books in order. -/
theorem allAlong_orderlyFrom (n : Nat) {qs : List MEClientRequest} {e : MatchingEngine}
    {R : RefExchange} (h : EngineSim e R) (hinv : ∀ t, (R t).Inv)
    (ha : RefExchange.AllAlong RefExchange.Admits R qs)
    (hf : RefExchange.AllAlong RefExchange.StepFits R qs) :
    AllAlong (MEOrderBook.OrderlyFrom n) e qs := by
  induction qs generalizing e R with
  | nil => trivial
  | cons q qs ih =>
    refine ⟨fun _ _ => (h _).ordered, fun e' evs hstep => ?_⟩
    obtain ⟨e₁, hrun, h₁⟩ := engine_step_sim h hinv ha.1 hf.1
    obtain ⟨rfl, -⟩ := Prod.mk.inj (Except.ok.inj (hrun.symm.trans hstep))
    exact ih h₁ (RefExchange.step_forall hinv ((hinv _).step ha.1.2)) ha.2 hf.2

end MatchingEngine

/-! ## The consumers -/

namespace SnapshotSynthesizer

theorem noThrow_getOrder (s : SnapshotSynthesizer) {ticker_id order_id : Nat}
    (ht : ticker_id < ME_MAX_TICKERS) (ho : order_id < ME_MAX_ORDER_IDS) :
    NoThrow (s.getOrder ticker_id order_id) := by
  unfold getOrder
  rw [if_pos ⟨ht, ho⟩]
  exact .ok _

theorem noThrow_checkedOrder (s : SnapshotSynthesizer) {u : MEMarketUpdate}
    (ht : u.ticker_id_ < ME_MAX_TICKERS) (ho : u.order_id_ < ME_MAX_ORDER_IDS) :
    NoThrow (s.checkedOrder u) := by
  unfold checkedOrder
  refine (s.noThrow_getOrder ht ho).bind fun order _ => ?_
  refine (NoThrow.ASSERT ..).bind fun _ _ => ?_
  refine (NoThrow.deref _).bind fun p _ => ?_
  refine (NoThrow.ASSERT ..).bind fun _ _ => ?_
  exact (NoThrow.ASSERT ..).bind fun _ _ => .ok p

/-- The synthesizer indexes by what it is sent and by nothing else. -/
theorem noThrow_onUpdate (s : SnapshotSynthesizer) {u : MEMarketUpdate}
    (ht : u.ticker_id_ < ME_MAX_TICKERS) (hu : Indexable ME_MAX_ORDER_IDS u) :
    NoThrow (s.onUpdate u) := by
  unfold onUpdate
  split
  next htype =>
    refine (s.noThrow_getOrder ht (hu (Or.inl htype))).bind fun order _ => ?_
    refine (NoThrow.ASSERT ..).bind fun _ _ => ?_
    exact (noThrow_allocate ..).bind fun _ _ => .ok _
  next htype =>
    exact (s.noThrow_checkedOrder ht (hu (Or.inr (Or.inl htype)))).bind fun _ _ => .ok _
  next htype =>
    refine (s.noThrow_checkedOrder ht (hu (Or.inr (Or.inr htype)))).bind fun _ _ => ?_
    exact (noThrow_deallocate ..).bind fun _ _ => .ok _
  all_goals
    rw [if_pos ht]
    exact .ok _

theorem noThrow_addAllToSnapshot {ms : List MDPMarketUpdate} (s : SnapshotSynthesizer)
    (h : ∀ m ∈ ms, m.me_market_update_.ticker_id_ < ME_MAX_TICKERS ∧
      Indexable ME_MAX_ORDER_IDS m.me_market_update_) : NoThrow (s.addAllToSnapshot ms) := by
  induction ms generalizing s with
  | nil => exact .ok s
  | cons m ms ih =>
    obtain ⟨ht, hu⟩ := h m (List.mem_cons_self ..)
    have hone : NoThrow (s.addToSnapshot m) := by
      unfold addToSnapshot
      refine (s.noThrow_onUpdate ht hu).bind fun s₁ _ => ?_
      exact (NoThrow.ASSERT ..).bind fun _ _ => .ok _
    exact hone.bind fun s₁ _ => ih s₁ fun m' hm' => h m' (List.mem_cons_of_mem _ hm')

end SnapshotSynthesizer

namespace MarketOrderBook

/-- Every pointer of the replica leads to an order that its table has a place
for. -/
abbrev InTable (s : MarketLadder) : Prop := Leads (fun i : Nat => i < ME_MAX_ORDER_IDS) s

theorem noThrow_topOfBook (s : MarketLadder) (bid : Bool) :
    NoThrow (MarketLadder.topOfBook s bid) := by
  have hloop : ∀ (m : MemPool (Order Nat)) (first fuel order qty : Nat),
      NoThrow (MarketLadder.sumQtyLoop m first fuel order qty) := by
    intro m first fuel
    induction fuel with
    | zero => intro order qty; exact .error (by simp)
    | succ fuel ih =>
      intro order qty
      unfold MarketLadder.sumQtyLoop
      split
      · exact .ok _
      · exact (NoThrow.deref _).bind fun next _ => ih next _
  unfold MarketLadder.topOfBook
  split
  · exact .ok _
  · refine (NoThrow.deref _).bind fun first _ => ?_
    refine (NoThrow.deref _).bind fun order _ => ?_
    exact (hloop ..).bind fun _ _ => .ok _

/-- `updateBBO` reads the top of each side it is asked for, and keeps the book. -/
theorem noThrow_updateBBO (s : MarketOrderBook) (update_bid update_ask : Bool) :
    NoThrow (s.updateBBO update_bid update_ask) := by
  unfold updateBBO
  cases update_bid with
  | true =>
    refine (noThrow_topOfBook ..).bind fun _ _ => ?_
    cases update_ask with
    | true => exact (noThrow_topOfBook ..).bind fun _ _ => .ok _
    | false => exact .ok _
  | false =>
    cases update_ask with
    | true => exact (noThrow_topOfBook ..).bind fun _ _ => .ok _
    | false => exact .ok _

theorem updateBBO_ladder {s s' : MarketOrderBook} {update_bid update_ask : Bool}
    (h : s.updateBBO update_bid update_ask = .ok s') : s'.ladder = s.ladder := by
  unfold updateBBO at h
  cases update_bid with
  | true =>
    obtain ⟨_, _, h⟩ := exec_bind_ok h
    obtain ⟨s₁, hbid, h⟩ := exec_bind_ok h
    have hl : s₁.ladder = s.ladder := by rw [← Except.ok.inj hbid]
    cases update_ask with
    | true =>
      obtain ⟨_, _, h⟩ := exec_bind_ok h
      rw [← Except.ok.inj h, hl]
    | false => rw [← Except.ok.inj h, hl]
  | false =>
    obtain ⟨s₁, hbid, h⟩ := exec_bind_ok h
    have hl : s₁.ladder = s.ladder := by rw [← Except.ok.inj hbid]
    cases update_ask with
    | true =>
      obtain ⟨_, _, h⟩ := exec_bind_ok h
      rw [← Except.ok.inj h, hl]
    | false => rw [← Except.ok.inj h, hl]

/-- An update leaves only pointers to orders that the table has a place for. -/
theorem onUpdate_inTable {s : MarketLadder} {u : MEMarketUpdate} (h : InTable s)
    (hinc : Incremental u) (hu : Indexable ME_MAX_ORDER_IDS u) :
    NoThrow (onUpdate s u) ∧ ∀ s', onUpdate s u = .ok s' → InTable s' := by
  unfold onUpdate
  rcases hinc with htype | htype | htype | htype
  · have hid := hu (Or.inl htype)
    simp only [htype]
    exact ⟨Ladder.noThrow_allocateOrder (decide_eq_true hid) s, fun s' hs' =>
      h.allocateOrder hid hs'⟩
  · have hid := hu (Or.inr (Or.inl htype))
    simp only [htype]
    refine ⟨(Ladder.noThrow_getIdx (decide_eq_true hid) s).bind fun entry _ =>
      (NoThrow.deref _).bind fun order _ => .ok _, fun s' hs' => ?_⟩
    obtain ⟨entry, _, hs'⟩ := exec_bind_ok hs'
    obtain ⟨order, _, hs'⟩ := exec_bind_ok hs'
    rw [← Except.ok.inj hs']
    exact h.setQty _ _
  · have hid := hu (Or.inr (Or.inr htype))
    simp only [htype]
    have hentry : ∀ entry order, s.getIdx u.order_id_ = .ok entry → deref entry = .ok order →
        (s.order_pool_.data order).id_ < ME_MAX_ORDER_IDS := by
      intro entry order hentry horder
      rw [getIdx_ok hentry] at horder
      exact h.id _ _ (deref_inv horder)
    refine ⟨(Ladder.noThrow_getIdx (decide_eq_true hid) s).bind fun entry he =>
      (NoThrow.deref _).bind fun order ho =>
        Ladder.noThrow_removeOrder (decide_eq_true (hentry entry order he ho)), fun s' hs' => ?_⟩
    obtain ⟨entry, _, hs'⟩ := exec_bind_ok hs'
    obtain ⟨order, _, hs'⟩ := exec_bind_ok hs'
    exact h.removeOrder hs'
  · simp only [htype]
    refine ⟨.ok s, fun s' hs' => ?_⟩
    rw [← Except.ok.inj hs']
    exact h

theorem onMarketUpdate_inTable {s : MarketOrderBook} {u : MEMarketUpdate} (h : InTable s.ladder)
    (hinc : Incremental u) (hu : Indexable ME_MAX_ORDER_IDS u) :
    NoThrow (s.onMarketUpdate u) ∧ ∀ s', s.onMarketUpdate u = .ok s' → InTable s'.ladder := by
  obtain ⟨hthrow, hkeep⟩ := onUpdate_inTable h hinc hu
  unfold onMarketUpdate
  constructor
  · refine hthrow.bind fun l _ => ?_
    split
    · exact .ok s
    · exact noThrow_updateBBO ..
  · intro s' hs'
    obtain ⟨l, hl, hs'⟩ := exec_bind_ok hs'
    split at hs'
    · rw [← Except.ok.inj hs']
      exact h
    · rw [updateBBO_ladder hs']
      exact hkeep l hl

end MarketOrderBook

theorem MarketOrderBookHashMap.noThrow_processMarketUpdates {us : List MEMarketUpdate}
    {m : MarketOrderBookHashMap} (h : ∀ t, MarketOrderBook.InTable (m t).ladder)
    (hus : ∀ u ∈ us, Incremental u ∧ Indexable ME_MAX_ORDER_IDS u) :
    NoThrow (m.processMarketUpdates us) := by
  induction us generalizing m with
  | nil => exact .ok m
  | cons u us ih =>
    obtain ⟨hinc, hu⟩ := hus u (List.mem_cons_self ..)
    obtain ⟨hthrow, hkeep⟩ := MarketOrderBook.onMarketUpdate_inTable (h u.ticker_id_) hinc hu
    have hone : NoThrow (m.processMarketUpdate u) := by
      unfold processMarketUpdate
      refine (NoThrow.ASSERT ..).bind fun _ _ => ?_
      exact hthrow.bind fun _ _ => .ok _
    refine hone.bind fun m₁ hm₁ => ih ?_ fun v hv => hus v (List.mem_cons_of_mem _ hv)
    unfold processMarketUpdate at hm₁
    obtain ⟨_, _, hm₁⟩ := exec_bind_ok hm₁
    obtain ⟨s, hs, hm₁⟩ := exec_bind_ok hm₁
    rw [← Except.ok.inj hm₁]
    intro t
    by_cases ht : t = u.ticker_id_
    · rw [ht, Function.update_self]
      exact hkeep s hs
    · rw [Function.update_of_ne ht]
      exact h t

/-! ## The two together -/

/-- Every id that is published has a place in the tables of the two consumers, and
these never throw, whatever part of the feed they get and in whatever order. -/
def MatchingEngine.PublishesIndexable (evss : List (List Event)) : Prop :=
  (∀ u ∈ updates evss.flatten, Indexable ME_MAX_ORDER_IDS u) ∧
  (∀ ms : List MDPMarketUpdate, (∀ m ∈ ms, m.me_market_update_ ∈ updates evss.flatten) →
    NoThrow (SnapshotSynthesizer.init.addAllToSnapshot ms)) ∧
  ∀ us : List MEMarketUpdate, (∀ u ∈ us, u ∈ updates evss.flatten) →
    NoThrow (MarketOrderBookHashMap.init.processMarketUpdates us)

/-- In every run it is what the matches leave that decides. -/
theorem MatchingEngine.publishesIndexable_iff {qs : List MEClientRequest} {e : MatchingEngine}
    {evss : List (List Event)} (hrun : MatchingEngine.init.run qs = .ok (e, evss)) :
    PublishesIndexable evss ↔
      AllAlong (MEOrderBook.FilledFrom ME_MAX_ORDER_IDS) MatchingEngine.init qs := by
  constructor
  · intro h
    exact allAlong_of_indexable hrun h.1
  · intro h
    have hall := run_indexable (fun _ => Leads.init) h hrun
    refine ⟨fun u hu => (hall u hu).2.2, fun ms hms => ?_, fun us hus => ?_⟩
    · apply SnapshotSynthesizer.noThrow_addAllToSnapshot
      intro m hm
      obtain ⟨ht, _, hu⟩ := hall _ (hms m hm)
      exact ⟨ht, hu⟩
    · apply MarketOrderBookHashMap.noThrow_processMarketUpdates
      · exact fun _ => Leads.init
      · exact fun u hu => (hall u (hus u hu)).2

/-- **The engine publishes orders that its consumers can index** exactly if every
order that is given a market order id from `ME_MAX_ORDER_IDS` on is filled when it
arrives. If the book that it finds is in order, this is a condition on its resting
orders: those that the limit reaches use up the new one. So it is in every run of
well-formed requests that does not exhaust the pools. -/
theorem MatchingEngine.published_orders_indexable_iff {qs : List MEClientRequest}
    {e : MatchingEngine} {evss : List (List Event)}
    (hrun : MatchingEngine.init.run qs = .ok (e, evss)) :
    (PublishesIndexable evss ↔
      AllAlong (MEOrderBook.FilledFrom ME_MAX_ORDER_IDS) MatchingEngine.init qs) ∧
    (AllAlong (MEOrderBook.OrderlyFrom ME_MAX_ORDER_IDS) MatchingEngine.init qs →
      (PublishesIndexable evss ↔
        AllAlong (MEOrderBook.RestsBelow ME_MAX_ORDER_IDS) MatchingEngine.init qs)) ∧
    (RefExchange.AllAlong RefExchange.Admits RefExchange.init qs →
      RefExchange.AllAlong RefExchange.StepFits RefExchange.init qs →
      (PublishesIndexable evss ↔
        AllAlong (MEOrderBook.RestsBelow ME_MAX_ORDER_IDS) MatchingEngine.init qs)) := by
  have hmatched := publishesIndexable_iff hrun
  have hordered : AllAlong (MEOrderBook.OrderlyFrom ME_MAX_ORDER_IDS) MatchingEngine.init qs →
      (PublishesIndexable evss ↔
        AllAlong (MEOrderBook.RestsBelow ME_MAX_ORDER_IDS) MatchingEngine.init qs) :=
    fun horderly => hmatched.trans (allAlong_restsBelow_iff horderly)
  exact ⟨hmatched, hordered, fun ha hf =>
    hordered (allAlong_orderlyFrom _ engineSim_init (fun _ => RefBook.inv_init) ha hf)⟩

/-! ## A book that is never more than one order deep -/

def churnNew : MEClientRequest :=
  { type_ := .NEW, client_id_ := 0, ticker_id_ := 0, order_id_ := 0, side_ := .BUY, price_ := 100,
    qty_ := 1 }

def churnCancel : MEClientRequest := { churnNew with type_ := .CANCEL }

/-- A client sends an order and cancels it, `n` times over, always under the same
order id. -/
def churn : Nat → List MEClientRequest
  | 0 => []
  | n + 1 => churnNew :: churnCancel :: churn n

namespace RefBook

theorem step_churn (k : Nat) : ((⟨Book.empty, k⟩ : RefBook).step churnNew).step churnCancel =
    ⟨Book.empty, wrap64 (k + 1)⟩ := by
  have hbook : ((⟨Book.empty, k⟩ : RefBook).step churnNew).book.removeIdx (0, 0) = Book.empty := by
    funext b
    cases b <;> rfl
  show (⟨((⟨Book.empty, k⟩ : RefBook).step churnNew).book.removeIdx (0, 0), _⟩ : RefBook) = _
  rw [hbook]
  rfl

theorem admits_churnNew (k : Nat) : (⟨Book.empty, k⟩ : RefBook).Admits churnNew where
  client := by decide
  order := by decide
  type := by decide
  side := fun _ => Or.inl rfl
  fresh := by
    intro _ h
    obtain ⟨b, o, ho, _⟩ := h
    exact absurd ho (by simp [Book.empty])
  price := by
    intro _ _ b o ho
    obtain ⟨o', ho', _⟩ := mem_matched ho
    exact absurd ho' (by simp [Book.empty])

theorem admits_churnCancel (r : RefBook) : r.Admits churnCancel where
  client := by decide
  order := by decide
  type := by decide
  side := fun h => absurd h (by decide)
  fresh := fun h => absurd h (by decide)
  price := fun h => absurd h (by decide)

theorem fits_churnNew (k : Nat) : ((⟨Book.empty, k⟩ : RefBook).step churnNew).Fits := by
  have hlive : ((⟨Book.empty, k⟩ : RefBook).step churnNew).book.live = 1 := rfl
  have hlevels : ((⟨Book.empty, k⟩ : RefBook).step churnNew).book.levels = 1 := rfl
  unfold Fits
  rw [hlive, hlevels]
  decide

theorem fits_empty (k : Nat) : (⟨Book.empty, k⟩ : RefBook).Fits := by
  have hlive : (⟨Book.empty, k⟩ : RefBook).book.live = 0 := rfl
  have hlevels : (⟨Book.empty, k⟩ : RefBook).book.levels = 0 := rfl
  unfold Fits
  rw [hlive, hlevels]
  decide

theorem added_mem_churnNew (k : Nat) :
    addedEvent ⟨⟨0, 0, 0, k⟩, .BUY, 100, 1, 1⟩ ∈
      (⟨Book.empty, k⟩ : RefBook).stepEvents wrap32 churnNew := by
  have hevents : (⟨Book.empty, k⟩ : RefBook).stepEvents wrap32 churnNew =
      [acceptedEvent 0 0 0 k .BUY 100 1, addedEvent ⟨⟨0, 0, 0, k⟩, .BUY, 100, 1, 1⟩] := rfl
  rw [hevents]
  exact List.mem_cons_of_mem _ (List.mem_singleton_self _)

end RefBook

namespace RefExchange

/-- **The book stays as good as empty**, but the ids go on. -/
theorem run_churn {k : Nat} (n : Nat) {R : RefExchange} (hR : R 0 = ⟨Book.empty, k⟩)
    (hk : k + n < 2 ^ 64) :
    AllAlong Admits R (churn n ++ [churnNew]) ∧ AllAlong StepFits R (churn n ++ [churnNew]) ∧
    .update ⟨.ADD, k + n, 0, .BUY, 100, 1, 1⟩ ∈
      (R.runEvents wrap32 (churn n ++ [churnNew])).flatten := by
  induction n generalizing k R with
  | zero =>
    refine ⟨⟨⟨by decide, ?_⟩, trivial⟩, ⟨?_, trivial⟩, ?_⟩
    · show (R 0).Admits _
      rw [hR]
      exact RefBook.admits_churnNew k
    · show ((R 0).step _).Fits
      rw [hR]
      exact RefBook.fits_churnNew k
    · show _ ∈ (R 0).stepEvents wrap32 churnNew ++ []
      rw [hR, List.append_nil]
      exact RefBook.added_mem_churnNew k
  | succ n ih =>
    have hpair : ((R.step churnNew).step churnCancel) 0 = ⟨Book.empty, k + 1⟩ := by
      show Function.update (Function.update R 0 _) 0 _ 0 = _
      rw [Function.update_self]
      show (Function.update R 0 ((R 0).step churnNew) 0).step churnCancel = _
      rw [Function.update_self, hR, RefBook.step_churn]
      unfold wrap64
      rw [Nat.mod_eq_of_lt (by omega)]
    obtain ⟨hadmits, hfits, hadd⟩ := ih hpair (by omega)
    refine ⟨⟨⟨by decide, ?_⟩, ⟨by decide, RefBook.admits_churnCancel _⟩, hadmits⟩,
      ⟨?_, ?_, hfits⟩, ?_⟩
    · show (R 0).Admits _
      rw [hR]
      exact RefBook.admits_churnNew k
    · show ((R 0).step _).Fits
      rw [hR]
      exact RefBook.fits_churnNew k
    · show ((R.step churnNew churnCancel.ticker_id_).step churnCancel).Fits
      rw [(step_self (R.step churnNew) churnCancel).symm.trans hpair]
      exact RefBook.fits_empty _
    · rw [show k + (n + 1) = k + 1 + n by omega]
      show _ ∈ _ ++ (_ ++ (runEvents wrap32 _ _).flatten)
      exact List.mem_append_right _ (List.mem_append_right _ hadd)

end RefExchange

/-- One order and its cancel: neither consumer throws. -/
theorem MatchingEngine.published_orders_indexable_churn : ∃ e evss,
    MatchingEngine.init.run (churn 1) = .ok (e, evss) ∧ PublishesIndexable evss := by
  have ha : RefExchange.AllAlong RefExchange.Admits RefExchange.init (churn 1) := by decide
  have hf : RefExchange.AllAlong RefExchange.StepFits RefExchange.init (churn 1) := by decide
  obtain ⟨e, hrun, -⟩ := engine_run_sim engineSim_init (fun _ => RefBook.inv_init) ha hf
  refine ⟨e, _, hrun, ((published_orders_indexable_iff hrun).2.2 ha hf).mpr
    ⟨?_, fun _ _ _ => ⟨?_, ?_⟩⟩⟩
  · exact fun _ hge => absurd hge (by decide)
  · exact fun hnew => absurd hnew (by decide)
  · exact fun _ _ _ => trivial

/-- **The order after a long run.** The client has never had more than one order in
the book, and the next is published under an id that neither table has. -/
theorem MatchingEngine.published_order_out_of_range : ∃ qs e evss,
    RefExchange.AllAlong RefExchange.Admits RefExchange.init qs ∧
    RefExchange.AllAlong RefExchange.StepFits RefExchange.init qs ∧
    MatchingEngine.init.run qs = .ok (e, evss) ∧
    ∃ u ∈ updates evss.flatten, u.type_ = .ADD ∧ ¬ u.order_id_ < ME_MAX_ORDER_IDS ∧
      (∀ (s : SnapshotSynthesizer) (n : Nat), s.addToSnapshot ⟨n, u⟩ = .error .outOfRange) ∧
      ∀ s s' : MarketOrderBook, s.onMarketUpdate u ≠ .ok s' := by
  obtain ⟨hadmits, hfits, hadd⟩ := RefExchange.run_churn (k := 1) (R := RefExchange.init)
    (ME_MAX_ORDER_IDS - 1) rfl (by decide)
  obtain ⟨e, hrun, _⟩ := engine_run_sim engineSim_init (fun _ => RefBook.inv_init) hadmits hfits
  have hid : ¬ 1 + (ME_MAX_ORDER_IDS - 1) < ME_MAX_ORDER_IDS := by omega
  refine ⟨_, e, _, hadmits, hfits, hrun, _, mem_updates.mpr hadd, rfl, hid, ?_, ?_⟩
  · intro s n
    have hget : s.getOrder 0 (1 + (ME_MAX_ORDER_IDS - 1)) = .error .outOfRange := by
      unfold SnapshotSynthesizer.getOrder
      rw [if_neg fun h => hid h.2]
    simp only [SnapshotSynthesizer.addToSnapshot, SnapshotSynthesizer.onUpdate, hget]
    rfl
  · intro s s' h
    obtain ⟨l, hl, _⟩ := exec_bind_ok h
    have hin := Ladder.allocateOrder_inRange hl
    exact hid (of_decide_eq_true hin)

end LowLatency
