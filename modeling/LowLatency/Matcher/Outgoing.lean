import LowLatency.Common.LFQueue
import LowLatency.Matcher.Cancellable
import LowLatency.Matcher.Conservation
import LowLatency.Matcher.MatchingEngine
import LowLatency.Matcher.Sweep
import Mathlib.Data.List.TakeWhile

/-!
# The matching engine's output queues

`MatchingEngine::sendClientResponse` and `sendMarketUpdate` write every message
of a request into two `LFQueue`s, with no test for room. `MatchingEngineState`
is the engine with these queues; the consumers take one element at a time. The
messages of a call are written after it here, which the call cannot observe and
neither can a consumer that does not run meanwhile.

A new order that is filled `k` times sends `2 * k + 1` responses and at most
`2 * k + 1` updates; everything else sends one of each at most. So a request
whose messages start on empty queues is read back intact exactly when it is
filled at most `ME_MAX_FILLS` times (`request_intact_iff`), and in a book whose
orders are filed that can be told from the book: the order does not reach one
more, because of its price or because those before use it up (`Floods`).
-/

namespace LowLatency

/-! ## The messages of a request -/

/-- Each fill sends two responses and two updates. -/
theorem matchOrder_counts {s s' : MELadder} {a : Aggressor} {itr leaves leaves' : Nat}
    {evs : List Event} (h : MELadder.matchOrder s a itr leaves = .ok (leaves', s', evs)) :
    (responses evs).length = 2 ∧ (updates evs).length = 2 := by
  unfold MELadder.matchOrder at h
  dsimp only at h
  split at h
  · obtain ⟨s₁, _, h⟩ := exec_bind_ok h
    obtain ⟨_, _, rfl⟩ : _ ∧ _ ∧ _ = evs := by simpa using h
    exact ⟨rfl, rfl⟩
  · obtain ⟨_, _, rfl⟩ : _ ∧ _ ∧ _ = evs := by simpa using h
    exact ⟨rfl, rfl⟩

theorem checkForMatchLoop_counts {b : Bool} {a : Aggressor} {fuel leaves leaves' : Nat}
    {s s' : MELadder} {evs : List Event}
    (h : MELadder.checkForMatchLoop b a fuel s leaves = .ok (leaves', s', evs)) :
    (responses evs).length = 2 * (MELadder.fillsLoop b a fuel s leaves).length ∧
      (updates evs).length = 2 * (MELadder.fillsLoop b a fuel s leaves).length := by
  induction fuel generalizing s leaves leaves' s' evs with
  | zero => exact absurd h (by simp [MELadder.checkForMatchLoop])
  | succ fuel ih =>
    unfold MELadder.checkForMatchLoop at h
    unfold MELadder.fillsLoop
    by_cases hl : leaves = 0
    · obtain ⟨_, _, rfl⟩ : _ ∧ _ ∧ [] = evs := by simpa [hl] using h
      simp [hl, responses, updates]
    rw [if_neg hl] at h ⊢
    cases hbest : s.best b with
    | none =>
      obtain ⟨_, _, rfl⟩ : _ ∧ _ ∧ [] = evs := by simpa [hbest] using h
      simp [responses, updates]
    | some lv =>
      simp only [hbest] at h
      obtain ⟨itr, hitr, h⟩ := exec_bind_ok h
      cases hfirst : s.orders_at_price_pool_.firstOrder lv with
      | none => rw [hfirst] at hitr; exact absurd hitr (by simp)
      | some p =>
        obtain rfl : p = itr := by simpa [hfirst] using hitr
        dsimp only
        rw [hfirst]
        dsimp only
        by_cases hreach : MELadder.outOfReach b a.price_ (s.order_pool_.data p).price_ = true
        · rw [if_pos hreach] at h ⊢
          obtain ⟨_, _, rfl⟩ : _ ∧ _ ∧ [] = evs := by simpa using h
          simp [responses, updates]
        · rw [if_neg hreach] at h ⊢
          obtain ⟨⟨leaves₁, s₁, evs₁⟩, hrun₁, h⟩ := exec_bind_ok h
          obtain ⟨⟨leaves₂, s₂, evs₂⟩, hrun₂, h⟩ := exec_bind_ok h
          obtain ⟨_, _, rfl⟩ : _ ∧ _ ∧ evs₁ ++ evs₂ = evs := by simpa using h
          obtain ⟨hr₁, hu₁⟩ := matchOrder_counts hrun₁
          obtain ⟨hr₂, hu₂⟩ := ih hrun₂
          dsimp only at hr₂ hu₂
          simp only [hrun₁, responses_append, updates_append, List.length_append,
            List.length_cons, hr₁, hr₂, hu₁, hu₂]
          omega

theorem checkForMatch_counts {s s' : MELadder} {a : Aggressor} {qty leaves : Nat}
    {evs : List Event} (h : MELadder.checkForMatch s a qty = .ok (leaves, s', evs)) :
    (responses evs).length = 2 * (s.fills a qty).length ∧
      (updates evs).length = 2 * (s.fills a qty).length := by
  unfold MELadder.checkForMatch at h
  unfold MELadder.fills
  cases hs : a.side_ with
  | BUY => rw [hs] at h; exact checkForMatchLoop_counts h
  | SELL => rw [hs] at h; exact checkForMatchLoop_counts h
  | INVALID | MAX =>
    rw [hs] at h
    obtain ⟨_, _, rfl⟩ : _ ∧ _ ∧ [] = evs := by simpa using h
    simp [responses, updates]

/-- **The messages of a request**, counted: those of its fills, one response
more, and at most one update more. -/
theorem processClientRequest_counts {s s' : MEOrderBook} {q : MEClientRequest} {evs : List Event}
    (h : s.processClientRequest q = .ok (s', evs)) :
    (responses evs).length = 2 * (s.fills q).length + 1 ∧
      (updates evs).length ≤ 2 * (s.fills q).length + 1 := by
  unfold MEOrderBook.processClientRequest at h
  unfold MEOrderBook.fills
  cases ht : q.type_ with
  | INVALID => rw [ht] at h; exact absurd h (by simp)
  | NEW =>
    rw [ht] at h
    rw [if_pos rfl]
    obtain ⟨leaves, l, evs₁, hmatch, _, hend⟩ := MEOrderBook.add_inv h
    have hcounts := checkForMatch_counts hmatch
    rcases hend with ⟨_, _, rfl⟩ | ⟨_, o, _, _, _, _, _, rfl⟩
    · simp only [responses, updates, acceptedEvent, List.filterMap_cons, List.length_cons]
        at hcounts ⊢
      unfold MEOrderBook.aggressor
      omega
    · simp only [responses, updates, acceptedEvent, addedEvent, List.filterMap_cons,
        List.filterMap_append, List.filterMap_nil, List.length_cons, List.length_append,
        List.length_nil] at hcounts ⊢
      unfold MEOrderBook.aggressor
      omega
  | CANCEL =>
    rw [ht] at h
    rw [if_neg (by decide)]
    rcases MEOrderBook.cancel_inv h with ⟨_, rfl⟩ | ⟨_, _, _, _, rfl⟩
    · simp [responses, updates, rejectedEvent]
    · simp [responses, updates, canceledEvents]

/-! ## Fills, from the book -/

/-- How often an order with `leaves` is filled by a queue. -/
def fillCount (b : Bool) (price : Int) : Nat → List (OrderData MEOrderId) → Nat
  | _, [] => 0
  | leaves, o :: os =>
    if leaves = 0 ∨ MELadder.outOfReach b price o.price_ = true then 0
    else fillCount b price (leaves - min leaves o.qty_) os + 1

/-- More than `n` fills: the limit reaches more than `n` orders, and the first
`n` of them do not use up the quantity. -/
theorem lt_fillCount_iff {b : Bool} {price : Int} {n leaves : Nat}
    {l : List (OrderData MEOrderId)} :
    n < fillCount b price leaves l ↔
      n < (l.takeWhile fun o => !MELadder.outOfReach b price o.price_).length ∧
        ((l.take n).map OrderData.qty_).sum < leaves := by
  induction l generalizing n leaves with
  | nil => simp [fillCount]
  | cons o os ih =>
    unfold fillCount
    cases hreach : MELadder.outOfReach b price o.price_ with
    | true => simp [hreach]
    | false =>
      by_cases hl : leaves = 0
      · simp [hl]
      rw [if_neg (by simp [hl]), List.takeWhile_cons_of_pos (by simp [hreach]), List.length_cons]
      cases n with
      | zero =>
        simp only [List.take_zero, List.map_nil, List.sum_nil]
        omega
      | succ n =>
        rw [List.take_succ_cons, List.map_cons, List.sum_cons, Nat.add_lt_add_iff_right, ih,
          Nat.add_lt_add_iff_right]
        omega

/-- In a filed book the fills are counted off the queue. -/
theorem fillsLoop_length {b : Bool} {a : Aggressor} {fuel : Nat} {s : MELadder}
    {G : Ghost MEOrderId} (leaves : Nat) (h : Filed s G) (hfuel : (flat (G b)).length < fuel) :
    (MELadder.fillsLoop b a fuel s leaves).length = fillCount b a.price_ leaves (bookOf G b) := by
  induction fuel generalizing s G leaves with
  | zero => exact absurd hfuel (by simp)
  | succ fuel ih =>
    unfold MELadder.fillsLoop
    by_cases hl : leaves = 0
    · cases hB : bookOf G b <;> simp [hl, fillCount]
    rw [if_neg hl]
    rcases h.core.head_flat b with ⟨hbest, hflat⟩ | ⟨lv, p, d, os, hbest, hfirst, hdata, hflat⟩
    · simp [hbest, bookOf, hflat, fillCount]
    have hB : bookOf G b = d :: os.map Prod.snd := by rw [bookOf, hflat]; rfl
    rw [hB]
    unfold fillCount
    simp only [hbest, hfirst, hdata]
    cases hreach : MELadder.outOfReach b a.price_ d.price_ with
    | true => simp
    | false =>
      obtain ⟨s₁, evs₁, G₁, hrun₁, hf₁, _, hnext⟩ := filed_matchRule.matchOrder h hflat a leaves
      rw [hflat, List.length_cons] at hfuel
      simp only [hl, Bool.false_eq_true, or_self, if_false, hrun₁, List.length_cons]
      congr 1
      rcases hnext with hdone | ⟨hflat₁, _⟩
      · rw [hdone]
        cases fuel <;> cases os <;> simp [MELadder.fillsLoop, fillCount]
      · rw [ih (leaves - min leaves d.qty_) hf₁ (by rw [hflat₁]; omega), bookOf, hflat₁]

/-- The most fills whose messages the queues hold. -/
def ME_MAX_FILLS : Nat := (ME_MAX_CLIENT_UPDATES - 1) / 2

/-- A new order that is filled more than `ME_MAX_FILLS` times: its limit reaches
more orders than that, and the first so many do not use up its quantity. -/
def MEOrderBook.Floods (s : MEOrderBook) (q : MEClientRequest) : Prop :=
  let bid := !Ladder.isBid q.side_
  let reached := (restingOrders s bid).takeWhile fun o => !MELadder.outOfReach bid q.price_ o.price_
  q.type_ = .NEW ∧ (q.side_ = .BUY ∨ q.side_ = .SELL) ∧ ME_MAX_FILLS < reached.length ∧
    (((restingOrders s bid).take ME_MAX_FILLS).map OrderData.qty_).sum < q.qty_

instance (s : MEOrderBook) (q : MEClientRequest) : Decidable (s.Floods q) :=
  inferInstanceAs (Decidable (_ ∧ _))

theorem fills_le_iff {s : MEOrderBook} {G : Ghost MEOrderId} (h : Filed s.ladder G)
    (q : MEClientRequest) : (s.fills q).length ≤ ME_MAX_FILLS ↔ ¬ s.Floods q := by
  have hfuel : ∀ b, (flat (G b)).length < ME_MAX_ORDER_IDS + 1 := by
    intro b
    have hle := h.core.length_le b
    rw [h.ids.size, bookOf, List.length_map] at hle
    omega
  rw [← Nat.not_lt, not_iff_not]
  unfold MEOrderBook.fills MEOrderBook.Floods
  by_cases hnew : q.type_ = .NEW
  · rw [if_pos hnew]
    have hside : ∀ b, q.side_ = sideOf (!b) →
        (ME_MAX_FILLS < (MELadder.fillsLoop b (s.aggressor q) (ME_MAX_ORDER_IDS + 1) s.ladder
          q.qty_).length ↔ _) := fun b _ => by
      rw [fillsLoop_length q.qty_ h (hfuel b), lt_fillCount_iff, ← h.core.restingOrders b]
    have hagg : (s.aggressor q).side_ = q.side_ := rfl
    unfold MELadder.fills
    rw [hagg]
    cases hs : q.side_ with
    | INVALID => simp
    | MAX => simp
    | BUY =>
      rw [hside false hs]
      simp [hnew, Ladder.isBid, MEOrderBook.aggressor]
    | SELL =>
      rw [hside true hs]
      simp [hnew, Ladder.isBid, MEOrderBook.aggressor]
  · simp [hnew]

/-! ## The engine and its queues -/

structure MatchingEngineState where
  ticker_order_book_ : MatchingEngine
  outgoing_ogw_responses_ : LFQueue MEClientResponse
  outgoing_md_updates_ : LFQueue MEMarketUpdate

namespace MatchingEngineState

def init : MatchingEngineState where
  ticker_order_book_ := MatchingEngine.init
  outgoing_ogw_responses_ := LFQueue.init ME_MAX_CLIENT_UPDATES {}
  outgoing_md_updates_ := LFQueue.init ME_MAX_MARKET_UPDATES {}

def sendClientResponse (s : MatchingEngineState) (r : MEClientResponse) : MatchingEngineState :=
  { s with outgoing_ogw_responses_ := s.outgoing_ogw_responses_.send r }

def sendMarketUpdate (s : MatchingEngineState) (u : MEMarketUpdate) : MatchingEngineState :=
  { s with outgoing_md_updates_ := s.outgoing_md_updates_.send u }

def send (s : MatchingEngineState) : Event → MatchingEngineState
  | .response r => s.sendClientResponse r
  | .update u => s.sendMarketUpdate u

/-- The call, and its messages on their way. -/
def processClientRequest (s : MatchingEngineState) (q : MEClientRequest) :
    Exec (MatchingEngineState × List Event) := do
  let (e, evs) ← s.ticker_order_book_.processClientRequest q
  return (evs.foldl send { s with ticker_order_book_ := e }, evs)

/-- The states of an engine whose requests are of the kind `P` where they
arrive, while the order server and the publisher read what they are sent. -/
inductive Reachable (P : MatchingEngine → MEClientRequest → Prop) : MatchingEngineState → Prop
  | init : Reachable P init
  | request {s s' : MatchingEngineState} {q : MEClientRequest} {evs : List Event} :
      Reachable P s → P s.ticker_order_book_ q → s.processClientRequest q = .ok (s', evs) →
      Reachable P s'
  | readResponse {s : MatchingEngineState} {r : LFQueue MEClientResponse} :
      Reachable P s → s.outgoing_ogw_responses_.size ≠ 0 →
      s.outgoing_ogw_responses_.updateReadIndex = .ok r →
      Reachable P { s with outgoing_ogw_responses_ := r }
  | readUpdate {s : MatchingEngineState} {u : LFQueue MEMarketUpdate} :
      Reachable P s → s.outgoing_md_updates_.size ≠ 0 →
      s.outgoing_md_updates_.updateReadIndex = .ok u →
      Reachable P { s with outgoing_md_updates_ := u }

/-- Both consumers have read everything. -/
def Drained (s : MatchingEngineState) : Prop :=
  s.outgoing_ogw_responses_.size = 0 ∧ s.outgoing_md_updates_.size = 0

/-- Neither queue is beyond its capacity, and the consumers read the messages. -/
def Intact (s : MatchingEngineState) (evs : List Event) : Prop :=
  s.outgoing_ogw_responses_.Intact (responses evs) ∧ s.outgoing_md_updates_.Intact (updates evs)

/-- Each queue gets its own messages. -/
theorem foldl_send (evs : List Event) (s : MatchingEngineState) :
    evs.foldl send s = { s with
      outgoing_ogw_responses_ := (responses evs).foldl LFQueue.send s.outgoing_ogw_responses_
      outgoing_md_updates_ := (updates evs).foldl LFQueue.send s.outgoing_md_updates_ } := by
  induction evs generalizing s with
  | nil => rfl
  | cons ev evs ih =>
    rw [List.foldl_cons, ih]
    cases ev <;> rfl

theorem processClientRequest_ok {s s' : MatchingEngineState} {q : MEClientRequest}
    {evs : List Event} (h : s.processClientRequest q = .ok (s', evs)) :
    q.ticker_id_ < ME_MAX_TICKERS ∧ ∃ book,
      (s.ticker_order_book_ q.ticker_id_).processClientRequest q = .ok (book, evs) ∧
      s' = ⟨Function.update s.ticker_order_book_ q.ticker_id_ book,
        (responses evs).foldl LFQueue.send s.outgoing_ogw_responses_,
        (updates evs).foldl LFQueue.send s.outgoing_md_updates_⟩ := by
  unfold processClientRequest at h
  obtain ⟨⟨e, evs'⟩, hproc, h⟩ := exec_bind_ok h
  obtain ⟨rfl, rfl⟩ : _ = s' ∧ evs' = evs := by simpa using h
  obtain ⟨hticker, book, hbook, rfl⟩ := MatchingEngine.processClientRequest_inv hproc
  exact ⟨hticker, book, hbook, foldl_send ..⟩

theorem processClientRequest_of_book {s : MatchingEngineState} {q : MEClientRequest}
    {book : MEOrderBook} {evs : List Event} (hticker : q.ticker_id_ < ME_MAX_TICKERS)
    (h : (s.ticker_order_book_ q.ticker_id_).processClientRequest q = .ok (book, evs)) :
    s.processClientRequest q =
      .ok (⟨Function.update s.ticker_order_book_ q.ticker_id_ book,
        (responses evs).foldl LFQueue.send s.outgoing_ogw_responses_,
        (updates evs).foldl LFQueue.send s.outgoing_md_updates_⟩, evs) := by
  simp only [processClientRequest, MatchingEngine.processClientRequest, if_pos hticker, h,
    exec_ok_bind, exec_pure, foldl_send]

/-- The queues keep their capacities, and their indices fit their counts. -/
structure QueuesOk (s : MatchingEngineState) : Prop where
  responses : s.outgoing_ogw_responses_.Counted
  updates : s.outgoing_md_updates_.Counted
  responses_capacity : s.outgoing_ogw_responses_.capacity = ME_MAX_CLIENT_UPDATES
  updates_capacity : s.outgoing_md_updates_.capacity = ME_MAX_MARKET_UPDATES

theorem Reachable.queuesOk {P : MatchingEngine → MEClientRequest → Prop} {s : MatchingEngineState}
    (h : Reachable P s) : s.QueuesOk := by
  induction h with
  | init => exact ⟨.init (by decide) _, .init (by decide) _, rfl, rfl⟩
  | request _ _ hproc ih =>
    obtain ⟨_, _, _, rfl⟩ := processClientRequest_ok hproc
    exact ⟨ih.responses.sendAll _, ih.updates.sendAll _,
      (LFQueue.sendAll_counts _ _).2.trans ih.responses_capacity,
      (LFQueue.sendAll_counts _ _).2.trans ih.updates_capacity⟩
  | readResponse _ _ hread ih =>
    obtain ⟨hc, _, hcap⟩ := ih.responses.updateReadIndex hread
    exact ⟨hc, ih.updates, hcap.trans ih.responses_capacity, ih.updates_capacity⟩
  | readUpdate _ _ hread ih =>
    obtain ⟨hc, _, hcap⟩ := ih.updates.updateReadIndex hread
    exact ⟨ih.responses, hc, ih.responses_capacity, hcap.trans ih.updates_capacity⟩

/-- A request with ids in range that its book accommodates. -/
def Orderly (e : MatchingEngine) (q : MEClientRequest) : Prop :=
  q.InRange ∧ (e q.ticker_id_).Accommodates q

theorem Reachable.filed {s : MatchingEngineState} (h : Reachable Orderly s) (t : Nat) :
    ∃ G, Filed (s.ticker_order_book_ t).ladder G := by
  induction h with
  | init => exact ⟨_, Represents.init.filed⟩
  | @request s s' q evs _ hq hproc ih =>
    obtain ⟨_, book, hbook, rfl⟩ := processClientRequest_ok hproc
    by_cases ht : t = q.ticker_id_
    · subst ht
      obtain ⟨G, hf⟩ := ih
      rcases step_filed hf hq.1 hq.2 with ⟨s₁, evs₁, G₁, hrun, hf₁⟩ | herr
      · rw [hbook] at hrun
        obtain ⟨rfl, rfl⟩ : book = s₁ ∧ evs = evs₁ := by simpa using hrun
        refine ⟨G₁, ?_⟩
        show Filed (Function.update s.ticker_order_book_ q.ticker_id_ book q.ticker_id_).ladder G₁
        rw [Function.update_self]
        exact hf₁
      · rw [hbook] at herr
        exact absurd herr (by simp)
    · obtain ⟨G, hf⟩ := ih
      refine ⟨G, ?_⟩
      show Filed (Function.update s.ticker_order_book_ q.ticker_id_ book t).ladder G
      rw [Function.update_of_ne ht]
      exact hf
  | readResponse _ _ _ ih => exact ih
  | readUpdate _ _ _ ih => exact ih

theorem Reachable.mono {P Q : MatchingEngine → MEClientRequest → Prop} {s : MatchingEngineState}
    (hPQ : ∀ e q, P e q → Q e q) (h : Reachable P s) : Reachable Q s := by
  induction h with
  | init => exact .init
  | request _ hq hproc ih => exact .request ih (hPQ _ _ hq) hproc
  | readResponse _ hne hread ih => exact .readResponse ih hne hread
  | readUpdate _ hne hread ih => exact .readUpdate ih hne hread

/-- From every state the consumers can catch up. -/
theorem Reachable.drain {P : MatchingEngine → MEClientRequest → Prop} {s : MatchingEngineState}
    (h : Reachable P s) : ∃ s', Reachable P s' ∧ s'.Drained ∧
      s'.ticker_order_book_ = s.ticker_order_book_ := by
  -- one read at a time, first the responses and then the updates
  have hupdates : ∀ n s, Reachable P s → s.outgoing_ogw_responses_.size = 0 →
      s.outgoing_md_updates_.size = n → ∃ s', Reachable P s' ∧ s'.Drained ∧
        s'.ticker_order_book_ = s.ticker_order_book_ := by
    intro n
    induction n with
    | zero => exact fun s h hr hu => ⟨s, h, ⟨hr, hu⟩, rfl⟩
    | succ n ih =>
      intro s h hr hu
      obtain ⟨u, hread⟩ := LFQueue.updateReadIndex_ok (q := s.outgoing_md_updates_) (by omega)
      obtain ⟨_, hcount, _⟩ := h.queuesOk.updates.updateReadIndex hread
      unfold LFQueue.size at hu
      have h₁ := Reachable.readUpdate h (by unfold LFQueue.size; omega) hread
      obtain ⟨s', hs', hempty, hbooks⟩ := ih _ h₁ hr (by show u.num_elements_ = n; omega)
      exact ⟨s', hs', hempty, hbooks⟩
  have hresponses : ∀ n s, Reachable P s → s.outgoing_ogw_responses_.size = n →
      ∃ s', Reachable P s' ∧ s'.Drained ∧ s'.ticker_order_book_ = s.ticker_order_book_ := by
    intro n
    induction n with
    | zero => exact fun s h hr => hupdates _ s h hr rfl
    | succ n ih =>
      intro s h hr
      obtain ⟨r, hread⟩ := LFQueue.updateReadIndex_ok (q := s.outgoing_ogw_responses_) (by omega)
      obtain ⟨_, hcount, _⟩ := h.queuesOk.responses.updateReadIndex hread
      unfold LFQueue.size at hr
      have h₁ := Reachable.readResponse h (by unfold LFQueue.size; omega) hread
      obtain ⟨s', hs', hempty, hbooks⟩ := ih _ h₁ (by show r.num_elements_ = n; omega)
      exact ⟨s', hs', hempty, hbooks⟩
  exact hresponses _ s h rfl

/-- The messages of a request fit if and only if its fills do. -/
theorem Reachable.intact_iff {P : MatchingEngine → MEClientRequest → Prop}
    {s s' : MatchingEngineState} {q : MEClientRequest} {evs : List Event} (h : Reachable P s)
    (hempty : s.Drained) (hproc : s.processClientRequest q = .ok (s', evs)) :
    s'.Intact evs ↔ ((s.ticker_order_book_ q.ticker_id_).fills q).length ≤ ME_MAX_FILLS := by
  obtain ⟨_, book, hbook, rfl⟩ := processClientRequest_ok hproc
  obtain ⟨hr, hu⟩ := processClientRequest_counts hbook
  have hq := h.queuesOk
  unfold MatchingEngineState.Intact
  rw [hq.responses.intact_iff hempty.1, hq.updates.intact_iff hempty.2, hq.responses_capacity,
    hq.updates_capacity, hr]
  simp only [ME_MAX_FILLS, ME_MAX_CLIENT_UPDATES, ME_MAX_MARKET_UPDATES]
  omega

end MatchingEngineState

open MatchingEngineState (Reachable Orderly)

/-- **When one request overruns the output queues.** From every reachable state
with both queues empty, the messages of a request that returns are intact if and
only if it has at most `ME_MAX_FILLS` fills. After a run of orderly requests this
is a condition on the book it finds: it does not flood. -/
theorem request_intact_iff (s s' : MatchingEngineState) (q : MEClientRequest) (evs : List Event)
    (hs : Reachable (fun _ _ => True) s) (hempty : s.Drained)
    (hproc : s.processClientRequest q = .ok (s', evs)) :
    (s'.Intact evs ↔ ((s.ticker_order_book_ q.ticker_id_).fills q).length ≤ ME_MAX_FILLS) ∧
    (Reachable Orderly s →
      (s'.Intact evs ↔ ¬ (s.ticker_order_book_ q.ticker_id_).Floods q)) := by
  have hfills := hs.intact_iff hempty hproc
  refine ⟨hfills, fun ho => ?_⟩
  obtain ⟨G, hf⟩ := ho.filed q.ticker_id_
  rw [hfills, fills_le_iff hf]

/-- An order against one that rests. -/
theorem request_intact_iff_small : ∃ s s' evs, Reachable Orderly s ∧ s.Drained ∧
    s.processClientRequest ⟨.NEW, 2, 0, 9, .BUY, 101, 4⟩ = .ok (s', evs) ∧ s'.Intact evs := by
  obtain ⟨s, hs, hempty, hroom, s', evs, hproc⟩ : ∃ s, Reachable Orderly s ∧ s.Drained ∧
      ¬ (s.ticker_order_book_ 0).Floods ⟨.NEW, 2, 0, 9, .BUY, 101, 4⟩ ∧
      ∃ s' evs, s.processClientRequest ⟨.NEW, 2, 0, 9, .BUY, 101, 4⟩ = .ok (s', evs) :=
    ⟨_, ((Reachable.request .init ⟨by decide, by decide⟩ (rfl :
        MatchingEngineState.init.processClientRequest ⟨.NEW, 1, 0, 7, .SELL, 100, 10⟩ = _)
      ).readResponse (by decide) rfl).readUpdate (by decide) rfl, ⟨rfl, rfl⟩, by decide, _, _, rfl⟩
  have hiff := request_intact_iff s s' _ evs (hs.mono fun _ _ _ => trivial) hempty hproc
  exact ⟨s, s', evs, hs, hempty, hproc, (hiff.2 hs).mpr hroom⟩

/-! ## A sweep that does not fit -/

/-- The `i`-th of many small offers of one client at one price. -/
def smallOffer (i : Nat) : MEClientRequest := ⟨.NEW, 1, 0, i, .SELL, 100, 1⟩

/-- A book with `n` of them and nothing else. -/
structure Stacked (n : Nat) (r : RefBook) : Prop where
  bids : r.book true = []
  count : (r.book false).length = n
  each : ∀ o ∈ r.book false, o.price_ = 100 ∧ o.qty_ = 1 ∧ o.id_.client_id_ = 1 ∧
    o.id_.client_order_id_ < n

theorem Stacked.mem {n : Nat} {r : RefBook} (h : Stacked n r) {b : Bool} {o : OrderData MEOrderId}
    (ho : o ∈ r.book b) : o.price_ = 100 ∧ o.qty_ = 1 ∧ o.id_.client_id_ = 1 ∧
      o.id_.client_order_id_ < n := by
  cases b with
  | true => rw [h.bids] at ho; exact absurd ho (by simp)
  | false => exact h.each o ho

/-- With no bids an offer is not matched. -/
theorem Stacked.matched {n : Nat} {r : RefBook} (h : Stacked n r) :
    (r.swept id (smallOffer n)).leaves = 1 ∧ r.matched (smallOffer n) = r.book := by
  have hside : (!Ladder.isBid (smallOffer n).side_) = true := rfl
  have hswept : r.swept id (smallOffer n) = ⟨1, [], []⟩ := by
    unfold RefBook.swept
    rw [hside, h.bids]
    rfl
  refine ⟨by rw [hswept], ?_⟩
  unfold RefBook.matched
  rw [hswept, hside, ← h.bids, Function.update_eq_self]

theorem Stacked.admits {n : Nat} {r : RefBook} (h : Stacked n r) (hn : n < ME_MAX_ORDER_IDS) :
    r.Admits (smallOffer n) where
  client := by show 1 < ME_MAX_NUM_CLIENTS; decide
  order := hn
  type := by show ClientRequestType.NEW ≠ .INVALID; decide
  side := fun _ => Or.inr rfl
  fresh := by
    rintro _ ⟨b, o, ho, hidx⟩
    have hlt := (h.mem ho).2.2.2
    have hid : o.id_.client_order_id_ = n := congrArg Prod.snd hidx
    omega
  price := by
    intro _ _ b o ho _
    rw [h.matched.2] at ho
    exact (h.mem ho).1

theorem Stacked.step {n : Nat} {r : RefBook} (h : Stacked n r) :
    Stacked (n + 1) (r.step (smallOffer n)) ∧ (r.step (smallOffer n)).book.live = n + 1 := by
  have hbook : (r.step (smallOffer n)).book = r.book.rest (r.resting (smallOffer n)) := by
    show (if (r.swept id (smallOffer n)).leaves = 0 then _ else _) = _
    rw [h.matched.1, h.matched.2]
    rfl
  have hlive : (r.step (smallOffer n)).book.live = n + 1 := by
    rw [hbook, Book.live_rest, Book.live, h.bids, h.count, List.length_nil, Nat.zero_add]
  have hbids : (r.step (smallOffer n)).book true = [] := by
    rw [hbook]
    refine List.eq_nil_iff_forall_not_mem.mpr fun o ho => ?_
    rcases Book.mem_rest.mp ho with ⟨hb, _⟩ | ho
    · exact absurd (show true = false from hb) (by decide)
    · rw [h.bids] at ho
      exact absurd ho (by simp)
  refine ⟨⟨hbids, ?_, ?_⟩, hlive⟩
  · rw [Book.live, hbids, List.length_nil, Nat.zero_add] at hlive
    exact hlive
  · intro o ho
    rw [hbook] at ho
    rcases Book.mem_rest.mp ho with ⟨_, rfl⟩ | ho
    · exact ⟨rfl, h.matched.1, rfl, Nat.lt_succ_self n⟩
    · obtain ⟨hp, hq, hc, hlt⟩ := h.mem ho
      exact ⟨hp, hq, hc, by omega⟩

theorem Stacked.fits {n : Nat} {r : RefBook} (h : Stacked n r) (hn : n < ME_MAX_ORDER_IDS) :
    r.Fits := by
  have hlive : r.book.live = n := by
    rw [Book.live, h.bids, h.count, List.length_nil, Nat.zero_add]
  have hlevels : r.book.levels ≤ 1 := by
    -- no more than in a book with one order
    let B : Book MEOrderId := fun b => if b then [] else [r.resting (smallOffer 0)]
    have hprices : ∀ b, ∀ o ∈ r.book b, ∃ o' ∈ B b, o'.price_ = o.price_ := by
      intro b o ho
      cases b with
      | true => rw [h.bids] at ho; exact absurd ho (by simp)
      | false => exact ⟨_, List.mem_singleton_self _, (h.each o ho).1.symm⟩
    exact Book.levels_mono hprices
  constructor
  · rw [hlive]
    omega
  · exact hlevels.trans (by decide)

/-- A buyer of everything leaves nothing. -/
theorem sweep_stacked {a : Aggressor} (ha : a.price_ = 100) {l : List (OrderData MEOrderId)}
    {leaves : Nat} (hl : ∀ o ∈ l, o.price_ = 100 ∧ o.qty_ = 1) (hlen : l.length ≤ leaves) :
    (sweep false a leaves l).leaves = leaves - l.length ∧ (sweep false a leaves l).queue = [] := by
  induction l generalizing leaves with
  | nil => exact ⟨rfl, rfl⟩
  | cons o os ih =>
    rw [List.length_cons] at hlen
    obtain ⟨hp, hq⟩ := hl o (by simp)
    have hgo : ¬ (leaves = 0 ∨ Lib.Better false a.price_ o.price_) := by
      rw [ha, hp]
      simp [Lib.Better]
      omega
    have hfill : min leaves 1 = 1 := by omega
    have hlen' : os.length ≤ leaves - 1 := by omega
    obtain ⟨h₁, h₂⟩ := ih (fun o' ho' => hl o' (List.mem_cons_of_mem _ ho')) hlen'
    simp only [sweep, if_neg hgo, hfill, hq, Nat.sub_self, if_true, h₁, h₂, List.length_cons]
    exact ⟨by omega, trivial⟩

/-- The buyer. -/
def bigBid (n : Nat) : MEClientRequest := ⟨.NEW, 2, 0, 0, .BUY, 100, n⟩

theorem Stacked.bigBid_matched {n : Nat} {r : RefBook} (h : Stacked n r) :
    (r.swept id (bigBid n)).leaves = 0 ∧ ∀ b, r.matched (bigBid n) b = [] := by
  have hside : (!Ladder.isBid (bigBid n).side_) = false := rfl
  obtain ⟨hleaves, hqueue⟩ := sweep_stacked (a := r.aggressor id (bigBid n)) rfl
    (fun o ho => ⟨(h.each o ho).1, (h.each o ho).2.1⟩) h.count.le
  constructor
  · show (sweep false _ n (r.book false)).leaves = 0
    rw [hleaves, h.count, Nat.sub_self]
  · intro b
    unfold RefBook.matched
    rw [hside]
    cases b with
    | true => rw [Function.update_of_ne (by decide), h.bids]
    | false => rw [Function.update_self]; exact hqueue

theorem Stacked.bigBid_admits {n : Nat} {r : RefBook} (h : Stacked n r) : r.Admits (bigBid n) where
  client := by show 2 < ME_MAX_NUM_CLIENTS; decide
  order := by show 0 < ME_MAX_ORDER_IDS; decide
  type := by show ClientRequestType.NEW ≠ .INVALID; decide
  side := fun _ => Or.inl rfl
  fresh := by
    rintro _ ⟨b, o, ho, hidx⟩
    have hid : o.id_.client_id_ = 2 := congrArg Prod.fst hidx
    have := (h.mem ho).2.2.1
    omega
  price := fun _ hl => absurd h.bigBid_matched.1 hl

theorem Stacked.bigBid_fits {n : Nat} {r : RefBook} (h : Stacked n r) :
    (r.step (bigBid n)).Fits := by
  have hbook : ∀ b, (r.step (bigBid n)).book b = [] := by
    intro b
    show (if (r.swept id (bigBid n)).leaves = 0 then r.matched (bigBid n) else _) b = []
    rw [if_pos h.bigBid_matched.1]
    exact h.bigBid_matched.2 b
  unfold RefBook.Fits Book.live Book.levels
  rw [hbook true, hbook false]
  decide

/-- The offers arrive one by one, and the consumers keep up. -/
theorem stacked_reachable {n : Nat} (hn : n < ME_MAX_ORDER_IDS) :
    ∃ s r, Reachable (fun _ _ => True) s ∧ s.Drained ∧ Sim (s.ticker_order_book_ 0) r ∧ r.Inv ∧
      Stacked n r := by
  induction n with
  | zero => exact ⟨_, _, .init, ⟨rfl, rfl⟩, sim_init, RefBook.inv_init, rfl, rfl, by
      intro o ho
      exact absurd ho (by simp [RefBook.init, Book.empty])⟩
  | succ n ih =>
    obtain ⟨s, r, hs, hempty, hsim, hinv, hst⟩ := ih (by omega)
    have hadm := hst.admits (by omega)
    rcases step_sim hsim hinv hadm with ⟨book, hproc, hsim'⟩ | ⟨_, hfull⟩
    · have hrun := MatchingEngineState.processClientRequest_of_book (s := s) (q := smallOffer n)
        (show 0 < ME_MAX_TICKERS by decide) hproc
      have hs₁ := Reachable.request hs trivial hrun
      obtain ⟨s', hs', hempty', hbooks⟩ := hs₁.drain
      refine ⟨s', _, hs', hempty', ?_, hinv.step hadm, hst.step.1⟩
      rw [hbooks]
      show Sim (Function.update s.ticker_order_book_ 0 book 0) _
      rw [Function.update_self]
      exact hsim'
    · exact absurd (hst.step.1.fits hn) hfull

/-- 131072 offers of one lot rest at one price, and both queues have been read.
One bid takes them all: it sends 262145 responses into a queue of 262144. -/
theorem request_overruns : ∃ s s' evs, Reachable (fun _ _ => True) s ∧ s.Drained ∧
    s.processClientRequest (bigBid 131072) = .ok (s', evs) ∧ ¬ s'.Intact evs := by
  obtain ⟨s, r, hs, hempty, hsim, hinv, hst⟩ :=
    stacked_reachable (n := 131072) (show 131072 < 1024 * 1024 by omega)
  rcases step_sim hsim hinv hst.bigBid_admits with ⟨book, hproc, _⟩ | ⟨_, hfull⟩
  · have hrun := MatchingEngineState.processClientRequest_of_book (s := s) (q := bigBid 131072)
      (show 0 < ME_MAX_TICKERS by decide) hproc
    refine ⟨s, _, _, hs, hempty, hrun, ?_⟩
    obtain ⟨G, hr, hb, _⟩ := hsim
    rw [hs.intact_iff hempty hrun]
    show ¬ ((s.ticker_order_book_ 0).fills (bigBid 131072)).length ≤ ME_MAX_FILLS
    rw [fills_le_iff hr.filed, not_not]
    have hresting : restingOrders (s.ticker_order_book_ 0) false = r.book false := by
      rw [hr.core.restingOrders, hb]
    refine ⟨rfl, Or.inl rfl, ?_, ?_⟩
    · show ME_MAX_FILLS < ((restingOrders _ false).takeWhile _).length
      rw [hresting, List.takeWhile_eq_self_iff.mpr, hst.count]
      · decide
      · intro o ho
        rw [(hst.each o ho).1]
        rfl
    · show (((restingOrders _ false).take ME_MAX_FILLS).map OrderData.qty_).sum < 131072
      have hones : ((r.book false).take ME_MAX_FILLS).map OrderData.qty_
          = List.replicate ME_MAX_FILLS 1 := by
        refine List.eq_replicate_iff.mpr ⟨?_, ?_⟩
        · rw [List.length_map, List.length_take, hst.count]
          rfl
        · intro x hx
          obtain ⟨o, ho, rfl⟩ := List.mem_map.mp hx
          exact (hst.each o (List.mem_of_mem_take ho)).2.1
      rw [hresting, hones, List.sum_replicate_nat, Nat.mul_one]
      decide
  · exact absurd hst.bigBid_fits hfull

end LowLatency
