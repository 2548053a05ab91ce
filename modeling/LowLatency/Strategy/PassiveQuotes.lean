import LowLatency.MarketData.Mirror
import LowLatency.Session.Trading
import LowLatency.Strategy.BestPrices
import LowLatency.Strategy.Requests

/-!
# The quotes of a `MAKER` are passive

`MarketMaker::onOrderBookUpdate` bids at most the best bid and asks at least the
best ask. If the book it looks at is the book of the exchange, its orders come to
rest there without trading (**`maker_quotes_rest`**). This includes the bid that is
one less than the lowest `Price`: it would be `Price_INVALID`, and is not sent.

Two things come together here. A trade engine that has read all updates of the
requests so far has their books and their best prices (`CachesSim.run`), and the
exchange gets next what this engine sends on the last of them. If a request of
somebody else comes first, the prices may have moved, and then the orders can trade.
-/

namespace LowLatency

open Lib (Better)

/-! ## Orders that cannot match -/

/-- Bids up to `bid`, asks from `ask` on. -/
structure Spread (bid ask : Int) (r : RefBook) : Prop where
  bids : ∀ o ∈ r.book true, o.price_ ≤ bid
  asks : ∀ o ∈ r.book false, ask ≤ o.price_

/-- A request that stays on its side of the spread. -/
def Passive (bid ask : Int) (q : MEClientRequest) : Prop :=
  q.type_ = .NEW → (q.side_ = .BUY ∧ q.price_ ≤ bid) ∨ (q.side_ = .SELL ∧ ask ≤ q.price_)

/-- Nothing was traded. -/
structure NoTrade (evs : List Event) : Prop where
  responses : ∀ r ∈ responses evs, r.type_ ≠ .FILLED
  updates : ∀ u ∈ updates evs, u.type_ ≠ .TRADE

section Reference

variable {bid ask : Int} {r : RefBook} {q : MEClientRequest}

/-- Where the best price is too bad, nothing matches. -/
theorem sweep_of_better {b : Bool} {a : Aggressor} {l : List (OrderData MEOrderId)}
    (h : ∀ o ∈ l, Better b a.price_ o.price_) (leaves : Nat) :
    sweep b a leaves l = ⟨leaves, l, []⟩ := by
  cases l with
  | nil => rfl
  | cons o os => rw [sweep, if_pos (.inr (h o (List.mem_cons_self ..)))]

theorem Spread.swept (h : Spread bid ask r) (hlt : bid < ask) (hp : Passive bid ask q)
    (ht : q.type_ = .NEW) (fillId : Nat → Nat) :
    r.swept fillId q = ⟨q.qty_, r.book (!Ladder.isBid q.side_), []⟩ := by
  refine sweep_of_better (fun o ho => ?_) q.qty_
  show Better _ q.price_ o.price_
  rcases hp ht with ⟨hside, hprice⟩ | ⟨hside, hprice⟩
  · rw [hside] at ho ⊢
    have hask : ask ≤ o.price_ := h.asks o ho
    show q.price_ < o.price_
    omega
  · rw [hside] at ho ⊢
    have hbid : o.price_ ≤ bid := h.bids o ho
    show o.price_ < q.price_
    omega

/-- **A passive request** leaves the spread as wide. -/
theorem Spread.step (h : Spread bid ask r) (hp : Passive bid ask q) :
    Spread bid ask (r.step q) := by
  have hmem : ∀ b, ∀ o ∈ (r.step q).book b,
      (q.type_ = .NEW ∧ b = Ladder.isBid q.side_ ∧ o.price_ = q.price_) ∨
        ∃ o' ∈ r.book b, o'.price_ = o.price_ := by
    intro b o ho
    rcases mem_step ho with ⟨ht, hb, rfl⟩ | ⟨o', ho', he⟩
    · exact .inl ⟨ht, hb, rfl⟩
    · exact .inr ⟨o', ho', RefBook.strip_price he⟩
  refine ⟨fun o ho => ?_, fun o ho => ?_⟩
  · rcases hmem true o ho with ⟨ht, hb, he⟩ | ⟨o', ho', he⟩
    · rcases hp ht with ⟨-, hprice⟩ | ⟨hside, -⟩
      · rwa [he]
      · rw [hside] at hb
        exact absurd hb (by decide)
    · rw [← he]
      exact h.bids o' ho'
  · rcases hmem false o ho with ⟨ht, hb, he⟩ | ⟨o', ho', he⟩
    · rcases hp ht with ⟨hside, -⟩ | ⟨-, hprice⟩
      · rw [hside] at hb
        exact absurd hb (by decide)
      · rwa [he]
    · rw [← he]
      exact h.asks o' ho'

/-- A cancel trades nothing. -/
theorem noTrade_of_not_new (ht : q.type_ ≠ .NEW) (fillId : Nat → Nat) :
    NoTrade (r.stepEvents fillId q) := by
  unfold RefBook.stepEvents
  split
  next hn => exact absurd hn ht
  next =>
    unfold RefBook.cancelEvents
    split
    · exact ⟨by simp [rejectedEvent], by simp [rejectedEvent]⟩
    · exact ⟨by simp [canceledEvents], by simp [canceledEvents]⟩
  next => exact ⟨by simp, by simp⟩

/-- **A passive order** trades nothing. -/
theorem Spread.noTrade (h : Spread bid ask r) (hlt : bid < ask) (hp : Passive bid ask q)
    (ht : q.type_ = .NEW) (fillId : Nat → Nat) : NoTrade (r.stepEvents fillId q) := by
  have hstep : r.stepEvents fillId q = r.addEvents fillId q := by
    unfold RefBook.stepEvents
    rw [ht]
  rw [hstep]
  unfold RefBook.addEvents
  rw [h.swept hlt hp ht, h.swept hlt hp ht]
  unfold acceptedEvent addedEvent
  dsimp only
  split
  · exact ⟨by simp, by simp⟩
  · exact ⟨by simp, by simp⟩

end Reference

/-- **Passive requests in a row**, the new orders among which are for ticker `t`. -/
theorem Spread.runEvents {bid ask : Int} {t : Nat} {R : RefExchange} (h : Spread bid ask (R t))
    (hlt : bid < ask) {qs : List MEClientRequest}
    (hqs : ∀ q ∈ qs, Passive bid ask q ∧ (q.type_ = .NEW → q.ticker_id_ = t))
    (fillId : Nat → Nat) : ∀ evs ∈ R.runEvents fillId qs, NoTrade evs := by
  induction qs generalizing R with
  | nil => exact fun evs hevs => absurd hevs List.not_mem_nil
  | cons q qs ih =>
    obtain ⟨hp, hticker⟩ := hqs q (List.mem_cons_self ..)
    intro evs hevs
    rcases List.mem_cons.mp hevs with rfl | hevs
    · by_cases ht : q.type_ = .NEW
      · have hq := hticker ht
        subst hq
        exact h.noTrade hlt hp ht fillId
      · exact noTrade_of_not_new ht fillId
    · refine ih ?_ (fun q' hq' => hqs q' (List.mem_cons_of_mem _ hq')) evs hevs
      by_cases ht : t = q.ticker_id_
      · subst ht
        rw [RefExchange.step_self]
        exact h.step hp
      · rw [RefExchange.step_other ht]
        exact h

/-! ## Prices and quantities of their types -/

/-- Matching leaves no quantity that was not smaller before. -/
theorem sweep_qty {b : Bool} {a : Aggressor} {N : Nat} {l : List (OrderData MEOrderId)}
    (hl : ∀ o ∈ l, o.qty_ < N) {leaves : Nat} (hleaves : leaves < N) :
    (sweep b a leaves l).leaves < N ∧ (∀ o ∈ (sweep b a leaves l).queue, o.qty_ < N) ∧
      ∀ u ∈ updates (sweep b a leaves l).events, u.qty_ < N := by
  induction l generalizing leaves with
  | nil => exact ⟨hleaves, hl, by simp [sweep]⟩
  | cons o os ih =>
    have ho := hl o (List.mem_cons_self ..)
    have hos : ∀ o ∈ os, o.qty_ < N := fun o' ho' => hl o' (List.mem_cons_of_mem _ ho')
    simp only [sweep]
    split
    · exact ⟨hleaves, hl, by simp⟩
    · split
      · obtain ⟨h₁, h₂, h₃⟩ := @ih hos (leaves - min leaves o.qty_) (by omega)
        refine ⟨h₁, h₂, fun u hu => ?_⟩
        simp only [fillEvents, exhaustedEvent, updates_response, updates_update, List.cons_append,
          List.nil_append, List.mem_cons] at hu
        rcases hu with rfl | rfl | hu
        · show min leaves o.qty_ < N
          omega
        · exact ho
        · exact h₃ u hu
      · refine ⟨by show leaves - _ < N; omega, fun o' ho' => ?_, fun u hu => ?_⟩
        · rcases List.mem_cons.mp ho' with rfl | ho'
          · show o.qty_ - _ < N
            omega
          · exact hos o' ho'
        · simp only [fillEvents, modifiedEvent, updates_response, updates_update, updates_nil,
            List.cons_append, List.nil_append, List.mem_cons, List.not_mem_nil, or_false] at hu
          rcases hu with rfl | rfl
          · show min leaves o.qty_ < N
            omega
          · show o.qty_ - _ < N
            omega

/-- The orders hold a `Price` and a `Qty`. -/
def RefBook.Typed (r : RefBook) : Prop := ∀ b, ∀ o ∈ r.book b, PriceFits o.price_ ∧ o.qty_ < 2 ^ 32

section Typed

variable {r : RefBook} {q : MEClientRequest}

theorem RefBook.Typed.swept (h : r.Typed) (hq : q.Fits) (fillId : Nat → Nat) :
    (r.swept fillId q).leaves < 2 ^ 32 ∧ (∀ o ∈ (r.swept fillId q).queue, o.qty_ < 2 ^ 32) ∧
      ∀ u ∈ updates (r.swept fillId q).events, u.qty_ < 2 ^ 32 :=
  sweep_qty (fun o ho => (h _ o ho).2) hq.qty

theorem RefBook.Typed.step (h : r.Typed) (hq : q.Fits) : (r.step q).Typed := by
  intro b o ho
  constructor
  · rcases mem_step ho with ⟨-, -, rfl⟩ | ⟨o', ho', he⟩
    · exact hq.price
    · rw [← RefBook.strip_price he]
      exact (h b o' ho').1
  · have hmatched : ∀ o ∈ r.matched q b, o.qty_ < 2 ^ 32 := by
      intro o ho
      by_cases hb : b = !Ladder.isBid q.side_
      · subst hb
        rw [matched_opposite (f := id)] at ho
        exact (h.swept hq id).2.1 o ho
      · rw [mem_matched_own hb] at ho
        exact (h b o ho).2
    unfold RefBook.step at ho
    split at ho
    · unfold RefBook.add at ho
      dsimp only at ho
      split at ho
      · exact hmatched o ho
      · rcases Book.mem_rest.mp ho with ⟨-, rfl⟩ | ho
        · exact (h.swept hq id).1
        · exact hmatched o ho
    · exact (h b o (List.mem_of_mem_filter ho)).2
    · exact (h b o ho).2

theorem RefBook.Typed.updates (h : r.Typed) (hq : q.Fits) (fillId : Nat → Nat) :
    ∀ u ∈ LowLatency.updates (r.stepEvents fillId q), u.qty_ < 2 ^ 32 := by
  intro u hu
  unfold RefBook.stepEvents at hu
  split at hu
  · simp only [RefBook.addEvents, acceptedEvent, updates_response, updates_append,
      List.mem_append] at hu
    rcases hu with hu | hu
    · exact (h.swept hq fillId).2.2 u hu
    · split at hu
      · exact absurd hu (by simp)
      · simp only [addedEvent, updates_update, updates_nil, List.mem_singleton] at hu
        rw [hu]
        exact (h.swept hq id).1
  · unfold RefBook.cancelEvents at hu
    split at hu
    · exact absurd hu (by simp [rejectedEvent])
    · simp only [canceledEvents, updates_update, updates_response, updates_nil,
        List.mem_singleton] at hu
      rw [hu]
      show 0 < 2 ^ 32
      decide
  · exact absurd hu (by simp)

end Typed

/-- **Books and updates of a run** hold values of their types. -/
theorem RefExchange.typed_run {R : RefExchange} (h : ∀ t, (R t).Typed) {qs : List MEClientRequest}
    (hqs : ∀ q ∈ qs, q.Fits) (fillId : Nat → Nat) : (∀ t, (R.run qs t).Typed) ∧
      ∀ u ∈ updates (R.runEvents fillId qs).flatten, u.qty_ < 2 ^ 32 := by
  induction qs generalizing R with
  | nil => exact ⟨h, by simp [RefExchange.runEvents]⟩
  | cons q qs ih =>
    have hq := hqs q (List.mem_cons_self ..)
    obtain ⟨h₁, h₂⟩ := ih (RefExchange.step_forall h ((h _).step hq))
      fun q' hq' => hqs q' (List.mem_cons_of_mem _ hq')
    refine ⟨h₁, fun u hu => ?_⟩
    rw [RefExchange.runEvents, List.flatten_cons, updates_append] at hu
    rcases List.mem_append.mp hu with hu | hu
    · exact (h _).updates hq fillId u hu
    · exact h₂ u hu

/-! ## What the trade engine has read -/

/-- The books hold what the feeds say, and the best prices are those of the books. -/
def CachesSim (m : MarketOrderBookHashMap) (F : Feeds) : Prop :=
  ∀ t, ∃ G, Cached (m t) G ∧ bookOf G = F t

theorem cachesSim_init : CachesSim MarketOrderBookHashMap.init fun _ => Book.empty :=
  fun _ => ⟨_, Cached.init, rfl⟩

theorem CachesSim.step {m m' : MarketOrderBookHashMap} {F : Feeds} (h : CachesSim m F)
    {u : MEMarketUpdate} (hq : u.qty_ < 2 ^ 32)
    (hu : UpdateOk (room F u.ticker_id_) (F u.ticker_id_) u)
    (hrun : m.processMarketUpdate u = .ok m') : CachesSim m' (applyTo F u) := by
  obtain ⟨_, _, hrun⟩ := exec_bind_ok hrun
  obtain ⟨s, hs, hrun⟩ := exec_bind_ok hrun
  obtain rfl := Except.ok.inj hrun
  intro t
  unfold applyTo
  by_cases ht : t = u.ticker_id_
  · subst ht
    obtain ⟨G, hG, hb⟩ := h u.ticker_id_
    rw [← hb] at hu
    obtain ⟨G', hG', hb'⟩ := hG.step hq hu.expected hs
    rw [Function.update_self, Function.update_self]
    exact ⟨G', hG', by rw [hb', hb]⟩
  · rw [Function.update_of_ne ht, Function.update_of_ne ht]
    exact h t

theorem CachesSim.run {m m' : MarketOrderBookHashMap} {F : Feeds} (h : CachesSim m F)
    {us : List MEMarketUpdate} (hq : ∀ u ∈ us, u.qty_ < 2 ^ 32) (hus : FeedsOk F us)
    (hrun : m.processMarketUpdates us = .ok m') : CachesSim m' (us.foldl applyTo F) := by
  induction us generalizing m F with
  | nil =>
    obtain rfl := Except.ok.inj hrun
    exact h
  | cons u us ih =>
    obtain ⟨m₁, h₁, h₂⟩ := exec_bind_ok hrun
    exact ih (h.step (hq u (List.mem_cons_self ..)) hus.2.1 h₁)
      (fun v hv => hq v (List.mem_cons_of_mem _ hv)) hus.2.2 h₂

namespace StrategyEngine

variable {F : Type} [Double F] {e e' : StrategyEngine F} {os : List MEClientRequest} {t : Nat}
  {bbo : BBO} {u : MEMarketUpdate}

/-- Turns of the loops of `run`. -/
def onInputs (e : StrategyEngine F) : List Input → Exec (StrategyEngine F × List MEClientRequest)
  | [] => .ok (e, [])
  | i :: is => do
    let (e, os) ← e.onInput i
    let (e, os') ← e.onInputs is
    return (e, os ++ os')

/-- The market updates among the inputs. -/
def marketUpdates (is : List Input) : List MEMarketUpdate :=
  is.filterMap fun | .market u => some u | .response _ => none

/-- **Only market updates** go to the books. -/
theorem onInputs_books {is : List Input} (h : e.onInputs is = .ok (e', os)) :
    e.ticker_order_book_.processMarketUpdates (marketUpdates is) = .ok e'.ticker_order_book_ ∧
      e'.algo_type_ = e.algo_type_ := by
  induction is generalizing e os with
  | nil =>
    obtain ⟨rfl, rfl⟩ := Prod.mk.inj (Except.ok.inj h)
    exact ⟨rfl, rfl⟩
  | cons i is ih =>
    obtain ⟨⟨e₁, os₁⟩, h₁, h⟩ := exec_bind_ok h
    obtain ⟨⟨e₂, os₂⟩, h₂, hret⟩ := exec_bind_ok h
    obtain ⟨rfl, -⟩ := Prod.mk.inj (Except.ok.inj hret)
    obtain ⟨hbooks, halgo⟩ := ih h₂
    cases i with
    | market u =>
      obtain ⟨hu, halgo₁⟩ := processMarketUpdate_books h₁
      refine ⟨?_, halgo.trans halgo₁⟩
      show (do let m ← e.ticker_order_book_.processMarketUpdate u; m.processMarketUpdates _) = _
      rw [hu]
      exact hbooks
    | response r =>
      obtain ⟨e₃, h₃, hret⟩ := exec_bind_ok h₁
      obtain ⟨rfl, -⟩ := Prod.mk.inj (Except.ok.inj hret)
      obtain ⟨-, -, hsame, halgo₁⟩ := onOrderUpdate_books h₃
      rw [hsame] at hbooks
      exact ⟨hbooks, halgo.trans halgo₁⟩

/-! ## What the market maker sends -/

/-- A new order has the price and side it was asked for. -/
theorem moveOrder_new {m m' : OrderManager} {client_id qty : Nat} {risk : RiskInfo} {loss : Bool}
    {price : Int} {side : Side} {qs : List MEClientRequest}
    (h : m.moveOrder client_id risk loss t price side qty = (m', qs)) :
    ∀ q ∈ qs, q.type_ = .NEW →
      q.ticker_id_ = t ∧ q.side_ = side ∧ q.price_ = price ∧ price ≠ Price_INVALID := by
  intro q hq ht
  have hcancel : m.cancelOrder client_id t side = (m', qs) → q.type_ = .CANCEL := by
    intro h
    obtain ⟨-, rfl⟩ := Prod.mk.inj h
    rw [List.mem_singleton.mp hq]
  have hnone : (m, []) = (m', qs) → False := by
    intro h
    obtain ⟨-, rfl⟩ := Prod.mk.inj h
    exact absurd hq List.not_mem_nil
  have hnew : price ≠ Price_INVALID → m.newOrder client_id t price side qty = (m', qs) →
      q.ticker_id_ = t ∧ q.side_ = side ∧ q.price_ = price ∧ price ≠ Price_INVALID := by
    intro hp h
    obtain ⟨-, rfl⟩ := Prod.mk.inj h
    rw [List.mem_singleton.mp hq]
    exact ⟨rfl, rfl, rfl, hp⟩
  unfold OrderManager.moveOrder at h
  split at h
  · split at h
    · exact absurd (ht.symm.trans (hcancel h)) (by simp)
    · exact (hnone h).elim
  · split at h
    · split at h
      · exact hnew ‹_› h
      · exact (hnone h).elim
    · exact (hnone h).elim
  · split at h
    · split at h
      · exact hnew ‹_› h
      · exact (hnone h).elim
    · exact (hnone h).elim
  · exact (hnone h).elim
  · exact (hnone h).elim

/-- One less than a price is less, or no price. -/
theorem int64_pred {x y : Int} (hx : PriceFits x) (hy : y = 0 ∨ y = 1)
    (hne : int64 (x - y) ≠ Price_INVALID) : int64 (x - y) ≤ x := by
  obtain ⟨hlo, hhi⟩ := hx
  by_cases hw : -(2 ^ 63) ≤ x - y
  · have : int64 (x - y) = x - y := Int.bmod_eq_of_le (by omega) (by omega)
    omega
  · obtain rfl : y = 1 := by omega
    obtain rfl : x = -(2 ^ 63) := by omega
    exact absurd (by decide) hne

/-- One more than a price is more. -/
theorem int64_succ {x y : Int} (hx : PriceFits x) (hne : x ≠ Price_INVALID)
    (hy : y = 0 ∨ y = 1) : x ≤ int64 (x + y) := by
  obtain ⟨hlo, hhi⟩ := hx
  have hmax : Price_INVALID = 2 ^ 63 - 1 := by decide
  have : int64 (x + y) = x + y := Int.bmod_eq_of_le (by omega) (by omega)
  omega

/-- **The requests of a market maker** stay outside of the best prices. -/
theorem makerOnOrderBookUpdate_passive (h : e.makerOnOrderBookUpdate t bbo = .ok (e', os))
    (hbid : PriceFits bbo.bid_price_) (hask : PriceFits bbo.ask_price_) :
    (os = [] ∨ bbo.Valid) ∧ ∀ q ∈ os, Passive bbo.bid_price_ bbo.ask_price_ q ∧
      (q.type_ = .NEW → q.ticker_id_ = t) := by
  unfold makerOnOrderBookUpdate at h
  dsimp only at h
  split at h
  next hcond =>
    refine ⟨.inr hcond.1, ?_⟩
    obtain ⟨⟨te, reqs⟩, hmove, hret⟩ := exec_bind_ok h
    obtain ⟨-, rfl⟩ := Prod.mk.inj (Except.ok.inj hret)
    unfold TradeEngine.moveOrders at hmove
    split at hmove
    · obtain ⟨-, rfl⟩ := Prod.mk.inj (Except.ok.inj hmove)
      intro q hq
      rcases List.mem_append.mp hq with hq | hq
      · have hnew := moveOrder_new rfl q hq
        refine ⟨fun ht => .inl ?_, fun ht => (hnew ht).1⟩
        obtain ⟨-, hside, hprice, hne⟩ := hnew ht
        refine ⟨hside, ?_⟩
        rw [hprice]
        exact int64_pred hbid (by split <;> simp) hne
      · have hnew := moveOrder_new rfl q hq
        refine ⟨fun ht => .inr ?_, fun ht => (hnew ht).1⟩
        obtain ⟨-, hside, hprice, -⟩ := hnew ht
        refine ⟨hside, ?_⟩
        rw [hprice]
        exact int64_succ hask hcond.1.2 (by split <;> simp)
    · exact absurd hmove (by simp)
  · obtain ⟨-, rfl⟩ := Prod.mk.inj (Except.ok.inj h)
    exact ⟨.inl rfl, fun q hq => absurd hq List.not_mem_nil⟩

/-- The same, from the update on. -/
theorem processMarketUpdate_passive (h : e.processMarketUpdate u = .ok (e', os))
    (halgo : e.algo_type_ = .MAKER) (hbbo : bbo = (e'.ticker_order_book_ u.ticker_id_).bbo_)
    (hbid : PriceFits bbo.bid_price_) (hask : PriceFits bbo.ask_price_) :
    (os = [] ∨ bbo.Valid) ∧ ∀ q ∈ os, Passive bbo.bid_price_ bbo.ask_price_ q ∧
      (q.type_ = .NEW → q.ticker_id_ = u.ticker_id_) := by
  have hbooks := (processMarketUpdate_books h).1
  obtain ⟨books, hbooks', h⟩ := exec_bind_ok h
  obtain rfl := Except.ok.inj (hbooks'.symm.trans hbooks)
  dsimp only at h
  rw [← hbbo] at h
  split at h
  · unfold onTradeUpdate algoOnTradeUpdate at h
    dsimp only at h
    rw [halgo] at h
    obtain ⟨-, rfl⟩ := Prod.mk.inj (Except.ok.inj h)
    exact ⟨.inl rfl, fun q hq => absurd hq List.not_mem_nil⟩
  · unfold onOrderBookUpdate algoOnOrderBookUpdate at h
    dsimp only at h
    rw [halgo] at h
    exact makerOnOrderBookUpdate_passive h hbid hask

/-! ## At the exchange -/

/-- The best prices of a book that is typed are prices, and bound the book. -/
theorem spread_of_cached {s : MarketOrderBook} {G : Ghost Nat} {r : RefBook} (h : Cached s G)
    (hb : bookOf G = feedOf r.book) (hinv : r.Inv) (hr : r.Typed) :
    PriceFits s.bbo_.bid_price_ ∧ PriceFits s.bbo_.ask_price_ ∧
      (s.bbo_.Valid → s.bbo_.bid_price_ < s.bbo_.ask_price_ ∧
        Spread s.bbo_.bid_price_ s.bbo_.ask_price_ r) := by
  have htop : ∀ b, (s.bbo_.on b).1 = Price_INVALID ∨ (∃ o ∈ r.book b, o.price_ = (s.bbo_.on b).1) ∧
      ∀ o ∈ r.book b, ¬ Better b o.price_ (s.bbo_.on b).1 := by
    intro b
    have hmem : ∀ o ∈ r.book b, toFeed o ∈ bookOf G b := by
      intro o ho
      rw [hb]
      exact mem_feedOf.mpr ⟨o, ho, rfl⟩
    rcases isTop_topOf h.rep b with ⟨-, htop⟩ | ⟨⟨d, hd, hp⟩, hbest, -⟩
    · rw [h.bbo b, htop]
      exact .inl rfl
    · rw [h.bbo b]
      rw [hb] at hd
      obtain ⟨o, ho, rfl⟩ := mem_feedOf.mp hd
      exact .inr ⟨⟨o, ho, hp⟩, fun o' ho' => hbest _ (hmem o' ho')⟩
  have hfits : ∀ b, PriceFits (s.bbo_.on b).1 := by
    intro b
    rcases htop b with hnone | ⟨⟨o, ho, hp⟩, -⟩
    · rw [hnone]
      exact Price_INVALID_fits
    · rw [← hp]
      exact (hr b o ho).1
  refine ⟨hfits true, hfits false, fun hvalid => ?_⟩
  obtain ⟨⟨o, ho, hp⟩, hbids⟩ := (htop true).resolve_left hvalid.1
  obtain ⟨⟨o', ho', hp'⟩, hasks⟩ := (htop false).resolve_left hvalid.2
  refine ⟨?_, fun x hx => ?_, fun x hx => ?_⟩
  · show (s.bbo_.on true).1 < (s.bbo_.on false).1
    rw [← hp, ← hp']
    exact hinv.uncrossed o ho o' ho'
  · exact not_lt.mp (hbids x hx)
  · exact not_lt.mp (hasks x hx)

/-- Every book of a run keeps the invariants of a book. -/
theorem inv_run {R : RefExchange} (h : ∀ t, (R t).Inv) {qs : List MEClientRequest}
    (ha : RefExchange.AllAlong RefExchange.Admits R qs) : ∀ t, (R.run qs t).Inv := by
  induction qs generalizing R with
  | nil => exact h
  | cons q qs ih => exact ih (RefExchange.step_forall h ((h _).step ha.1.2)) ha.2

/-- **The quotes of a market maker.** Its engine has read all updates of the
requests that the exchange has processed. If what it sends on the last of them is
processed next, nothing is traded. -/
theorem maker_quotes_rest {client_id : Nat} {ticker_cfg : Nat → TradeEngineCfg F}
    {qs : List MEClientRequest} {x : MatchingEngine} {evss : List (List Event)}
    (hx : MatchingEngine.init.run qs = .ok (x, evss)) {is : List Input}
    {sent : List MEClientRequest}
    (hrun : (init client_id .MAKER ticker_cfg).onInputs is = .ok (e, sent))
    (hlast : e.processMarketUpdate u = .ok (e', os))
    (hread : marketUpdates is ++ [u] = updates evss.flatten) (hfits : ∀ q ∈ qs, q.Fits)
    (ha : Admissible (qs ++ os)) :
    ∃ x' evss', x.run os = .ok (x', evss') ∧ ∀ evs ∈ evss', NoTrade evs := by
  have hpast := ha.of_append
  obtain ⟨htyped, hqty⟩ := RefExchange.typed_run (R := RefExchange.init)
    (fun t b o ho => absurd ho (by simp [RefExchange.init, RefBook.init, Book.empty])) hfits wrap32
  change ∀ u ∈ history qs, u.qty_ < 2 ^ 32 at hqty
  have hinv := inv_run (fun _ => RefBook.inv_init) hpast.admits
  -- the exchange processes the requests, and the new ones after them
  obtain ⟨x₁, hx₁, hsim⟩ := engine_run_sim engineSim_init (fun _ => RefBook.inv_init) hpast.admits
    hpast.fits
  obtain ⟨rfl, rfl⟩ := Prod.mk.inj (Except.ok.inj (hx.symm.trans hx₁))
  change _ = history qs at hread
  obtain ⟨x', hx', -⟩ := engine_run_sim hsim hinv ha.admits.after ha.fits.after
  refine ⟨x', _, hx', ?_⟩
  -- the books of the trade engine are those of the exchange
  obtain ⟨hbooks, halgo⟩ := onInputs_books hrun
  change MarketOrderBookHashMap.init.processMarketUpdates _ = _ at hbooks
  have hall : MarketOrderBookHashMap.init.processMarketUpdates (history qs) =
      .ok e'.ticker_order_book_ := by
    rw [← hread, processMarketUpdates_append hbooks]
    show (do let m ← e.ticker_order_book_.processMarketUpdate u; m.processMarketUpdates []) = _
    rw [(processMarketUpdate_books hlast).1]
    rfl
  have hcaches := cachesSim_init.run hqty hpast.feedsOk hall
  change CachesSim _ (feedsAfter (history qs)) at hcaches
  rw [hpast.feedsAfter_history] at hcaches
  obtain ⟨G, hG, hb⟩ := hcaches u.ticker_id_
  obtain ⟨hbid, hask, hspread⟩ := spread_of_cached hG hb (hinv _) (htyped _)
  obtain ⟨hvalid, hpassive⟩ := processMarketUpdate_passive hlast halgo rfl hbid hask
  rcases hvalid with rfl | hvalid
  · exact fun evs hevs => absurd hevs List.not_mem_nil
  · obtain ⟨hlt, hspread⟩ := hspread hvalid
    exact hspread.runEvents hlt hpassive wrap32

/-- A bid and an offer. -/
def spreadRequests : List MEClientRequest :=
  [⟨.NEW, 1, 0, 7, .BUY, 100, 5⟩, ⟨.NEW, 2, 0, 9, .SELL, 104, 5⟩]

/-- A market maker that has seen them joins both. -/
theorem maker_quotes_rest_joins : ∃ x evss x' evss',
    MatchingEngine.init.run spreadRequests = .ok (x, evss) ∧
      x.run [⟨.NEW, 3, 0, 1, .BUY, 100, 10⟩, ⟨.NEW, 3, 0, 2, .SELL, 104, 10⟩] = .ok (x', evss') ∧
      ∀ evs ∈ evss', NoTrade evs := by
  have hsent : (do
      let (e, _) ← (init 3 .MAKER fun _ => (⟨10, 1, ⟨100, 100⟩, -1000⟩ : TradeEngineCfg Rat)).onInputs
        [.market ⟨.ADD, 1, 0, .BUY, 100, 5, 1⟩]
      let (_, os) ← e.processMarketUpdate ⟨.ADD, 2, 0, .SELL, 104, 5, 1⟩
      return os) = (.ok [⟨.NEW, 3, 0, 1, .BUY, 100, 10⟩, ⟨.NEW, 3, 0, 2, .SELL, 104, 10⟩] :
        Exec (List MEClientRequest)) := by
    decide +kernel
  obtain ⟨⟨e, sent⟩, hrun, h⟩ := exec_bind_ok hsent
  obtain ⟨⟨e', os⟩, hlast, hos⟩ := exec_bind_ok h
  obtain rfl := Except.ok.inj hos
  have hfits : ∀ q ∈ spreadRequests, q.Fits := by
    intro q hq
    rcases List.mem_cons.mp hq with rfl | hq
    · exact ⟨by decide, by decide, by decide, ⟨by decide, by decide⟩, by decide⟩
    · obtain rfl := List.mem_singleton.mp hq
      exact ⟨by decide, by decide, by decide, ⟨by decide, by decide⟩, by decide⟩
  have ha : Admissible (spreadRequests ++
      [⟨.NEW, 3, 0, 1, .BUY, 100, 10⟩, ⟨.NEW, 3, 0, 2, .SELL, 104, 10⟩]) :=
    ⟨by decide, by decide, by decide, by decide⟩
  obtain ⟨x, hx, -⟩ := engine_run_sim engineSim_init (fun _ => RefBook.inv_init)
    ha.of_append.admits ha.of_append.fits
  obtain ⟨x', evss', hx', hno⟩ := maker_quotes_rest hx hrun hlast (by decide) hfits ha
  exact ⟨x, _, x', evss', hx, hx', hno⟩

end StrategyEngine

end LowLatency
