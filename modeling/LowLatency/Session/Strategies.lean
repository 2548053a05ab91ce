import LowLatency.MarketData.Mirror
import LowLatency.Session.Trading
import LowLatency.Strategy.Requests

/-!
# The whole system

Every client of the exchange runs a strategy. Its orders go over the session to the
matching engine (`Session.Trading`), whose updates go over the market data streams to
a trade engine (`MarketData.Mirror`), whose strategy sends the next orders. Here the
circle is closed. One client, the `reader`, gets its updates from the feed; the others
read whatever they read. Since any client can be the reader, what is proved of it holds
of all.

Each half has its own run: `trading` is one of `TradingSession`, `feed` one of
`MarketDataFeed`, and they meet at the matching engine, which processes a request in
both at once. A strategy is in the first half a call of `moveOrders`
(`processMarketUpdate_acts`), and in the second nothing but its books. So the safety of
trading does not depend on what the strategies make of the market, and the books of a
strategy do not depend on what the strategies send (**`strategies_safe`**).
-/

namespace LowLatency

/-! ## What has been passed on stays -/

namespace MarketDataConsumer

theorem checkSnapshotSync_passed {us : List MEMarketUpdate} {c : MarketDataConsumer}
    (h : us = c.incoming_md_updates_) : us <+: c.checkSnapshotSync.incoming_md_updates_ := by
  subst h
  unfold checkSnapshotSync
  split
  · split
    · exact List.prefix_refl _
    · split
      · exact List.prefix_refl _
      · split
        · exact List.prefix_refl _
        · dsimp only
          split
          · exact List.prefix_refl _
          · exact List.prefix_append ..
  · exact List.prefix_refl _

theorem queueMessage_passed (c : MarketDataConsumer) (b : Bool) (m : MDPMarketUpdate) :
    c.incoming_md_updates_ <+: (c.queueMessage b m).incoming_md_updates_ := by
  unfold queueMessage
  split <;> exact checkSnapshotSync_passed rfl

theorem recvMessage_passed (b : Bool) (c : MarketDataConsumer) (m : MDPMarketUpdate) :
    c.incoming_md_updates_ <+: (recvMessage b c m).incoming_md_updates_ := by
  unfold recvMessage
  split
  · exact c.queueMessage_passed b m
  · split
    · exact queueMessage_passed { c.startSnapshotSync with in_recovery_ := true } b m
    · split
      · exact List.prefix_refl _
      · exact List.prefix_append ..

/-- **A datagram** adds to what was passed on. -/
theorem recvCallback_passed (c : MarketDataConsumer) (b : Bool) (ms : List MDPMarketUpdate) :
    c.incoming_md_updates_ <+: (c.recvCallback b ms).incoming_md_updates_ := by
  unfold recvCallback
  split
  · exact List.prefix_refl _
  next h =>
    clear h
    induction ms generalizing c with
    | nil => exact List.prefix_refl _
    | cons m ms ih => exact (recvMessage_passed b c m).trans (ih _)

end MarketDataConsumer

/-! ## The system -/

/-- Whose market data comes from `feed` is said by the steps. -/
structure MarketSession (F : Type) where
  session : Session
  strategy : Nat → StrategyEngine F
  /-- what a trade engine has sent and not written to its queue yet -/
  sending : Nat → List MEClientRequest
  /-- how many of its gateway's responses a trade engine has read -/
  responses_read : Nat → Nat
  feed : MarketDataFeed
  /-- how many of the updates passed on the reader has read -/
  updates_read : Nat

namespace MarketSession

variable {F : Type} [Double F]

def init (algo : Nat → AlgoType) (cfg : Nat → Nat → TradeEngineCfg F) : MarketSession F where
  session := Session.init
  strategy := fun c => StrategyEngine.init c (algo c) (cfg c)
  sending := fun _ => []
  responses_read := fun _ => 0
  feed := MarketDataFeed.init
  updates_read := 0

/-- The half in which the strategies are trade engines that somebody calls. -/
def trading (s : MarketSession F) : TradingSession where
  session := s.session
  client := fun c => (s.strategy c).toTradeEngine
  sending := s.sending
  responses_read := s.responses_read

/-- The requests that the matching engine has read. -/
def served (s : MarketSession F) : List MEClientRequest :=
  s.session.exchange.server.fifo_sequencer_.incoming_requests_.take s.session.requests_read

/-- A strategy is now `e` and has sent `qs`. -/
def acted (s : MarketSession F) (c : Nat) (e : StrategyEngine F) (qs : List MEClientRequest) :
    MarketSession F :=
  { s with
    strategy := Function.update s.strategy c e
    sending := Function.update s.sending c (s.sending c ++ qs) }

inductive Step (conn : Nat → Nat) (reader : Nat) (s : MarketSession F) : MarketSession F → Prop
  /-- The reader reads the next update that its consumer has passed on. -/
  | readUpdate {u : MEMarketUpdate} {e : StrategyEngine F} {qs : List MEClientRequest}
      (hu : s.feed.consumer.incoming_md_updates_[s.updates_read]? = some u)
      (hprice : PriceFits u.price_)
      (he : (s.strategy reader).processMarketUpdate u = .ok (e, qs))
      (hids : e.order_manager_.next_order_id_ ≤ ME_MAX_ORDER_IDS) :
      Step conn reader s { s.acted reader e qs with updates_read := s.updates_read + 1 }
  /-- Another client reads any update. -/
  | otherUpdate (c : Nat) (hc : c < ME_MAX_NUM_CLIENTS) (hne : c ≠ reader) {u : MEMarketUpdate}
      {e : StrategyEngine F} {qs : List MEClientRequest} (hprice : PriceFits u.price_)
      (he : (s.strategy c).processMarketUpdate u = .ok (e, qs))
      (hids : e.order_manager_.next_order_id_ ≤ ME_MAX_ORDER_IDS) :
      Step conn reader s (s.acted c e qs)
  /-- A trade engine writes the next of its requests. -/
  | write (c : Nat) {q : MEClientRequest} {qs : List MEClientRequest}
      (hq : s.sending c = q :: qs) :
      Step conn reader s { s with
        session := { s.session with
          requests := Function.update s.session.requests c (s.session.requests c ++ [q]) }
        sending := Function.update s.sending c qs }
  /-- A trade engine reads its next response. -/
  | consume (c : Nat) {r : MEClientResponse} {e : StrategyEngine F}
      (hr : (s.session.gateway c).incoming_responses_[s.responses_read c]? = some r)
      (he : (s.strategy c).onOrderUpdate r = .ok e) :
      Step conn reader s { s with
        strategy := Function.update s.strategy c e
        responses_read := Function.update s.responses_read c (s.responses_read c + 1) }
  /-- The matching engine processes the next request. It is asked to fit the price
  table and the pools, those of the feed among them. -/
  | process {q : MEClientRequest} {e : MatchingEngine} {evs : List Event}
      (hidle : s.session.answering = [])
      (hq : s.session.exchange.server.fifo_sequencer_.incoming_requests_[s.session.requests_read]?
        = some q)
      (hprice : s.trading.reference.PriceFits q) (hfits : s.trading.reference.StepFits q)
      (hid : RefExchange.IdBelow ME_MAX_ORDER_IDS s.trading.reference q)
      (htot : TotalFits s.trading.reference q)
      (he : s.session.engine.processClientRequest q = .ok (e, evs)) :
      Step conn reader s { s with
        session := { s.session with
          engine := e
          requests_read := s.session.requests_read + 1
          answering := LowLatency.responses evs }
        feed := { s.feed with
          engine := e
          outgoing_md_updates_ := s.feed.outgoing_md_updates_ ++ LowLatency.updates evs } }
  /-- Any other step of the session. -/
  | transport {σ : Session} (hs : Session.Step conn s.session σ)
      (hrequests : σ.requests = s.session.requests)
      (hread : σ.requests_read = s.session.requests_read) :
      Step conn reader s { s with session := σ }
  /-- Any other step of the market data. -/
  | marketData {φ : MarketDataFeed} (hs : MarketDataFeed.Step MarketDataConsumer.Joins s.feed φ)
      (hengine : φ.engine = s.feed.engine)
      (hwritten : φ.updates ++ φ.outgoing_md_updates_ =
        s.feed.updates ++ s.feed.outgoing_md_updates_) :
      Step conn reader s { s with feed := φ }

/-- The states of all runs. -/
inductive Reachable (conn : Nat → Nat) (reader : Nat) (algo : Nat → AlgoType)
    (cfg : Nat → Nat → TradeEngineCfg F) : MarketSession F → Prop
  | init : Reachable conn reader algo cfg (init algo cfg)
  | step {s s' : MarketSession F} : Reachable conn reader algo cfg s → Step conn reader s s' →
      Reachable conn reader algo cfg s'

/-! ## Both halves at every step -/

section Inv

variable {conn : Nat → Nat} {reader : Nat} {algo : Nat → AlgoType}
  {cfg : Nat → Nat → TradeEngineCfg F} {s s' : MarketSession F} {c : Nat} {e : StrategyEngine F}

/-- What holds in every reachable state. -/
structure Inv (conn : Nat → Nat) (reader : Nat) (cfg : Nat → Nat → TradeEngineCfg F)
    (s : MarketSession F) : Prop where
  trading : TradingSession.Reachable conn (fun c t => (cfg c t).risk_cfg_) s.trading
  config : ∀ c, (s.strategy c).ticker_cfg_ = cfg c
  priced : ∀ c, (s.strategy c).Priced
  feed : MarketDataFeed.Runs s.served s.feed
  engine : s.feed.engine = s.session.engine
  admissible : Admissible s.served
  read_le : s.updates_read ≤ s.feed.consumer.incoming_md_updates_.length
  books : MarketOrderBookHashMap.init.processMarketUpdates
    (s.feed.consumer.incoming_md_updates_.take s.updates_read) =
      .ok (s.strategy reader).ticker_order_book_

theorem Inv.init : Inv conn reader cfg (init algo cfg) where
  trading := .init
  config := fun _ => rfl
  priced := fun _ _ => MarketOrderBook.priced_init
  feed := .init
  engine := rfl
  admissible := ⟨trivial, trivial, trivial, trivial⟩
  read_le := Nat.le_refl 0
  books := rfl

omit [Double F] in
theorem trading_update (s : MarketSession F) (c : Nat) (e : StrategyEngine F) :
    (fun c' => (Function.update s.strategy c e c').toTradeEngine) =
      Function.update s.trading.client c e.toTradeEngine := by
  funext c'
  rw [Function.update_apply, Function.update_apply]
  split <;> rfl

omit [Double F] in
theorem acted_trading (s : MarketSession F) (c : Nat) (e : StrategyEngine F)
    (qs : List MEClientRequest) :
    (s.acted c e qs).trading = s.trading.moved c e.toTradeEngine qs := by
  unfold acted TradingSession.moved
  rw [← trading_update]
  rfl

/-- What a strategy does is at most a call of `moveOrders`. -/
theorem Inv.acted_reachable (h : Inv conn reader cfg s) (hc : c < ME_MAX_NUM_CLIENTS)
    (hclip : ∀ c t, (cfg c t).clip_ < 2 ^ 32) {u : MEMarketUpdate} {qs : List MEClientRequest}
    (hprice : PriceFits u.price_) (he : (s.strategy c).processMarketUpdate u = .ok (e, qs))
    (hids : e.order_manager_.next_order_id_ ≤ ME_MAX_ORDER_IDS) :
    TradingSession.Reachable conn (fun c t => (cfg c t).risk_cfg_) (s.acted c e qs).trading := by
  rw [acted_trading]
  rcases StrategyEngine.processMarketUpdate_acts (h.priced c) hprice he with
    ⟨hsame, rfl⟩ | ⟨loss, bid, ask, hbid, hask, hmove⟩
  · have hnone : s.trading.moved c e.toTradeEngine [] = s.trading := by
      unfold TradingSession.moved
      rw [List.append_nil, Function.update_eq_self, hsame]
      show { s.trading with client := Function.update s.trading.client c (s.trading.client c) } = _
      rw [Function.update_eq_self]
    rw [hnone]
    exact h.trading
  · rw [h.config] at hmove
    exact h.trading.step (.moveOrders c hc hbid hask (hclip c _) hmove hids)

/-- The engines after one of them read an update. -/
theorem Inv.acted_engines (h : Inv conn reader cfg s) {u : MEMarketUpdate}
    {qs : List MEClientRequest} (hprice : PriceFits u.price_)
    (he : (s.strategy c).processMarketUpdate u = .ok (e, qs)) :
    (∀ c', ((s.acted c e qs).strategy c').ticker_cfg_ = cfg c') ∧
      ∀ c', ((s.acted c e qs).strategy c').Priced := by
  have hcfg : e.ticker_cfg_ = cfg c :=
    (StrategyEngine.Confined.processMarketUpdate he).cfg.trans (h.config c)
  have hpriced := (h.priced c).processMarketUpdate hprice he
  exact ⟨(Function.forall_update_iff _ fun c' (e : StrategyEngine F) => e.ticker_cfg_ = cfg c').mpr
      ⟨hcfg, fun c' _ => h.config c'⟩,
    (Function.forall_update_iff _ fun _ (e : StrategyEngine F) => e.Priced).mpr
      ⟨hpriced, fun c' _ => h.priced c'⟩⟩

theorem passed_of_step {P : List MDPMarketUpdate → MarketDataConsumer → List MDPMarketUpdate → Prop}
    {σ σ' : MarketDataFeed} (hs : MarketDataFeed.Step P σ σ') :
    σ.consumer.incoming_md_updates_ <+: σ'.consumer.incoming_md_updates_ := by
  cases hs with
  | recvIncremental ms hms => exact σ.consumer.recvCallback_passed false ms
  | recvSnapshot cycle ms hms hP => exact σ.consumer.recvCallback_passed true ms
  | process q he => exact List.prefix_refl _
  | publish hu => exact List.prefix_refl _
  | flush hne => exact List.prefix_refl _
  | addToSnapshot hm hs => exact List.prefix_refl _
  | publishSnapshot => exact List.prefix_refl _

theorem take_eq_of_isPrefix {α : Type} {l l' : List α} (h : l <+: l') {n : Nat}
    (hn : n ≤ l.length) : l'.take n = l.take n := by
  obtain ⟨rest, rfl⟩ := h
  exact List.take_append_of_le_length hn

/-- **Every step keeps both halves.** -/
theorem Inv.step (hconn : Function.Injective conn) (hreader : reader < ME_MAX_NUM_CLIENTS)
    (hclip : ∀ c t, (cfg c t).clip_ < 2 ^ 32) (h : Inv conn reader cfg s)
    (hs : Step conn reader s s') : Inv conn reader cfg s' := by
  cases hs with
  | @readUpdate u e qs hu hprice he hids =>
    obtain ⟨hcfg, hpriced⟩ := h.acted_engines hprice he
    refine { h with
      trading := h.acted_reachable hreader hclip hprice he hids, config := hcfg, priced := hpriced
      read_le := (List.getElem?_eq_some_iff.mp hu).1, books := ?_ }
    show _ = Except.ok (Function.update s.strategy reader e reader).ticker_order_book_
    rw [Function.update_self]
    show MarketOrderBookHashMap.init.processMarketUpdates
      (s.feed.consumer.incoming_md_updates_.take (s.updates_read + 1)) = _
    rw [List.take_add_one, hu, processMarketUpdates_append h.books]
    show (do
      let m ← (s.strategy reader).ticker_order_book_.processMarketUpdate u
      m.processMarketUpdates []) = _
    rw [(StrategyEngine.processMarketUpdate_books he).1]
    rfl
  | @otherUpdate c hc hne u e qs hprice he hids =>
    obtain ⟨hcfg, hpriced⟩ := h.acted_engines hprice he
    refine { h with
      trading := h.acted_reachable hc hclip hprice he hids, config := hcfg, priced := hpriced
      books := ?_ }
    show _ = Except.ok (Function.update s.strategy c e reader).ticker_order_book_
    rw [Function.update_of_ne (Ne.symm hne)]
    exact h.books
  | write c hq => exact { h with trading := h.trading.step (.write c hq) }
  | @consume c r e hr he =>
    obtain ⟨hte, hcfg, hbooks, -⟩ := StrategyEngine.onOrderUpdate_books he
    refine { h with trading := ?_, config := ?_, priced := ?_, books := ?_ }
    · have hstep := h.trading.step (.consume c hr hte)
      unfold TradingSession.consumed at hstep
      rw [← trading_update] at hstep
      exact hstep
    · exact (Function.forall_update_iff _
        fun c' (e : StrategyEngine F) => e.ticker_cfg_ = cfg c').mpr
          ⟨hcfg.trans (h.config c), fun c' _ => h.config c'⟩
    · refine (Function.forall_update_iff _ fun _ (e : StrategyEngine F) => e.Priced).mpr
        ⟨?_, fun c' _ => h.priced c'⟩
      unfold StrategyEngine.Priced
      rw [hbooks]
      exact h.priced c
    · rw [h.books]
      exact congrArg Except.ok
        ((Function.forall_update_iff s.strategy fun c' (e : StrategyEngine F) =>
          (s.strategy c').ticker_order_book_ = e.ticker_order_book_).mpr
            ⟨hbooks.symm, fun _ _ => rfl⟩ reader)
  | @process q e evs hidle hq hprice hfits hid htot he =>
    have hinv := TradingSession.Inv.reachable hconn h.trading
    have hserved : served { s with
        session := { s.session with
          engine := e
          requests_read := s.session.requests_read + 1
          answering := LowLatency.responses evs } } = s.served ++ [q] := by
      unfold served
      dsimp only
      rw [List.take_add_one, hq]
      rfl
    refine { h with
      trading := h.trading.step (.process hidle hq hprice hfits he), feed := ?_, engine := rfl
      admissible := ?_ }
    · show MarketDataFeed.Runs (served { s with session := _ }) _
      rw [hserved]
      exact h.feed.process q (by rw [h.engine]; exact he)
    · show Admissible (served { s with session := _ })
      rw [hserved]
      exact ⟨h.admissible.admits.snoc (hinv.wired.admits hinv.protocol hq hprice),
        h.admissible.fits.snoc hfits, h.admissible.ids.snoc hid, h.admissible.total.snoc htot⟩
  | @transport σ hs hrequests hread =>
    have hinv := TradingSession.Inv.reachable hconn h.trading
    have hcarries := Session.carries_of_step hconn hinv.wired.session hinv.wired.served_le hs
      hrequests hread 0
    have hserved : served { s with session := σ } = s.served := hcarries.served
    refine { h with
      trading := h.trading.step (.transport hs hrequests hread), feed := ?_
      engine := h.engine.trans hcarries.engine.symm, admissible := ?_ }
    · rw [hserved]
      exact h.feed
    · rw [hserved]
      exact h.admissible
  | marketData hs hengine hwritten =>
    have hpassed := passed_of_step hs
    refine { h with
      feed := h.feed.other hs hengine hwritten, engine := hengine.trans h.engine
      read_le := h.read_le.trans hpassed.length_le, books := ?_ }
    dsimp only
    rw [take_eq_of_isPrefix hpassed h.read_le]
    exact h.books

theorem Inv.reachable (hconn : Function.Injective conn) (hreader : reader < ME_MAX_NUM_CLIENTS)
    (hclip : ∀ c t, (cfg c t).clip_ < 2 ^ 32) (hs : Reachable conn reader algo cfg s) :
    Inv conn reader cfg s := by
  induction hs with
  | init => exact .init
  | step _ hstep ih => exact ih.step hconn hreader hclip hstep

/-- The reader can take whatever is passed on to it. -/
theorem Inv.reads (h : Inv conn reader cfg s) {u : MEMarketUpdate}
    (hu : s.feed.consumer.incoming_md_updates_[s.updates_read]? = some u) :
    ∃ e qs, (s.strategy reader).processMarketUpdate u = .ok (e, qs) := by
  obtain ⟨_, m, _, _, hm, _⟩ := h.feed.books h.admissible
  obtain ⟨hlt, hget⟩ := List.getElem?_eq_some_iff.mp hu
  rw [← List.take_append_drop s.updates_read s.feed.consumer.incoming_md_updates_,
    processMarketUpdates_append h.books, List.drop_eq_getElem_cons hlt, hget] at hm
  obtain ⟨books, hbooks, _⟩ := exec_bind_ok hm
  exact StrategyEngine.processMarketUpdate_ok hbooks

omit [Double F] in
/-- A reader that has caught up looks at the books of the exchange. -/
theorem Inv.caughtUp (h : Inv conn reader cfg s)
    (hread : s.updates_read = s.feed.consumer.incoming_md_updates_.length)
    (hlive : s.feed.consumer.in_recovery_ = false)
    (hnext : s.feed.consumer.next_exp_inc_seq_num_ =
      (s.feed.updates ++ s.feed.outgoing_md_updates_).length + 1) (t : Nat) (b : Bool) :
    ∃ levels, (s.session.engine t).ladder.view b = some levels ∧
      ((s.strategy reader).ticker_order_book_ t).ladder.view b = some (levels.map feedLevel) := by
  obtain ⟨j, m, hle, hj, hm, hbooks⟩ := h.feed.books h.admissible
  obtain ⟨evss, hrun, hwritten⟩ := h.feed.written
  have hall := h.books
  rw [hread, List.take_length] at hall
  obtain rfl := Except.ok.inj (hm.symm.trans hall)
  have hlen := hj hlive
  obtain ⟨hsim, hfeeds⟩ := h.feed.feedsAt h.admissible hle (List.prefix_refl _) hrun (by
    rw [← hwritten]
    omega)
  rw [hfeeds] at hbooks
  rw [← h.engine]
  exact hsim.views hbooks t b

end Inv

/-- Market makers with a clip of 10. -/
def makerCfg : Nat → Nat → TradeEngineCfg Rat := fun _ _ => ⟨10, 1, ⟨100, 100⟩, -1000⟩

end MarketSession

end LowLatency
