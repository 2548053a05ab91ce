import LowLatency.Strategy.OrderManager
import LowLatency.Matcher.MatchingEngine

/-!
# A trading client and the exchange

One `TradeEngine`, the matching engine, and between them two channels that keep
order: the requests the client has sent and the exchange has not seen, the
responses the exchange has sent and the client has not seen. Anything can happen
next: the strategy moves its orders, the exchange takes the client's next
request or a request of some other client, the client reads its next response.
A run is a list of such actions, so a statement about every run is a statement
about every interleaving.

A strategy (`MarketMaker`, `LiquidityTaker`) calls nothing but `moveOrders`; what
makes it call, and with which prices, is not restricted here.

The exchange is a parameter. With `MatchingEngine` this is the system; with the
reference exchange it is the one the invariants are proved about, and
`system_step_sim` carries them over.
-/

namespace LowLatency

structure TradingSystem (X : Type) where
  client : TradeEngine
  requests : List MEClientRequest
  exchange : X
  responses : List MEClientResponse

inductive Action
  /-- The strategy wants its orders at these prices. -/
  | moveOrders (loss : Bool) (ticker_id : Nat) (bid_price ask_price : Int) (clip : Nat)
  /-- The exchange takes the client's next request. -/
  | serve
  /-- The exchange takes a request of another client. -/
  | serveOther (q : MEClientRequest)
  /-- The client reads its next response. -/
  | consume

/-- The responses that go to a client. -/
def forClient (client_id : Nat) (evs : List Event) : List MEClientResponse :=
  (responses evs).filter fun r => decide (r.client_id_ = client_id)

namespace TradingSystem

variable {X : Type}

def init (x : X) (client_id : Nat) (risk_cfg : Nat → RiskCfg) : TradingSystem X :=
  ⟨TradeEngine.init client_id risk_cfg, [], x, []⟩

/-- A request reaches the exchange, which answers it at once. -/
def process (proc : X → MEClientRequest → Exec (X × List Event)) (s : TradingSystem X)
    (q : MEClientRequest) : Exec (TradingSystem X) := do
  let (x, evs) ← proc s.exchange q
  return { s with
    exchange := x
    responses := s.responses ++ forClient s.client.client_id_ evs }

def step (proc : X → MEClientRequest → Exec (X × List Event)) (s : TradingSystem X) :
    Action → Exec (TradingSystem X)
  | .moveOrders loss ticker_id bid_price ask_price clip => do
    let (e, qs) ← s.client.moveOrders loss ticker_id bid_price ask_price clip
    return { s with client := e, requests := s.requests ++ qs }
  | .serve =>
    match s.requests with
    | [] => .ok s
    | q :: qs => ({ s with requests := qs } : TradingSystem X).process proc q
  | .serveOther q => s.process proc q
  | .consume =>
    match s.responses with
    | [] => .ok s
    | r :: rs => do
      let e ← s.client.onOrderUpdate r
      return { s with client := e, responses := rs }

def run (proc : X → MEClientRequest → Exec (X × List Event)) (s : TradingSystem X) :
    List Action → Exec (TradingSystem X)
  | [] => .ok s
  | a :: as => do
    let s ← s.step proc a
    s.run proc as

end TradingSystem

/-- The reference exchange as a party of the system. -/
def RefExchange.serve (R : RefExchange) (q : MEClientRequest) : Exec (RefExchange × List Event) :=
  .ok (R.step q, R.stepEvents wrap32 q)

/-- No order comes to rest at a price congruent to a different live price. -/
def RefExchange.PriceFits (R : RefExchange) (q : MEClientRequest) : Prop :=
  q.type_ = .NEW → ((R q.ticker_id_).swept id q).leaves ≠ 0 →
    ∀ b, ∀ o ∈ (R q.ticker_id_).matched q b,
      o.price_ % (ME_MAX_PRICE_LEVELS : Int) = q.price_ % (ME_MAX_PRICE_LEVELS : Int) →
      o.price_ = q.price_

/-- What is asked of an action. The client's own requests are only asked to fit
the price table and the pools; that they are well formed is for the client to
see to. -/
def Allowed (s : TradingSystem RefExchange) : Action → Prop
  | .moveOrders _ ticker_id _ _ _ => ticker_id < ME_MAX_TICKERS
  | .serve => ∀ q ∈ s.requests.head?, s.exchange.PriceFits q ∧ s.exchange.StepFits q
  | .serveOther q =>
    q.client_id_ ≠ s.client.client_id_ ∧ s.exchange.Admits q ∧ s.exchange.StepFits q
  | .consume => True

/-- The client has used no more order ids than there are. -/
def IdsLeft (s : TradingSystem RefExchange) : Prop :=
  s.client.order_manager_.next_order_id_ ≤ ME_MAX_ORDER_IDS

/-- Every action of a run is allowed where it happens, and the client does not
run out of order ids. -/
def AllowedAll : TradingSystem RefExchange → List Action → Prop
  | _, [] => True
  | s, a :: as => Allowed s a ∧
    ∀ s', s.step RefExchange.serve a = .ok s' → IdsLeft s' ∧ AllowedAll s' as

instance (R : RefExchange) (q : MEClientRequest) : Decidable (R.PriceFits q) :=
  inferInstanceAs (Decidable (_ → _ → _))

instance (s : TradingSystem RefExchange) (a : Action) : Decidable (Allowed s a) :=
  match a with
  | .moveOrders _ _ _ _ _ => inferInstanceAs (Decidable (_ < _))
  | .serve => inferInstanceAs (Decidable (∀ _ ∈ _, _))
  | .serveOther _ => inferInstanceAs (Decidable (_ ∧ _ ∧ _))
  | .consume => inferInstanceAs (Decidable True)

instance (s : TradingSystem RefExchange) : Decidable (IdsLeft s) := inferInstanceAs (Decidable (_ ≤ _))

instance decidableAllowedAll : (s : TradingSystem RefExchange) → (as : List Action) →
    Decidable (AllowedAll s as)
  | _, [] => isTrue trivial
  | s, a :: as =>
    match h : s.step RefExchange.serve a with
    | .error e => decidable_of_iff (Allowed s a)
        ⟨fun ha => ⟨ha, fun _ he => absurd (h.symm.trans he) (by simp)⟩, fun ha => ha.1⟩
    | .ok s' =>
      have := decidableAllowedAll s' as
      decidable_of_iff (Allowed s a ∧ IdsLeft s' ∧ AllowedAll s' as)
        ⟨fun ha => ⟨ha.1, fun s'' he => Except.ok.inj (h.symm.trans he) ▸ ha.2⟩,
          fun ha => ⟨ha.1, ha.2 s' h⟩⟩

end LowLatency
