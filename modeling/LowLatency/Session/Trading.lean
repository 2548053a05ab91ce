import LowLatency.Session.Agreement
import LowLatency.Protocol.Exposure

/-!
# Trade engines on the sessions

Every client of `Session` runs a `TradeEngine`: what it writes to its gateway is
what `moveOrders` sends, what it reads is what its gateway has passed on. Between
a trade engine and the matching engine there are now two queues, two buffers, a
stream of bytes each way, and the sequencer of the exchange, whose `std::sort`
may exchange the requests of one receive.

`Protocol` proves its invariants about a client, an exchange and two channels
that keep order. `view` is this picture of one client of the real thing, the
whole way of a request being one channel, and `Wired.step` says that each step
here is, to each client, an action there, or a change of the order of its
requests on their way, or nothing. The second does not hurt: a slot has at most
one new order on its way, and a cancel is of no slot (`ProtocolInv.reorder`).

The clients vouch for each other. What is asked in `Protocol` of a request of
another client, that it is well formed, holds here because that client is a trade
engine too.
-/

namespace LowLatency

/-! ## The system -/

structure TradingSession where
  session : Session
  client : Nat → TradeEngine
  /-- what a trade engine has sent and not written to its queue yet -/
  sending : Nat → List MEClientRequest
  /-- how many of its gateway's responses a trade engine has read -/
  responses_read : Nat → Nat

namespace TradingSession

def init (cfg : Nat → Nat → RiskCfg) : TradingSession where
  session := Session.init
  client := fun c => TradeEngine.init c (cfg c)
  sending := fun _ => []
  responses_read := fun _ => 0

/-- The reference exchange after the requests that the matching engine has read. -/
def reference (τ : TradingSession) : RefExchange :=
  RefExchange.init.run (τ.session.exchange.server.fifo_sequencer_.incoming_requests_.take
    τ.session.requests_read)

/-- A trade engine is now `e` and has sent `qs`. -/
def moved (τ : TradingSession) (c : Nat) (e : TradeEngine) (qs : List MEClientRequest) :
    TradingSession :=
  { τ with
    client := Function.update τ.client c e
    sending := Function.update τ.sending c (τ.sending c ++ qs) }

/-- A trade engine has written `q` and is left with `qs`. -/
def written (τ : TradingSession) (c : Nat) (q : MEClientRequest) (qs : List MEClientRequest) :
    TradingSession :=
  { τ with
    session := { τ.session with
      requests := Function.update τ.session.requests c (τ.session.requests c ++ [q]) }
    sending := Function.update τ.sending c qs }

/-- A trade engine has read a response and is now `e`. -/
def consumed (τ : TradingSession) (c : Nat) (e : TradeEngine) : TradingSession :=
  { τ with
    client := Function.update τ.client c e
    responses_read := Function.update τ.responses_read c (τ.responses_read c + 1) }

/-- The matching engine has read a request, is now `e`, and answers with `rs`. -/
def processed (τ : TradingSession) (e : MatchingEngine) (rs : List MEClientResponse) :
    TradingSession :=
  { τ with
    session := { τ.session with
      engine := e
      requests_read := τ.session.requests_read + 1
      answering := rs } }

section Fields

variable (τ : TradingSession) (c c' : Nat) (e : TradeEngine) (q : MEClientRequest)
  (qs : List MEClientRequest)

theorem moved_client : (τ.moved c e qs).client c' = if c' = c then e else τ.client c' :=
  Function.update_apply ..

theorem moved_sending : (τ.moved c e qs).sending c' =
    if c' = c then τ.sending c ++ qs else τ.sending c' :=
  Function.update_apply ..

theorem written_requests : (τ.written c q qs).session.requests c' =
    if c' = c then τ.session.requests c ++ [q] else τ.session.requests c' :=
  Function.update_apply ..

theorem written_sending : (τ.written c q qs).sending c' = if c' = c then qs else τ.sending c' :=
  Function.update_apply ..

theorem consumed_client : (τ.consumed c e).client c' = if c' = c then e else τ.client c' :=
  Function.update_apply ..

theorem consumed_responses_read : (τ.consumed c e).responses_read c' =
    if c' = c then τ.responses_read c + 1 else τ.responses_read c' :=
  Function.update_apply ..

end Fields

inductive Step (conn : Nat → Nat) (τ : TradingSession) : TradingSession → Prop
  /-- The strategy of a client wants its orders at these prices. -/
  | moveOrders (c : Nat) (hc : c < ME_MAX_NUM_CLIENTS) {loss : Bool} {ticker_id : Nat}
      {bid_price ask_price : Int} {clip : Nat} {e : TradeEngine} {qs : List MEClientRequest}
      (hbid : PriceFits bid_price) (hask : PriceFits ask_price) (hclip : clip < 2 ^ 32)
      (he : (τ.client c).moveOrders loss ticker_id bid_price ask_price clip = .ok (e, qs))
      (hids : e.order_manager_.next_order_id_ ≤ ME_MAX_ORDER_IDS) :
      Step conn τ (τ.moved c e qs)
  /-- A trade engine writes the next of its requests. -/
  | write (c : Nat) {q : MEClientRequest} {qs : List MEClientRequest}
      (hq : τ.sending c = q :: qs) : Step conn τ (τ.written c q qs)
  /-- A trade engine reads its next response. -/
  | consume (c : Nat) {r : MEClientResponse} {e : TradeEngine}
      (hr : (τ.session.gateway c).incoming_responses_[τ.responses_read c]? = some r)
      (he : (τ.client c).onOrderUpdate r = .ok e) : Step conn τ (τ.consumed c e)
  /-- The matching engine processes the next request. It is asked to fit the
  price table and the pools. -/
  | process {q : MEClientRequest} {e : MatchingEngine} {evs : List Event}
      (hidle : τ.session.answering = [])
      (hq : τ.session.exchange.server.fifo_sequencer_.incoming_requests_[τ.session.requests_read]?
        = some q)
      (hprice : τ.reference.PriceFits q) (hfits : τ.reference.StepFits q)
      (he : τ.session.engine.processClientRequest q = .ok (e, evs)) :
      Step conn τ (τ.processed e (LowLatency.responses evs))
  /-- Any other step of the session. -/
  | transport {σ : Session} (hs : Session.Step conn τ.session σ)
      (hrequests : σ.requests = τ.session.requests)
      (hread : σ.requests_read = τ.session.requests_read) :
      Step conn τ { τ with session := σ }

/-- The states of all runs. -/
inductive Reachable (conn : Nat → Nat) (cfg : Nat → Nat → RiskCfg) : TradingSession → Prop
  | init : Reachable conn cfg (init cfg)
  | step {τ τ' : TradingSession} : Reachable conn cfg τ → Step conn τ τ' → Reachable conn cfg τ'

end TradingSession

/-! ## A request channel without order -/

/-- An allowed action, or the requests on their way change places. -/
inductive Moves (s : TradingSystem RefExchange) : TradingSystem RefExchange → Prop
  | act {s' : TradingSystem RefExchange} (a : Action) (ha : Allowed s a)
      (hs : s.step RefExchange.serve a = .ok s') (hids : IdsLeft s') : Moves s s'
  | reorder {qs : List MEClientRequest} (hqs : qs.Perm s.requests) :
      Moves s { s with requests := qs }

theorem Moves.refl (s : TradingSystem RefExchange) : Moves s s := .reorder (List.Perm.refl _)

section Reorder

variable {s s' : TradingSystem RefExchange} {qs : List MEClientRequest}

/-- A slot with its requests in another order: there is at most one new order
among them. -/
theorem SlotInv.reorder {c t : Nat} {b : Bool} {o : OMOrder} {qs' : List MEClientRequest}
    {B : Book MEOrderId} {rs : List MEClientResponse} (h : SlotInv c t b o qs B rs)
    (hqs : qs'.Perm qs) : SlotInv c t b o qs' B rs := by
  have hperm : (news t b qs').Perm (news t b qs) := hqs.filter _
  refine h.congr ?_ rfl
  cases h with
  | idle _ hnews => rw [hnews] at hperm ⊢; exact hperm.eq_nil
  | sent q _ hnews => rw [hnews] at hperm ⊢; exact hperm.eq_singleton
  | working _ _ _ _ _ _ hnews => rw [hnews] at hperm ⊢; exact hperm.eq_nil

theorem ProtocolInv.reorder (h : ProtocolInv s) (hqs : qs.Perm s.requests) :
    ProtocolInv { s with requests := qs } where
  client := h.client
  books := h.books
  slots := fun t ht b => (h.slots t ht b).reorder hqs
  named := h.named
  distinct := h.distinct
  requests := fun q hq => h.requests q (hqs.mem_iff.mp hq)
  responses := h.responses
  ids := h.ids

/-- **Protocol safety does not need the order of requests.** -/
theorem ProtocolInv.moves (h : ProtocolInv s) (hm : Moves s s') : ProtocolInv s' := by
  cases hm with
  | act a ha hs hids =>
    obtain ⟨s₁, hs₁, h₁⟩ := h.step ha fun s₁ hs₁ => by
      rw [← Except.ok.inj (hs.symm.trans hs₁)]
      exact hids
    rw [Except.ok.inj (hs.symm.trans hs₁)]
    exact h₁
  | reorder hqs => exact h.reorder hqs

/-- Neither does the position limit. -/
theorem PositionInv.moves {cfg : Nat → RiskCfg} (h : PositionInv cfg s) (hinv : ProtocolInv s)
    (hm : Moves s s') : PositionInv cfg s' := by
  cases hm with
  | act a ha hs hids => exact h.step hinv ha hs
  | reorder hqs => exact ⟨h.risk, h.within⟩

end Reorder

/-! ## What a step of the session leaves as it is -/

namespace Session

open Lib

variable {conn : Nat → Nat} {σ σ' : Session}

/-- The requests that a client has written and the matching engine has not read:
those in its queue, those in the sequencer, and those before it. -/
def unserved (σ : Session) (c : Nat) : List MEClientRequest :=
  requestsOf c
      (σ.exchange.server.fifo_sequencer_.incoming_requests_.drop σ.requests_read) ++
    (requestsOf c (σ.exchange.server.fifo_sequencer_.pending_client_requests_.map
        RecvTimeClientRequest.request_) ++
      (σ.requests c).drop (σ.passed c).length)

/-- `σ'` carries the messages of client `c` no less far than `σ`, and the
exchange has not moved. -/
structure Carries (c : Nat) (σ σ' : Session) : Prop where
  engine : σ'.engine = σ.engine
  served : σ'.exchange.server.fifo_sequencer_.incoming_requests_.take σ'.requests_read =
    σ.exchange.server.fifo_sequencer_.incoming_requests_.take σ.requests_read
  served_le : σ'.requests_read ≤ σ'.exchange.server.fifo_sequencer_.incoming_requests_.length
  unserved : (σ'.unserved c).Perm (σ.unserved c)
  answers : σ'.responses ++ σ'.answering = σ.responses ++ σ.answering
  delivered : (σ.gateway c).incoming_responses_ <+: (σ'.gateway c).incoming_responses_

/-- A step that does not touch the order server. -/
theorem Carries.of_server {c : Nat} (hserver : σ'.exchange.server = σ.exchange.server)
    (hrequests : σ'.requests = σ.requests) (hread : σ'.requests_read = σ.requests_read)
    (hle : σ.requests_read ≤ σ.exchange.server.fifo_sequencer_.incoming_requests_.length)
    (hengine : σ'.engine = σ.engine)
    (hanswers : σ'.responses ++ σ'.answering = σ.responses ++ σ.answering)
    (hdelivered : (σ.gateway c).incoming_responses_ <+: (σ'.gateway c).incoming_responses_) :
    Carries c σ σ' where
  engine := hengine
  served := by rw [hserver, hread]
  served_le := by rw [hserver, hread]; exact hle
  unserved := by
    unfold Session.unserved passed
    rw [hserver, hrequests, hread]
  answers := hanswers
  delivered := hdelivered

/-- **A receive** moves requests from the client's side to the sequencer. -/
theorem Carries.recvRequests (hconn : Function.Injective conn) (h : Inv conn σ) {c n : Nat}
    {t : Int} {x : Connections} (c' : Nat)
    (hle : σ.requests_read ≤ σ.exchange.server.fifo_sequencer_.incoming_requests_.length)
    (hx : (σ.deliver (conn c) ((σ.to_server c).take n)).recvCallback (conn c) t = .ok x) :
    Carries c' σ { σ with
      exchange := x
      to_server := Function.update σ.to_server c ((σ.to_server c).drop n)
      decoded_requests := σ.decoded_requests ++
        ((σ.serverSocket (conn c)).recv ((σ.to_server c).take n)).messages requestCodec } := by
  have hagree := (h.recvRequests hconn hx).agreement.requests c'
  obtain ⟨rs, hdec, hown, -⟩ := h.decodes_requests c n
  obtain ⟨server, hall, hret⟩ := exec_bind_ok hx
  rw [Inv.deliver_socket, hdec] at hall
  have hpass := OrderServer.recvRequests_passes rs (fun r hr => (hown r hr).1) (h.bound c) hall
  obtain rfl := Except.ok.inj hret
  have hmap : (numberFrom nextSeqNum OMClientRequest.mk
      (σ.exchange.server.cid_next_exp_seq_num_ c) rs).map OMClientRequest.me_client_request_ = rs :=
    map_numberFrom _ _ (fun _ _ => rfl) _ rs
  generalize numberFrom nextSeqNum OMClientRequest.mk
    (σ.exchange.server.cid_next_exp_seq_num_ c) rs = ms at hpass hmap
  have hclient : ∀ m ∈ ms, m.me_client_request_.client_id_ = c := by
    intro m hm
    refine (hown _ ?_).1.2
    rw [← hmap]
    exact List.mem_map_of_mem hm
  -- the requests of this client among those received
  have hpassed : (server.acceptedOf c').map OMClientRequest.me_client_request_ =
      σ.passed c' ++ if c' = c then rs else [] := by
    rw [hpass.acceptedOf hclient, List.map_append]
    congr 1
    split
    · exact hmap
    · rfl
  have hof : requestsOf c' rs = if c' = c then rs else [] := by
    unfold requestsOf
    split
    next hcc =>
      exact List.filter_eq_self.mpr fun r hr => decide_eq_true ((hown r hr).1.2.trans hcc.symm)
    next hcc =>
      refine List.filter_eq_nil_iff.mpr fun r hr he => hcc ?_
      exact (of_decide_eq_true he).symm.trans (hown r hr).1.2
  have hpending : server.fifo_sequencer_.pending_client_requests_.map
        RecvTimeClientRequest.request_ =
      σ.exchange.server.fifo_sequencer_.pending_client_requests_.map
        RecvTimeClientRequest.request_ ++ rs := by
    rw [hpass.pending, List.map_append, List.map_map]
    congr 1
  have hpublished : server.fifo_sequencer_.incoming_requests_ =
    σ.exchange.server.fifo_sequencer_.incoming_requests_ := hpass.published
  refine ⟨rfl, ?_, ?_, ?_, rfl, List.prefix_refl _⟩
  · exact congrArg (List.take σ.requests_read) hpublished
  · exact hle.trans_eq (congrArg List.length hpublished.symm)
  · refine List.Perm.of_eq ?_
    -- they leave the third part for the second
    have hsplit : (σ.requests c').drop (σ.passed c').length =
        (if c' = c then rs else []) ++ (σ.requests c').drop
          (σ.passed c' ++ if c' = c then rs else []).length := by
      obtain ⟨rest, hrest⟩ := hagree
      have hrest' : σ.passed c' ++ (if c' = c then rs else []) ++ rest = σ.requests c' := by
        rw [← hpassed]
        exact hrest
      rw [← hrest', List.drop_left, List.append_assoc, List.drop_left]
    unfold Session.unserved passed
    dsimp only
    rw [hpassed, hpending, hpublished, requestsOf_append, hof]
    rw [show (σ.exchange.server.acceptedOf c').map OMClientRequest.me_client_request_ =
      σ.passed c' from rfl, hsplit, List.append_assoc]

/-- **The end of a receive round** may change their order. -/
theorem Carries.publish {c : Nat} {f : FIFOSequencer}
    (hle : σ.requests_read ≤ σ.exchange.server.fifo_sequencer_.incoming_requests_.length)
    (hf : σ.exchange.server.fifo_sequencer_.SequenceAndPublish f) :
    Carries c σ { σ with exchange :=
      { σ.exchange with server := { σ.exchange.server with fifo_sequencer_ := f } } } := by
  obtain ⟨sorted, hsorted, rfl⟩ := hf
  refine ⟨rfl, List.take_append_of_le_length hle, ?_, ?_, rfl, List.prefix_refl _⟩
  · dsimp only
    rw [List.length_append]
    exact Nat.le_add_right_of_le hle
  · unfold Session.unserved
    dsimp only
    rw [List.drop_append_of_le_length hle, requestsOf_append, List.append_assoc]
    refine List.Perm.append_left _ (List.Perm.append_right _ ?_)
    exact ((hsorted.perm.map _).filter _)

/-- **Every step that writes no request and processes none.** -/
theorem carries_of_step (hconn : Function.Injective conn) (h : Inv conn σ)
    (hle : σ.requests_read ≤ σ.exchange.server.fifo_sequencer_.incoming_requests_.length)
    (hs : Step conn σ σ') (hrequests : σ'.requests = σ.requests)
    (hread : σ'.requests_read = σ.requests_read) (c' : Nat) : Carries c' σ σ' := by
  cases hs with
  | write c r =>
    have hlen := congrArg List.length (congrFun hrequests c)
    exact absurd hlen (by simp)
  | sendRequest c hr hg =>
    obtain ⟨s, rfl, -⟩ := OrderGateway.sendRequest_ok hg
    refine .of_server rfl rfl rfl hle rfl rfl ?_
    dsimp only
    by_cases hcc : c' = c
    · subst hcc
      rw [Function.update_self]
    · rw [Function.update_of_ne hcc]
  | flushGateway c n hn => exact .of_server rfl rfl rfl hle rfl rfl (by simp)
  | rewindGateway c => exact .of_server rfl rfl rfl hle rfl rfl (by simp)
  | recvRequests c n t hpos hn hroom hx => exact .recvRequests hconn h c' hle hx
  | publish hf => exact .publish hle hf
  | process => exact absurd hread (by simp)
  | answer hr =>
    refine .of_server rfl rfl rfl hle rfl ?_ (List.prefix_refl _)
    dsimp only
    rw [hr, List.append_assoc]
    rfl
  | sendResponse hr hx =>
    exact .of_server (Connections.sendResponse_received hx).1 rfl rfl hle rfl rfl
      (List.prefix_refl _)
  | flushServer c n hn => exact .of_server rfl rfl rfl hle rfl rfl (List.prefix_refl _)
  | rewindServer c => exact .of_server rfl rfl rfl hle rfl rfl (List.prefix_refl _)
  | recvResponses c n =>
    obtain ⟨rs, hdec, hown, -⟩ := h.decodes_responses c n
    refine .of_server rfl rfl rfl hle rfl rfl ?_
    by_cases hcc : c' = c
    · subst hcc
      dsimp only
      rw [Function.update_self]
      unfold OrderGateway.recvCallback
      rw [hdec, OrderGateway.recvResponses_passes rs
        { σ.gateway c' with tcp_socket_ := (σ.socket c').recv ((σ.to_client c').take n) }
        (fun r hr => (hown r hr).trans (h.client c').symm)]
      exact List.prefix_append ..
    · dsimp only
      rw [Function.update_of_ne hcc]

end Session

/-! ## The client's side -/

/-- The fields of an order have the widths of their types. -/
structure OMOrder.Fits (o : OMOrder) : Prop where
  ticker_id : o.ticker_id_ < 2 ^ 32
  order_id : o.order_id_ < 2 ^ 64
  price : PriceFits o.price_
  qty : o.qty_ < 2 ^ 32

def OrderManager.Fits (m : OrderManager) : Prop := ∀ t s, (m.order t s).Fits

theorem OrderManager.fits_init : OrderManager.init.Fits :=
  fun _ _ => ⟨(by decide : TickerId_INVALID < 2 ^ 32), OrderId_INVALID_lt, Price_INVALID_fits,
    Qty_INVALID_lt⟩

theorem OrderManager.Fits.setOrder {m : OrderManager} (h : m.Fits) {o : OMOrder} (ho : o.Fits)
    (t : Nat) (s : Side) : (m.setOrder t s o).Fits := by
  intro t' s'
  rw [order_setOrder]
  split
  · exact ho
  · exact h t' s'

/-- **A move** sends requests of the client, with fields of their widths. -/
theorem OrderManager.Fits.moveOrder {m m' : OrderManager} (h : m.Fits) {c t qty : Nat}
    {risk : RiskInfo} {loss : Bool} {price : Int} {side : Side} {qs : List MEClientRequest}
    (hc : c < ME_MAX_NUM_CLIENTS) (ht : t < ME_MAX_TICKERS) (hprice : PriceFits price)
    (hqty : qty < 2 ^ 32) (hnext : m.next_order_id_ < 2 ^ 64)
    (hm : m.moveOrder c risk loss t price side qty = (m', qs)) :
    m'.Fits ∧ ∀ q ∈ qs, q.client_id_ = c ∧ q.Fits := by
  have hc' : c < 2 ^ 32 := by unfold ME_MAX_NUM_CLIENTS at hc; omega
  have ht' : t < 2 ^ 32 := by unfold ME_MAX_TICKERS at ht; omega
  rcases m.moveOrder_cases c risk loss t price side qty with he | ⟨_, he⟩ | ⟨_, _, he⟩
  · obtain ⟨rfl, rfl⟩ := Prod.mk.inj (he.symm.trans hm)
    exact ⟨h, by simp⟩
  · obtain ⟨rfl, rfl⟩ := Prod.mk.inj (he.symm.trans hm)
    have ho := h t side
    refine ⟨h.setOrder (o := { m.order t side with order_state_ := .PENDING_CANCEL })
      ⟨ho.ticker_id, ho.order_id, ho.price, ho.qty⟩ t side, ?_⟩
    intro q hq
    rw [List.mem_singleton.mp hq]
    exact ⟨rfl, hc', ho.ticker_id, ho.order_id, ho.price, ho.qty⟩
  · obtain ⟨rfl, rfl⟩ := Prod.mk.inj (he.symm.trans hm)
    refine ⟨h.setOrder (o := ⟨t, m.next_order_id_, side, price, qty, .PENDING_NEW⟩)
      ⟨ht', hnext, hprice, hqty⟩ t side, ?_⟩
    intro q hq
    rw [List.mem_singleton.mp hq]
    exact ⟨rfl, hc', ht', hnext, hprice, hqty⟩

theorem OrderManager.Fits.onOrderUpdate {m : OrderManager} (h : m.Fits) {r : MEClientResponse}
    (hr : r.Fits) : (m.onOrderUpdate r).Fits := by
  intro t s
  rw [order_onOrderUpdate]
  have ho := h t s
  split
  · unfold OMOrder.applied
    cases r.type_ with
    | FILLED => exact ⟨ho.ticker_id, ho.order_id, ho.price, hr.leaves_qty⟩
    | ACCEPTED | CANCELED => exact ⟨ho.ticker_id, ho.order_id, ho.price, ho.qty⟩
    | CANCEL_REJECTED | INVALID => exact ho
  · exact ho

/-- Both moves of `moveOrders`. -/
theorem TradeEngine.moveOrders_ok {e e' : TradeEngine} {loss : Bool} {t clip : Nat}
    {bid ask : Int} {qs : List MEClientRequest}
    (h : e.moveOrders loss t bid ask clip = .ok (e', qs)) :
    t < ME_MAX_TICKERS ∧ ∃ m₁ qs₁ qs₂,
      e.order_manager_.moveOrder e.client_id_ (e.risk t) loss t bid .BUY clip = (m₁, qs₁) ∧
      m₁.moveOrder e.client_id_ (e.risk t) loss t ask .SELL clip = (e'.order_manager_, qs₂) ∧
      e' = { e with order_manager_ := e'.order_manager_ } ∧ qs = qs₁ ++ qs₂ := by
  unfold moveOrders at h
  split at h
  next ht =>
    obtain ⟨rfl, rfl⟩ := Prod.mk.inj (Except.ok.inj h)
    exact ⟨ht, _, _, _, rfl, rfl, rfl, rfl⟩
  next => exact absurd h (by simp)

/-! ## One client's view -/

namespace TradingSession

variable {conn : Nat → Nat} {cfg : Nat → Nat → RiskCfg} {τ τ' : TradingSession} {c c' : Nat}

/-- What is on its way from a client to the matching engine. -/
def unserved (τ : TradingSession) (c : Nat) : List MEClientRequest :=
  τ.session.unserved c ++ τ.sending c

/-- What is on its way from the matching engine to a client. -/
def unread (τ : TradingSession) (c : Nat) : List MEClientResponse :=
  (Session.addressedTo c (τ.session.responses ++ τ.session.answering)).drop (τ.responses_read c)

/-- The client, the exchange, and all that is between them as two channels. -/
def view (τ : TradingSession) (c : Nat) : TradingSystem RefExchange where
  client := τ.client c
  requests := τ.unserved c
  exchange := τ.reference
  responses := τ.unread c

/-- The sessions are in order, the matching engine stands for its reference, and
what is on its way has the widths of its types. -/
structure Wired (conn : Nat → Nat) (τ : TradingSession) : Prop where
  session : Session.Inv conn τ.session
  engine : EngineSim τ.session.engine τ.reference
  own : ∀ c, (τ.client c).client_id_ = c
  slots : ∀ c, (τ.client c).order_manager_.Fits
  sending : ∀ c, ∀ q ∈ τ.sending c, c < ME_MAX_NUM_CLIENTS ∧ q.client_id_ = c ∧ q.Fits
  served_le : τ.session.requests_read ≤
    τ.session.exchange.server.fifo_sequencer_.incoming_requests_.length
  read_le : ∀ c, τ.responses_read c ≤ (τ.session.gateway c).incoming_responses_.length

theorem Wired.init : Wired conn (init cfg) where
  session := Session.Inv.init
  engine := engineSim_init
  own := fun _ => rfl
  slots := fun _ => OrderManager.fits_init
  sending := fun _ _ hq => absurd hq List.not_mem_nil
  served_le := Nat.le_refl 0
  read_le := fun _ => Nat.le_refl 0

/-- What a gateway has passed on is the beginning of what is addressed to it. -/
theorem Wired.delivered (h : Wired conn τ) (c : Nat) :
    (τ.session.gateway c).incoming_responses_ <+:
      Session.addressedTo c (τ.session.responses ++ τ.session.answering) :=
  (h.session.agreement.responses c).trans ((List.prefix_append ..).filter _)

/-- The next response on its way is the next one of the gateway, if it has one. -/
theorem Wired.unread_eq (h : Wired conn τ) {r : MEClientResponse}
    (hr : (τ.session.gateway c).incoming_responses_[τ.responses_read c]? = some r) :
    τ.unread c = r ::
      (Session.addressedTo c (τ.session.responses ++ τ.session.answering)).drop
        (τ.responses_read c + 1) := by
  obtain ⟨rest, hrest⟩ := h.delivered c
  obtain ⟨hlt, hget⟩ := List.getElem?_eq_some_iff.mp hr
  unfold unread
  rw [← hrest, List.drop_append_of_le_length (Nat.le_of_lt hlt),
    List.drop_append_of_le_length hlt, List.drop_eq_getElem_cons hlt, hget]
  rfl

/-- It has the widths of its types. -/
theorem Wired.response_fits (h : Wired conn τ) {r : MEClientResponse}
    (hr : (τ.session.gateway c).incoming_responses_[τ.responses_read c]? = some r) : r.Fits := by
  have hmem := (h.delivered c).subset (List.mem_of_getElem? hr)
  rcases List.mem_append.mp (List.mem_filter.mp hmem).1 with hmem | hmem
  · exact (h.session.engine.responses r hmem).2
  · exact (h.session.engine.answering r hmem).2

/-! ## Every step, as one client sees it -/

/-- **The strategy moves its orders.** -/
theorem Wired.moveOrders (h : Wired conn τ) (hp : ProtocolInv (τ.view c))
    (hc : c < ME_MAX_NUM_CLIENTS) {loss : Bool} {t clip : Nat} {bid ask : Int} {e : TradeEngine}
    {qs : List MEClientRequest} (hbid : PriceFits bid) (hask : PriceFits ask)
    (hclip : clip < 2 ^ 32) (he : (τ.client c).moveOrders loss t bid ask clip = .ok (e, qs))
    (hids : e.order_manager_.next_order_id_ ≤ ME_MAX_ORDER_IDS) :
    Wired conn (τ.moved c e qs) ∧ ∀ c', Moves (τ.view c') ((τ.moved c e qs).view c') := by
  obtain ⟨ht, m₁, qs₁, qs₂, h₁, h₂, hclient, hqs⟩ := TradeEngine.moveOrders_ok he
  have hown : e.client_id_ = c := by
    rw [hclient]
    exact h.own c
  have hnext : (τ.client c).order_manager_.next_order_id_ ≤ ME_MAX_ORDER_IDS := hp.ids
  unfold ME_MAX_ORDER_IDS at hnext
  rw [h.own c] at h₁ h₂
  -- the two moves one after the other
  obtain ⟨hfits₁, hq₁⟩ := (h.slots c).moveOrder hc ht hbid hclip (by omega) h₁
  have hnext₁ : m₁.next_order_id_ ≤ (τ.client c).order_manager_.next_order_id_ + 1 := by
    have := next_moveOrder_le (τ.client c).order_manager_ c ((τ.client c).risk t) loss t bid .BUY
      clip
    rwa [h₁] at this
  obtain ⟨hfits₂, hq₂⟩ := hfits₁.moveOrder hc ht hask hclip (by omega) h₂
  constructor
  · refine { h with own := ?_, slots := ?_, sending := ?_ }
    · intro c'
      rw [moved_client]
      split
      next hcc => rw [hcc, hown]
      next => exact h.own c'
    · intro c'
      rw [moved_client]
      split
      · exact hfits₂
      · exact h.slots c'
    · intro c' q hq
      rw [moved_sending] at hq
      split at hq
      next hcc =>
        subst hcc
        rw [hqs] at hq
        rcases List.mem_append.mp hq with hq | hq
        · exact h.sending c' q hq
        · exact ⟨hc, (List.mem_append.mp hq).elim (hq₁ q) (hq₂ q)⟩
      next => exact h.sending c' q hq
  · intro c'
    by_cases hcc : c' = c
    · subst hcc
      refine .act (.moveOrders loss t bid ask clip) ht ?_ ?_
      · unfold TradingSystem.step view unserved
        dsimp only
        rw [he, exec_ok_bind, moved_client, moved_sending, if_pos rfl, if_pos rfl,
          List.append_assoc]
        rfl
      · unfold IdsLeft view
        dsimp only
        rw [moved_client, if_pos rfl]
        exact hids
    · have hview : (τ.moved c e qs).view c' = τ.view c' := by
        unfold view unserved
        rw [moved_client, moved_sending, if_neg hcc, if_neg hcc]
        rfl
      rw [hview]
      exact Moves.refl _

/-- **A trade engine writes a request**, which was on its way before. -/
theorem Wired.write (h : Wired conn τ) {q : MEClientRequest} {qs : List MEClientRequest}
    (hq : τ.sending c = q :: qs) :
    Wired conn (τ.written c q qs) ∧ ∀ c', Moves (τ.view c') ((τ.written c q qs).view c') := by
  obtain ⟨hc, hown, hfits⟩ := h.sending c q (by rw [hq]; exact List.mem_cons_self ..)
  constructor
  · refine { h with session := h.session.write hc hown hfits, sending := ?_ }
    intro c' q' hq'
    rw [written_sending] at hq'
    split at hq'
    next hcc =>
      subst hcc
      exact h.sending c' q' (by rw [hq]; exact List.mem_cons_of_mem _ hq')
    next => exact h.sending c' q' hq'
  · intro c'
    have hview : (τ.written c q qs).view c' = τ.view c' := by
      unfold view
      congr 1
      unfold unserved Session.unserved
      rw [written_requests, written_sending]
      split
      next hcc =>
        subst hcc
        have hle : (Session.passed (τ.written c' q qs).session c').length ≤
            (τ.session.requests c').length := (h.session.agreement.requests c').length_le
        rw [hq, List.drop_append_of_le_length hle]
        simp only [List.append_assoc, List.singleton_append]
        rfl
      next => rfl
    rw [hview]
    exact Moves.refl _

/-- **A trade engine reads a response.** -/
theorem Wired.consume (h : Wired conn τ) (hp : c < ME_MAX_NUM_CLIENTS → ProtocolInv (τ.view c))
    {r : MEClientResponse} {e : TradeEngine}
    (hr : (τ.session.gateway c).incoming_responses_[τ.responses_read c]? = some r)
    (he : (τ.client c).onOrderUpdate r = .ok e) :
    Wired conn (τ.consumed c e) ∧
      ∀ c' < ME_MAX_NUM_CLIENTS, Moves (τ.view c') ((τ.consumed c e).view c') := by
  have hticker : r.ticker_id_ < ME_MAX_TICKERS := by
    by_contra hge
    unfold TradeEngine.onOrderUpdate at he
    rw [if_neg hge] at he
    exact absurd he (by simp)
  obtain ⟨e', he', hclient, hmanager, -⟩ := onOrderUpdate_ok (τ.client c) hticker
  obtain rfl := Except.ok.inj (he.symm.trans he')
  constructor
  · refine { h with own := ?_, slots := ?_, read_le := ?_ }
    · intro c'
      rw [consumed_client]
      split
      next hcc => rw [hcc, hclient, h.own]
      next => exact h.own c'
    · intro c'
      rw [consumed_client]
      split
      · rw [hmanager]
        exact (h.slots c).onOrderUpdate (h.response_fits hr)
      · exact h.slots c'
    · intro c'
      rw [consumed_responses_read]
      split
      next hcc =>
        rw [hcc]
        exact (List.getElem?_eq_some_iff.mp hr).1
      next => exact h.read_le c'
  · intro c' hc'
    by_cases hcc : c' = c
    · subst hcc
      refine .act .consume trivial ?_ ?_
      · unfold TradingSystem.step view
        dsimp only
        rw [h.unread_eq hr]
        dsimp only
        rw [he, exec_ok_bind, consumed_client, if_pos rfl]
        unfold unread
        rw [consumed_responses_read, if_pos rfl]
        rfl
      · unfold IdsLeft view
        dsimp only
        rw [consumed_client, if_pos rfl, hmanager, next_onOrderUpdate]
        exact (hp hc').ids
    · have hview : (τ.consumed c e).view c' = τ.view c' := by
        unfold view unread
        rw [consumed_client, consumed_responses_read, if_neg hcc, if_neg hcc]
        rfl
      rw [hview]
      exact Moves.refl _

/-- The next request of the matching engine is the next one of its client. -/
theorem unserved_eq {q : MEClientRequest}
    (hq : τ.session.exchange.server.fifo_sequencer_.incoming_requests_[τ.session.requests_read]?
      = some q) (e : MatchingEngine) (rs : List MEClientResponse) (c : Nat) :
    τ.unserved c = if q.client_id_ = c then q :: (τ.processed e rs).unserved c
      else (τ.processed e rs).unserved c := by
  obtain ⟨hlt, hget⟩ := List.getElem?_eq_some_iff.mp hq
  unfold unserved Session.unserved
  rw [List.drop_eq_getElem_cons hlt, hget]
  unfold requestsOf
  rw [List.filter_cons]
  by_cases hcc : q.client_id_ = c
  · rw [if_pos (decide_eq_true hcc), if_pos hcc]
    rfl
  · rw [if_neg (by simpa using hcc), if_neg hcc]
    rfl

/-- What is addressed to a client goes behind what it has not read. -/
theorem Wired.unread_processed (h : Wired conn τ) (hidle : τ.session.answering = [])
    (e : MatchingEngine) (evs : List Event) (c : Nat) :
    (τ.processed e (LowLatency.responses evs)).unread c = τ.unread c ++ forClient c evs := by
  have hle := (h.read_le c).trans (h.delivered c).length_le
  unfold unread processed
  dsimp only
  rw [hidle, List.append_nil] at hle ⊢
  unfold Session.addressedTo at hle ⊢
  rw [List.filter_append, List.drop_append_of_le_length hle]
  rfl

/-- Whoever sent the next request vouches for it. -/
theorem Wired.admits (h : Wired conn τ) (hp : ∀ c < ME_MAX_NUM_CLIENTS, ProtocolInv (τ.view c))
    {q : MEClientRequest}
    (hq : τ.session.exchange.server.fifo_sequencer_.incoming_requests_[τ.session.requests_read]?
      = some q)
    (hprice : τ.reference.PriceFits q) : τ.reference.Admits q := by
  have hsender : q.client_id_ < ME_MAX_NUM_CLIENTS :=
    (h.session.engine.published q (List.mem_of_getElem? hq)).1.1
  have hwaiting : (τ.view q.client_id_).requests =
      q :: (τ.processed τ.session.engine []).unserved q.client_id_ := by
    show τ.unserved q.client_id_ = _
    rw [unserved_eq hq τ.session.engine [], if_pos rfl]
  exact (hp _ hsender).admits hwaiting hprice

/-- **The matching engine processes a request.** To everyone but its sender it is
the request of another client. -/
theorem Wired.process (h : Wired conn τ)
    (hp : ∀ c < ME_MAX_NUM_CLIENTS, ProtocolInv (τ.view c)) {q : MEClientRequest}
    {e : MatchingEngine} {evs : List Event} (hidle : τ.session.answering = [])
    (hq : τ.session.exchange.server.fifo_sequencer_.incoming_requests_[τ.session.requests_read]?
      = some q)
    (hprice : τ.reference.PriceFits q) (hfits : τ.reference.StepFits q)
    (he : τ.session.engine.processClientRequest q = .ok (e, evs)) :
    Wired conn (τ.processed e (LowLatency.responses evs)) ∧ ∀ c < ME_MAX_NUM_CLIENTS,
      Moves (τ.view c) ((τ.processed e (LowLatency.responses evs)).view c) := by
  have hadmits := h.admits hp hq hprice
  have hbooks := (hp 0 (by decide)).books
  obtain ⟨e', he', hsim⟩ := engine_step_sim h.engine hbooks hadmits hfits
  obtain ⟨rfl, rfl⟩ := Prod.mk.inj (Except.ok.inj (he.symm.trans he'))
  have href : ∀ rs, (τ.processed e rs).reference = τ.reference.step q := by
    intro rs
    unfold reference processed RefExchange.run
    rw [List.take_add_one, hq, List.foldl_append]
    rfl
  constructor
  · refine { h with session := h.session.process hq he, engine := ?_, served_le := ?_ }
    · rw [href]
      exact hsim
    · exact (List.getElem?_eq_some_iff.mp hq).1
  · intro c hc
    have hown : (τ.view c).client.client_id_ = c := h.own c
    have hunread := h.unread_processed hidle e (τ.reference.stepEvents wrap32 q) c
    have hids : IdsLeft ((τ.processed e (LowLatency.responses
      (τ.reference.stepEvents wrap32 q))).view c) := (hp c hc).ids
    by_cases hcc : q.client_id_ = c
    · refine .act .serve ?_ ?_ hids
      · intro q' hq'
        have hhead : (τ.view c).requests = q :: (τ.processed e []).unserved c := by
          show τ.unserved c = _
          rw [unserved_eq hq e [], if_pos hcc]
        rw [hhead] at hq'
        obtain rfl := Option.some.inj hq'
        exact ⟨hprice, hfits⟩
      · unfold TradingSystem.step TradingSystem.process view RefExchange.serve
        dsimp only
        rw [unserved_eq hq e (LowLatency.responses (τ.reference.stepEvents wrap32 q)), if_pos hcc]
        dsimp only
        rw [exec_ok_bind, exec_pure, href, hunread, h.own]
        rfl
    · refine .act (.serveOther q) ⟨fun heq => hcc (heq.trans hown), hadmits, hfits⟩ ?_ hids
      unfold TradingSystem.step TradingSystem.process view RefExchange.serve
      dsimp only
      rw [exec_ok_bind, exec_pure, href, hunread, h.own,
        unserved_eq hq e (LowLatency.responses (τ.reference.stepEvents wrap32 q)), if_neg hcc]
      rfl

/-- **Any other step of the session** at most changes the order of requests. -/
theorem Wired.transport (hconn : Function.Injective conn) (h : Wired conn τ) {σ : Session}
    (hs : Session.Step conn τ.session σ) (hrequests : σ.requests = τ.session.requests)
    (hread : σ.requests_read = τ.session.requests_read) :
    Wired conn { τ with session := σ } ∧
      ∀ c, Moves (τ.view c) (view { τ with session := σ } c) := by
  have hcarries := Session.carries_of_step hconn h.session h.served_le hs hrequests hread
  have href : reference { τ with session := σ } = τ.reference := by
    unfold reference
    rw [(hcarries 0).served]
  constructor
  · refine { h with
      session := h.session.step hconn hs, engine := ?_, served_le := ?_, read_le := ?_ }
    · rw [href]
      show EngineSim σ.engine _
      rw [(hcarries 0).engine]
      exact h.engine
    · exact (hcarries 0).served_le
    · intro c
      exact (h.read_le c).trans (hcarries c).delivered.length_le
  · intro c
    have hview : view { τ with session := σ } c =
        { τ.view c with requests := unserved { τ with session := σ } c } := by
      unfold view unread
      rw [href, (hcarries c).answers]
    rw [hview]
    exact .reorder ((hcarries c).unserved.append_right _)

/-- **Forward simulation**, one step, for all clients at once. -/
theorem Wired.step (hconn : Function.Injective conn) (h : Wired conn τ)
    (hp : ∀ c < ME_MAX_NUM_CLIENTS, ProtocolInv (τ.view c)) (hs : Step conn τ τ') :
    Wired conn τ' ∧ ∀ c < ME_MAX_NUM_CLIENTS, Moves (τ.view c) (τ'.view c) := by
  cases hs with
  | moveOrders c hc hbid hask hclip he hids =>
    obtain ⟨hw, hm⟩ := h.moveOrders (hp c hc) hc hbid hask hclip he hids
    exact ⟨hw, fun c' _ => hm c'⟩
  | write c hq =>
    obtain ⟨hw, hm⟩ := h.write hq
    exact ⟨hw, fun c' _ => hm c'⟩
  | consume c hr he => exact h.consume (hp c) hr he
  | process hidle hq hprice hfits he => exact h.process hp hidle hq hprice hfits he
  | transport hs hrequests hread =>
    obtain ⟨hw, hm⟩ := h.transport hconn hs hrequests hread
    exact ⟨hw, fun c' _ => hm c'⟩

/-- What holds in every reachable state. -/
structure Inv (conn : Nat → Nat) (cfg : Nat → Nat → RiskCfg) (τ : TradingSession) : Prop where
  wired : Wired conn τ
  follows : ∀ c < ME_MAX_NUM_CLIENTS, Relation.ReflTransGen Moves
    (TradingSystem.init RefExchange.init c (cfg c)) (τ.view c)
  protocol : ∀ c < ME_MAX_NUM_CLIENTS, ProtocolInv (τ.view c)
  position : ∀ c < ME_MAX_NUM_CLIENTS, PositionInv (cfg c) (τ.view c)

theorem Inv.reachable (hconn : Function.Injective conn) (hτ : Reachable conn cfg τ) :
    Inv conn cfg τ := by
  induction hτ with
  | init =>
    exact ⟨Wired.init, fun _ _ => .refl, fun c hc => protocolInv_init hc (cfg c),
      fun c _ => positionInv_init RefExchange.init c (cfg c)⟩
  | step _ hs ih =>
    obtain ⟨hw, hm⟩ := ih.wired.step hconn ih.protocol hs
    exact ⟨hw, fun c hc => (ih.follows c hc).tail (hm c hc),
      fun c hc => (ih.protocol c hc).moves (hm c hc),
      fun c hc => (ih.position c hc).moves (ih.protocol c hc) (hm c hc)⟩

/-- What rests of a client's side at the matching engine is the order in its slot. -/
theorem Inv.rests (h : Inv conn cfg τ) (hc : c < ME_MAX_NUM_CLIENTS) {t : Nat}
    (ht : t < ME_MAX_TICKERS) (b : Bool) :
    ownOrders c (restingOrders (τ.session.engine t) b) = [] ∨
      ∃ o, ownOrders c (restingOrders (τ.session.engine t) b) = [o] ∧
        o.id_.client_order_id_ = ((τ.client c).order_manager_.order t (sideOf b)).order_id_ := by
  have hp := h.protocol c hc
  have hslot := hp.slots t ht b
  have hown : (τ.view c).client.client_id_ = c := h.wired.own c
  rw [hown] at hslot
  rw [restingOrders_sim (h.wired.engine t) b]
  refine (hslot.rests (hp.books t)).imp_right ?_
  rintro ⟨o, hone, hid, -⟩
  exact ⟨o, hone, hid⟩

/-- The position with what is open on the side is within the limit. -/
theorem Inv.exposed (h : Inv conn cfg τ) (hc : c < ME_MAX_NUM_CLIENTS) {t : Nat}
    (ht : t < ME_MAX_TICKERS) (hsmall : (cfg c t).Small) (b : Bool) :
    ((τ.client c).ticker_position_ t).toward b +
      exposure c t b (τ.unserved c) (restingOrders (τ.session.engine t) b) (τ.unread c) ≤
      (cfg c t).max_position_ := by
  have hlimit := (h.position c hc).exposure_le (h.protocol c hc) ht hsmall b
  have hown : (τ.view c).client.client_id_ = c := h.wired.own c
  rw [hown] at hlimit
  rw [restingOrders_sim (h.wired.engine t) b]
  exact hlimit

/-- A client can take its next response. -/
theorem Inv.takes (h : Inv conn cfg τ) (hc : c < ME_MAX_NUM_CLIENTS) {r : MEClientResponse}
    (hr : (τ.session.gateway c).incoming_responses_[τ.responses_read c]? = some r) :
    ∃ e, (τ.client c).onOrderUpdate r = .ok e := by
  have hmem : r ∈ (τ.view c).responses := by
    show r ∈ τ.unread c
    rw [h.wired.unread_eq hr]
    exact List.mem_cons_self ..
  obtain ⟨e, he, -⟩ := onOrderUpdate_ok (τ.client c) ((h.protocol c hc).responses r hmem).ticker
  exact ⟨e, he⟩

/-- Client 3 offers 10 at a price of 5. The request arrives in two pieces, is
processed, and the trade engine reads the response to it. -/
theorem reachable_round_trip : ∃ τ, Reachable id (fun _ _ => ⟨100, 100⟩) τ ∧
    τ.responses_read 3 = 1 ∧ (restingOrders (τ.session.engine 1) false).length = 1 := by
  have hask : PriceFits 5 := ⟨by decide, by decide⟩
  have hmove : (TradeEngine.init 3 fun _ => ⟨100, 100⟩).moveOrders false 1 Price_INVALID 5 10 =
    .ok (_, [⟨.NEW, 3, 1, 1, .SELL, 5, 10⟩]) := rfl
  have h₁ := (@Reachable.init id fun _ _ => ⟨100, 100⟩).step
    (.moveOrders 3 (by decide) Price_INVALID_fits hask (by decide) hmove (by decide))
  have h₂ := h₁.step (.write 3 rfl)
  have h₃ := h₂.step (.transport (.sendRequest 3 rfl rfl) rfl rfl)
  have h₄ := h₃.step (.transport (.flushGateway 3 10 (by decide)) rfl rfl)
  have h₅ := h₄.step (.transport
    (.recvRequests 3 10 0 (by decide) (by decide) (by decide) rfl) rfl rfl)
  have h₆ := h₅.step (.transport (.flushGateway 3 28 (by decide)) rfl rfl)
  have h₇ := h₆.step (.transport
    (.recvRequests 3 28 0 (by decide) (by decide) (by decide) rfl) rfl rfl)
  have h₈ := h₇.step (.transport
    (.publish ⟨_, ⟨List.Perm.refl _, List.pairwise_singleton _ _⟩, rfl⟩) rfl rfl)
  -- no request was read before
  have h₉ := h₈.step (.process (q := ⟨.NEW, 3, 1, 1, .SELL, 5, 10⟩) rfl rfl
    (show RefExchange.init.PriceFits _ by decide) (show RefExchange.init.StepFits _ by decide) rfl)
  have h₁₀ := h₉.step (.transport (.answer rfl) rfl rfl)
  have h₁₁ := h₁₀.step (.transport (.sendResponse rfl rfl) rfl rfl)
  have h₁₂ := h₁₁.step (.transport (.flushServer 3 50 (by decide)) rfl rfl)
  have h₁₃ := h₁₂.step (.transport
    (.recvResponses 3 50 (by decide) (by decide) (by decide)) rfl rfl)
  exact ⟨_, h₁₃.step (.consume 3 rfl rfl), by decide, by decide⟩

end TradingSession

end LowLatency
