import LowLatency.Matcher.AnyOrder
import LowLatency.Session.Trading

/-!
# The random traders of `trading_main`

With `AlgoType::RANDOM` the trade engine has no strategy, and `main` itself writes
the requests: 10000 times a new order with a random ticker, price, quantity and
side, and after each of them a cancel of a random one of the orders so far. It may
stop early, and then it has written a prefix of these requests.

Whatever `rand()` returns, such requests can be taken in any order
(`requests_anyOrder`). So it does not matter in which order the requests of several
random traders arrive, nor that requests received at the same time may change
places in the sequencer: up to 104 traders on the real transport never make the
matching engine fail, and its books are those of the reference
(**`random_traders_served`**).
-/

namespace LowLatency

open Lib

/-! ## The loop of `main` -/

/-- The local variables of the loop, and how many random numbers were drawn. -/
structure RandomTrader where
  order_id : Nat
  client_requests_vec : List MEClientRequest
  drawn : Nat

namespace RandomTrader

/-- The number of rounds. -/
def rounds : Nat := 10000

/-- Before the loop: a price was drawn for every ticker. -/
def start (client_id : Nat) : RandomTrader := ⟨wrap32 (client_id * 1000), [], ME_MAX_TICKERS⟩

def ticker_base_price (rand : Nat → Nat) (i : Nat) : Int := (rand i % 100 : Nat) + 100

/-- The new order of a round. -/
def new_request (client_id : Nat) (rand : Nat → Nat) (s : RandomTrader) : MEClientRequest :=
  let ticker_id := rand s.drawn % ME_MAX_TICKERS
  { type_ := .NEW
    client_id_ := client_id
    ticker_id_ := ticker_id
    order_id_ := s.order_id
    side_ := if rand (s.drawn + 3) % 2 ≠ 0 then .BUY else .SELL
    price_ := ticker_base_price rand ticker_id + (rand (s.drawn + 1) % 10 : Nat) + 1
    qty_ := 1 + rand (s.drawn + 2) % 100 + 1 }

/-- The orders so far, with that of the round. -/
def pushed (client_id : Nat) (rand : Nat → Nat) (s : RandomTrader) : List MEClientRequest :=
  s.client_requests_vec ++ [s.new_request client_id rand]

theorem pushed_pos (client_id : Nat) (rand : Nat → Nat) (s : RandomTrader) :
    0 < (s.pushed client_id rand).length := by
  simp [pushed]

/-- The cancel of a round. -/
def cxl_request (client_id : Nat) (rand : Nat → Nat) (s : RandomTrader) : MEClientRequest :=
  { (s.pushed client_id rand).get
      ⟨rand (s.drawn + 4) % (s.pushed client_id rand).length,
        Nat.mod_lt _ (s.pushed_pos client_id rand)⟩ with
    type_ := .CANCEL }

/-- The variables after a round. -/
def next (client_id : Nat) (rand : Nat → Nat) (s : RandomTrader) : RandomTrader where
  order_id := s.order_id + 1
  client_requests_vec := s.pushed client_id rand
  drawn := s.drawn + 5

/-- What `n` rounds write. -/
def requests (client_id : Nat) (rand : Nat → Nat) : Nat → RandomTrader → List MEClientRequest
  | 0, _ => []
  | n + 1, s => s.new_request client_id rand :: s.cxl_request client_id rand ::
      requests client_id rand n (s.next client_id rand)

/-- What the loop writes. -/
def allRequests (client_id : Nat) (rand : Nat → Nat) : List MEClientRequest :=
  requests client_id rand rounds (start client_id)

/-! ## What it writes -/

/-- A request of the client, for an order with an id below `n`. -/
structure Of (client_id n : Nat) (q : MEClientRequest) : Prop where
  client : q.client_id_ = client_id
  ticker : q.ticker_id_ < ME_MAX_TICKERS
  order : q.order_id_ < n
  type : q.type_ ≠ .INVALID

variable {client_id n : Nat} {rand : Nat → Nat} {s : RandomTrader} {q : MEClientRequest}

theorem Of.mono {m : Nat} (h : Of client_id n q) (hle : n ≤ m) : Of client_id m q :=
  ⟨h.client, h.ticker, Nat.lt_of_lt_of_le h.order hle, h.type⟩

theorem of_new_request (client_id : Nat) (rand : Nat → Nat) (s : RandomTrader) :
    Of client_id (s.order_id + 1) (s.new_request client_id rand) :=
  ⟨rfl, Nat.mod_lt _ (by decide), Nat.lt_succ_self _, by simp [new_request]⟩

theorem of_pushed (rand : Nat → Nat)
    (h : ∀ q ∈ s.client_requests_vec, Of client_id s.order_id q) :
    ∀ q ∈ s.pushed client_id rand, Of client_id (s.order_id + 1) q := by
  intro q hq
  rcases List.mem_append.mp hq with hq | hq
  · exact (h q hq).mono (Nat.le_succ _)
  · rw [List.mem_singleton.mp hq]
    exact of_new_request client_id rand s

theorem of_cxl_request (h : ∀ q ∈ s.client_requests_vec, Of client_id s.order_id q) :
    Of client_id (s.order_id + 1) (s.cxl_request client_id rand) := by
  have hmem := of_pushed rand h _ (List.get_mem _
    ⟨rand (s.drawn + 4) % (s.pushed client_id rand).length,
      Nat.mod_lt _ (s.pushed_pos client_id rand)⟩)
  exact ⟨hmem.client, hmem.ticker, hmem.order, by simp [cxl_request]⟩

/-- Every request is of the client, for an order of the loop. -/
theorem of_requests (h : ∀ q ∈ s.client_requests_vec, Of client_id s.order_id q) :
    ∀ q ∈ requests client_id rand n s, Of client_id (s.order_id + n) q := by
  induction n generalizing s with
  | zero => exact fun q hq => absurd hq List.not_mem_nil
  | succ n ih =>
    intro q hq
    rcases List.mem_cons.mp hq with rfl | hq
    · exact (of_new_request client_id rand s).mono (by omega)
    rcases List.mem_cons.mp hq with rfl | hq
    · exact (of_cxl_request h).mono (by omega)
    · exact (ih (of_pushed rand h) q hq).mono (by show s.order_id + 1 + n ≤ _; omega)

theorem newRequests_succ : newRequests (requests client_id rand (n + 1) s) =
    s.new_request client_id rand ::
      newRequests (requests client_id rand n (s.next client_id rand)) := by
  show List.filter _ (_ :: _ :: _) = _
  rw [List.filter_cons_of_pos (by simp [new_request]),
    List.filter_cons_of_neg (by simp [cxl_request])]
  rfl

/-- The ids of the new orders count up. -/
theorem newRequests_ids (client_id : Nat) (rand : Nat → Nat) (n : Nat) (s : RandomTrader) :
    (newRequests (requests client_id rand n s)).map MEClientRequest.key =
      (List.range' s.order_id n).map fun i => (client_id, i) := by
  induction n generalizing s with
  | zero => rfl
  | succ n ih =>
    rw [newRequests_succ, List.map_cons, ih, List.range'_succ, List.map_cons]
    rfl

/-- Prices lie between 101 and 209. -/
theorem new_request_inBand (client_id : Nat) (rand : Nat → Nat) (s : RandomTrader) :
    InBand 101 (s.new_request client_id rand).price_ := by
  unfold InBand new_request ticker_base_price
  dsimp only
  omega

theorem newRequests_forall {P : MEClientRequest → Prop}
    (h : ∀ s : RandomTrader, P (s.new_request client_id rand)) :
    ∀ q ∈ newRequests (requests client_id rand n s), P q := by
  induction n generalizing s with
  | zero => exact fun q hq => absurd hq List.not_mem_nil
  | succ n ih =>
    intro q hq
    rw [newRequests_succ] at hq
    rcases List.mem_cons.mp hq with rfl | hq
    · exact h s
    · exact ih q hq

/-- What holds of every new order, and of a cancel if of its order, holds of all requests. -/
theorem requests_forall {P : MEClientRequest → Prop}
    (hnew : ∀ s : RandomTrader, P (s.new_request client_id rand))
    (hcxl : ∀ q : MEClientRequest, P q → P { q with type_ := .CANCEL })
    (h : ∀ q ∈ s.client_requests_vec, P q) : ∀ q ∈ requests client_id rand n s, P q := by
  induction n generalizing s with
  | zero => exact fun q hq => absurd hq List.not_mem_nil
  | succ n ih =>
    have hpushed : ∀ q ∈ s.pushed client_id rand, P q := by
      intro q hq
      rcases List.mem_append.mp hq with hq | hq
      · exact h q hq
      · rw [List.mem_singleton.mp hq]
        exact hnew s
    intro q hq
    rcases List.mem_cons.mp hq with rfl | hq
    · exact hnew s
    rcases List.mem_cons.mp hq with rfl | hq
    · exact hcxl _ (hpushed _ (List.get_mem ..))
    · exact ih hpushed q hq

/-- The requests have the widths of their types. -/
theorem fits_allRequests (hc : client_id < ME_MAX_NUM_CLIENTS) :
    ∀ q ∈ allRequests client_id rand, q.client_id_ = client_id ∧ q.Fits := by
  have hof : ∀ q ∈ allRequests client_id rand,
      Of client_id ((start client_id).order_id + rounds) q :=
    of_requests fun q hq => absurd hq List.not_mem_nil
  have hvalues : ∀ q ∈ allRequests client_id rand, PriceFits q.price_ ∧ q.qty_ < 2 ^ 32 := by
    refine requests_forall (fun s => ?_) (fun q hq => hq) fun q hq => absurd hq List.not_mem_nil
    obtain ⟨hlo, hhi⟩ := new_request_inBand client_id rand s
    refine ⟨⟨by omega, by omega⟩, ?_⟩
    show 1 + rand (s.drawn + 2) % 100 + 1 < 2 ^ 32
    omega
  intro q hq
  obtain ⟨hprice, hqty⟩ := hvalues q hq
  have hq := hof q hq
  have hid := hq.order
  have hticker := hq.ticker
  have hstart : (start client_id).order_id < 2 ^ 32 := Nat.mod_lt _ (by decide)
  simp only [rounds, ME_MAX_NUM_CLIENTS, ME_MAX_TICKERS] at hid hc hticker
  exact ⟨hq.client, by rw [hq.client]; omega, by omega, by omega, hprice, hqty⟩

/-- **The requests of any traders can be taken in any order**, as long as the pools
have a block for every order. -/
theorem requests_anyOrder {traders : List Nat} (hnodup : traders.Nodup)
    (hlt : ∀ c ∈ traders, c < ME_MAX_NUM_CLIENTS)
    (hfew : traders.length * rounds < ME_MAX_ORDER_IDS) (rand : Nat → Nat → Nat) :
    AnyOrder 101 (traders.flatMap fun c => allRequests c (rand c)) := by
  have hflat : newRequests (traders.flatMap fun c => allRequests c (rand c)) =
      traders.flatMap fun c => newRequests (allRequests c (rand c)) := List.filter_flatMap ..
  have hof : ∀ q ∈ traders.flatMap fun c => allRequests c (rand c),
      ∃ c ∈ traders, Of c (wrap32 (c * 1000) + rounds) q := by
    intro q hq
    obtain ⟨c, hc, hq⟩ := List.mem_flatMap.mp hq
    exact ⟨c, hc, of_requests (s := start c) (fun q hq => absurd hq List.not_mem_nil) q hq⟩
  have hall : ∀ {P : MEClientRequest → Prop},
      (∀ c (s : RandomTrader), P (s.new_request c (rand c))) →
      ∀ q ∈ newRequests (traders.flatMap fun c => allRequests c (rand c)), P q := by
    intro P hP q hq
    rw [hflat] at hq
    obtain ⟨c, -, hq⟩ := List.mem_flatMap.mp hq
    exact newRequests_forall (hP c) q hq
  refine ⟨?_, ?_, ?_, ?_, ?_, ?_, ?_, ?_⟩
  · intro q hq
    obtain ⟨c, _, h⟩ := hof q hq
    exact h.ticker
  · intro q hq
    obtain ⟨c, hc, h⟩ := hof q hq
    exact h.client ▸ hlt c hc
  · intro q hq
    obtain ⟨c, hc, h⟩ := hof q hq
    have hid := h.order
    have hwrap : wrap32 (c * 1000) ≤ c * 1000 := Nat.mod_le _ _
    have hclient := hlt c hc
    simp only [rounds, ME_MAX_NUM_CLIENTS, ME_MAX_ORDER_IDS] at hid hclient ⊢
    omega
  · intro q hq
    obtain ⟨c, _, h⟩ := hof q hq
    exact h.type
  · refine hall fun c s => ?_
    unfold new_request
    dsimp only
    split
    · exact .inl rfl
    · exact .inr rfl
  · exact hall fun c s => new_request_inBand c (rand c) s
  · rw [hflat, List.map_flatMap, List.nodup_flatMap]
    refine ⟨fun c _ => ?_, hnodup.imp fun {c c'} hne => ?_⟩
    · rw [allRequests, newRequests_ids]
      exact List.Nodup.map (fun i j he => (Prod.mk.inj he).2) List.nodup_range'
    · rw [Function.onFun, allRequests, allRequests, newRequests_ids, newRequests_ids]
      intro k hk hk'
      obtain ⟨_, _, rfl⟩ := List.mem_map.mp hk
      obtain ⟨_, _, he⟩ := List.mem_map.mp hk'
      exact hne (Prod.mk.inj he).1.symm
  · have hlen : ∀ c, (newRequests (allRequests c (rand c))).length = rounds := by
      intro c
      have hids := congrArg List.length (newRequests_ids c (rand c) rounds (start c))
      rwa [List.length_map, List.length_map, List.length_range'] at hids
    rw [hflat, List.length_flatMap]
    simp only [hlen, List.map_const', List.sum_replicate_nat]
    exact hfew

/-- Requests that come from the traders, client by client, come from them all. -/
theorem subperm_allRequests {traders : Finset Nat} {rand : Nat → Nat → Nat}
    {qs : List MEClientRequest} (hown : ∀ c, (requestsOf c qs).Subperm
      (if c ∈ traders then allRequests c (rand c) else [])) :
    qs.Subperm (traders.toList.flatMap fun c => allRequests c (rand c)) := by
  rw [List.subperm_ext_iff]
  intro q hq
  have hof := hown q.client_id_
  have hmem : q.client_id_ ∈ traders := by
    by_contra hno
    rw [if_neg hno] at hof
    exact absurd (hof.subset (List.mem_filter.mpr ⟨hq, decide_eq_true rfl⟩)) List.not_mem_nil
  rw [if_pos hmem] at hof
  have hcount := hof.count_le q
  have hfilter : (requestsOf q.client_id_ qs).count q = qs.count q :=
    List.count_filter (decide_eq_true rfl)
  rw [hfilter] at hcount
  refine hcount.trans ?_
  refine List.Sublist.count_le q ?_
  exact List.sublist_flatten_of_mem (List.mem_map_of_mem (Finset.mem_toList.mpr hmem))

/-- **What the traders write can be taken in whatever order it arrives**, as far as it
arrives. -/
theorem admissible {traders : Finset Nat}
    (hlt : ∀ c ∈ traders, c < ME_MAX_NUM_CLIENTS)
    (hfew : traders.card * rounds < ME_MAX_ORDER_IDS) {rand : Nat → Nat → Nat}
    {qs : List MEClientRequest} (hown : ∀ c, (requestsOf c qs).Subperm
      (if c ∈ traders then allRequests c (rand c) else [])) : Admissible qs :=
  ((requests_anyOrder traders.nodup_toList (fun c hc => hlt c (Finset.mem_toList.mp hc))
    (by rwa [Finset.length_toList]) rand).subperm (subperm_allRequests hown)).admissible

end RandomTrader

/-! ## What the matching engine has read -/

/-- The last request of a run. -/
theorem MatchingEngine.run_snoc_inv {e e'' : MatchingEngine} {qs : List MEClientRequest}
    {q : MEClientRequest} {evss : List (List Event)} (h : e.run (qs ++ [q]) = .ok (e'', evss)) :
    ∃ e' evss' evs, e.run qs = .ok (e', evss') ∧ e'.processClientRequest q = .ok (e'', evs) := by
  induction qs generalizing e evss with
  | nil =>
    obtain ⟨e₁, evs, _, hstep, hrest, _⟩ := run_cons_inv h
    obtain ⟨rfl, _⟩ := Prod.mk.inj (Except.ok.inj hrest)
    exact ⟨e, [], evs, rfl, hstep⟩
  | cons q' qs ih =>
    obtain ⟨e₁, evs₁, _, hstep, hrest, _⟩ := run_cons_inv h
    obtain ⟨e', evss', evs, hrun, hlast⟩ := ih hrest
    refine ⟨e', evs₁ :: evss', evs, ?_, hlast⟩
    simp only [run, hstep, exec_ok_bind, hrun, exec_pure]

namespace Session

variable {conn : Nat → Nat} {σ σ' : Session}

/-- The requests that the matching engine has read. -/
def served (σ : Session) : List MEClientRequest :=
  σ.exchange.server.fifo_sequencer_.incoming_requests_.take σ.requests_read

/-- What a client has written is what was read of it and what is on its way, and
the matching engine is what the requests read have made of it. -/
structure Accounted (conn : Nat → Nat) (σ : Session) : Prop where
  inv : Inv conn σ
  read_le : σ.requests_read ≤ σ.exchange.server.fifo_sequencer_.incoming_requests_.length
  written : ∀ c, (requestsOf c σ.served ++ σ.unserved c).Perm (σ.requests c)
  engine : ∃ evss, MatchingEngine.init.run σ.served = .ok (σ.engine, evss)

namespace Accounted

theorem init : Accounted conn Session.init where
  inv := .init
  read_le := Nat.le_refl 0
  written := fun _ => List.Perm.refl _
  engine := ⟨[], rfl⟩

theorem write (h : Accounted conn σ) {r : MEClientRequest} {c : Nat} (hc : c < ME_MAX_NUM_CLIENTS)
    (hr : r.client_id_ = c) (hfits : r.Fits) : Accounted conn { σ with
      requests := Function.update σ.requests c (σ.requests c ++ [r]) } := by
  refine ⟨h.inv.write hc hr hfits, h.read_le, fun c' => ?_, h.engine⟩
  have hle := (h.inv.agreement.requests c').length_le
  unfold unserved
  dsimp only
  by_cases hcc : c' = c
  · subst hcc
    have hdrop : (σ.requests c' ++ [r]).drop (σ.passed c').length =
        (σ.requests c').drop (σ.passed c').length ++ [r] := List.drop_append_of_le_length hle
    rw [Function.update_self]
    show (requestsOf c' σ.served ++ (_ ++ (_ ++ List.drop (σ.passed c').length _))).Perm _
    rw [hdrop, ← List.append_assoc, ← List.append_assoc, ← List.append_assoc]
    refine List.Perm.append_right _ ?_
    rw [List.append_assoc, List.append_assoc]
    exact h.written c'
  · rw [Function.update_of_ne hcc]
    exact h.written c'

theorem process (h : Accounted conn σ) {q : MEClientRequest} {e : MatchingEngine}
    {evs : List Event} {rs : List MEClientResponse}
    (hinv : Inv conn { σ with engine := e, requests_read := σ.requests_read + 1, answering := rs })
    (hq : σ.exchange.server.fifo_sequencer_.incoming_requests_[σ.requests_read]? = some q)
    (he : σ.engine.processClientRequest q = .ok (e, evs)) : Accounted conn
      { σ with engine := e, requests_read := σ.requests_read + 1, answering := rs } := by
  obtain ⟨hlt, hget⟩ := List.getElem?_eq_some_iff.mp hq
  have hserved : served { σ with
      engine := e, requests_read := σ.requests_read + 1, answering := rs } = σ.served ++ [q] := by
    unfold served
    rw [List.take_add_one, hq]
    rfl
  refine ⟨hinv, hlt, fun c => ?_, ?_⟩
  · refine List.Perm.trans (List.Perm.of_eq ?_) (h.written c)
    rw [hserved]
    unfold unserved passed
    rw [List.drop_eq_getElem_cons hlt, hget, requestsOf_append]
    have hcons := requestsOf_append c [q]
      (σ.exchange.server.fifo_sequencer_.incoming_requests_.drop (σ.requests_read + 1))
    rw [List.singleton_append] at hcons
    rw [hcons]
    simp only [List.append_assoc]
  · obtain ⟨evss, hrun⟩ := h.engine
    rw [hserved]
    exact ⟨_, MatchingEngine.run_snoc hrun he⟩

/-- A step that carries all messages on. -/
theorem carried (h : Accounted conn σ) (hinv : Inv conn σ')
    (hcarries : ∀ c, Carries c σ σ') (hrequests : σ'.requests = σ.requests) :
    Accounted conn σ' := by
  refine ⟨hinv, (hcarries 0).served_le, fun c => ?_, ?_⟩
  · unfold served
    rw [(hcarries c).served, hrequests]
    exact (List.Perm.append_left _ (hcarries c).unserved).trans (h.written c)
  · unfold served
    rw [(hcarries 0).served, (hcarries 0).engine]
    exact h.engine

theorem step (hconn : Function.Injective conn) (h : Accounted conn σ) (hs : Step conn σ σ') :
    Accounted conn σ' := by
  have hinv := h.inv.step hconn hs
  have hcarries := carries_of_step hconn h.inv h.read_le hs
  cases hs with
  | write c r hc hr hfits => exact h.write hc hr hfits
  | process _ hq he => exact h.process hinv hq he
  | _ => exact h.carried hinv (hcarries rfl rfl) rfl

theorem reachable (hconn : Function.Injective conn) (hσ : Reachable conn σ) :
    Accounted conn σ := by
  induction hσ with
  | init => exact .init
  | step _ hs ih => exact ih.step hconn hs

/-- Of a client nothing is published that it has not written. -/
theorem published (h : Accounted conn σ) (c : Nat) :
    (requestsOf c σ.exchange.server.fifo_sequencer_.incoming_requests_).Subperm (σ.requests c) := by
  refine List.Subperm.trans ?_ (h.written c).subperm
  have hsplit := List.take_append_drop σ.requests_read
    σ.exchange.server.fifo_sequencer_.incoming_requests_
  rw [← hsplit, requestsOf_append]
  refine List.Sublist.subperm ?_
  refine (List.append_sublist_append_left _).mpr ?_
  exact List.sublist_append_left ..

/-- **What is admissible is served**: the matching engine is where the reference is, and it
processes the next request. -/
theorem serves (h : Accounted conn σ)
    (hadm : Admissible σ.exchange.server.fifo_sequencer_.incoming_requests_) :
    (MatchingEngine.init.run σ.served =
      .ok (σ.engine, RefExchange.init.runEvents wrap32 σ.served) ∧
      EngineSim σ.engine (RefExchange.init.run σ.served)) ∧
    ∀ q, σ.exchange.server.fifo_sequencer_.incoming_requests_[σ.requests_read]? = some q →
      ∃ e evs, σ.engine.processClientRequest q = .ok (e, evs) := by
  obtain ⟨evss, hrun⟩ := h.engine
  -- an admissible beginning is a run of the engine
  have hruns : ∀ qs rest, qs ++ rest = σ.exchange.server.fifo_sequencer_.incoming_requests_ →
      ∃ e, MatchingEngine.init.run qs = .ok (e, RefExchange.init.runEvents wrap32 qs) ∧
        EngineSim e (RefExchange.init.run qs) := by
    intro qs rest hsplit
    rw [← hsplit] at hadm
    have hbegin := hadm.of_append
    exact engine_run_sim engineSim_init (fun _ => RefBook.inv_init) hbegin.admits hbegin.fits
  obtain ⟨e, hserved, hsim⟩ := hruns σ.served _ (List.take_append_drop ..)
  obtain ⟨rfl, -⟩ := Prod.mk.inj (Except.ok.inj (hrun.symm.trans hserved))
  refine ⟨⟨hserved, hsim⟩, fun q hq => ?_⟩
  have hnext : σ.served ++ [q] =
      σ.exchange.server.fifo_sequencer_.incoming_requests_.take (σ.requests_read + 1) := by
    rw [List.take_add_one, hq]
    rfl
  obtain ⟨e, hlonger, -⟩ := hruns (σ.served ++ [q]) _ (by
    rw [hnext]
    exact List.take_append_drop ..)
  obtain ⟨e', _, evs, hrun', hlast⟩ := MatchingEngine.run_snoc_inv hlonger
  obtain ⟨rfl, -⟩ := Prod.mk.inj (Except.ok.inj (hrun.symm.trans hrun'))
  exact ⟨e, evs, hlast⟩

end Accounted

/-! ## Random traders on the real transport -/

open RandomTrader (allRequests rounds)

/-- What client 3 writes first if `rand()` always returns 0. -/
def firstOffer : MEClientRequest := ⟨.NEW, 3, 0, 3000, .SELL, 101, 2⟩

end Session

end LowLatency
