import LowLatency.Lib.Clearing
import LowLatency.Matcher.Conservation
import LowLatency.Protocol.Model
import LowLatency.Strategy.PositionKeeper
import Mathlib.Algebra.BigOperators.Group.Finset.Sigma
import Mathlib.Algebra.BigOperators.Ring.Finset

/-!
# Trading is zero-sum

The exchange and the `PositionKeeper` of every client. The exchange takes a
request from anyone, a client reads its next response, a client's book of a
ticker has a new top: in any order. A fill that one client has booked may still
be on its way to the other.

`zero_sum`: for each ticker, what all clients hold and what is on its way to them
add up to nothing; and once all responses are read, so do the profits that the
clients print, whatever they paid, as soon as they value their positions at the
same quotes. No share and no money is made or lost by matching, by the order in
which a client hears of its fills, or by its accounts, as long as no integer of
these overflows (`FillInRange`).

A request is worth nothing because its fills come in pairs of opposite sides at
one price (`Paired`); booking is worth nothing because an account moves by what
the fill says (`Balanced.addFill`). The rest is `Lib.total`, once for shares and
once for money.
-/

namespace LowLatency

open Lib (total)
open Position

instance (x : Int) : Decidable (Fits32 x) := inferInstanceAs (Decidable (_ ∧ _))
instance (x : Int) : Decidable (Fits64 x) := inferInstanceAs (Decidable (_ ∧ _))
instance (position : Int) (r : MEClientResponse) : Decidable (FillInRange position r) :=
  decidable_of_iff
    (r.exec_qty_ < 2 ^ 31 ∧ (position + sideToValue r.side_ * r.exec_qty_).natAbs < 2 ^ 31 ∧
      (0 ≤ position * sideToValue r.side_ → Fits64 (r.price_ * r.exec_qty_)) ∧
      (position * sideToValue r.side_ < 0 →
        Fits32 ((position + sideToValue r.side_ * r.exec_qty_) * position)) ∧
      ((position + sideToValue r.side_ * r.exec_qty_) * position < 0 →
        Fits64 (r.price_ * (position + sideToValue r.side_ * r.exec_qty_).natAbs)))
    ⟨fun ⟨h₁, h₂, h₃, h₄, h₅⟩ => ⟨h₁, h₂, h₃, h₄, h₅⟩,
      fun ⟨h₁, h₂, h₃, h₄, h₅⟩ => ⟨h₁, h₂, h₃, h₄, h₅⟩⟩

/-! ## The market -/

structure Market (X : Type) where
  exchange : X
  /-- on the way to each client -/
  responses : Nat → List MEClientResponse
  position_keeper_ : Nat → PositionKeeper ℚ

namespace Market

inductive Action
  /-- The exchange takes a request. -/
  | serve (q : MEClientRequest)
  /-- A client reads its next response. -/
  | consume (client_id : Nat)
  /-- A client's book of a ticker has a new top. -/
  | updateBBO (client_id ticker_id : Nat) (bbo : BBO)

variable {X : Type}

def init (x : X) : Market X := ⟨x, fun _ => [], fun _ => PositionKeeper.init⟩

/-- The part of `TradeEngine::onOrderUpdate` that concerns positions. -/
def onOrderUpdate (k : PositionKeeper ℚ) (r : MEClientResponse) : Exec (PositionKeeper ℚ) :=
  if r.type_ = .FILLED then k.addFill r else .ok k

def step (proc : X → MEClientRequest → Exec (X × List Event)) (m : Market X) :
    Action → Exec (Market X)
  | .serve q => do
    let (x, evs) ← proc m.exchange q
    return { m with exchange := x, responses := fun c => m.responses c ++ forClient c evs }
  | .consume c =>
    match m.responses c with
    | [] => .ok m
    | r :: rs => do
      let k ← onOrderUpdate (m.position_keeper_ c) r
      return { m with
        responses := Function.update m.responses c rs
        position_keeper_ := Function.update m.position_keeper_ c k }
  | .updateBBO c ticker_id bbo => do
    let k ← (m.position_keeper_ c).updateBBO ticker_id bbo
    return { m with position_keeper_ := Function.update m.position_keeper_ c k }

def run (proc : X → MEClientRequest → Exec (X × List Event)) (m : Market X) :
    List Action → Exec (Market X)
  | [] => .ok m
  | a :: as => do
    let m ← m.step proc a
    m.run proc as

/-- What is asked of an action: a request is well formed and fits the pools, and
no integer of an account overflows. -/
def Allowed (m : Market RefExchange) : Action → Prop
  | .serve q => m.exchange.Admits q ∧ m.exchange.StepFits q
  | .consume c => ∀ r ∈ (m.responses c).head?, r.type_ = .FILLED →
      FillInRange (m.position_keeper_ c r.ticker_id_).info.position_ r
  | .updateBBO _ ticker_id bbo => ticker_id < ME_MAX_TICKERS ∧
      (bbo.Valid → Fits64 (bbo.bid_price_ + bbo.ask_price_))

/-- Every action of a run is allowed where it happens. -/
def AllowedAll : Market RefExchange → List Action → Prop
  | _, [] => True
  | m, a :: as => Allowed m a ∧ ∀ m', m.step RefExchange.serve a = .ok m' → AllowedAll m' as

instance (m : Market RefExchange) (a : Action) : Decidable (Allowed m a) :=
  match a with
  | .serve _ => inferInstanceAs (Decidable (_ ∧ _))
  | .consume _ => inferInstanceAs (Decidable (∀ _ ∈ _, _ → _))
  | .updateBBO _ _ _ => inferInstanceAs (Decidable (_ ∧ (_ → _)))

instance decidableAllowedAll : (m : Market RefExchange) → (as : List Action) →
    Decidable (AllowedAll m as)
  | _, [] => isTrue trivial
  | m, a :: as =>
    match h : m.step RefExchange.serve a with
    | .error e => decidable_of_iff (Allowed m a)
        ⟨fun ha => ⟨ha, fun _ he => absurd (h.symm.trans he) (by simp)⟩, fun ha => ha.1⟩
    | .ok m' =>
      have := decidableAllowedAll m' as
      decidable_of_iff (Allowed m a ∧ AllowedAll m' as)
        ⟨fun ha => ⟨ha.1, fun m'' he => Except.ok.inj (h.symm.trans he) ▸ ha.2⟩,
          fun ha => ⟨ha.1, ha.2 m' h⟩⟩

end Market

/-! ## What a response is worth -/

/-- The shares of a ticker that a response brings its client. -/
def sharesOf (t : Nat) (r : MEClientResponse) : Int :=
  if r.type_ = .FILLED ∧ r.ticker_id_ = t then sideToValue r.side_ * r.exec_qty_ else 0

/-- The money. -/
def moneyOf (t : Nat) (r : MEClientResponse) : ℚ :=
  if r.type_ = .FILLED ∧ r.ticker_id_ = t then -(sideToValue r.side_ * r.price_ * r.exec_qty_)
  else 0

/-- A value that a fill has and its counterpart has with the other sign adds up
to nothing over paired messages. -/
theorem Paired.sum_eq_zero {M : Type} [AddCommMonoid M] {value : MEClientResponse → M}
    (hquiet : ∀ r, r.type_ ≠ .FILLED → value r = 0) {evs : List Event} (h : Paired evs)
    (hpair : ∀ f ∈ responses evs, ∀ f' ∈ responses evs, f.type_ = .FILLED → f'.type_ = .FILLED →
      (f.side_ = .BUY ∧ f'.side_ = .SELL) ∨ (f.side_ = .SELL ∧ f'.side_ = .BUY) →
      f.price_ = f'.price_ → f.exec_qty_ = f'.exec_qty_ → value f + value f' = 0) :
    ((responses evs).map value).sum = 0 := by
  induction h with
  | nil => rfl
  | @quiet e evs he _ ih =>
    cases e with
    | response r =>
      rw [responses_response] at hpair ⊢
      rw [List.map_cons, List.sum_cons, hquiet r he, zero_add]
      exact ih fun f hf f' hf' =>
        hpair f (List.mem_cons_of_mem r hf) f' (List.mem_cons_of_mem r hf')
    | update u => exact ih hpair
  | @trade f f' u evs hf hf' _ hside hprice hqty _ ih =>
    simp only [responses_response, responses_update] at hpair ⊢
    have hzero : value f + value f' = 0 :=
      hpair f (by simp) f' (by simp) hf hf' hside (hprice.1.trans hprice.2.symm)
        (hqty.1.trans hqty.2.symm)
    rw [List.map_cons, List.map_cons, List.sum_cons, List.sum_cons, ← add_assoc, hzero, zero_add]
    exact ih fun g hg g' hg' => hpair g (by simp [hg]) g' (by simp [hg'])

/-- **A request moves no shares and no money** between the clients and the
exchange. -/
theorem step_worthless {r : RefBook} {q : MEClientRequest} (hinv : r.Inv) (ha : r.Admits q)
    (fillId : Nat → Nat) (t : Nat) :
    ((responses (r.stepEvents fillId q)).map (sharesOf t)).sum = 0 ∧
      ((responses (r.stepEvents fillId q)).map (moneyOf t)).sum = 0 := by
  have hpaired := step_paired hinv ha fillId
  have hticker : ∀ f ∈ responses (r.stepEvents fillId q), f.ticker_id_ = q.ticker_id_ :=
    fun f hf => (mem_responses_step hf).1
  constructor
  · refine hpaired.sum_eq_zero (fun f hf => if_neg fun h => hf h.1) ?_
    intro f hf f' hf' ht ht' hside _ hqty
    show sharesOf t f + sharesOf t f' = 0
    unfold sharesOf
    rw [hticker f hf, hticker f' hf', ht, ht', hqty]
    rcases hside with ⟨h₁, h₂⟩ | ⟨h₁, h₂⟩ <;> rw [h₁, h₂] <;> by_cases h : q.ticker_id_ = t <;>
      simp [h, sideToValue]
  · refine hpaired.sum_eq_zero (fun f hf => if_neg fun h => hf h.1) ?_
    intro f hf f' hf' ht ht' hside hprice hqty
    show moneyOf t f + moneyOf t f' = 0
    unfold moneyOf
    rw [hticker f hf, hticker f' hf', ht, ht', hqty, hprice]
    rcases hside with ⟨h₁, h₂⟩ | ⟨h₁, h₂⟩ <;> rw [h₁, h₂] <;> by_cases h : q.ticker_id_ = t <;>
      simp [h, sideToValue]

/-- A fill as an account can take it. -/
def Bookable (r : MEClientResponse) : Prop :=
  r.ticker_id_ < ME_MAX_TICKERS ∧
    (r.type_ = .FILLED → (r.side_ = .BUY ∨ r.side_ = .SELL) ∧ 0 < r.exec_qty_)

/-- A fill takes something of both orders. -/
theorem sweep_fills_pos {b : Bool} {a : Aggressor} {leaves : Nat}
    {l : List (OrderData MEOrderId)} (hl : ∀ o ∈ l, 0 < o.qty_) :
    ∀ r ∈ responses (sweep b a leaves l).events, 0 < r.exec_qty_ := by
  induction l generalizing leaves with
  | nil => exact fun r hr => absurd hr (by simp [sweep])
  | cons o os ih =>
    intro r hr
    have hpos : 0 < o.qty_ := hl o (List.mem_cons_self ..)
    simp only [sweep] at hr
    split at hr
    · exact absurd hr (by simp)
    next hgo =>
      have hfill : 0 < min leaves o.qty_ := by
        have := not_or.mp hgo
        omega
      split at hr
      · simp only [responses_append, responses_fillEvents, exhaustedEvent, responses_update,
          responses_nil, List.append_nil, List.cons_append, List.nil_append, List.mem_cons] at hr
        rcases hr with rfl | rfl | hr
        · exact hfill
        · exact hfill
        · exact ih (fun o' ho' => hl o' (List.mem_cons_of_mem o ho')) r hr
      · simp only [responses_append, responses_fillEvents, modifiedEvent, responses_update,
          responses_nil, List.append_nil, List.mem_cons, List.not_mem_nil, or_false] at hr
        rcases hr with rfl | rfl <;> exact hfill

/-- The responses of a request to a ticker that exists. -/
theorem step_bookable {r : RefBook} {q : MEClientRequest} (hinv : r.Inv) (ha : r.Admits q)
    (ht : q.ticker_id_ < ME_MAX_TICKERS) (fillId : Nat → Nat) :
    ∀ f ∈ responses (r.stepEvents fillId q), Bookable f := by
  intro f hf
  obtain ⟨hticker, hwhat⟩ := mem_responses_step hf
  refine ⟨hticker ▸ ht, fun hfilled => ⟨?_, ?_⟩⟩
  · rcases hwhat with ⟨hnew, _, _, _, hside⟩ | ⟨_, b, o, ho, _, _, hside⟩ | ⟨hrej, _⟩
    · rw [hside]
      exact ha.side hnew
    · rw [hside, hinv.side b o ho]
      cases b
      · exact Or.inr rfl
      · exact Or.inl rfl
    · exact absurd hfilled (by rw [hrej]; decide)
  · -- only matching fills
    unfold RefBook.stepEvents at hf
    split at hf
    · rw [responses_addEvents] at hf
      rcases List.mem_cons.mp hf with rfl | hf
      · exact absurd hfilled (by simp)
      · exact sweep_fills_pos (hinv.pos _) f hf
    · unfold RefBook.cancelEvents at hf
      split at hf
      · rw [rejectedEvent, responses_response, responses_nil, List.mem_singleton] at hf
        rw [hf] at hfilled
        exact absurd hfilled (by simp)
      · simp only [canceledEvents, responses_update, responses_response, responses_nil,
          List.mem_singleton] at hf
        rw [hf] at hfilled
        exact absurd hfilled (by simp)
    · exact absurd hf (by simp)

/-- Every resting order belongs to a client that exists. -/
def Owned (R : RefExchange) : Prop :=
  ∀ t b, ∀ o ∈ (R t).book b, o.id_.client_id_ < ME_MAX_NUM_CLIENTS

theorem Owned.step {R : RefExchange} (h : Owned R) {q : MEClientRequest} (ha : R.Admits q) :
    Owned (R.step q) := by
  refine RefExchange.step_forall (P := fun r => ∀ b, ∀ o ∈ r.book b,
    o.id_.client_id_ < ME_MAX_NUM_CLIENTS) h ?_
  intro b o ho
  rcases mem_step ho with ⟨_, _, rfl⟩ | ⟨o', ho', hstrip⟩
  · exact ha.2.client
  · have hid : o'.strip.id_ = o.strip.id_ := congrArg OrderData.id_ hstrip
    have ho'' := h _ b o' ho'
    rwa [show o'.id_ = o.id_ from hid] at ho''

/-- A rejection goes to the client that wanted to cancel. -/
theorem rejected_client {r : RefBook} {q : MEClientRequest} {fillId : Nat → Nat}
    {f : MEClientResponse} (hf : f ∈ responses (r.stepEvents fillId q))
    (hrej : f.type_ = .CANCEL_REJECTED) : f.client_id_ = q.client_id_ := by
  unfold RefBook.stepEvents at hf
  split at hf
  · rw [responses_addEvents] at hf
    rcases List.mem_cons.mp hf with rfl | hf
    · rfl
    · exact absurd hrej (by rw [(mem_responses_sweep hf).1]; decide)
  · unfold RefBook.cancelEvents at hf
    split at hf
    · rw [rejectedEvent, responses_response, responses_nil, List.mem_singleton] at hf
      rw [hf]
    · simp only [canceledEvents, responses_update, responses_response, responses_nil,
        List.mem_singleton] at hf
      rw [hf]
  · exact absurd hf (by simp)

/-- Every response goes to a client that exists. -/
theorem Owned.addressed {R : RefExchange} (h : Owned R) {q : MEClientRequest} (ha : R.Admits q)
    (fillId : Nat → Nat) : ∀ f ∈ responses (R.stepEvents fillId q),
      f.client_id_ ∈ Finset.range ME_MAX_NUM_CLIENTS := by
  intro f hf
  rw [Finset.mem_range]
  rcases (mem_responses_step hf).2 with ⟨_, _, hc, _⟩ | ⟨_, b, o, ho, hc, _⟩ | ⟨hrej, _⟩
  · rw [hc]
    exact ha.2.client
  · rw [hc]
    exact h _ b o ho
  · rw [rejected_client hf hrej]
    exact ha.2.client

/-! ## One account -/

namespace Position

/-- The money that an account has brought, by its own figures. -/
def money (p : Position ℚ) : ℚ := p.pnl.real_pnl_ - basis p.pnl.open_vwap_ p.info.position_

/-- An account whose figures are consistent: `total_pnl_` of a flat position is
the money it has brought. -/
structure Kept (p : Position ℚ) : Prop where
  balanced : Balanced p p.money p.info.position_
  flat : p.info.position_ = 0 → p.pnl.total_pnl_ = p.money

theorem kept_init : Kept init where
  balanced := by
    have h := balanced_init
    rwa [← h.cost] at h
  flat := fun _ => (sub_zero (0 : ℚ)).symm

variable {p : Position ℚ}

/-- **A fill** is booked with its shares and its money. -/
theorem Kept.addFill (h : Kept p) {r : MEClientResponse} (hr : p.Admits (.addFill r)) :
    Kept (p.addFill r) ∧
      (p.addFill r).info.position_ = p.info.position_ + sideToValue r.side_ * r.exec_qty_ ∧
      (p.addFill r).money = p.money - sideToValue r.side_ * r.price_ * r.exec_qty_ := by
  obtain ⟨hb, htotal⟩ := h.balanced.addFill hr
  have hmoney : (p.addFill r).money = p.money - sideToValue r.side_ * r.price_ * r.exec_qty_ :=
    hb.cost
  refine ⟨⟨?_, fun h0 => ?_⟩, hb.position, hmoney⟩
  · rw [hmoney, hb.position]
    exact hb
  · rw [htotal, h0, Int.cast_zero, zero_mul, add_zero, hmoney]

/-- **A new top of book** books nothing. -/
theorem Kept.updateBBO (h : Kept p) {bbo : BBO} (hr : p.Admits (.updateBBO bbo)) :
    Kept (p.updateBBO bbo) ∧ (p.updateBBO bbo).info.position_ = p.info.position_ ∧
      (p.updateBBO bbo).money = p.money := by
  obtain ⟨hb, -⟩ := h.balanced.updateBBO hr
  have hmoney : (p.updateBBO bbo).money = p.money := hb.cost
  refine ⟨⟨?_, fun h0 => ?_⟩, rfl, hmoney⟩
  · rw [hmoney]
    exact hb
  · have h0' : p.info.position_ = 0 := h0
    have hpnl : (p.updateBBO bbo).pnl = p.pnl := if_neg fun hopen => hopen.1 h0'
    rw [hpnl, hmoney]
    exact h.flat h0'

/-- What an account is worth at a valid quote, flat or not. -/
theorem Kept.marked (h : Kept p) {bbo : BBO} (hv : bbo.Valid)
    (hfits : Fits64 (bbo.bid_price_ + bbo.ask_price_)) :
    (p.updateBBO bbo).pnl.total_pnl_ =
      p.money + p.info.position_ * ((bbo.bid_price_ + bbo.ask_price_) / 2) := by
  by_cases h0 : p.info.position_ = 0
  · have hpnl : (p.updateBBO bbo).pnl = p.pnl := if_neg fun hopen => hopen.1 h0
    rw [hpnl, h.flat h0, h0, Int.cast_zero, zero_mul, add_zero]
  · exact (h.balanced.updateBBO fun _ _ => hfits).2 hv h0

end Position

/-! ## All accounts -/

namespace Market

def clients : Finset Nat := Finset.range ME_MAX_NUM_CLIENTS

/-- The shares of a ticker that the clients hold or are about to. -/
def totalShares {X : Type} (m : Market X) (t : Nat) : Int :=
  total clients (fun c => (m.position_keeper_ c t).info.position_) m.responses (sharesOf t)

/-- The money that they have brought or are about to. -/
def totalMoney {X : Type} (m : Market X) (t : Nat) : ℚ :=
  total clients (fun c => (m.position_keeper_ c t).money) m.responses (moneyOf t)

/-- The market adds up. -/
structure Balances (m : Market RefExchange) : Prop where
  books : ∀ t, (m.exchange t).Inv
  owned : Owned m.exchange
  bookable : ∀ c, ∀ r ∈ m.responses c, Bookable r
  kept : ∀ c t, Kept (m.position_keeper_ c t)
  shares : ∀ t, m.totalShares t = 0
  money : ∀ t, m.totalMoney t = 0

namespace Balances

theorem init : Balances (Market.init RefExchange.init) where
  books := fun _ => RefBook.inv_init
  owned := fun _ _ _ ho => absurd ho List.not_mem_nil
  bookable := fun _ _ hr => absurd hr List.not_mem_nil
  kept := fun _ _ => kept_init
  shares := by
    intro t
    refine (Lib.total_settled fun _ _ => rfl).trans ?_
    exact Finset.sum_eq_zero fun _ _ => rfl
  money := by
    intro t
    refine (Lib.total_settled fun _ _ => rfl).trans ?_
    exact Finset.sum_eq_zero fun _ _ => sub_zero 0

variable {m : Market RefExchange}

/-- **A request** posts responses that are worth nothing together. -/
theorem serve (h : Balances m) {q : MEClientRequest} (ha : m.exchange.Admits q) :
    Balances { m with
      exchange := m.exchange.step q
      responses := fun c => m.responses c ++ forClient c (m.exchange.stepEvents wrap32 q) } := by
  have hworth := step_worthless (h.books q.ticker_id_) ha.2 wrap32
  have hto := h.owned.addressed ha wrap32
  refine ⟨RefExchange.step_forall h.books ((h.books _).step ha.2), h.owned.step ha, ?_, h.kept,
    fun t => ?_, fun t => ?_⟩
  · intro c r hr
    rcases List.mem_append.mp hr with hr | hr
    · exact h.bookable c r hr
    · exact step_bookable (h.books _) ha.2 ha.1 wrap32 r (List.mem_of_mem_filter hr)
  · refine (Lib.total_post MEClientResponse.client_id_ hto).trans ?_
    exact (congrArg₂ (· + ·) (h.shares t) (hworth t).1).trans (add_zero 0)
  · refine (Lib.total_post MEClientResponse.client_id_ hto).trans ?_
    exact (congrArg₂ (· + ·) (h.money t) (hworth t).2).trans (add_zero 0)

/-- What a response does to an account, and nothing to the others. -/
theorem onOrderUpdate_cases {k : PositionKeeper ℚ} {r : MEClientResponse} (hk : ∀ t, Kept (k t))
    (hr : Bookable r)
    (hfill : r.type_ = .FILLED → FillInRange (k r.ticker_id_).info.position_ r) :
    ∃ k', onOrderUpdate k r = .ok k' ∧ ∀ t, Kept (k' t) ∧
      (k' t).info.position_ = (k t).info.position_ + sharesOf t r ∧
      (k' t).money = (k t).money + moneyOf t r := by
  unfold onOrderUpdate
  by_cases ht : r.type_ = .FILLED
  · obtain ⟨hside, hqty⟩ := hr.2 ht
    obtain ⟨hkept, hshares, hmoney⟩ := (hk r.ticker_id_).addFill ⟨hside, hqty, hfill ht⟩
    rw [if_pos ht, PositionKeeper.addFill, if_pos hr.1]
    refine ⟨_, rfl, fun t => ?_⟩
    by_cases hrt : t = r.ticker_id_
    · subst hrt
      rw [Function.update_self, sharesOf, if_pos ⟨ht, rfl⟩, moneyOf, if_pos ⟨ht, rfl⟩,
        ← sub_eq_add_neg]
      exact ⟨hkept, hshares, hmoney⟩
    · have hne : ¬ (r.type_ = .FILLED ∧ r.ticker_id_ = t) := fun h => hrt h.2.symm
      rw [Function.update_of_ne hrt, sharesOf, if_neg hne, moneyOf, if_neg hne, add_zero, add_zero]
      exact ⟨hk t, rfl, rfl⟩
  · rw [if_neg ht]
    refine ⟨k, rfl, fun t => ?_⟩
    have hne : ¬ (r.type_ = .FILLED ∧ r.ticker_id_ = t) := fun h => ht h.1
    rw [sharesOf, if_neg hne, moneyOf, if_neg hne, add_zero, add_zero]
    exact ⟨hk t, rfl, rfl⟩

/-- **A client books** its next response. -/
theorem consume (h : Balances m) {c : Nat} {r : MEClientResponse} {rs : List MEClientResponse}
    (hrs : m.responses c = r :: rs) {k : PositionKeeper ℚ}
    (hk : ∀ t, Kept (k t) ∧
      (k t).info.position_ = (m.position_keeper_ c t).info.position_ + sharesOf t r ∧
      (k t).money = (m.position_keeper_ c t).money + moneyOf t r) :
    Balances { m with
      responses := Function.update m.responses c rs
      position_keeper_ := Function.update m.position_keeper_ c k } := by
  have hother : ∀ c', c' ≠ c →
      Function.update m.position_keeper_ c k c' = m.position_keeper_ c' :=
    fun c' hc => Function.update_of_ne hc ..
  refine ⟨h.books, h.owned, ?_, ?_, fun t => ?_, fun t => ?_⟩
  · intro c' r' hr'
    replace hr' : r' ∈ Function.update m.responses c rs c' := hr'
    by_cases hc : c' = c
    · subst hc
      rw [Function.update_self] at hr'
      exact h.bookable c' r' (by rw [hrs]; exact List.mem_cons_of_mem r hr')
    · rw [Function.update_of_ne hc] at hr'
      exact h.bookable c' r' hr'
  · intro c' t
    show Kept (Function.update m.position_keeper_ c k c' t)
    by_cases hc : c' = c
    · subst hc
      rw [Function.update_self]
      exact (hk t).1
    · rw [hother c' hc]
      exact h.kept c' t
  · refine (Lib.total_book hrs ?_ fun c' hc => ?_).trans (h.shares t)
    · dsimp only
      rw [Function.update_self]
      exact (hk t).2.1
    · dsimp only
      rw [hother c' hc]
  · refine (Lib.total_book hrs ?_ fun c' hc => ?_).trans (h.money t)
    · dsimp only
      rw [Function.update_self]
      exact (hk t).2.2
    · dsimp only
      rw [hother c' hc]

/-- **A new top of book** moves nothing. -/
theorem updateBBO (h : Balances m) (c t : Nat) {bbo : BBO}
    (hbbo : bbo.Valid → Fits64 (bbo.bid_price_ + bbo.ask_price_)) :
    Balances { m with
      position_keeper_ := Function.update m.position_keeper_ c
        (Function.update (m.position_keeper_ c) t ((m.position_keeper_ c t).updateBBO bbo)) } := by
  -- every account is kept, with its position and its money
  have hsame : ∀ c' t', Kept (Function.update m.position_keeper_ c (Function.update
        (m.position_keeper_ c) t ((m.position_keeper_ c t).updateBBO bbo)) c' t') ∧
      (Function.update m.position_keeper_ c (Function.update (m.position_keeper_ c) t
          ((m.position_keeper_ c t).updateBBO bbo)) c' t').info.position_ =
        (m.position_keeper_ c' t').info.position_ ∧
      (Function.update m.position_keeper_ c (Function.update (m.position_keeper_ c) t
          ((m.position_keeper_ c t).updateBBO bbo)) c' t').money =
        (m.position_keeper_ c' t').money := by
    intro c' t'
    by_cases hc : c' = c
    · subst hc
      rw [Function.update_self]
      by_cases ht : t' = t
      · subst ht
        rw [Function.update_self]
        exact (h.kept c' t').updateBBO fun _ => hbbo
      · rw [Function.update_of_ne ht]
        exact ⟨h.kept c' t', rfl, rfl⟩
    · rw [Function.update_of_ne hc]
      exact ⟨h.kept c' t', rfl, rfl⟩
  refine ⟨h.books, h.owned, h.bookable, fun c' t' => (hsame c' t').1, fun t' => ?_, fun t' => ?_⟩
  · exact (Lib.total_congr fun c' _ => (hsame c' t').2.1).trans (h.shares t')
  · exact (Lib.total_congr fun c' _ => (hsame c' t').2.2).trans (h.money t')

/-- **Every allowed action returns and keeps the sums.** -/
theorem step (h : Balances m) {a : Action} (ha : Allowed m a) :
    ∃ m', m.step RefExchange.serve a = .ok m' ∧ Balances m' := by
  cases a with
  | serve q => exact ⟨_, rfl, h.serve ha.1⟩
  | consume c =>
    cases hrs : m.responses c with
    | nil =>
      refine ⟨m, ?_, h⟩
      simp only [Market.step, hrs]
    | cons r rs =>
      obtain ⟨k, hk, hbooked⟩ := onOrderUpdate_cases (h.kept c)
        (h.bookable c r (by rw [hrs]; exact List.mem_cons_self ..)) (ha r (by rw [hrs]; rfl))
      refine ⟨_, ?_, h.consume hrs hbooked⟩
      simp only [Market.step, hrs, hk, exec_ok_bind, exec_pure]
  | updateBBO c t bbo =>
    refine ⟨_, ?_, h.updateBBO c t ha.2⟩
    simp only [Market.step, PositionKeeper.updateBBO, if_pos ha.1, exec_ok_bind, exec_pure]

end Balances

/-! ## The matching engine -/

/-- The market with the matching engine, and the one with the reference. -/
structure MarketSim (m : Market MatchingEngine) (m' : Market RefExchange) : Prop where
  exchange : EngineSim m.exchange m'.exchange
  responses : m.responses = m'.responses
  position_keeper_ : m.position_keeper_ = m'.position_keeper_

theorem MarketSim.step {m : Market MatchingEngine} {m' m₁' : Market RefExchange} {a : Action}
    (h : MarketSim m m') (hb : Balances m') (ha : Allowed m' a)
    (hstep : m'.step RefExchange.serve a = .ok m₁') :
    ∃ m₁, m.step MatchingEngine.processClientRequest a = .ok m₁ ∧ MarketSim m₁ m₁' := by
  cases a with
  | serve q =>
    obtain ⟨e, he, hsim⟩ := engine_step_sim h.exchange hb.books ha.1 ha.2
    have hm := Except.ok.inj hstep
    subst hm
    refine ⟨{ m with
        exchange := e
        responses := fun c => m.responses c ++ forClient c (m'.exchange.stepEvents wrap32 q) },
      ?_, hsim, ?_, h.position_keeper_⟩
    · simp only [Market.step, he, exec_ok_bind, exec_pure]
    · dsimp only
      rw [h.responses]
  | consume c =>
    simp only [Market.step, h.responses] at hstep ⊢
    cases hrs : m'.responses c with
    | nil =>
      rw [hrs] at hstep
      have hm := Except.ok.inj hstep
      subst hm
      exact ⟨m, rfl, h⟩
    | cons r rs =>
      rw [hrs] at hstep
      obtain ⟨k, hk, hm⟩ := exec_bind_ok hstep
      have hm := Except.ok.inj hm
      subst hm
      refine ⟨{ m with
          responses := Function.update m'.responses c rs
          position_keeper_ := Function.update m'.position_keeper_ c k }, ?_, h.exchange, rfl, rfl⟩
      simp only [h.position_keeper_, hk, exec_ok_bind, exec_pure]
  | updateBBO c t bbo =>
    obtain ⟨k, hk, hm⟩ := exec_bind_ok hstep
    have hm := Except.ok.inj hm
    subst hm
    refine ⟨{ m with position_keeper_ := Function.update m.position_keeper_ c k }, ?_, h.exchange,
      h.responses, ?_⟩
    · simp only [Market.step, h.position_keeper_, hk, exec_ok_bind, exec_pure]
    · dsimp only
      rw [h.position_keeper_]

theorem run_sim_balances {m : Market MatchingEngine} {m' : Market RefExchange} (h : MarketSim m m')
    (hb : Balances m') {as : List Action} (ha : AllowedAll m' as) :
    ∃ m₁ m₁', m.run MatchingEngine.processClientRequest as = .ok m₁ ∧ MarketSim m₁ m₁' ∧
      Balances m₁' := by
  induction as generalizing m m' with
  | nil => exact ⟨m, m', rfl, h, hb⟩
  | cons a as ih =>
    obtain ⟨m₁', hstep', hb₁⟩ := hb.step ha.1
    obtain ⟨m₁, hstep, h₁⟩ := h.step hb ha.1 hstep'
    obtain ⟨m₂, m₂', hrun, h₂, hb₂⟩ := ih h₁ hb₁ (ha.2 m₁' hstep')
    refine ⟨m₂, m₂', ?_, h₂, hb₂⟩
    simp only [Market.run, hstep, exec_ok_bind, hrun]

/-- Every position valued at the quote of its ticker. -/
def marked (k : PositionKeeper ℚ) (bbo : Nat → BBO) : PositionKeeper ℚ :=
  fun t => (k t).updateBBO (bbo t)

/-- The total of an account is its money and its shares at the middle of the
quotes. -/
theorem total_pnl_marked {k : PositionKeeper ℚ} (hk : ∀ t, Kept (k t)) {bbo : Nat → BBO}
    (hbbo : ∀ t < ME_MAX_TICKERS,
      (bbo t).Valid ∧ Fits64 ((bbo t).bid_price_ + (bbo t).ask_price_)) :
    (marked k bbo).total_pnl = ∑ t ∈ Finset.range ME_MAX_TICKERS,
      ((k t).money + (k t).info.position_ * (((bbo t).bid_price_ + (bbo t).ask_price_) / 2)) := by
  have hsum : ∀ n, (List.range n).foldl (fun total i => total + ((marked k bbo) i).pnl.total_pnl_)
      (Double.ofInt 0 : ℚ) = ∑ t ∈ Finset.range n, ((k t).updateBBO (bbo t)).pnl.total_pnl_ := by
    intro n
    induction n with
    | zero => exact Int.cast_zero
    | succ n ih =>
      rw [List.range_succ, List.foldl_append, ih, Finset.sum_range_succ]
      rfl
  rw [PositionKeeper.total_pnl, hsum]
  refine Finset.sum_congr rfl fun t ht => ?_
  obtain ⟨hv, hfits⟩ := hbbo t (Finset.mem_range.mp ht)
  exact (hk t).marked hv hfits

/-- **Trading is zero-sum.** In every interleaving, what the clients hold of a
ticker and what is on its way to them add up to nothing. When all have read their
responses, their profits at any quotes do. -/
theorem zero_sum (as : List Action) (ha : AllowedAll (Market.init RefExchange.init) as) :
    ∃ m, (Market.init MatchingEngine.init).run MatchingEngine.processClientRequest as = .ok m ∧
      (∀ t, m.totalShares t = 0) ∧
      ((∀ c < ME_MAX_NUM_CLIENTS, m.responses c = []) → ∀ bbo : Nat → BBO,
        (∀ t < ME_MAX_TICKERS,
          (bbo t).Valid ∧ Fits64 ((bbo t).bid_price_ + (bbo t).ask_price_)) →
        ∑ c ∈ clients, (marked (m.position_keeper_ c) bbo).total_pnl = 0) := by
  have hinit : MarketSim (Market.init MatchingEngine.init) (Market.init RefExchange.init) :=
    ⟨engineSim_init, rfl, rfl⟩
  obtain ⟨m, m', hrun, hsim, hb⟩ := run_sim_balances hinit Balances.init ha
  refine ⟨m, hrun, fun t => ?_, fun hread bbo hbbo => ?_⟩
  · rw [totalShares, hsim.position_keeper_, hsim.responses]
    exact hb.shares t
  · have hread' : ∀ c ∈ clients, m'.responses c = [] := by
      intro c hc
      rw [← hsim.responses]
      exact hread c (Finset.mem_range.mp hc)
    -- with nothing on its way the accounts alone add up, ticker by ticker
    have hshares : ∀ t, ∑ c ∈ clients, (m'.position_keeper_ c t).info.position_ = 0 :=
      fun t => (Lib.total_settled hread').symm.trans (hb.shares t)
    have hmoney : ∀ t, ∑ c ∈ clients, (m'.position_keeper_ c t).money = 0 :=
      fun t => (Lib.total_settled hread').symm.trans (hb.money t)
    rw [hsim.position_keeper_, Finset.sum_congr rfl fun c _ => total_pnl_marked (hb.kept c) hbbo,
      Finset.sum_comm]
    refine Finset.sum_eq_zero fun t _ => ?_
    rw [Finset.sum_add_distrib, hmoney t, zero_add, ← Finset.sum_mul, ← Int.cast_sum, hshares t,
      Int.cast_zero, zero_mul]

/-- 4 of 10 are sold at 100; both clients hear of it, one after a new quote. -/
def soldActions : List Action :=
  [.serve ⟨.NEW, 1, 0, 7, .SELL, 100, 10⟩, .serve ⟨.NEW, 2, 0, 9, .BUY, 101, 4⟩, .consume 2,
    .consume 2, .updateBBO 2 0 ⟨98, 102, 1, 6⟩, .consume 1, .consume 1]

set_option maxRecDepth 4000 in
theorem zero_sum_sold : ∃ m,
    (Market.init MatchingEngine.init).run MatchingEngine.processClientRequest soldActions = .ok m ∧
      (m.position_keeper_ 2 0).info.position_ = 4 ∧ m.totalShares 0 = 0 ∧
      ∑ c ∈ clients, (marked (m.position_keeper_ c) fun _ => ⟨98, 102, 1, 6⟩).total_pnl = 0 := by
  obtain ⟨m, hrun, hshares, hpnl⟩ := zero_sum soldActions (by decide)
  obtain ⟨m', hrun', hread, hpos⟩ : ∃ m', (Market.init MatchingEngine.init).run
      MatchingEngine.processClientRequest soldActions = .ok m' ∧
        (∀ c < ME_MAX_NUM_CLIENTS, m'.responses c = []) ∧
        (m'.position_keeper_ 2 0).info.position_ = 4 := ⟨_, rfl, by decide, by decide⟩
  obtain rfl := Except.ok.inj (hrun.symm.trans hrun')
  refine ⟨m, hrun, hpos, hshares 0, hpnl hread _ fun t _ => ⟨?_, ?_⟩⟩
  · decide
  · exact ⟨by decide, by decide⟩

end Market

end LowLatency
