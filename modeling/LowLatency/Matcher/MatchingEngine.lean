import LowLatency.Matcher.Refine
import LowLatency.Matcher.Feed
import Mathlib.Algebra.BigOperators.Group.Finset.Basic

/-!
# `MatchingEngine`: one book per ticker

`MatchingEngine::processClientRequest` picks the book of the request's ticker
and calls it; nothing is shared between the books. An engine is therefore a
function from tickers to books, and everything proved about one book holds of
each of them: `RefExchange` is the reference with a book per ticker, and the
simulation and the feed of a request are those of its book.

The requests of a run are conditions on the way (`AllAlong`): what is asked of
a request is asked of it where it arrives.
-/

namespace LowLatency

/-- `ticker_order_book_`. -/
abbrev MatchingEngine := Nat → MEOrderBook

namespace MatchingEngine

def init : MatchingEngine := fun _ => MEOrderBook.init

/-- An index past the end of `ticker_order_book_` is undefined behaviour; it
counts as a fault here. -/
def processClientRequest (e : MatchingEngine) (q : MEClientRequest) :
    Exec (MatchingEngine × List Event) :=
  if q.ticker_id_ < ME_MAX_TICKERS then do
    let (s, evs) ← (e q.ticker_id_).processClientRequest q
    return (Function.update e q.ticker_id_ s, evs)
  else .error .outOfRange

/-- Requests in a row, with the messages of each. -/
def run (e : MatchingEngine) : List MEClientRequest → Exec (MatchingEngine × List (List Event))
  | [] => .ok (e, [])
  | q :: qs => do
    let (e, evs) ← e.processClientRequest q
    let (e, evss) ← run e qs
    return (e, evs :: evss)

theorem processClientRequest_inv {e e' : MatchingEngine} {q : MEClientRequest} {evs : List Event}
    (h : e.processClientRequest q = .ok (e', evs)) : q.ticker_id_ < ME_MAX_TICKERS ∧
    ∃ s, (e q.ticker_id_).processClientRequest q = .ok (s, evs) ∧
      e' = Function.update e q.ticker_id_ s := by
  unfold processClientRequest at h
  split at h
  next hticker =>
    obtain ⟨⟨s, evs'⟩, hrun, h⟩ := exec_bind_ok h
    obtain ⟨rfl, rfl⟩ := Prod.mk.inj (Except.ok.inj h)
    exact ⟨hticker, s, hrun, rfl⟩
  next => exact absurd h (by simp)

/-- A condition holds of every request of a run where it arrives. -/
def AllAlong (P : MEOrderBook → MEClientRequest → Prop) :
    MatchingEngine → List MEClientRequest → Prop
  | _, [] => True
  | e, q :: qs => P (e q.ticker_id_) q ∧
      ∀ e' evs, e.processClientRequest q = .ok (e', evs) → AllAlong P e' qs

/-- A run is its first request and the run of the others. -/
theorem run_cons_inv {e e' : MatchingEngine} {q : MEClientRequest} {qs : List MEClientRequest}
    {evss : List (List Event)} (h : e.run (q :: qs) = .ok (e', evss)) :
    ∃ e₁ evs evss₁, e.processClientRequest q = .ok (e₁, evs) ∧ e₁.run qs = .ok (e', evss₁) ∧
      evss = evs :: evss₁ := by
  simp only [run] at h
  obtain ⟨⟨e₁, evs⟩, hstep, h⟩ := exec_bind_ok h
  obtain ⟨⟨e₂, evss₁⟩, hrest, h⟩ := exec_bind_ok h
  obtain ⟨rfl, rfl⟩ := Prod.mk.inj (Except.ok.inj h)
  exact ⟨e₁, evs, evss₁, hstep, hrest, rfl⟩

end MatchingEngine

/-- The reference with a book per ticker. -/
abbrev RefExchange := Nat → RefBook

namespace RefExchange

def init : RefExchange := fun _ => RefBook.init

def step (R : RefExchange) (q : MEClientRequest) : RefExchange :=
  Function.update R q.ticker_id_ ((R q.ticker_id_).step q)

def stepEvents (fillId : Nat → Nat) (R : RefExchange) (q : MEClientRequest) : List Event :=
  (R q.ticker_id_).stepEvents fillId q

def run (R : RefExchange) (qs : List MEClientRequest) : RefExchange := qs.foldl step R

def runEvents (fillId : Nat → Nat) : RefExchange → List MEClientRequest → List (List Event)
  | _, [] => []
  | R, q :: qs => R.stepEvents fillId q :: runEvents fillId (R.step q) qs

/-- A condition holds of every request of a run where it arrives. -/
def AllAlong (P : RefExchange → MEClientRequest → Prop) : RefExchange → List MEClientRequest → Prop
  | _, [] => True
  | R, q :: qs => P R q ∧ AllAlong P (R.step q) qs

/-- A well-formed request for a ticker that exists. -/
def Admits (R : RefExchange) (q : MEClientRequest) : Prop :=
  q.ticker_id_ < ME_MAX_TICKERS ∧ (R q.ticker_id_).Admits q

/-- The request leaves room in the pools of its book. -/
def StepFits (R : RefExchange) (q : MEClientRequest) : Prop :=
  ((R q.ticker_id_).step q).Fits

/-- A new order gets a market order id below `n`. -/
def IdBelow (n : Nat) (R : RefExchange) (q : MEClientRequest) : Prop :=
  q.type_ = .NEW → (R q.ticker_id_).next_market_order_id_ < n

instance (R : RefExchange) (q : MEClientRequest) : Decidable (R.Admits q) :=
  inferInstanceAs (Decidable (_ ∧ _))

instance (R : RefExchange) (q : MEClientRequest) : Decidable (R.StepFits q) :=
  inferInstanceAs (Decidable (RefBook.Fits _))

instance (n : Nat) (R : RefExchange) (q : MEClientRequest) : Decidable (IdBelow n R q) :=
  inferInstanceAs (Decidable (_ → _))

instance decidableAllAlong {P : RefExchange → MEClientRequest → Prop}
    [∀ R q, Decidable (P R q)] : (R : RefExchange) → (qs : List MEClientRequest) →
    Decidable (AllAlong P R qs)
  | _, [] => isTrue trivial
  | R, q :: qs =>
    have := decidableAllAlong (P := P) (R.step q) qs
    inferInstanceAs (Decidable (P R q ∧ AllAlong P (R.step q) qs))

theorem step_self (R : RefExchange) (q : MEClientRequest) :
    R.step q q.ticker_id_ = (R q.ticker_id_).step q := Function.update_self ..

theorem step_other {R : RefExchange} {q : MEClientRequest} {t : Nat} (h : t ≠ q.ticker_id_) :
    R.step q t = R t := Function.update_of_ne h ..

/-- What holds of every book, and is kept by the book a request goes to, holds
of every book after the request. -/
theorem step_forall {P : RefBook → Prop} {R : RefExchange} {q : MEClientRequest}
    (h : ∀ t, P (R t)) (hs : P ((R q.ticker_id_).step q)) : ∀ t, P (R.step q t) := by
  intro t
  by_cases ht : t = q.ticker_id_
  · rw [ht, step_self]
    exact hs
  · rw [step_other ht]
    exact h t

/-- The invariants of all books. -/
structure Inv (R : RefExchange) : Prop where
  inv : ∀ t, (R t).Inv
  numbered : ∀ t, (R t).Numbered

theorem inv_init : Inv init := ⟨fun _ => RefBook.inv_init, fun _ => RefBook.numbered_init⟩

theorem Inv.step {R : RefExchange} {q : MEClientRequest} (h : Inv R) (ha : R.Admits q)
    (hid : IdBelow OrderId_INVALID R q) : Inv (R.step q) :=
  ⟨step_forall h.inv ((h.inv _).step ha.2),
    step_forall h.numbered ((h.numbered _).step (h.inv _) hid)⟩

end RefExchange

/-- Every book of the engine stands for its reference. -/
def EngineSim (e : MatchingEngine) (R : RefExchange) : Prop := ∀ t, Sim (e t) (R t)

theorem engineSim_init : EngineSim MatchingEngine.init RefExchange.init := fun _ => sim_init

/-- **Forward simulation** of the engine, one request. -/
theorem engine_step_sim {e : MatchingEngine} {R : RefExchange} {q : MEClientRequest}
    (h : EngineSim e R) (hinv : ∀ t, (R t).Inv) (ha : R.Admits q) (hf : R.StepFits q) :
    ∃ e', e.processClientRequest q = .ok (e', R.stepEvents wrap32 q) ∧
      EngineSim e' (R.step q) := by
  rcases step_sim (h q.ticker_id_) (hinv _) ha.2 with ⟨s', hrun, hs⟩ | ⟨_, hno⟩
  · refine ⟨Function.update e q.ticker_id_ s', ?_, ?_⟩
    · unfold MatchingEngine.processClientRequest
      rw [if_pos ha.1, hrun]
      rfl
    · intro t
      by_cases ht : t = q.ticker_id_
      · rw [ht, Function.update_self, RefExchange.step_self]
        exact hs
      · rw [Function.update_of_ne ht, RefExchange.step_other ht]
        exact h t
  · exact absurd hf hno

/-- **Forward simulation** of the engine, a whole run. -/
theorem engine_run_sim {e : MatchingEngine} {R : RefExchange} {qs : List MEClientRequest}
    (h : EngineSim e R) (hinv : ∀ t, (R t).Inv) (ha : RefExchange.AllAlong RefExchange.Admits R qs)
    (hf : RefExchange.AllAlong RefExchange.StepFits R qs) :
    ∃ e', e.run qs = .ok (e', R.runEvents wrap32 qs) ∧ EngineSim e' (R.run qs) := by
  induction qs generalizing e R with
  | nil => exact ⟨e, rfl, h⟩
  | cons q qs ih =>
    obtain ⟨e₁, hrun₁, h₁⟩ := engine_step_sim h hinv ha.1 hf.1
    obtain ⟨e₂, hrun₂, h₂⟩ := ih h₁
      (RefExchange.step_forall hinv ((hinv _).step ha.1.2)) ha.2 hf.2
    refine ⟨e₂, ?_, h₂⟩
    simp only [MatchingEngine.run, hrun₁, exec_ok_bind, hrun₂, RefExchange.runEvents]
    rfl

/-! ## The feed of all tickers -/

/-- A feed's book for every ticker. -/
abbrev Feeds := Nat → Book Nat

def applyTo (F : Feeds) (u : MEMarketUpdate) : Feeds :=
  Function.update F u.ticker_id_ (applyUpdate (F u.ticker_id_) u)

/-- The live orders of the other tickers. -/
def others (F : Feeds) (t : Nat) : Nat :=
  ∑ t' ∈ (Finset.range ME_MAX_TICKERS).erase t, (F t').live

/-- What a pool shared by all tickers leaves for ticker `t`. -/
def room (F : Feeds) (t : Nat) : Nat := ME_MAX_ORDER_IDS - 1 - others F t

/-- Every update is for a ticker that exists, whose book expects it, with room
left in a pool shared by all. -/
def FeedsOk : Feeds → List MEMarketUpdate → Prop
  | _, [] => True
  | F, u :: us => u.ticker_id_ < ME_MAX_TICKERS ∧
      UpdateOk (room F u.ticker_id_) (F u.ticker_id_) u ∧ FeedsOk (applyTo F u) us

theorem feedsOk_append {F : Feeds} {us vs : List MEMarketUpdate} :
    FeedsOk F (us ++ vs) ↔ FeedsOk F us ∧ FeedsOk (us.foldl applyTo F) vs := by
  induction us generalizing F with
  | nil => simp [FeedsOk]
  | cons u us ih =>
    show _ ∧ _ ∧ FeedsOk (applyTo F u) (us ++ vs) ↔
      (_ ∧ _ ∧ FeedsOk (applyTo F u) us) ∧ FeedsOk (us.foldl applyTo (applyTo F u)) vs
    rw [ih, and_assoc, and_assoc]

theorem room_update (F : Feeds) (t : Nat) (B : Book Nat) :
    room (Function.update F t B) t = room F t := by
  unfold room others
  congr 1
  refine Finset.sum_congr rfl fun t' ht' => ?_
  rw [Function.update_of_ne (Finset.ne_of_mem_erase ht')]

/-- The updates of one book among all. -/
theorem feedsOk_single {F : Feeds} {t : Nat} {us : List MEMarketUpdate} (ht : t < ME_MAX_TICKERS)
    (hus : ∀ u ∈ us, u.ticker_id_ = t) (h : UpdatesOk (room F t) (F t) us) :
    FeedsOk F us ∧ us.foldl applyTo F = Function.update F t (us.foldl applyUpdate (F t)) := by
  induction us generalizing F with
  | nil => exact ⟨trivial, (Function.update_eq_self t F).symm⟩
  | cons u us ih =>
    have hu : u.ticker_id_ = t := hus u (List.mem_cons_self ..)
    have happ : applyTo F u = Function.update F t (applyUpdate (F t) u) := by
      unfold applyTo
      rw [hu]
    obtain ⟨hok, hfold⟩ := ih (F := applyTo F u)
      (fun v hv => hus v (List.mem_cons_of_mem _ hv)) (by
        rw [happ, room_update, Function.update_self]
        exact h.2)
    refine ⟨⟨by rw [hu]; exact ht, by rw [hu]; exact h.1, hok⟩, ?_⟩
    show us.foldl applyTo (applyTo F u) = _
    rw [hfold, happ, Function.update_self, Function.update_idem]
    rfl

/-- All messages of a request carry its ticker. -/
theorem sweep_ticker {b : Bool} {a : Aggressor} {leaves : Nat}
    {l : List (OrderData MEOrderId)} :
    ∀ u ∈ updates (sweep b a leaves l).events, u.ticker_id_ = a.ticker_id_ := by
  induction l generalizing leaves with
  | nil => exact fun u hu => absurd hu (by simp [sweep])
  | cons o os ih =>
    intro u hu
    simp only [sweep] at hu
    split at hu
    · exact absurd hu (by simp)
    · split at hu
      · simp only [fillEvents, exhaustedEvent, updates_response, updates_update, List.cons_append,
          List.nil_append, List.mem_cons] at hu
        rcases hu with rfl | rfl | hu
        · rfl
        · rfl
        · exact ih u hu
      · simp only [fillEvents, modifiedEvent, updates_response, updates_update, updates_nil,
          List.cons_append, List.nil_append, List.mem_cons, List.not_mem_nil, or_false] at hu
        rcases hu with rfl | rfl <;> rfl

theorem stepEvents_ticker (fillId : Nat → Nat) {r : RefBook} {q : MEClientRequest} :
    ∀ u ∈ updates (r.stepEvents fillId q), u.ticker_id_ = q.ticker_id_ := by
  intro u hu
  unfold RefBook.stepEvents at hu
  split at hu
  · simp only [RefBook.addEvents, acceptedEvent, updates_response, updates_append,
      List.mem_append] at hu
    rcases hu with hu | hu
    · exact sweep_ticker (a := r.aggressor fillId q) u hu
    · split at hu
      · exact absurd hu (by simp)
      · simp only [addedEvent, updates_update, updates_nil, List.mem_singleton] at hu
        rw [hu]
        rfl
  · unfold RefBook.cancelEvents at hu
    split at hu
    · exact absurd hu (by simp [rejectedEvent])
    · simp only [canceledEvents, updates_update, updates_response, updates_nil,
        List.mem_singleton] at hu
      rw [hu]
  · exact absurd hu (by simp)

/-- The feeds of all books. -/
def feedsOf (R : RefExchange) : Feeds := fun t => feedOf (R t).book

/-- The live orders of all tickers, which a pool shared by all has to hold. -/
def TotalFits (R : RefExchange) (q : MEClientRequest) : Prop :=
  ∑ t ∈ Finset.range ME_MAX_TICKERS, (R.step q t).book.live ≤ ME_MAX_ORDER_IDS - 1

instance (R : RefExchange) (q : MEClientRequest) : Decidable (TotalFits R q) :=
  inferInstanceAs (Decidable (_ ≤ _))

/-- **The feeds follow the books**, one request. -/
theorem engine_step_feed {R : RefExchange} {q : MEClientRequest} (hinv : R.Inv) (ha : R.Admits q)
    (hid : RefExchange.IdBelow ME_MAX_ORDER_IDS R q) (hf : R.StepFits q) (htot : TotalFits R q)
    (fillId : Nat → Nat) :
    FeedsOk (feedsOf R) (updates (R.stepEvents fillId q)) ∧
      (updates (R.stepEvents fillId q)).foldl applyTo (feedsOf R) = feedsOf (R.step q) := by
  have hroom : ((R q.ticker_id_).step q).book.live ≤ room (feedsOf R) q.ticker_id_ := by
    have hsum := Finset.add_sum_erase (Finset.range ME_MAX_TICKERS)
      (fun t => (R.step q t).book.live) (Finset.mem_range.mpr ha.1)
    have hoth : others (feedsOf R) q.ticker_id_
        = ∑ t ∈ (Finset.range ME_MAX_TICKERS).erase q.ticker_id_, (R.step q t).book.live := by
      refine Finset.sum_congr rfl fun t ht => ?_
      rw [RefExchange.step_other (Finset.ne_of_mem_erase ht)]
      exact live_feedOf _
    simp only [RefExchange.step_self] at hsum
    unfold TotalFits at htot
    unfold room
    rw [hoth]
    omega
  obtain ⟨hok, hfold⟩ := step_feed (hinv.inv _) (hinv.numbered _) ha.2 hid hroom hf.2 fillId
  obtain ⟨hok', hfold'⟩ := feedsOk_single (F := feedsOf R) ha.1
    (stepEvents_ticker fillId (r := R q.ticker_id_)) hok
  refine ⟨hok', hfold'.trans ?_⟩
  funext t
  by_cases ht : t = q.ticker_id_
  · rw [ht, Function.update_self]
    show _ = feedOf (R.step q q.ticker_id_).book
    rw [RefExchange.step_self]
    exact hfold
  · rw [Function.update_of_ne ht]
    show _ = feedOf (R.step q t).book
    rw [RefExchange.step_other ht]
    rfl

/-- **The feeds follow the books**, a whole run. -/
theorem engine_run_feed {R : RefExchange} {qs : List MEClientRequest} (hinv : R.Inv)
    (ha : RefExchange.AllAlong RefExchange.Admits R qs)
    (hf : RefExchange.AllAlong RefExchange.StepFits R qs)
    (hid : RefExchange.AllAlong (RefExchange.IdBelow ME_MAX_ORDER_IDS) R qs)
    (htot : RefExchange.AllAlong TotalFits R qs) (fillId : Nat → Nat) :
    FeedsOk (feedsOf R) (updates (R.runEvents fillId qs).flatten) := by
  induction qs generalizing R with
  | nil => trivial
  | cons q qs ih =>
    have hlt : RefExchange.IdBelow OrderId_INVALID R q := by
      intro hq
      have := hid.1 hq
      simp only [ME_MAX_ORDER_IDS, OrderId_INVALID] at this ⊢
      omega
    obtain ⟨hok, hfold⟩ := engine_step_feed hinv ha.1 hid.1 hf.1 htot.1 fillId
    simp only [RefExchange.runEvents, List.flatten_cons, updates_append]
    rw [feedsOk_append, hfold]
    exact ⟨hok, ih (hinv.step ha.1 hlt) ha.2 hf.2 hid.2 htot.2⟩

end LowLatency
