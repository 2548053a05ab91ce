import LowLatency.Matcher.MEOrderBook
import LowLatency.Book.Queue
import Mathlib.Data.Fintype.Basic

/-!
# The reference book: price-time priority on two lists

What `MEOrderBook` is for, said without pointers, pools or tables. The bids
are one list by falling price, the asks one by rising price, equal prices in
order of arrival. A new order is accepted, then filled against the head of the
opposite list as long as it has quantity left and its limit reaches that head,
each time at the head's price; what is left of it joins its own list behind
everything that is not worse. A cancel takes its order out, or is rejected.

The messages are those of the exchange. `fillId` is the market order id that
fills report to the aggressor: `id` in the ideal book, `wrap32` in the
implementation, which the refinement theorem compares.

`Admits` is what the exchange expects of its clients, request by request;
`Fits` is room in the two pools. Everything below `Fits` is about the reference
alone: what a sweep leaves, and the invariants of a run.
-/

namespace LowLatency

open Lib (Better queueInsert QueueSorted Before)

/-- What is left after matching: of the aggressor and of the opposite queue. -/
structure Sweep where
  leaves : Nat
  queue : List (OrderData MEOrderId)
  events : List Event

/-- Match an aggressor with `leaves` against the queue of side `b`. -/
def sweep (b : Bool) (a : Aggressor) (leaves : Nat) : List (OrderData MEOrderId) → Sweep
  | [] => ⟨leaves, [], []⟩
  | o :: os =>
    if leaves = 0 ∨ Better b a.price_ o.price_ then ⟨leaves, o :: os, []⟩
    else
      let fill := min leaves o.qty_
      let evs := fillEvents a o fill (leaves - fill) (o.qty_ - fill)
      if o.qty_ - fill = 0 then
        let r := sweep b a (leaves - fill) os
        ⟨r.leaves, r.queue, evs ++ [exhaustedEvent a o] ++ r.events⟩
      else
        ⟨leaves - fill, { o with qty_ := o.qty_ - fill } :: os,
          evs ++ [modifiedEvent a o (o.qty_ - fill)]⟩

/-- One more than the last priority at the price, or 1. -/
def nextPriority (l : List (OrderData MEOrderId)) (price : Int) : Nat :=
  match (l.filter fun o => decide (o.price_ = price)).getLast? with
  | none => 1
  | some o => wrap64 (o.priority_ + 1)

structure RefBook where
  book : Book MEOrderId
  next_market_order_id_ : Nat

namespace RefBook

def init : RefBook := ⟨Book.empty, 1⟩

/-- The order of a client under one of its order ids. -/
def find? (r : RefBook) (i : Nat × Nat) : Option (OrderData MEOrderId) :=
  (r.book true ++ r.book false).find? fun o => decide (idx o.id_ = i)

/-- The order a request brings, as matching sees it. -/
def aggressor (fillId : Nat → Nat) (r : RefBook) (q : MEClientRequest) : Aggressor :=
  ⟨q.client_id_, q.order_id_, q.ticker_id_, q.side_, q.price_, fillId r.next_market_order_id_⟩

/-- Matching a new order, and the book it leaves. -/
def swept (fillId : Nat → Nat) (r : RefBook) (q : MEClientRequest) : Sweep :=
  sweep (!Ladder.isBid q.side_) (r.aggressor fillId q) q.qty_ (r.book (!Ladder.isBid q.side_))

def matched (r : RefBook) (q : MEClientRequest) : Book MEOrderId :=
  Function.update r.book (!Ladder.isBid q.side_) (r.swept id q).queue

/-- What is left of a new order, as it comes to rest. -/
def resting (r : RefBook) (q : MEClientRequest) : OrderData MEOrderId :=
  ⟨⟨q.ticker_id_, q.client_id_, q.order_id_, r.next_market_order_id_⟩, q.side_, q.price_,
    (r.swept id q).leaves, nextPriority (r.matched q (Ladder.isBid q.side_)) q.price_⟩

def add (r : RefBook) (q : MEClientRequest) : RefBook where
  book := if (r.swept id q).leaves = 0 then r.matched q else (r.matched q).rest (r.resting q)
  next_market_order_id_ := wrap64 (r.next_market_order_id_ + 1)

def addEvents (fillId : Nat → Nat) (r : RefBook) (q : MEClientRequest) : List Event :=
  acceptedEvent q.client_id_ q.order_id_ q.ticker_id_ r.next_market_order_id_ q.side_ q.price_
      q.qty_ ::
    ((r.swept fillId q).events ++
      if (r.swept id q).leaves = 0 then [] else [addedEvent (r.resting q)])

def cancel (r : RefBook) (q : MEClientRequest) : RefBook :=
  { r with book := r.book.removeIdx (q.client_id_, q.order_id_) }

def cancelEvents (r : RefBook) (q : MEClientRequest) : List Event :=
  match r.find? (q.client_id_, q.order_id_) with
  | none => [rejectedEvent q.client_id_ q.order_id_ q.ticker_id_]
  | some o => canceledEvents q.client_id_ q.order_id_ q.ticker_id_ o

def step (r : RefBook) (q : MEClientRequest) : RefBook :=
  match q.type_ with
  | .NEW => r.add q
  | .CANCEL => r.cancel q
  | .INVALID => r

def stepEvents (fillId : Nat → Nat) (r : RefBook) (q : MEClientRequest) : List Event :=
  match q.type_ with
  | .NEW => r.addEvents fillId q
  | .CANCEL => r.cancelEvents q
  | .INVALID => []

/-- The book after a list of requests. -/
def run (r : RefBook) (qs : List MEClientRequest) : RefBook := qs.foldl step r

/-- The messages of each request. -/
def runEvents (fillId : Nat → Nat) : RefBook → List MEClientRequest → List (List Event)
  | _, [] => []
  | r, q :: qs => r.stepEvents fillId q :: runEvents fillId (r.step q) qs

/-! ## What is asked of a run -/

/-- A client has a live order under this id. -/
def Live (r : RefBook) (i : Nat × Nat) : Prop := ∃ b, ∃ o ∈ r.book b, idx o.id_ = i

/-- A well-formed request: the ids are in range; a new order has a side, an id
that is not live, and does not come to rest at a price congruent to a different
live price. -/
structure Admits (r : RefBook) (q : MEClientRequest) : Prop where
  client : q.client_id_ < ME_MAX_NUM_CLIENTS
  order : q.order_id_ < ME_MAX_ORDER_IDS
  type : q.type_ ≠ .INVALID
  side : q.type_ = .NEW → q.side_ = .BUY ∨ q.side_ = .SELL
  fresh : q.type_ = .NEW → ¬ r.Live (q.client_id_, q.order_id_)
  price : q.type_ = .NEW → (r.swept id q).leaves ≠ 0 → ∀ b, ∀ o ∈ r.matched q b,
    o.price_ % (ME_MAX_PRICE_LEVELS : Int) = q.price_ % (ME_MAX_PRICE_LEVELS : Int) →
    o.price_ = q.price_

/-- Every request of a run is well formed where it arrives. -/
def AdmitsAll : RefBook → List MEClientRequest → Prop
  | _, [] => True
  | r, q :: qs => r.Admits q ∧ AdmitsAll (r.step q) qs

/-- The pools are not exhausted: one block of each always stays free. -/
def Fits (r : RefBook) : Prop :=
  r.book.live ≤ ME_MAX_ORDER_IDS - 1 ∧ r.book.levels ≤ ME_MAX_PRICE_LEVELS - 1

/-- They are not after any request of a run. -/
def FitsAll : RefBook → List MEClientRequest → Prop
  | _, [] => True
  | r, q :: qs => (r.step q).Fits ∧ FitsAll (r.step q) qs

/-- Every order of a run gets a market order id below `n`. -/
def IdsBelow (n : Nat) : RefBook → List MEClientRequest → Prop
  | _, [] => True
  | r, q :: qs => (q.type_ = .NEW → r.next_market_order_id_ < n) ∧ IdsBelow n (r.step q) qs

instance (r : RefBook) (i : Nat × Nat) : Decidable (r.Live i) :=
  inferInstanceAs (Decidable (∃ b, ∃ o ∈ r.book b, idx o.id_ = i))

instance (r : RefBook) (q : MEClientRequest) : Decidable (r.Admits q) :=
  decidable_of_iff
    (q.client_id_ < ME_MAX_NUM_CLIENTS ∧ q.order_id_ < ME_MAX_ORDER_IDS ∧ q.type_ ≠ .INVALID ∧
      (q.type_ = .NEW → q.side_ = .BUY ∨ q.side_ = .SELL) ∧
      (q.type_ = .NEW → ¬ r.Live (q.client_id_, q.order_id_)) ∧
      (q.type_ = .NEW → (r.swept id q).leaves ≠ 0 → ∀ b, ∀ o ∈ r.matched q b,
        o.price_ % (ME_MAX_PRICE_LEVELS : Int) = q.price_ % (ME_MAX_PRICE_LEVELS : Int) →
        o.price_ = q.price_))
    ⟨fun ⟨h₁, h₂, h₃, h₄, h₅, h₆⟩ => ⟨h₁, h₂, h₃, h₄, h₅, h₆⟩,
      fun ⟨h₁, h₂, h₃, h₄, h₅, h₆⟩ => ⟨h₁, h₂, h₃, h₄, h₅, h₆⟩⟩

instance (r : RefBook) : Decidable r.Fits :=
  inferInstanceAs (Decidable (_ ∧ _))

instance decidableAdmitsAll : (r : RefBook) → (qs : List MEClientRequest) →
    Decidable (r.AdmitsAll qs)
  | _, [] => isTrue trivial
  | r, q :: qs =>
    have := decidableAdmitsAll (r.step q) qs
    inferInstanceAs (Decidable (r.Admits q ∧ (r.step q).AdmitsAll qs))

instance decidableFitsAll : (r : RefBook) → (qs : List MEClientRequest) → Decidable (r.FitsAll qs)
  | _, [] => isTrue trivial
  | r, q :: qs =>
    have := decidableFitsAll (r.step q) qs
    inferInstanceAs (Decidable ((r.step q).Fits ∧ (r.step q).FitsAll qs))

instance decidableIdsBelow (n : Nat) : (r : RefBook) → (qs : List MEClientRequest) →
    Decidable (IdsBelow n r qs)
  | _, [] => isTrue trivial
  | r, q :: qs =>
    have := decidableIdsBelow n (r.step q) qs
    inferInstanceAs (Decidable ((q.type_ = .NEW → r.next_market_order_id_ < n) ∧
      IdsBelow n (r.step q) qs))

end RefBook

/-! ## What a sweep does -/

/-- An order but for its quantity. -/
def OrderData.strip {K : Type} (o : OrderData K) : OrderData K := { o with qty_ := 0 }

section Sweep

variable {b : Bool} {a : Aggressor}

/-- The id reported to the aggressor changes nothing but the report. -/
theorem sweep_congr {c : Aggressor} (h : a.price_ = c.price_) (leaves : Nat)
    (l : List (OrderData MEOrderId)) :
    (sweep b a leaves l).leaves = (sweep b c leaves l).leaves ∧
      (sweep b a leaves l).queue = (sweep b c leaves l).queue := by
  induction l generalizing leaves with
  | nil => exact ⟨rfl, rfl⟩
  | cons o os ih =>
    simp only [sweep, h]
    split
    · exact ⟨rfl, rfl⟩
    · split
      · exact ih _
      · exact ⟨rfl, rfl⟩

/-- **A sweep eats from the front**: quantities aside, a suffix is left. -/
theorem sweep_suffix (leaves : Nat) (l : List (OrderData MEOrderId)) :
    (sweep b a leaves l).queue.map OrderData.strip <:+ l.map OrderData.strip := by
  induction l generalizing leaves with
  | nil => exact List.suffix_rfl
  | cons o os ih =>
    simp only [sweep]
    split
    · exact List.suffix_rfl
    · split
      · exact (ih _).trans (List.suffix_cons _ _)
      · exact List.suffix_rfl

/-- What a sweep leaves, order by order. -/
theorem mem_sweep {leaves : Nat} {l : List (OrderData MEOrderId)} {o : OrderData MEOrderId}
    (h : o ∈ (sweep b a leaves l).queue) : ∃ o' ∈ l, o'.strip = o.strip := by
  have hm := (sweep_suffix leaves l).subset (List.mem_map_of_mem h)
  obtain ⟨o', ho', he⟩ := List.mem_map.mp hm
  exact ⟨o', ho', he⟩

/-- A relation that ignores quantities survives a sweep. -/
theorem pairwise_sweep {R : OrderData MEOrderId → OrderData MEOrderId → Prop} {leaves : Nat}
    {l : List (OrderData MEOrderId)} (hR : ∀ o o', R o.strip o'.strip ↔ R o o')
    (h : l.Pairwise R) : (sweep b a leaves l).queue.Pairwise R := by
  have h' : (l.map OrderData.strip).Pairwise R :=
    List.pairwise_map.mpr (h.imp fun {o o'} => (hR o o').mpr)
  have hs := h'.sublist (sweep_suffix (b := b) (a := a) leaves l).sublist
  exact (List.pairwise_map.mp hs).imp fun {o o'} => (hR o o').mp

theorem sweep_pos {leaves : Nat} {l : List (OrderData MEOrderId)} (h : ∀ o ∈ l, 0 < o.qty_) :
    ∀ o ∈ (sweep b a leaves l).queue, 0 < o.qty_ := by
  induction l generalizing leaves with
  | nil => exact h
  | cons o os ih =>
    simp only [sweep]
    split
    · exact h
    · split
      · exact ih fun o' ho' => h o' (List.mem_cons_of_mem _ ho')
      next hq =>
        intro o' ho'
        rcases List.mem_cons.mp ho' with rfl | ho'
        · exact Nat.pos_of_ne_zero hq
        · exact h o' (List.mem_cons_of_mem _ ho')

/-- **Why a sweep ends**: the aggressor is done, or its limit reaches nothing
that is left. -/
theorem sweep_exit {leaves : Nat} {l : List (OrderData MEOrderId)}
    (hl : QueueSorted b OrderData.price_ l) (h : (sweep b a leaves l).leaves ≠ 0) :
    ∀ o ∈ (sweep b a leaves l).queue, Better b a.price_ o.price_ := by
  induction l generalizing leaves with
  | nil => exact fun o ho => absurd ho (by simp [sweep])
  | cons o os ih =>
    simp only [sweep] at h ⊢
    split
    next hstop =>
      rw [if_pos hstop] at h
      have hb : Better b a.price_ o.price_ := hstop.resolve_left h
      intro o' ho'
      rcases List.mem_cons.mp ho' with rfl | ho'
      · exact hb
      · by_contra hn
        exact hl.head_le ho' (Better.of_not hn hb)
    next hgo =>
      rw [if_neg hgo] at h
      split
      next hz =>
        rw [if_pos hz] at h
        exact ih (List.pairwise_cons.mp hl).2 h
      next hz =>
        rw [if_neg hz] at h
        exact absurd h (by simp only; omega)

end Sweep

end LowLatency
