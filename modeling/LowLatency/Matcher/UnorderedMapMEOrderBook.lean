import LowLatency.Matcher.Cancellable
import LowLatency.Matcher.Owners
import Mathlib.Data.Finset.Card

/-!
# `UnorderedMapMEOrderBook`: the book on hash maps

`src/exchange/matcher/unordered_map_me_order_book.{h,cpp}`, the alternative that
`hash_benchmark.cpp` times against `MEOrderBook`. Orders and levels are linked by
the same code. What differs is the tables: a map entry that was never written
reads as null, so no index is out of range (`mapKey`), and an entry is made by
looking it up and never erased. The only thing that depends on which entries
there are is the guard of `cancel`, which compares the client id with the number
of clients in the map (`clients`).

`books_agree_iff`: the two books send the same responses and updates exactly if,
whenever a `CANCEL` names a resting order, the client id is below that number.
Nothing is assumed of prices, quantities or the reuse of ids: the heaps stay equal
block by block, and what is read through a pointer is an order that was added
(`Leads`), whose ids the array book finds in range too.
-/

namespace LowLatency

/-- The id index of the map: `operator[]` accepts every key. -/
@[reducible] def mapKey : OrderKey MEOrderId (Nat × Nat) where
  idx := fun k => (k.client_id_, k.client_order_id_)
  inRange := fun _ => true

/-- The containers, and the keys of `cid_oid_to_order_`. -/
structure MapLadder where
  ladder : MELadder
  clients : Finset Nat

namespace MapLadder

/-- `cid_oid_to_order_[client_id]`. -/
def lookupClient (s : MapLadder) (client_id : Nat) : MapLadder :=
  { s with clients := insert client_id s.clients }

def removeOrder (s : MapLadder) (order : Nat) : Exec MapLadder := do
  let o := s.ladder.order_pool_.data order
  let l ← @Ladder.removeOrder _ _ mapKey _ s.ladder order
  return lookupClient { s with ladder := l } o.id_.client_id_

/-- `order_pool_.allocate(..)` followed by `addOrder`. -/
def allocateOrder (s : MapLadder) (d : OrderData MEOrderId) : Exec MapLadder := do
  let l ← @Ladder.allocateOrder _ _ mapKey _ s.ladder d
  return lookupClient { s with ladder := l } d.id_.client_id_

/-- `UnorderedMapMEOrderBook::match`. -/
def matchOrder (s : MapLadder) (a : Aggressor) (itr leaves_qty : Nat) :
    Exec (Nat × MapLadder × List Event) := do
  let o := s.ladder.order_pool_.data itr
  let fill_qty := min leaves_qty o.qty_
  let leaves_qty := leaves_qty - fill_qty
  let qty := o.qty_ - fill_qty
  let s := { s with
    ladder := { s.ladder with order_pool_ := s.ladder.order_pool_.setQty itr qty } }
  let evs := fillEvents a o fill_qty leaves_qty qty
  if qty = 0 then
    let s ← s.removeOrder itr
    return (leaves_qty, s, evs ++ [exhaustedEvent a o])
  else return (leaves_qty, s, evs ++ [modifiedEvent a o qty])

/-- The `while` loop of `checkForMatch` against side `bid`. -/
def checkForMatchLoop (bid : Bool) (a : Aggressor) :
    Nat → MapLadder → Nat → Exec (Nat × MapLadder × List Event)
  | 0, _, _ => .error .diverges
  | fuel + 1, s, leaves_qty =>
    if leaves_qty = 0 then .ok (leaves_qty, s, [])
    else
      match s.ladder.best bid with
      | none => .ok (leaves_qty, s, [])
      | some level => do
        let itr ← deref (s.ladder.orders_at_price_pool_.firstOrder level)
        if MELadder.outOfReach bid a.price_ (s.ladder.order_pool_.data itr).price_ then
          return (leaves_qty, s, [])
        else
          let (leaves_qty, s, evs) ← matchOrder s a itr leaves_qty
          let (leaves_qty, s, evs') ← checkForMatchLoop bid a fuel s leaves_qty
          return (leaves_qty, s, evs ++ evs')

def checkForMatch (s : MapLadder) (a : Aggressor) (qty : Nat) :
    Exec (Nat × MapLadder × List Event) :=
  match a.side_ with
  | .BUY => checkForMatchLoop false a (ME_MAX_ORDER_IDS + 1) s qty
  | .SELL => checkForMatchLoop true a (ME_MAX_ORDER_IDS + 1) s qty
  | _ => .ok (qty, s, [])

end MapLadder

structure UnorderedMapMEOrderBook where
  containers : MapLadder
  next_market_order_id_ : Nat

namespace UnorderedMapMEOrderBook

def init : UnorderedMapMEOrderBook := ⟨⟨Ladder.init, ∅⟩, 1⟩

def add (s : UnorderedMapMEOrderBook) (client_id client_order_id ticker_id : Nat) (side : Side)
    (price : Int) (qty : Nat) : Exec (UnorderedMapMEOrderBook × List Event) := do
  let new_market_order_id := s.next_market_order_id_
  let next_market_order_id := wrap64 (s.next_market_order_id_ + 1)
  let accepted := acceptedEvent client_id client_order_id ticker_id new_market_order_id side price
    qty
  let (leaves_qty, l, evs) ← s.containers.checkForMatch
    ⟨client_id, client_order_id, ticker_id, side, price, wrap32 new_market_order_id⟩ qty
  if leaves_qty ≠ 0 then
    let priority ← MELadder.getNextPriority l.ladder price
    let order : OrderData MEOrderId :=
      ⟨⟨ticker_id, client_id, client_order_id, new_market_order_id⟩, side, price, leaves_qty,
        priority⟩
    let l ← l.allocateOrder order
    return (⟨l, next_market_order_id⟩, accepted :: (evs ++ [addedEvent order]))
  else return (⟨l, next_market_order_id⟩, accepted :: evs)

/-- The guard compares the client id with the number of clients in the map. -/
def cancel (s : UnorderedMapMEOrderBook) (client_id order_id ticker_id : Nat) :
    Exec (UnorderedMapMEOrderBook × List Event) :=
  if client_id < s.containers.clients.card then
    let l := s.containers.lookupClient client_id
    match l.ladder.id_to_order_ (client_id, order_id) with
    | none => .ok ({ s with containers := l }, [rejectedEvent client_id order_id ticker_id])
    | some p => do
      let o := l.ladder.order_pool_.data p
      let l ← l.removeOrder p
      return ({ s with containers := l }, canceledEvents client_id order_id ticker_id o)
  else .ok (s, [rejectedEvent client_id order_id ticker_id])

/-- The calls of a request, as for `MEOrderBook`. -/
def processClientRequest (s : UnorderedMapMEOrderBook) (r : MEClientRequest) :
    Exec (UnorderedMapMEOrderBook × List Event) :=
  match r.type_ with
  | .NEW => s.add r.client_id_ r.order_id_ r.ticker_id_ r.side_ r.price_ r.qty_
  | .CANCEL => s.cancel r.client_id_ r.order_id_ r.ticker_id_
  | .INVALID => .error (.assertion "Received invalid client-request-type:INVALID")

end UnorderedMapMEOrderBook

/-! ## The containers agree -/

/-- The ids of an order are in range for the array. -/
def IdInRange (k : MEOrderId) : Prop := inRange (K := MEOrderId) (idx k) = true

/-- A map entry and an array entry in range are written alike. -/
theorem setIdx_map {l : MELadder} {i : Nat × Nat} (h : inRange (K := MEOrderId) i = true)
    (v : Option Nat) : @Ladder.setIdx _ _ mapKey _ l i v = l.setIdx i v := by
  unfold Ladder.setIdx
  exact (if_pos rfl).trans (if_pos h).symm

theorem removeOrder_map {l : MELadder} {p : Nat} (h : IdInRange (l.order_pool_.data p).id_) :
    @Ladder.removeOrder _ _ mapKey _ l p = l.removeOrder p := by
  have hset : ∀ (l' : MELadder) (v : Option Nat),
      @Ladder.setIdx _ _ mapKey _ l' (@idx _ _ mapKey (l.order_pool_.data p).id_) v
        = l'.setIdx (idx (l.order_pool_.data p).id_) v := fun l' v => setIdx_map h v
  unfold Ladder.removeOrder
  simp only [hset]

theorem addOrder_map {l : MELadder} {p : Nat} (h : IdInRange (l.order_pool_.data p).id_) :
    @Ladder.addOrder _ _ mapKey _ l p = l.addOrder p := by
  have hset : ∀ (l' : MELadder) (v : Option Nat),
      @Ladder.setIdx _ _ mapKey _ l' (@idx _ _ mapKey (l.order_pool_.data p).id_) v
        = l'.setIdx (idx (l.order_pool_.data p).id_) v := fun l' v => setIdx_map h v
  unfold Ladder.addOrder
  simp only [hset]

theorem allocateOrder_map {l : MELadder} {d : OrderData MEOrderId} (h : IdInRange d.id_) :
    @Ladder.allocateOrder _ _ mapKey _ l d = l.allocateOrder d := by
  unfold Ladder.allocateOrder
  cases halloc : l.order_pool_.allocate
      ({ d with prev_order_ := none, next_order_ := none } : Order MEOrderId) with
  | error e => rfl
  | ok r =>
    obtain ⟨p, m⟩ := r
    simp only [exec_ok_bind]
    refine addOrder_map ?_
    have hdata : m.data p = d := by
      unfold MemPool.data
      rw [MemPool.get_of_store (MemPool.allocate_inv halloc).2, if_pos rfl]
    show IdInRange (m.data p).id_
    rw [hdata]
    exact h

/-- What a matching step of the map book comes to in the array book. -/
def MapLadder.outcome (r : Nat × MapLadder × List Event) : Nat × MELadder × List Event :=
  (r.1, r.2.1.ladder, r.2.2)

theorem matchOrder_map {s : MapLadder} {a : Aggressor} {itr leaves : Nat}
    (h : IdInRange (s.ladder.order_pool_.data itr).id_) :
    (s.matchOrder a itr leaves).map MapLadder.outcome
      = MELadder.matchOrder s.ladder a itr leaves := by
  set qty := (s.ladder.order_pool_.data itr).qty_
    - min leaves (s.ladder.order_pool_.data itr).qty_ with hqty
  have hremove : @Ladder.removeOrder _ _ mapKey _
      { s.ladder with order_pool_ := s.ladder.order_pool_.setQty itr qty } itr
      = Ladder.removeOrder { s.ladder with order_pool_ := s.ladder.order_pool_.setQty itr qty }
        itr := by
    refine removeOrder_map ?_
    rw [MemPool.data_setQty, if_pos rfl]
    exact h
  unfold MapLadder.matchOrder MELadder.matchOrder MapLadder.removeOrder
  simp only [← hqty, hremove]
  split
  · cases Ladder.removeOrder
      { s.ladder with order_pool_ := s.ladder.order_pool_.setQty itr qty } itr with
    | error e => rfl
    | ok l => rfl
  · rfl

theorem checkForMatchLoop_map {b : Bool} {a : Aggressor} {fuel leaves : Nat} {s : MapLadder}
    (h : Leads IdInRange s.ladder) :
    (MapLadder.checkForMatchLoop b a fuel s leaves).map MapLadder.outcome
      = MELadder.checkForMatchLoop b a fuel s.ladder leaves := by
  induction fuel generalizing s leaves with
  | zero => rfl
  | succ fuel ih =>
    unfold MapLadder.checkForMatchLoop MELadder.checkForMatchLoop
    by_cases hl : leaves = 0
    · rw [if_pos hl, if_pos hl]
      rfl
    rw [if_neg hl, if_neg hl]
    cases hbest : s.ladder.best b with
    | none => rfl
    | some lv =>
      dsimp only
      cases hfirst : s.ladder.orders_at_price_pool_.firstOrder lv with
      | none => rfl
      | some itr =>
        simp only [deref_some, exec_ok_bind]
        by_cases hreach : MELadder.outOfReach b a.price_ (s.ladder.order_pool_.data itr).price_ = true
        · rw [if_pos hreach, if_pos hreach]
          rfl
        rw [if_neg hreach, if_neg hreach]
        have hitr := h.first lv itr hfirst
        have hmatch : (s.matchOrder a itr leaves).map MapLadder.outcome
            = MELadder.matchOrder s.ladder a itr leaves := matchOrder_map hitr
        cases hm : s.matchOrder a itr leaves with
        | error e =>
          rw [hm] at hmatch
          rw [← hmatch]
          rfl
        | ok r =>
          rw [hm] at hmatch
          obtain ⟨leaves₁, s₁, evs₁⟩ := r
          have hrun₁ : MELadder.matchOrder s.ladder a itr leaves = .ok (leaves₁, s₁.ladder, evs₁) :=
            hmatch.symm
          have h₁ : Leads IdInRange s₁.ladder :=
            (matchOrder_rule (leads_fillRule a leaves) h ⟨b, lv, hbest, hfirst⟩ (Nat.le_refl leaves)
              hrun₁).1
          rw [hrun₁]
          simp only [exec_ok_bind]
          rw [← ih h₁]
          cases MapLadder.checkForMatchLoop b a fuel s₁ leaves₁ with
          | error e => rfl
          | ok r => rfl

theorem checkForMatch_map {a : Aggressor} {qty : Nat} {s : MapLadder}
    (h : Leads IdInRange s.ladder) :
    (s.checkForMatch a qty).map MapLadder.outcome = MELadder.checkForMatch s.ladder a qty := by
  unfold MapLadder.checkForMatch MELadder.checkForMatch
  cases a.side_ with
  | BUY => exact checkForMatchLoop_map h
  | SELL => exact checkForMatchLoop_map h
  | INVALID => rfl
  | MAX => rfl

namespace UnorderedMapMEOrderBook

/-- The array book with the same containers. -/
def toArray (s : UnorderedMapMEOrderBook) : MEOrderBook :=
  ⟨s.containers.ladder, s.next_market_order_id_⟩

/-- What a call comes to in the array book. -/
def outcome (r : UnorderedMapMEOrderBook × List Event) : MEOrderBook × List Event :=
  (r.1.toArray, r.2)

theorem add_map {s : UnorderedMapMEOrderBook} (h : Leads IdInRange s.containers.ladder)
    {client_id client_order_id ticker_id : Nat} {side : Side} {price : Int} {qty : Nat}
    (hid : ∀ id, IdInRange ⟨ticker_id, client_id, client_order_id, id⟩) :
    (s.add client_id client_order_id ticker_id side price qty).map outcome
      = s.toArray.add client_id client_order_id ticker_id side price qty := by
  unfold add MEOrderBook.add toArray
  dsimp only
  rw [← checkForMatch_map h]
  cases s.containers.checkForMatch
      ⟨client_id, client_order_id, ticker_id, side, price, wrap32 s.next_market_order_id_⟩ qty with
  | error e => rfl
  | ok r =>
    obtain ⟨leaves, l, evs⟩ := r
    show Except.map outcome (if leaves ≠ 0 then _ else _) = if leaves ≠ 0 then _ else _
    by_cases hl : leaves ≠ 0
    · rw [if_pos hl, if_pos hl]
      show _ = (do
        let priority ← MELadder.getNextPriority l.ladder price
        _)
      cases MELadder.getNextPriority l.ladder price with
      | error e => rfl
      | ok priority =>
        have halloc : @Ladder.allocateOrder _ _ mapKey _ l.ladder ⟨⟨ticker_id, client_id,
            client_order_id, s.next_market_order_id_⟩, side, price, leaves, priority⟩ = _ :=
          allocateOrder_map (hid _)
        simp only [exec_ok_bind, MapLadder.allocateOrder, halloc, MapLadder.outcome]
        cases l.ladder.allocateOrder ⟨⟨ticker_id, client_id, client_order_id,
            s.next_market_order_id_⟩, side, price, leaves, priority⟩ with
        | error e => rfl
        | ok l' => rfl
    · rw [if_neg hl, if_neg hl]
      rfl

/-- The guard of `cancel` lets through every request for a resting order. -/
def Guarded (s : UnorderedMapMEOrderBook) (q : MEClientRequest) : Prop :=
  q.type_ = .CANCEL → s.containers.ladder.id_to_order_ (q.client_id_, q.order_id_) ≠ none →
    q.client_id_ < s.containers.clients.card

theorem cancel_map {s : UnorderedMapMEOrderBook} (h : Leads IdInRange s.containers.ladder)
    {client_id order_id ticker_id : Nat} (hc : client_id < ME_MAX_NUM_CLIENTS)
    (ho : order_id < ME_MAX_ORDER_IDS)
    (hguard : s.containers.ladder.id_to_order_ (client_id, order_id) ≠ none →
      client_id < s.containers.clients.card) :
    (s.cancel client_id order_id ticker_id).map outcome
      = s.toArray.cancel client_id order_id ticker_id := by
  have hget : s.toArray.ladder.getIdx (client_id, order_id)
      = .ok (s.containers.ladder.id_to_order_ (client_id, order_id)) := by
    refine if_pos ?_
    show (decide (client_id < _) && decide (order_id < _)) = true
    simp [hc, ho]
  unfold cancel MEOrderBook.cancel
  simp only [if_pos hc, hget, exec_ok_bind]
  cases hid : s.containers.ladder.id_to_order_ (client_id, order_id) with
  | none =>
    by_cases hcard : client_id < s.containers.clients.card
    · rw [if_pos hcard]
      simp only [MapLadder.lookupClient, hid]
      rfl
    · rw [if_neg hcard]
      rfl
  | some p =>
    rw [if_pos (hguard (by rw [hid]; simp))]
    simp only [MapLadder.lookupClient, hid, MapLadder.removeOrder, removeOrder_map (h.id _ _ hid)]
    show Except.map outcome _ = (do
      let l ← s.containers.ladder.removeOrder p
      _)
    cases s.containers.ladder.removeOrder p with
    | error e => rfl
    | ok l => rfl

theorem processClientRequest_map {s : UnorderedMapMEOrderBook}
    (h : Leads IdInRange s.containers.ladder) {q : MEClientRequest} (hq : q.InRange)
    (hguard : s.Guarded q) :
    (s.processClientRequest q).map outcome = s.toArray.processClientRequest q := by
  unfold processClientRequest MEOrderBook.processClientRequest
  cases ht : q.type_ with
  | NEW =>
    refine add_map h fun id => ?_
    show (decide (q.client_id_ < _) && decide (q.order_id_ < _)) = true
    simp [hq.client, hq.order]
  | CANCEL => exact cancel_map h hq.client hq.order (hguard ht)
  | INVALID => rfl

/-- Every request of a run is guarded when it is made. -/
def GuardedAll : UnorderedMapMEOrderBook → List MEClientRequest → Prop
  | _, [] => True
  | s, q :: qs => s.Guarded q ∧
      match s.processClientRequest q with
      | .ok (s', _) => GuardedAll s' qs
      | .error _ => True

instance (s : UnorderedMapMEOrderBook) (q : MEClientRequest) : Decidable (s.Guarded q) :=
  inferInstanceAs (Decidable (_ → _ → _))

instance decidableGuardedAll : (s : UnorderedMapMEOrderBook) → (qs : List MEClientRequest) →
    Decidable (s.GuardedAll qs)
  | _, [] => isTrue trivial
  | s, q :: qs =>
    have : Decidable (match s.processClientRequest q with
        | .ok (s', _) => s'.GuardedAll qs
        | .error _ => True) :=
      match s.processClientRequest q with
      | .ok (s', _) => decidableGuardedAll s' qs
      | .error _ => isTrue trivial
    inferInstanceAs (Decidable (s.Guarded q ∧ _))

end UnorderedMapMEOrderBook

/-! ## Streams -/

/-- The messages of a run, call by call, up to a call that does not return. -/
def sentBy {S : Type} (step : S → MEClientRequest → Exec (S × List Event)) :
    S → List MEClientRequest → List Event
  | _, [] => []
  | s, q :: qs =>
    match step s q with
    | .ok (s', evs) => evs ++ sentBy step s' qs
    | .error _ => []

/-- The response stream and the update stream. -/
def streams (evs : List Event) : List MEClientResponse × List MEMarketUpdate :=
  (responses evs, updates evs)

theorem streams_append_inj {evs evs₁ evs₂ : List Event} :
    streams (evs ++ evs₁) = streams (evs ++ evs₂) ↔ streams evs₁ = streams evs₂ := by
  unfold streams responses updates
  simp only [List.filterMap_append, Prod.mk.injEq, List.append_cancel_left_eq]

/-- An unguarded cancel: the map book rejects it, the array book does not. -/
theorem unguarded_streams {s : UnorderedMapMEOrderBook} {q : MEClientRequest} (hq : q.InRange)
    (hguard : ¬ s.Guarded q) (qs : List MEClientRequest) :
    streams (sentBy UnorderedMapMEOrderBook.processClientRequest s (q :: qs))
      ≠ streams (sentBy MEOrderBook.processClientRequest s.toArray (q :: qs)) := by
  simp only [UnorderedMapMEOrderBook.Guarded, Classical.not_imp] at hguard
  obtain ⟨ht, hid, hcard⟩ := hguard
  obtain ⟨p, hp⟩ := Option.ne_none_iff_exists'.mp hid
  have hmap : s.processClientRequest q
      = .ok (s, [rejectedEvent q.client_id_ q.order_id_ q.ticker_id_]) := by
    unfold UnorderedMapMEOrderBook.processClientRequest
    rw [ht]
    exact if_neg hcard
  have hget : s.toArray.ladder.getIdx (q.client_id_, q.order_id_) = .ok (some p) := by
    rw [← hp]
    refine if_pos ?_
    show (decide (q.client_id_ < _) && decide (q.order_id_ < _)) = true
    simp [hq.client, hq.order]
  intro he
  have hresp := congrArg Prod.fst he
  unfold streams sentBy at hresp
  rw [hmap] at hresp
  unfold MEOrderBook.processClientRequest at hresp
  simp only [ht, MEOrderBook.cancel, if_pos hq.client, hget, exec_ok_bind] at hresp
  cases hremove : s.toArray.ladder.removeOrder p with
  | error e =>
    rw [hremove] at hresp
    exact absurd hresp (by simp [responses, rejectedEvent])
  | ok l =>
    rw [hremove] at hresp
    simp only [exec_ok_bind, exec_pure, responses, rejectedEvent, canceledEvents,
      List.filterMap_cons, List.cons_append, List.cons.injEq] at hresp
    exact absurd (congrArg MEClientResponse.type_ hresp.1) (by simp)

/-- From containers that agree. -/
theorem streams_eq_iff {s : UnorderedMapMEOrderBook} {qs : List MEClientRequest}
    (h : Leads IdInRange s.containers.ladder) (hq : ∀ q ∈ qs, q.InRange) :
    streams (sentBy UnorderedMapMEOrderBook.processClientRequest s qs)
        = streams (sentBy MEOrderBook.processClientRequest s.toArray qs) ↔ s.GuardedAll qs := by
  induction qs generalizing s with
  | nil => exact ⟨fun _ => trivial, fun _ => rfl⟩
  | cons q qs ih =>
    have hin := hq q (by simp)
    by_cases hguard : s.Guarded q
    · have hstep := UnorderedMapMEOrderBook.processClientRequest_map h hin hguard
      unfold sentBy UnorderedMapMEOrderBook.GuardedAll
      cases hrun : s.processClientRequest q with
      | error e =>
        rw [hrun] at hstep
        rw [← hstep]
        exact ⟨fun _ => ⟨hguard, trivial⟩, fun _ => rfl⟩
      | ok r =>
        obtain ⟨s', evs⟩ := r
        rw [hrun] at hstep
        have hrun' : s.toArray.processClientRequest q = .ok (s'.toArray, evs) := hstep.symm
        have h' : Leads IdInRange s'.toArray.ladder := by
          refine (processClientRequest_owners (s := s.toArray) h (fun id => ?_) hrun').1
          show (decide (q.client_id_ < _) && decide (q.order_id_ < _)) = true
          simp [hin.client, hin.order]
        rw [hrun']
        show streams (evs ++ _) = streams (evs ++ _) ↔ s.Guarded q ∧ s'.GuardedAll qs
        rw [streams_append_inj, ih h' fun q' hq' => hq q' (List.mem_cons_of_mem _ hq')]
        exact ⟨fun hg => ⟨hguard, hg⟩, fun hg => hg.2⟩
    · exact ⟨fun he => absurd he (unguarded_streams hin hguard qs), fun hg => absurd hg.1 hguard⟩

/-- **When the two books agree.** On any sequence of calls with ids in range,
whatever the prices and quantities, the book on hash maps and the book on arrays
send the same responses and the same updates if and only if every `CANCEL` of a
resting order comes from a client whose id is below the number of clients the map
holds. -/
theorem books_agree_iff (qs : List MEClientRequest) (hq : ∀ q ∈ qs, q.InRange) :
    streams (sentBy UnorderedMapMEOrderBook.processClientRequest UnorderedMapMEOrderBook.init qs)
        = streams (sentBy MEOrderBook.processClientRequest MEOrderBook.init qs) ↔
      UnorderedMapMEOrderBook.init.GuardedAll qs :=
  streams_eq_iff (s := UnorderedMapMEOrderBook.init) Leads.init hq

/-- Clients 0 and 1 trade, and client 1 cancels what is left. -/
theorem books_agree_iff_small :
    let qs : List MEClientRequest := [⟨.NEW, 0, 0, 7, .SELL, 100, 10⟩, ⟨.NEW, 1, 0, 9, .BUY, 99, 4⟩,
      ⟨.NEW, 1, 0, 8, .BUY, 101, 3⟩, ⟨.CANCEL, 1, 0, 9, .INVALID, 0, 0⟩]
    streams (sentBy UnorderedMapMEOrderBook.processClientRequest UnorderedMapMEOrderBook.init qs)
      = streams (sentBy MEOrderBook.processClientRequest MEOrderBook.init qs) := by
  intro qs
  exact (books_agree_iff qs (by decide)).mpr (by decide)

/-- Client 5 is the only one, and cannot cancel: 5 is not below 1. -/
theorem books_disagree :
    let qs : List MEClientRequest := [⟨.NEW, 5, 0, 1, .BUY, 100, 10⟩, ⟨.CANCEL, 5, 0, 1, .INVALID, 0, 0⟩]
    (∀ q ∈ qs, q.InRange) ∧
      streams (sentBy UnorderedMapMEOrderBook.processClientRequest UnorderedMapMEOrderBook.init qs)
        ≠ streams (sentBy MEOrderBook.processClientRequest MEOrderBook.init qs) := by
  intro qs
  exact ⟨by decide, by decide⟩

end LowLatency
