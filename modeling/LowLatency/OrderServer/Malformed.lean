import LowLatency.Book.InRange
import LowLatency.Book.Shelved
import LowLatency.Matcher.Cancellable
import LowLatency.Matcher.Rings
import LowLatency.OrderServer.Dropped

/-!
# Malformed requests

A request is read off the wire and used as it is. `recvCallback` indexes its arrays
by the client id, `processClientRequest` the books by the ticker, and a book its
table of orders by client and order id. The only check on the way is the one of the
client id in `cancel`, where the order server has used it long before. A side is
compared with `BUY` and with `SELL` and never checked either; here `INVALID` and `MAX`
stand for all other values, which no comparison tells apart.

**`request_contained_iff`** says which requests do no harm for all that. The ids must
be in range where they are used: the order id of a new order is not until it rests.
And an order without a side must join a level that is there, or be dearer than every
ask; otherwise it is linked behind them out of order.

The level that such an order joins may be one of the bids. At once that does no harm,
and the order is `Harmless`. But when it leaves as the last order of the level,
`removeOrdersAtPrice` goes by its side and takes the level for an ask:
`asks_by_price_` becomes null if that was the only bid, and `bids_by_price_` goes on
pointing to the level if it was the best. So the state the request arrives
in is any that a run leads to in which no order came to rest in a level of the other
side, or out of order (`KeepsRings`). Requests of that run may be malformed too, and
a request that joins such a level is the last of them for which the theorem speaks.
-/

namespace LowLatency

/-- Some order of the book has these ids. -/
def MELadder.Holds (s : MELadder) (i : Nat × Nat) : Prop :=
  ∃ b vs, s.view b = some vs ∧ ∃ v ∈ vs, ∃ o ∈ v.orders, idx o.id_ = i

namespace MEOrderBook

/-- The pools have a block for what rests of a new order. The orders that it reaches
give theirs back, and a level gives back its own if nothing is left in its slot. -/
def HasBlocks (s : MEOrderBook) (q : MEClientRequest) : Prop :=
  (s.ladder.order_pool_.HasSpare ∨ s.reached q ≠ []) ∧
  ((∀ o ∈ s.left q, priceToIndex o.price_ ≠ priceToIndex q.price_) →
    s.ladder.orders_at_price_pool_.HasSpare ∨
      ∃ o ∈ s.reached q, ∀ o' ∈ s.left q, priceToIndex o'.price_ ≠ priceToIndex o.price_)

/-- The orders that a new order reaches do not use it up, and the pools have room for
what is left. -/
def ComesToRest (s : MEOrderBook) (q : MEClientRequest) : Prop :=
  q.type_ = .NEW ∧ s.LeavesOver q ∧ s.HasBlocks q

/-- The book can take the request. What an order without a side that joins a bid does
when it leaves again is not asked. -/
structure Harmless (s : MEOrderBook) (q : MEClientRequest) : Prop where
  cancel : q.type_ = .CANCEL → q.order_id_ < ME_MAX_ORDER_IDS
  rests : s.ComesToRest q →
    q.order_id_ < ME_MAX_ORDER_IDS ∧ s.ladder.FindsPlace q.side_ q.price_

end MEOrderBook

/-! ## The pools after matching -/

section Pools

variable {s : MEOrderBook} {l : MELadder} {G G' : Ghost MEOrderId} {q : MEClientRequest}

theorem Laid.used_order_iff {s : MELadder} (h : Laid s G) (p : Nat) :
    s.order_pool_.Used p ↔ ∃ b, ∃ o ∈ flat (G b), o.1 = p := by
  constructor
  · exact h.used p
  · rintro ⟨b, o, ho, rfl⟩
    exact (h.core.data_of_mem ho).2

theorem Laid.used_level_iff {s : MELadder} (h : Laid s G) (p : Nat) :
    s.orders_at_price_pool_.Used p ↔ ∃ b, ∃ g ∈ G b, g.ptr = p := by
  constructor
  · exact h.prices.used p
  · rintro ⟨b, g, hg, rfl⟩
    exact h.core.usedL b g hg

/-- Every order that is gone is a block more. -/
theorem Laid.orders_hasSpare_iff (h : Laid s.ladder G) (h' : Laid l G') (ht : TakesReached q G G') :
    l.order_pool_.HasSpare ↔ s.ladder.order_pool_.HasSpare ∨ s.reached q ≠ [] := by
  have hused : ∀ p, l.order_pool_.Used p → s.ladder.order_pool_.Used p := by
    intro p hp
    obtain ⟨b, o, ho, rfl⟩ := (h'.used_order_iff p).mp hp
    exact (h.used_order_iff _).mpr ⟨b, o, ht.mem_of_mem ho, rfl⟩
  rw [MemPool.hasSpare_iff_of_released h.core.validO h'.core.validO (h'.size.trans h.size.symm)
    hused]
  refine or_congr_right ?_
  rw [h.core.reached_eq, Ne, List.map_eq_nil_iff]
  constructor
  · rintro ⟨p, hp, hgone⟩
    obtain ⟨b, o, ho, rfl⟩ := (h.used_order_iff p).mp hp
    rcases ht.mem_or_gone ho with ho' | ho'
    · exact absurd ((h'.used_order_iff _).mpr ⟨b, o, ho', rfl⟩) hgone
    · exact List.ne_nil_of_mem ho'
  · intro hne
    obtain ⟨o, ho⟩ := List.exists_mem_of_ne_nil _ hne
    have hin : o ∈ flat (G (!Ladder.isBid q.side_)) := (List.takeWhile_prefix _).subset ho
    refine ⟨o.1, (h.used_order_iff _).mpr ⟨_, o, hin, rfl⟩, fun hp => ?_⟩
    obtain ⟨b, o', ho', he⟩ := (h'.used_order_iff _).mp hp
    exact ht.ne_of_gone h.core ho ho' he

/-- The slots in use are those of the orders. -/
theorem Shelved.slot_none_iff {s : MELadder} (h : Shelved s G) (price : Int) :
    s.getOrdersAtPrice price = none ↔
      ∀ b, ∀ o ∈ bookOf G b, priceToIndex o.price_ ≠ priceToIndex price := by
  constructor
  · intro hnone b o ho he
    obtain ⟨g, hg, p, hpo⟩ := mem_bookOf.mp ho
    have hslot := h.prices.mem b g hg
    rw [← (h.home b g hg _ hpo).2, he] at hslot
    exact absurd (hnone.symm.trans hslot) (by simp)
  · intro hfree
    cases hs : s.getOrdersAtPrice price with
    | none => rfl
    | some lv =>
      obtain ⟨b, g, hg, _, hi⟩ := h.prices.only _ _ hs
      obtain ⟨o, ho⟩ := List.exists_mem_of_ne_nil _ (h.core.level b g hg).ne
      refine absurd ((h.home b g hg o ho).2.trans hi) ?_
      exact hfree b o.2 (mem_bookOf.mpr ⟨g, hg, o.1, ho⟩)

/-- Every level that is gone is a block more. -/
theorem Shelved.levels_hasSpare_iff (h : Shelved s.ladder G) (h' : Shelved l G')
    (ht : TakesReached q G G') :
    l.orders_at_price_pool_.HasSpare ↔ s.ladder.orders_at_price_pool_.HasSpare ∨
      ∃ o ∈ s.reached q, ∀ o' ∈ s.left q, priceToIndex o'.price_ ≠ priceToIndex o.price_ := by
  have hused : ∀ p, l.orders_at_price_pool_.Used p → s.ladder.orders_at_price_pool_.Used p := by
    intro p hp
    obtain ⟨b, g', hg', rfl⟩ := (h'.used_level_iff p).mp hp
    obtain ⟨g, hg, hptr, _⟩ := ht.levels b g' hg'
    exact (h.used_level_iff _).mpr ⟨b, g, hg, hptr⟩
  -- a slot of `s` in which an order is left is one of `l`, with the same level
  have hkept : ∀ b, ∀ g ∈ G b, ¬ l.orders_at_price_pool_.Used g.ptr → ∀ o' ∈ s.left q,
      priceToIndex o'.price_ ≠ priceToIndex g.price := by
    intro b g hg hgone o' ho' he
    obtain ⟨b', ho'⟩ := (ht.mem_left_iff h.core).mp ho'
    obtain ⟨g', hg', p, hp⟩ := mem_bookOf.mp ho'
    obtain ⟨g₀, hg₀, hptr, hprice⟩ := ht.levels b' g' hg'
    have h₀ := h.prices.mem b' g₀ hg₀
    rw [hprice, ← (h'.home b' g' hg' _ hp).2, he, h.prices.mem b g hg] at h₀
    refine hgone ((h'.used_level_iff _).mpr ⟨b', g', hg', ?_⟩)
    rw [← hptr]
    exact (Option.some.inj h₀).symm
  rw [MemPool.hasSpare_iff_of_released h.core.validL h'.core.validL
    (h'.prices.size.trans h.prices.size.symm) hused]
  refine or_congr_right ?_
  rw [h.core.reached_eq]
  constructor
  · rintro ⟨p, hp, hgone⟩
    obtain ⟨b, g, hg, rfl⟩ := (h.used_level_iff p).mp hp
    have hleft := hkept b g hg hgone
    obtain ⟨o, ho⟩ := List.exists_mem_of_ne_nil _ (h.core.level b g hg).ne
    rw [← (h.home b g hg o ho).2] at hleft
    rcases ht.mem_or_gone (mem_flat.mpr ⟨g, hg, ho⟩) with ho' | ho'
    · exact absurd rfl
        (hleft o.2 ((ht.mem_left_iff h.core).mpr ⟨b, mem_bookOf_of_flat ho'⟩))
    · exact ⟨o.2, List.mem_map_of_mem ho', hleft⟩
  · rintro ⟨d, hd, hleft⟩
    obtain ⟨o, ho, rfl⟩ := List.mem_map.mp hd
    have hin : o ∈ flat (G (!Ladder.isBid q.side_)) := (List.takeWhile_prefix _).subset ho
    obtain ⟨g, hg, hog⟩ := mem_flat.mp hin
    refine ⟨g.ptr, (h.used_level_iff _).mpr ⟨_, g, hg, rfl⟩, fun hp => ?_⟩
    obtain ⟨b', g', hg', hptr'⟩ := (h'.used_level_iff _).mp hp
    obtain ⟨g₀, hg₀, hptr, hprice⟩ := ht.levels b' g' hg'
    obtain ⟨_, rfl⟩ := h.core.ptr_inj hg₀ hg (hptr.trans hptr')
    obtain ⟨o', ho'⟩ := List.exists_mem_of_ne_nil _ (h'.core.level b' g' hg').ne
    refine hleft o'.2 ((ht.mem_left_iff h.core).mpr ⟨b', mem_bookOf.mpr ⟨g', hg', o'.1, ho'⟩⟩) ?_
    rw [(h'.home b' g' hg' o' ho').2, ← hprice, (h.home _ _ hg o hog).2]

/-- **The room for what is left** is told from the book before matching. -/
theorem Shelved.hasSpare_iff (h : Shelved s.ladder G) (h' : Shelved l G')
    (ht : TakesReached q G G') : l.HasSpare q.price_ ↔ s.HasBlocks q := by
  unfold Ladder.HasSpare MEOrderBook.HasBlocks
  rw [h.orders_hasSpare_iff h'.toLaid ht, h.levels_hasSpare_iff h' ht, h'.slot_none_iff]
  refine and_congr_right fun _ => imp_congr_left ?_
  constructor
  · intro hfree o ho
    obtain ⟨b, ho⟩ := (ht.mem_left_iff h.core).mp ho
    exact hfree b o ho
  · exact fun hfree b o ho => hfree o ((ht.mem_left_iff h.core).mpr ⟨b, ho⟩)

end Pools

theorem Shelved.data_inRange {s : MELadder} {G : Ghost MEOrderId} (h : Shelved s G) {b : Bool}
    {p : Nat} {d : OrderData MEOrderId} (hd : (p, d) ∈ flat (G b)) :
    inRange (K := MEOrderId) (idx (s.order_pool_.data p).id_) = true := by
  rw [(h.core.data_of_mem hd).1]
  exact h.range b _ hd

/-! ## One request and one book -/

namespace MEOrderBook

variable {s s' : MEOrderBook} {q : MEClientRequest} {evs : List Event}

/-- The order that rests. -/
def restingOrder (s : MEOrderBook) (q : MEClientRequest) (leaves priority : Nat) :
    OrderData MEOrderId :=
  ⟨⟨q.ticker_id_, q.client_id_, q.order_id_, s.next_market_order_id_⟩, q.side_, q.price_, leaves,
    priority⟩

theorem inRange_iff (hclient : q.client_id_ < ME_MAX_NUM_CLIENTS) :
    inRange (K := MEOrderId) ((q.client_id_, q.order_id_) : Nat × Nat) = true ↔
      q.order_id_ < ME_MAX_ORDER_IDS := by
  show (decide (q.client_id_ < _) && decide (q.order_id_ < _)) = true ↔ _
  simp [hclient]

/-- What `add` does with what is left of an order is what `allocateOrder` does. -/
theorem add_rests {leaves priority : Nat} {l : MELadder} (htype : q.type_ = .NEW)
    (hmatch : MELadder.checkForMatch s.ladder (s.aggressor q) q.qty_ = .ok (leaves, l, evs))
    (hleaves : leaves ≠ 0) (hprio : MELadder.getNextPriority l q.price_ = .ok priority) :
    s.processClientRequest q = (l.allocateOrder (s.restingOrder q leaves priority)).bind
      fun l' => .ok (⟨l', wrap64 (s.next_market_order_id_ + 1)⟩,
        acceptedEvent q.client_id_ q.order_id_ q.ticker_id_ s.next_market_order_id_ q.side_
          q.price_ q.qty_ :: (evs ++ [addedEvent (s.restingOrder q leaves priority)])) := by
  unfold aggressor at hmatch
  simp only [processClientRequest, htype, add, hmatch, exec_ok_bind, if_pos hleaves, hprio]
  rfl

/-- **A harmless request** is processed without an index out of range. -/
theorem Harmless.noThrow (hq : s.Harmless q) (h : Ordered s.ladder)
    (hclient : q.client_id_ < ME_MAX_NUM_CLIENTS) : NoThrow (s.processClientRequest q) := by
  obtain ⟨G, hG⟩ := h
  cases htype : q.type_ with
  | INVALID =>
    simp only [processClientRequest, htype]
    exact .error (by simp)
  | NEW =>
    obtain ⟨l, evs, G', hm, hG', htaken⟩ := shelved_matchRule.checkForMatch hG q
    by_cases hleaves : q.qty_ - ((s.reached q).map OrderData.qty_).sum = 0
    · unfold aggressor at hm
      simp only [processClientRequest, htype, add, hm, exec_ok_bind, if_neg (not_not.mpr hleaves)]
      exact .ok _
    · have hover : s.LeavesOver q := by
        unfold LeavesOver
        omega
      obtain ⟨priority, hprio⟩ := getNextPriority_ok hG'.core hG'.prices q.price_
      rw [add_rests htype hm hleaves hprio]
      refine NoThrow.bind ?_ fun _ _ => .ok _
      rcases hG'.toLaid.place_cases (s.restingOrder q _ priority) with
        ⟨_, herr⟩ | ⟨hspare, hout, _⟩ | ⟨_, _, l', _, _, hok, _⟩
      · rw [herr]
        exact .error (by simp [MemPool.outOfSpace])
      · have hblocks := (hG.hasSpare_iff hG' (htaken hover)).mp hspare
        have hid := (hq.rests ⟨htype, hover, hblocks⟩).1
        have hin := (inRange_iff hclient).mpr hid
        exact absurd (hin.symm.trans hout) (by simp)
      · rw [hok]
        exact .ok _
  | CANCEL =>
    simp only [processClientRequest, htype, MEOrderBook.cancel, if_pos hclient]
    refine (Ladder.noThrow_getIdx ((inRange_iff hclient).mpr (hq.cancel htype)) _).bind
      fun found hfound => ?_
    cases found with
    | none => exact .ok _
    | some p =>
      obtain ⟨b, o, ho, rfl, _⟩ := hG.ids _ _ (getIdx_ok hfound).symm
      exact (Ladder.noThrow_removeOrder (hG.data_inRange ho)).bind fun _ _ => .ok _

/-- **The rings after a harmless request.** -/
theorem Harmless.sorted (hq : s.Harmless q) (h : Ordered s.ladder)
    (hrun : s.processClientRequest q = .ok (s', evs)) (b : Bool) : s'.ladder.SideSorted b := by
  obtain ⟨G, hG⟩ := h
  unfold processClientRequest at hrun
  split at hrun
  next htype =>
    obtain ⟨leaves, l, evs₁, hmatch, _, hend⟩ := add_inv hrun
    obtain ⟨hover, G', hG', htaken⟩ := shelved_matchRule.checkForMatch_inv hG hmatch
    rcases hend with ⟨_, hs', _⟩ | ⟨hleaves, o, _, hside, hprice, _, halloc, _⟩
    · rw [hs']
      exact hG'.sideSorted b
    · refine (hG'.place_sorted_iff halloc).mpr ?_ b
      rw [hside, hprice]
      have hspare : l.HasSpare q.price_ := by
        rcases hG'.toLaid.place_cases o with ⟨_, herr⟩ | ⟨hspare, _⟩ | ⟨hspare, _⟩
        · exact absurd (halloc.symm.trans herr) (by simp)
        · rwa [hprice] at hspare
        · rwa [hprice] at hspare
      have hover := hover.mp hleaves
      have hblocks := (hG.hasSpare_iff hG' (htaken hover)).mp hspare
      exact (findsPlace_matched hmatch).mpr (hq.rests ⟨htype, hover, hblocks⟩).2
  next =>
    rcases cancel_inv hrun with ⟨rfl, _⟩ | ⟨p, hp, hremove, _, _⟩
    · exact hG.sideSorted b
    · obtain ⟨b', o, ho, rfl, _⟩ := hG.ids _ _ hp
      obtain ⟨l, hok, hG'⟩ := hG.remove ho
      rw [← Except.ok.inj (hok.symm.trans hremove)]
      exact hG'.sideSorted b
  next => exact absurd hrun (by simp)

/-- A request that does no harm is harmless: each of the other requests throws, or
puts a level out of order. -/
theorem harmless_of_contained (h : Ordered s.ladder)
    (hclient : q.client_id_ < ME_MAX_NUM_CLIENTS) (hthrow : NoThrow (s.processClientRequest q))
    (hsorted : ∀ s' evs, s.processClientRequest q = .ok (s', evs) →
      ∀ b, s'.ladder.SideSorted b) : s.Harmless q where
  cancel := by
    intro htype
    by_contra hge
    have hout : ¬ inRange (K := MEOrderId) ((q.client_id_, q.order_id_) : Nat × Nat) = true :=
      fun hin => hge ((inRange_iff hclient).mp hin)
    refine hthrow.ne ?_
    simp only [processClientRequest, htype, cancel, if_pos hclient, Ladder.getIdx, if_neg hout,
      exec_error_bind]
  rests := by
    intro hrest
    obtain ⟨htype, hover, hblocks⟩ := hrest
    obtain ⟨G, hG⟩ := h
    obtain ⟨l, evs, G', hmatch, hG', htaken⟩ := shelved_matchRule.checkForMatch hG q
    have hspare := (hG.hasSpare_iff hG' (htaken hover)).mpr hblocks
    have hleaves : q.qty_ - ((s.reached q).map OrderData.qty_).sum ≠ 0 := by
      unfold LeavesOver at hover
      omega
    obtain ⟨priority, hprio⟩ := getNextPriority_ok hG'.core hG'.prices q.price_
    have hadd := add_rests htype hmatch hleaves hprio
    rcases hG'.toLaid.place_cases (s.restingOrder q _ priority) with
      ⟨hfull, _⟩ | ⟨_, _, herr⟩ | ⟨_, hin, l', _, _, hok, _⟩
    · exact absurd hspare hfull
    · refine absurd ?_ hthrow.ne
      rw [hadd, herr]
      rfl
    · refine ⟨(inRange_iff hclient).mp hin, (findsPlace_matched hmatch).mp ?_⟩
      rw [hok] at hadd
      exact (hG'.place_sorted_iff hok).mp (hsorted _ _ hadd)

/-- **A cancel of an order that is not there** is rejected, and that is all. -/
theorem cancel_rejected (h : Ordered s.ladder) (hclient : q.client_id_ < ME_MAX_NUM_CLIENTS)
    (horder : q.order_id_ < ME_MAX_ORDER_IDS) (htype : q.type_ = .CANCEL)
    (hnone : ¬ MELadder.Holds s.ladder (q.client_id_, q.order_id_)) :
    s.processClientRequest q =
      .ok (s, [rejectedEvent q.client_id_ q.order_id_ q.ticker_id_]) := by
  obtain ⟨G, hG⟩ := h
  have hentry : s.ladder.id_to_order_ (q.client_id_, q.order_id_) = none := by
    cases hi : s.ladder.id_to_order_ (q.client_id_, q.order_id_) with
    | none => rfl
    | some p =>
      obtain ⟨b, o, ho, _, hidx⟩ := hG.ids _ _ hi
      obtain ⟨g, hg, hog⟩ := mem_flat.mp ho
      refine absurd ⟨b, _, hG.core.view b, g.view, List.mem_map_of_mem hg, o.2, ?_, hidx⟩ hnone
      exact List.mem_map_of_mem hog
  simp only [processClientRequest, htype, cancel, if_pos hclient, Ladder.getIdx,
    if_pos ((inRange_iff hclient).mpr horder), hentry, exec_ok_bind]
  rfl

end MEOrderBook

/-! ## The way of a request through the exchange -/

/-- What is expected of a request from socket `socket`, whatever its fields: no index
out of range in the order server; and if it is not dropped there, none in the
matching engine, one `CANCEL_REJECTED` and nothing else for an order that is not
there, and price rings that are sorted. -/
structure Contained (sv : OrderServer) (socket : Nat) (t : Int) (e : MatchingEngine)
    (m : OMClientRequest) : Prop where
  received : NoThrow (sv.recvRequest socket t m)
  processed : ¬ sv.Discards socket m → NoThrow (e.processClientRequest m.me_client_request_)
  rejected : ¬ sv.Discards socket m → m.me_client_request_.type_ = .CANCEL →
    ¬ MELadder.Holds (e m.me_client_request_.ticker_id_).ladder
      (m.me_client_request_.client_id_, m.me_client_request_.order_id_) →
    e.processClientRequest m.me_client_request_ =
      .ok (e, [rejectedEvent m.me_client_request_.client_id_ m.me_client_request_.order_id_
        m.me_client_request_.ticker_id_])
  sorted : ¬ sv.Discards socket m → ∀ e' evs,
    e.processClientRequest m.me_client_request_ = .ok (e', evs) →
    ∀ b, (e' m.me_client_request_.ticker_id_).ladder.SideSorted b

theorem OrderServer.noThrow_recvRequest_iff (sv : OrderServer) (socket : Nat) (t : Int)
    (m : OMClientRequest) : NoThrow (sv.recvRequest socket t m) ↔
      m.me_client_request_.client_id_ < ME_MAX_NUM_CLIENTS := by
  unfold OrderServer.recvRequest
  dsimp only
  constructor
  · intro h
    by_contra hge
    rw [if_pos (Nat.le_of_not_lt hge)] at h
    exact h.ne rfl
  · intro hlt
    rw [if_neg (Nat.not_le.mpr hlt)]
    split
    · exact .ok _
    split
    · exact .ok _
    refine NoThrow.bind ?_ fun _ _ => .ok _
    unfold FIFOSequencer.addClientRequest
    split
    · exact .error (by simp)
    · exact .ok _

namespace MatchingEngine

variable {e : MatchingEngine} {q : MEClientRequest}

theorem processClientRequest_of_lt (h : q.ticker_id_ < ME_MAX_TICKERS) :
    e.processClientRequest q = (e q.ticker_id_).processClientRequest q >>=
      fun r => .ok (Function.update e q.ticker_id_ r.1, r.2) := by
  unfold processClientRequest
  rw [if_pos h]
  rfl

/-- The engine throws where the book does. -/
theorem noThrow_processClientRequest_iff :
    NoThrow (e.processClientRequest q) ↔
      q.ticker_id_ < ME_MAX_TICKERS ∧ NoThrow ((e q.ticker_id_).processClientRequest q) := by
  by_cases hlt : q.ticker_id_ < ME_MAX_TICKERS
  · rw [processClientRequest_of_lt hlt]
    constructor
    · intro h
      refine ⟨hlt, ⟨fun herr => h.ne ?_⟩⟩
      rw [herr]
      rfl
    · intro h
      exact h.2.bind fun _ _ => .ok _
  · refine iff_of_false (fun h => h.ne ?_) fun h => hlt h.1
    unfold processClientRequest
    rw [if_neg hlt]

end MatchingEngine

/-- The exchange in a state with sorted rings, and any request. -/
theorem contained_iff {e : MatchingEngine} (h : ∀ t, Ordered (e t).ladder) (sv : OrderServer)
    (socket : Nat) (t : Int) (m : OMClientRequest) :
    Contained sv socket t e m ↔
      m.me_client_request_.client_id_ < ME_MAX_NUM_CLIENTS ∧
      (¬ sv.Discards socket m → m.me_client_request_.ticker_id_ < ME_MAX_TICKERS ∧
        (e m.me_client_request_.ticker_id_).Harmless m.me_client_request_) := by
  set q := m.me_client_request_ with hq
  constructor
  · intro hc
    have hclient := (sv.noThrow_recvRequest_iff socket t m).mp hc.received
    refine ⟨hclient, fun htakes => ?_⟩
    obtain ⟨hticker, hthrow⟩ := MatchingEngine.noThrow_processClientRequest_iff.mp
      (hc.processed htakes)
    refine ⟨hticker, MEOrderBook.harmless_of_contained (h _) hclient hthrow ?_⟩
    intro s' evs hrun
    have hs := hc.sorted htakes (Function.update e q.ticker_id_ s') evs (by
      rw [MatchingEngine.processClientRequest_of_lt hticker, hrun]
      rfl)
    rwa [Function.update_self] at hs
  · intro hcond
    obtain ⟨hclient, hbook⟩ := hcond
    refine ⟨(sv.noThrow_recvRequest_iff socket t m).mpr hclient, ?_, ?_, ?_⟩
    · intro htakes
      obtain ⟨hticker, hharmless⟩ := hbook htakes
      exact MatchingEngine.noThrow_processClientRequest_iff.mpr
        ⟨hticker, hharmless.noThrow (h _) hclient⟩
    · intro htakes htype hnone
      obtain ⟨hticker, hharmless⟩ := hbook htakes
      rw [MatchingEngine.processClientRequest_of_lt hticker,
        MEOrderBook.cancel_rejected (h _) hclient (hharmless.cancel htype) htype hnone]
      show Except.ok (Function.update e q.ticker_id_ (e q.ticker_id_), _) = _
      rw [Function.update_eq_self]
    · intro htakes e' evs hrun
      obtain ⟨_, s, hs, rfl⟩ := MatchingEngine.processClientRequest_inv hrun
      rw [Function.update_self]
      exact (hbook htakes).2.sorted (h _) hs

/-- **A request is contained**, in every state that the exchange is in after a run
whose orders came to rest in their own rings: exactly if its client id is in range
and, unless it is dropped, its ticker is and the book can take it. -/
theorem request_contained_iff {qs : List MEClientRequest} {e : MatchingEngine}
    {evss : List (List Event)} (hrun : MatchingEngine.init.run qs = .ok (e, evss))
    (hrings : MatchingEngine.AllAlong MEOrderBook.KeepsRings MatchingEngine.init qs)
    (sv : OrderServer) (socket : Nat) (t : Int) (m : OMClientRequest) :
    Contained sv socket t e m ↔
      m.me_client_request_.client_id_ < ME_MAX_NUM_CLIENTS ∧
      (¬ sv.Discards socket m → m.me_client_request_.ticker_id_ < ME_MAX_TICKERS ∧
        (e m.me_client_request_.ticker_id_).Harmless m.me_client_request_) :=
  contained_iff (MatchingEngine.run_ordered (fun _ => ⟨_, Shelved.init⟩) hrings hrun) sv socket t m

/-! ## One ask and an order without a side -/

/-- A new server takes message 1 of any client. -/
theorem OrderServer.not_discards_first (socket : Nat) (q : MEClientRequest) :
    ¬ OrderServer.init.Discards socket ⟨1, q⟩ := by
  intro h
  rcases h with ⟨_, hbound, _⟩ | hseq
  · exact absurd hbound (by simp [OrderServer.init])
  · exact hseq rfl

theorem MatchingEngine.keepsRings_lone_ask :
    AllAlong MEOrderBook.KeepsRings MatchingEngine.init [⟨.NEW, 1, 0, 1, .SELL, 110, 10⟩] :=
  ⟨fun _ _ => ⟨Or.inr (Or.inl rfl), by decide⟩, fun _ _ _ => trivial⟩

/-- Dearer than the one ask, an order without a side stands where it belongs. -/
theorem request_contained_dear : ∃ e evss,
    MatchingEngine.init.run [⟨.NEW, 1, 0, 1, .SELL, 110, 10⟩] = .ok (e, evss) ∧
    Contained OrderServer.init 7 0 e ⟨1, ⟨.NEW, 2, 0, 5, .INVALID, 120, 3⟩⟩ := by
  refine ⟨_, _, rfl, (request_contained_iff rfl MatchingEngine.keepsRings_lone_ask _ _ _ _).mpr
    ⟨by decide, fun _ => ⟨by decide, ?_, ?_⟩⟩⟩
  · intro htype
    exact absurd htype (by decide)
  · intro _
    exact ⟨by decide, Or.inr (Or.inr (Or.inr ⟨_, rfl, by decide⟩))⟩

/-- **Three requests that are not contained.** A client id past the end of
`cid_tcp_socket_`, a cancel with an order id past the end of `cid_oid_to_order_`,
and an order without a side, cheaper than the one ask, whose level is linked behind
it. -/
theorem request_not_contained :
    ¬ Contained OrderServer.init 7 0 MatchingEngine.init
      ⟨1, ⟨.NEW, ME_MAX_NUM_CLIENTS, 0, 1, .BUY, 100, 3⟩⟩ ∧
    ¬ Contained OrderServer.init 7 0 MatchingEngine.init
      ⟨1, ⟨.CANCEL, 1, 0, ME_MAX_ORDER_IDS, .INVALID, 0, 0⟩⟩ ∧
    ∃ e evss, MatchingEngine.init.run [⟨.NEW, 1, 0, 1, .SELL, 110, 10⟩] = .ok (e, evss) ∧
      ¬ Contained OrderServer.init 7 0 e ⟨1, ⟨.NEW, 2, 0, 5, .INVALID, 100, 3⟩⟩ := by
  refine ⟨fun h => h.received.ne rfl, fun h => ?_, _, _, rfl, fun h => ?_⟩
  · exact (h.processed (OrderServer.not_discards_first _ _)).ne rfl
  · obtain ⟨vs, hvs, hsorted⟩ := h.sorted (OrderServer.not_discards_first _ _) _ _ rfl false
    -- the asks are 110, 100
    obtain rfl := Option.some.inj (hvs.symm.trans rfl)
    exact absurd hsorted (by decide)

end LowLatency
