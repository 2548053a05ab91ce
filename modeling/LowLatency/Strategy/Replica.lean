import LowLatency.Strategy.MarketOrderBook
import LowLatency.Book.Repr
import LowLatency.Matcher.Refine
import LowLatency.Matcher.Feed

/-!
# The replica tracks the exchange's book

Two facts meet here. The exchange's updates mean, one by one, what happened to
its book (`step_feed`); and `onMarketUpdate` does to the replica what an
expected update means (`onMarketUpdate_sim`). So the replica fed with
everything the exchange sent holds the exchange's queues, order by order, and
no step of it follows a null pointer or fails an `ASSERT`.

The cached BBO is read off the heap after every update. `topOfBook_spec` says
what is read, for any ladder whose pointers are in shape: that the loop over a
level ends is part of what "no fault on the way" needs.
-/

namespace LowLatency

open Lib (Ring Link)

/-! ## The best bid and offer -/

/-- The quantities of a level as `updateBBO` adds them up. -/
def levelQty : List Nat → Nat
  | [] => 0
  | q :: qs => qs.foldl (fun acc q => wrap32 (acc + q)) q

/-- Price and quantity of the first level. -/
def topOf {K : Type} : List (LevelG K) → Int × Nat
  | [] => (Price_INVALID, Qty_INVALID)
  | g :: _ => (g.price, levelQty (g.orders.map fun o => o.2.qty_))

/-- The sum over the orders `ys` between here and the first one. -/
theorem sumQtyLoop_chain {m : MemPool (Order Nat)} {first : Nat} (ys : List Nat) (fuel qty : Nat)
    (hf : ys.length < fuel) (hnot : first ∉ ys)
    (hc : (ys ++ [first]).IsChain (Link m.nextOrder m.prevOrder)) {cur : Nat}
    (hcur : (ys ++ [first]).head? = some cur) :
    MarketLadder.sumQtyLoop m first fuel cur qty
      = .ok (ys.foldl (fun acc p => wrap32 (acc + (m.data p).qty_)) qty) := by
  induction ys generalizing fuel qty cur with
  | nil =>
    obtain ⟨fuel, rfl⟩ : ∃ f, fuel = f + 1 := ⟨fuel - 1, by omega⟩
    obtain rfl : first = cur := by simpa using hcur
    rw [MarketLadder.sumQtyLoop, if_pos rfl]
    rfl
  | cons y ys ih =>
    obtain ⟨fuel, rfl⟩ : ∃ f, fuel = f + 1 := ⟨fuel - 1, by omega⟩
    obtain rfl : y = cur := by simpa using hcur
    have hy : y ≠ first := fun e => hnot (by rw [e]; exact List.mem_cons_self ..)
    obtain ⟨z, hz⟩ : ∃ z, (ys ++ [first]).head? = some z := by
      cases ys with
      | nil => exact ⟨first, rfl⟩
      | cons z zs => exact ⟨z, rfl⟩
    have hc' := List.isChain_cons.mp hc
    have hlink : m.nextOrder y = some z := (hc'.1 z hz).1
    rw [MarketLadder.sumQtyLoop, if_neg hy, hlink]
    exact ih fuel _ (by simp only [List.length_cons] at hf; omega)
      (fun h => hnot (List.mem_cons_of_mem _ h)) hc'.2 hz

/-- **What `updateBBO` reads** of a side in shape. -/
theorem topOfBook_spec {s : MarketLadder} {G : Ghost Nat} (h : Core s G) (b : Bool) :
    MarketLadder.topOfBook s b = .ok (topOf (G b)) := by
  have hbest := h.best b
  unfold MarketLadder.topOfBook
  cases hL : G b with
  | nil =>
    rw [hL] at hbest
    rw [hbest]
    rfl
  | cons g L =>
    rw [hL] at hbest
    have hbest' : s.best b = some g.ptr := hbest
    have hg : g ∈ G b := by rw [hL]; exact List.mem_cons_self ..
    have hok := h.level b g hg
    obtain ⟨x, xs, _, _, hxs, _, hfirst, _⟩ := hok.split
    have hr := hok.ring
    rw [hxs] at hr
    have hlen : xs.length < s.order_pool_.size + 1 := by
      have := length_le_of_lt hr.nodup (n := s.order_pool_.size)
        fun a ha => (h.usedO b g hg a (hxs ▸ ha)).1
      simp only [List.length_cons] at this
      omega
    -- the ring, cut open at its first order
    have hl := hr.links
    simp only [List.head?_cons, Option.toList_some, List.cons_append] at hl
    have hc := List.isChain_cons.mp hl
    obtain ⟨z, hz⟩ : ∃ z, (xs ++ [x]).head? = some z := by
      cases xs with
      | nil => exact ⟨x, rfl⟩
      | cons z zs => exact ⟨z, rfl⟩
    have hnext : s.order_pool_.nextOrder x = some z := (hc.1 z hz).1
    have hsum := sumQtyLoop_chain xs (s.order_pool_.size + 1) (s.order_pool_.data x).qty_ hlen
      (List.nodup_cons.mp hr.nodup).1 hc.2 hz
    have hqty : xs.foldl (fun acc p => wrap32 (acc + (s.order_pool_.data p).qty_))
        (s.order_pool_.data x).qty_ = levelQty (g.orders.map fun o => o.2.qty_) := by
      have hmap : (g.orders.map fun o => o.2.qty_)
          = (x :: xs).map fun p => (s.order_pool_.data p).qty_ := by
        rw [← hxs, LevelG.ptrs, List.map_map]
        refine List.map_congr_left fun o ho => ?_
        show o.2.qty_ = (s.order_pool_.data o.1).qty_
        rw [hok.data o ho]
      rw [hmap, List.map_cons, levelQty, List.foldl_map]
    simp only [hbest', hfirst, deref_some, exec_ok_bind, hnext, hsum, hqty, exec_pure, hok.price,
      topOf]

/-- The cached BBO after `updateBBO` on a side in shape. -/
def nextBBO (bbo : BBO) (G : Ghost Nat) (update_bid update_ask : Bool) : BBO where
  bid_price_ := if update_bid then (topOf (G true)).1 else bbo.bid_price_
  ask_price_ := if update_ask then (topOf (G false)).1 else bbo.ask_price_
  bid_qty_ := if update_bid then (topOf (G true)).2 else bbo.bid_qty_
  ask_qty_ := if update_ask then (topOf (G false)).2 else bbo.ask_qty_

theorem updateBBO_spec {s : MarketOrderBook} {G : Ghost Nat} (h : Core s.ladder G)
    (update_bid update_ask : Bool) :
    s.updateBBO update_bid update_ask
      = .ok { s with bbo_ := nextBBO s.bbo_ G update_bid update_ask } := by
  unfold MarketOrderBook.updateBBO nextBBO
  cases update_bid <;> cases update_ask <;> simp [topOfBook_spec h]

/-! ## One update -/

/-- **An expected update does to the containers what it means.** -/
theorem onUpdate_sim {s : MarketLadder} {G : Ghost Nat} (h : Represents s G) {u : MEMarketUpdate}
    (hu : UpdateOk (ME_MAX_ORDER_IDS - 1) (bookOf G) u) :
    ∃ s' G', MarketOrderBook.onUpdate s u = .ok s' ∧ Represents s' G' ∧
      bookOf G' = applyUpdate (bookOf G) u := by
  -- a live order is found under its id
  have hfind : Names (bookOf G) u → ∃ b p d, (p, d) ∈ flat (G b) ∧ idx d.id_ = u.order_id_ ∧
      s.getIdx u.order_id_ = .ok (some p) := by
    intro hn
    obtain ⟨b, d, hd, hid, _⟩ := hn
    obtain ⟨o, ho, rfl⟩ := List.mem_map.mp hd
    have hm := h.ids.mem b o ho
    refine ⟨b, o.1, o.2, ho, hid, ?_⟩
    have hin : inRange (K := Nat) u.order_id_ = true := by rw [← hid]; exact hm.1
    unfold Ladder.getIdx
    rw [if_pos hin, ← hid]
    exact congrArg Except.ok hm.2
  unfold UpdateOk at hu
  unfold MarketOrderBook.onUpdate applyUpdate
  cases ht : u.type_ with
  | ADD =>
    simp only [ht] at hu ⊢
    have hfree : s.id_to_order_ (idx (orderOf u).id_) = none := by
      cases hi : s.id_to_order_ (idx (orderOf u).id_) with
      | none => rfl
      | some p =>
        obtain ⟨b, d, hd, hdi, _⟩ := h.ids.lookup h.core hi
        have hlt := hu.later b d (mem_bookOf_of_flat hd)
        exact absurd hdi hlt.ne
    rcases h.rest hu.side (decide_eq_true hu.range) hfree hu.slot with hok | ⟨_, hcap⟩
    · exact hok
    · -- there is room, so neither pool is full
      exfalso
      have hlive := hu.live
      have hlev := hu.levels
      rcases hcap with hcap | ⟨hnew, hcap⟩
      · rw [Book.live_rest] at hlive
        simp only [ME_MAX_ORDER_IDS] at hlive hcap
        omega
      · rw [Book.levels_rest_of_new hnew] at hlev
        simp only [ME_MAX_PRICE_LEVELS] at hlev hcap
        omega
  | MODIFY =>
    simp only [ht] at hu ⊢
    obtain ⟨b, p, d, hpd, hid, hget⟩ := hfind hu
    obtain ⟨hr, hb⟩ := h.setQty hpd u.qty_
    refine ⟨_, _, ?_, hr, by rw [hb, hid]⟩
    rw [hget]
    rfl
  | CANCEL =>
    simp only [ht] at hu ⊢
    obtain ⟨b, p, d, hpd, hid, hget⟩ := hfind hu
    obtain ⟨s', G', hrun, hr, hb⟩ := h.remove hpd
    refine ⟨s', G', ?_, hr, by rw [hb, hid]⟩
    rw [hget]
    exact hrun
  | TRADE => exact ⟨s, G, rfl, h, rfl⟩
  | INVALID => exact absurd hu (by simp [ht])
  | CLEAR => exact absurd hu (by simp [ht])
  | SNAPSHOT_START => exact absurd hu (by simp [ht])
  | SNAPSHOT_END => exact absurd hu (by simp [ht])

/-- **One expected update** of the replica. -/
theorem onMarketUpdate_sim {s : MarketOrderBook} {G : Ghost Nat} (h : Represents s.ladder G)
    {u : MEMarketUpdate} (hu : UpdateOk (ME_MAX_ORDER_IDS - 1) (bookOf G) u) :
    ∃ s' G', s.onMarketUpdate u = .ok s' ∧ Represents s'.ladder G' ∧
      bookOf G' = applyUpdate (bookOf G) u := by
  obtain ⟨l, G', hrun, hr, hb⟩ := onUpdate_sim h hu
  unfold MarketOrderBook.onMarketUpdate
  simp only [hrun, exec_ok_bind]
  by_cases ht : u.type_ = .TRADE
  · refine ⟨s, G, by rw [if_pos ht]; rfl, h, ?_⟩
    unfold applyUpdate
    rw [ht]
  · rw [if_neg ht, updateBBO_spec (s := { s with ladder := l }) hr.core]
    exact ⟨_, G', rfl, hr, hb⟩

/-- **A stream of expected updates.** -/
theorem onMarketUpdates_sim {s : MarketOrderBook} {G : Ghost Nat} (us : List MEMarketUpdate)
    (h : Represents s.ladder G) (hu : UpdatesOk (ME_MAX_ORDER_IDS - 1) (bookOf G) us) :
    ∃ s' G', s.onMarketUpdates us = .ok s' ∧ Represents s'.ladder G' ∧
      bookOf G' = us.foldl applyUpdate (bookOf G) := by
  induction us generalizing s G with
  | nil => exact ⟨s, G, rfl, h, rfl⟩
  | cons u us ih =>
    obtain ⟨s₁, G₁, hrun₁, hr₁, hb₁⟩ := onMarketUpdate_sim h hu.1
    obtain ⟨s₂, G₂, hrun₂, hr₂, hb₂⟩ := ih hr₁ (by rw [hb₁]; exact hu.2)
    refine ⟨s₂, G₂, ?_, hr₂, ?_⟩
    · simp only [MarketOrderBook.onMarketUpdates, hrun₁, exec_ok_bind, hrun₂]
    · rw [hb₂, hb₁]
      rfl

/-! ## The exchange and its replica -/

/-- The feed of a whole run from the empty book. -/
theorem run_feed {r : RefBook} {qs : List MEClientRequest} (hinv : r.Inv) (hn : r.Numbered)
    (ha : r.AdmitsAll qs) (hf : r.FitsAll qs) (hid : RefBook.IdsBelow ME_MAX_ORDER_IDS r qs)
    (fillId : Nat → Nat) :
    UpdatesOk (ME_MAX_ORDER_IDS - 1) (feedOf r.book) (updates (r.runEvents fillId qs).flatten) ∧
      (updates (r.runEvents fillId qs).flatten).foldl applyUpdate (feedOf r.book)
        = feedOf (r.run qs).book := by
  induction qs generalizing r with
  | nil => exact ⟨trivial, rfl⟩
  | cons q qs ih =>
    have hlt : q.type_ = .NEW → r.next_market_order_id_ < OrderId_INVALID := by
      intro hq
      have := hid.1 hq
      simp only [ME_MAX_ORDER_IDS, OrderId_INVALID] at this ⊢
      omega
    obtain ⟨hok, hfold⟩ := step_feed hinv hn ha.1 hid.1 hf.1.1 hf.1.2 fillId
    obtain ⟨hok', hfold'⟩ := ih (hinv.step ha.1) (hn.step hinv hlt) ha.2 hf.2 hid.2
    simp only [RefBook.runEvents, List.flatten_cons, updates_append]
    rw [updatesOk_append, List.foldl_append, hfold]
    exact ⟨⟨hok, hok'⟩, hfold'⟩

/-- A level with its orders as the feed knows them. -/
def feedLevel (v : Ladder.LevelView MEOrderId) : Ladder.LevelView Nat :=
  ⟨v.side_, v.price_, v.orders.map toFeed⟩

/-- Cutting into levels does not look at the ids. -/
theorem levelsOf_feed (l : List (OrderData MEOrderId)) :
    levelsOf (l.map toFeed) = (levelsOf l).map feedLevel := by
  induction l with
  | nil => rfl
  | cons o l ih =>
    show pushOrder (toFeed o) (levelsOf (l.map toFeed)) = (pushOrder o (levelsOf l)).map feedLevel
    rw [ih]
    cases levelsOf l with
    | nil => rfl
    | cons v vs =>
      rw [List.map_cons, pushOrder, pushOrder]
      show (if v.price_ = o.price_ then _ else _) = _
      split <;> rfl

/-- **The replica tracks the exchange.** After every well-formed run of requests
the replica that was fed every update the exchange sent, in order, has processed
them all, and shows the same levels with the same orders in the same places. -/
theorem replica_tracks_orderBook (qs : List MEClientRequest) (ha : RefBook.init.AdmitsAll qs)
    (hf : RefBook.init.FitsAll qs) (hid : RefBook.IdsBelow ME_MAX_ORDER_IDS RefBook.init qs) :
    ∃ s evss m, MEOrderBook.init.run qs = .ok (s, evss) ∧
      MarketOrderBook.init.onMarketUpdates (updates evss.flatten) = .ok m ∧
      ∀ b, ∃ levels, s.ladder.view b = some levels ∧
        m.ladder.view b = some (levels.map feedLevel) := by
  obtain ⟨s, hrun, G, hr, hb, _⟩ := run_sim qs sim_init RefBook.inv_init ha hf
  obtain ⟨hok, hfold⟩ := run_feed RefBook.inv_init RefBook.numbered_init ha hf hid wrap32
  obtain ⟨m, G', hrun', hr', hb'⟩ := onMarketUpdates_sim
    (updates (RefBook.init.runEvents wrap32 qs).flatten) (s := MarketOrderBook.init)
    Represents.init hok
  refine ⟨s, _, m, hrun, hrun', fun b => ⟨_, hr.view b, ?_⟩⟩
  have hbook : bookOf G' = feedOf (RefBook.init.run qs).book := hb'.trans hfold
  rw [hr'.view b, hbook, hb]
  exact congrArg some (levelsOf_feed _)

/-- Two fills that empty a level, then an order that reopens its price. -/
theorem replica_tracks_orderBook_small : ∃ s evss m,
    MEOrderBook.init.run [⟨.NEW, 1, 0, 7, .SELL, 100, 10⟩, ⟨.NEW, 1, 0, 8, .SELL, 100, 3⟩,
      ⟨.NEW, 2, 0, 9, .BUY, 100, 13⟩, ⟨.NEW, 1, 0, 7, .SELL, 100, 2⟩] = .ok (s, evss) ∧
    MarketOrderBook.init.onMarketUpdates (updates evss.flatten) = .ok m ∧
    ∀ b, ∃ levels, s.ladder.view b = some levels ∧
      m.ladder.view b = some (levels.map feedLevel) :=
  replica_tracks_orderBook _ (by decide) (by decide) (by decide)

end LowLatency
