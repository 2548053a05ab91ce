import LowLatency.Matcher.Refine

/-!
# What the exchange's book guarantees

Three statements about whole runs from the empty book, assembled from the
simulation and the reference's invariants:

* `orderBook_refines_reference`: every call returns, the traversal of either
  side prints the reference's queue cut into levels, and the messages are the
  reference's. The one difference is the market order id in an aggressor's
  `FILLED`, which went through a `Qty`; below `2 ^ 32` there is none.
* `orderBook_wellFormed`: the representation invariant, down to the pools.
* `orderBook_uncrossed`: the sides never cross, so the one price table they
  share never mixes them up. Nothing is assumed about the pools here; a full
  one ends the process, and what returned before is not affected.
-/

namespace LowLatency

open Lib (Better)

/-- While ids fit in 32 bits the aggressor is told its own id. -/
theorem runEvents_wrap32 {r : RefBook} {qs : List MEClientRequest}
    (h : RefBook.IdsBelow (2 ^ 32) r qs) : r.runEvents wrap32 qs = r.runEvents id qs := by
  induction qs generalizing r with
  | nil => rfl
  | cons q qs ih =>
    have hstep : r.stepEvents wrap32 q = r.stepEvents id q := by
      unfold RefBook.stepEvents
      split
      next hq =>
        have hagg : r.aggressor wrap32 q = r.aggressor id q := by
          unfold RefBook.aggressor
          rw [wrap32_eq (h.1 hq)]
          rfl
        unfold RefBook.addEvents
        have hswept : r.swept wrap32 q = r.swept id q := by
          unfold RefBook.swept
          rw [hagg]
        rw [hswept]
      next => rfl
      next => rfl
    simp only [RefBook.runEvents, hstep, ih h.2]

/-- **Refinement.** A well-formed run that fits the pools returns; both sides
read as the reference's queues, and the messages are the reference's, with the
true ids throughout as long as these fit in 32 bits. -/
theorem orderBook_refines_reference (qs : List MEClientRequest)
    (ha : RefBook.init.AdmitsAll qs) (hf : RefBook.init.FitsAll qs) :
    ∃ s evss, MEOrderBook.init.run qs = .ok (s, evss) ∧
      (∀ b, ∃ levels, s.ladder.view b = some levels ∧
        levels = levelsOf ((RefBook.init.run qs).book b) ∧
        levels.flatMap Ladder.LevelView.orders = (RefBook.init.run qs).book b) ∧
      evss = RefBook.init.runEvents wrap32 qs ∧
      (RefBook.IdsBelow (2 ^ 32) RefBook.init qs → evss = RefBook.init.runEvents id qs) := by
  obtain ⟨s, hrun, G, hr, hb, _⟩ := run_sim qs sim_init RefBook.inv_init ha hf
  refine ⟨s, _, hrun, fun b => ⟨_, hr.view b, ?_, ?_⟩, rfl, runEvents_wrap32⟩
  · rw [hb]
  · rw [flatMap_levelsOf, hb]

/-- A partial fill, a full one, and a cancel that comes too late. -/
theorem orderBook_refines_reference_small :
    ∃ s evss, MEOrderBook.init.run
        [⟨.NEW, 1, 0, 7, .SELL, 100, 10⟩, ⟨.NEW, 2, 0, 9, .BUY, 101, 4⟩,
          ⟨.NEW, 2, 0, 8, .BUY, 100, 9⟩, ⟨.CANCEL, 1, 0, 7, .INVALID, 0, 0⟩] = .ok (s, evss) ∧
      s.ladder.view false = some [] := by
  obtain ⟨s, evss, hrun, hview, _⟩ := orderBook_refines_reference
    [⟨.NEW, 1, 0, 7, .SELL, 100, 10⟩, ⟨.NEW, 2, 0, 9, .BUY, 101, 4⟩,
      ⟨.NEW, 2, 0, 8, .BUY, 100, 9⟩, ⟨.CANCEL, 1, 0, 7, .INVALID, 0, 0⟩]
    (by decide) (by decide)
  obtain ⟨levels, hv, hl, _⟩ := hview false
  exact ⟨s, evss, hrun, by rw [hv, hl]; decide⟩

/-- The representation invariant: the ladder represents the ghost book `G` down
to its pools and tables (`Represents`), orders stand in their level by rising
priority and market order id, and all have quantity left. -/
structure WellFormed (s : MEOrderBook) (G : Ghost MEOrderId) : Prop where
  repr : Represents s.ladder G
  fifo : ∀ b, ∀ g ∈ G b, g.orders.Pairwise fun o o' => o.2.priority_ < o'.2.priority_ ∧
    o.2.id_.market_order_id_ < o'.2.id_.market_order_id_
  pos : ∀ b, ∀ g ∈ G b, ∀ o ∈ g.orders, 0 < o.2.qty_

/-- Along a level the book's order is the level's. -/
theorem level_pairwise {s : MEOrderBook} {r : RefBook} {G : Ghost MEOrderId}
    (hr : Represents s.ladder G) (hb : bookOf G = r.book) (hn : r.Numbered) {b : Bool}
    {g : LevelG MEOrderId} (hg : g ∈ G b) : g.orders.Pairwise fun o o' =>
      o.2.priority_ < o'.2.priority_ ∧ o.2.id_.market_order_id_ < o'.2.id_.market_order_id_ := by
  have hsub : (g.orders.map Prod.snd).Sublist (r.book b) := by
    rw [← hb]
    obtain ⟨A, B, hL⟩ := List.append_of_mem hg
    unfold bookOf
    rw [hL, flat_append, flat_cons]
    refine List.Sublist.map _ ?_
    exact (List.sublist_append_left ..).trans (List.sublist_append_right ..)
  have hprio := List.pairwise_map.mp ((hn.prio b).sublist hsub)
  have hfifo := List.pairwise_map.mp ((hn.fifo b).sublist hsub)
  refine (hprio.and hfifo).imp_of_mem ?_
  rintro o o' ho ho' ⟨hp, hf⟩
  have hprice : o.2.price_ = o'.2.price_ :=
    ((hr.sides b).orders g hg o ho).2.trans ((hr.sides b).orders g hg o' ho').2.symm
  refine ⟨hp hprice, ?_⟩
  rcases hf with hf | ⟨_, hf⟩
  · exact absurd hprice hf.ne
  · exact hf

/-- **The representation invariant** holds after every well-formed run that fits
the pools. -/
theorem orderBook_wellFormed (qs : List MEClientRequest) (ha : RefBook.init.AdmitsAll qs)
    (hf : RefBook.init.FitsAll qs) (hid : RefBook.IdsBelow OrderId_INVALID RefBook.init qs) :
    ∃ s evss G, MEOrderBook.init.run qs = .ok (s, evss) ∧ WellFormed s G := by
  obtain ⟨s, hrun, G, hr, hb, _⟩ := run_sim qs sim_init RefBook.inv_init ha hf
  have hinv := RefBook.inv_init.run ha
  have hnum := RefBook.numbered_init.run RefBook.inv_init ha hid
  refine ⟨s, _, G, hrun, hr, fun b g hg => level_pairwise hr hb hnum hg, ?_⟩
  intro b g hg o ho
  refine hinv.pos b o.2 ?_
  rw [← hb]
  exact mem_bookOf.mpr ⟨g, hg, o.1, ho⟩

/-- Two orders at one price, and a level on the other side. -/
theorem orderBook_wellFormed_small : ∃ s evss G, MEOrderBook.init.run
    [⟨.NEW, 1, 0, 7, .BUY, 100, 10⟩, ⟨.NEW, 2, 0, 7, .BUY, 100, 5⟩,
      ⟨.NEW, 3, 0, 1, .SELL, 103, 2⟩] = .ok (s, evss) ∧ WellFormed s G :=
  orderBook_wellFormed _ (by decide) (by decide) (by decide)

/-- **The book is never crossed.** After any well-formed run that returned, the
best bid is below the best ask; and matching the next well-formed order returns,
with the slot of its price free or in use by a level of its own side and price
whenever something of it is left to rest. -/
theorem orderBook_uncrossed (qs : List MEClientRequest) (ha : RefBook.init.AdmitsAll qs)
    (s : MEOrderBook) (evss : List (List Event))
    (hok : MEOrderBook.init.run qs = .ok (s, evss)) :
    (∀ bid ask, s.ladder.bids_by_price_ = some bid → s.ladder.asks_by_price_ = some ask →
      s.ladder.orders_at_price_pool_.levelPrice bid
        < s.ladder.orders_at_price_pool_.levelPrice ask) ∧
    (∀ q, (RefBook.init.run qs).Admits q → q.type_ = .NEW → ∃ leaves l evs,
      MELadder.checkForMatch s.ladder ⟨q.client_id_, q.order_id_, q.ticker_id_, q.side_, q.price_,
          wrap32 s.next_market_order_id_⟩ q.qty_ = .ok (leaves, l, evs) ∧
      (leaves ≠ 0 → ∀ lv, l.getOrdersAtPrice q.price_ = some lv →
        l.orders_at_price_pool_.levelSide lv = q.side_ ∧
        l.orders_at_price_pool_.levelPrice lv = q.price_)) := by
  obtain ⟨_, G, hr, hb, hn⟩ := run_sim_of_ok sim_init RefBook.inv_init ha hok
  have hinv := RefBook.inv_init.run ha
  -- a best level is at the price of an order of its side
  have hbest : ∀ b l, s.ladder.best b = some l → ∃ o ∈ (RefBook.init.run qs).book b,
      o.price_ = s.ladder.orders_at_price_pool_.levelPrice l := by
    intro b l hl
    rw [hr.core.best b] at hl
    obtain ⟨g, hg, rfl⟩ := List.mem_map.mp (List.mem_of_mem_head? hl)
    have hlv := hr.core.level b g hg
    obtain ⟨o, ho⟩ := List.exists_mem_of_ne_nil _ hlv.ne
    refine ⟨o.2, by rw [← hb]; exact mem_bookOf.mpr ⟨g, hg, o.1, ho⟩, ?_⟩
    rw [hlv.price]
    exact ((hr.sides b).orders g hg o ho).2
  refine ⟨?_, ?_⟩
  · intro bid ask hbid hask
    obtain ⟨o, ho, hop⟩ := hbest true bid hbid
    obtain ⟨o', ho', hop'⟩ := hbest false ask hask
    rw [← hop, ← hop']
    exact hinv.uncrossed o ho o' ho'
  · intro q hq hnew
    obtain ⟨l', G', hrun, hr', hb'⟩ := checkForMatch_sim hr hb hinv (hq.side hnew)
    unfold RefBook.aggressor at hrun
    rw [← hn] at hrun
    refine ⟨_, l', _, hrun, fun hl lv hlv => ?_⟩
    rw [(RefBook.swept_congr wrap32 _ q).1] at hl
    have hfit := RefBook.slotFits_matched hinv hq hnew hl
    obtain ⟨b, g, hg, rfl, hi, d, hd, hdp⟩ := hr'.slot_some hlv
    rw [hb'] at hd
    obtain ⟨rfl, hp⟩ := hfit b d hd (by rw [hdp]; exact hi)
    have hlv' := hr'.core.level _ g hg
    rw [hlv'.side, hlv'.price, (hr'.sides _).side g hg, ← hdp, hp]
    exact ⟨sideOf_isBid (hq.side hnew), rfl⟩

/-- A bid and an ask one tick apart. -/
theorem orderBook_uncrossed_small : ∃ s evss, MEOrderBook.init.run
      [⟨.NEW, 1, 0, 7, .BUY, 100, 10⟩, ⟨.NEW, 3, 0, 1, .SELL, 101, 2⟩] = .ok (s, evss) ∧
    ∀ bid ask, s.ladder.bids_by_price_ = some bid → s.ladder.asks_by_price_ = some ask →
      s.ladder.orders_at_price_pool_.levelPrice bid
        < s.ladder.orders_at_price_pool_.levelPrice ask := by
  obtain ⟨s, hrun, _⟩ := run_sim [⟨.NEW, 1, 0, 7, .BUY, 100, 10⟩,
    ⟨.NEW, 3, 0, 1, .SELL, 101, 2⟩] sim_init RefBook.inv_init (by decide) (by decide)
  exact ⟨s, _, hrun, (orderBook_uncrossed _ (by decide) s _ hrun).1⟩

end LowLatency
