import LowLatency.Matcher.Refine

/-!
# Price safety of every fill

A fill is a call of `MEOrderBook::match`: the ladder it is made on and the
passive order. `MELadder.fills` lists the calls `checkForMatch` makes for a new
order. A fill is safe (`SafeFill`) when the two orders are on opposite sides,
both are told the passive order's limit price, the aggressor's limit reaches it,
and no live order of that side has a better one. An order is live while
`cid_oid_to_order_` names it, which does not depend on how the levels are linked.

In a run in which no order comes to rest at a price congruent to a different
live price the levels hold what their price says, and every fill is safe
(`fills_safe`). Otherwise an order is filed under another price's level, or even
under the other side's, and `fills_unsafe` is a run in which a `SELL` is filled
against a `SELL` six times its limit.
-/

namespace LowLatency

open Lib (Better QueueSorted)

namespace MELadder

/-- The calls of `match` in the loop of `checkForMatch`: the ladder before the
call, the passive order and the aggressor's remaining quantity. -/
def fillsLoop (bid : Bool) (a : Aggressor) : Nat → MELadder → Nat → List (MELadder × Nat × Nat)
  | 0, _, _ => []
  | fuel + 1, s, leaves_qty =>
    if leaves_qty = 0 then []
    else
      match s.best bid with
      | none => []
      | some level =>
        match s.orders_at_price_pool_.firstOrder level with
        | none => []
        | some itr =>
          if outOfReach bid a.price_ (s.order_pool_.data itr).price_ then []
          else (s, itr, leaves_qty) ::
            match matchOrder s a itr leaves_qty with
            | .ok (leaves_qty, s, _) => fillsLoop bid a fuel s leaves_qty
            | .error _ => []

def fills (s : MELadder) (a : Aggressor) (qty : Nat) : List (MELadder × Nat × Nat) :=
  match a.side_ with
  | .BUY => fillsLoop false a (ME_MAX_ORDER_IDS + 1) s qty
  | .SELL => fillsLoop true a (ME_MAX_ORDER_IDS + 1) s qty
  | _ => []

end MELadder

/-- The new order of a request, as `checkForMatch` gets it. -/
def MEOrderBook.aggressor (s : MEOrderBook) (q : MEClientRequest) : Aggressor :=
  ⟨q.client_id_, q.order_id_, q.ticker_id_, q.side_, q.price_, wrap32 s.next_market_order_id_⟩

/-- The fills of a request. -/
def MEOrderBook.fills (s : MEOrderBook) (q : MEClientRequest) : List (MELadder × Nat × Nat) :=
  if q.type_ = .NEW then MELadder.fills s.ladder (s.aggressor q) q.qty_ else []

/-- A call of `match` that respects sides and prices. -/
structure SafeFill (a : Aggressor) (s : MELadder) (itr leaves : Nat) : Prop where
  /-- one side buys, the other sells -/
  opposite : (a.side_ = .BUY ∧ (s.order_pool_.data itr).side_ = .SELL) ∨
    (a.side_ = .SELL ∧ (s.order_pool_.data itr).side_ = .BUY)
  /-- both are filled at the passive order's limit price -/
  atLimit : ∀ leaves' s' evs, MELadder.matchOrder s a itr leaves = .ok (leaves', s', evs) →
    ∀ r ∈ responses evs, r.type_ = .FILLED → r.price_ = (s.order_pool_.data itr).price_
  /-- which is no worse than the aggressor's -/
  reached : if a.side_ = .BUY then (s.order_pool_.data itr).price_ ≤ a.price_
    else a.price_ ≤ (s.order_pool_.data itr).price_
  /-- and the best of all live orders of the passive side -/
  best : ∀ i p, s.id_to_order_ i = some p →
    (s.order_pool_.data p).side_ = (s.order_pool_.data itr).side_ →
    ¬ Better (Ladder.isBid (s.order_pool_.data itr).side_) (s.order_pool_.data p).price_
      (s.order_pool_.data itr).price_

/-- What `match` sends names the passive order's price. -/
theorem matchOrder_price {s s' : MELadder} {a : Aggressor} {itr leaves leaves' : Nat}
    {evs : List Event} (h : MELadder.matchOrder s a itr leaves = .ok (leaves', s', evs)) :
    ∀ r ∈ responses evs, r.type_ = .FILLED → r.price_ = (s.order_pool_.data itr).price_ := by
  have hevs : ∃ e, evs = fillEvents a (s.order_pool_.data itr)
      (min leaves (s.order_pool_.data itr).qty_)
      (leaves - min leaves (s.order_pool_.data itr).qty_)
      ((s.order_pool_.data itr).qty_ - min leaves (s.order_pool_.data itr).qty_) ++ [.update e] := by
    unfold MELadder.matchOrder at h
    dsimp only at h
    split at h
    · obtain ⟨s₁, -, h⟩ := exec_bind_ok h
      cases h
      exact ⟨_, rfl⟩
    · cases h
      exact ⟨_, rfl⟩
  obtain ⟨e, rfl⟩ := hevs
  intro r hr _
  simp only [responses, fillEvents, List.cons_append, List.nil_append, List.filterMap_cons,
    List.filterMap_nil, List.mem_cons, List.not_mem_nil, or_false] at hr
  rcases hr with rfl | rfl <;> rfl

/-- **The head of a sorted queue is a safe fill** for an aggressor of the other
side that reaches it. -/
theorem safeFill_head {s : MELadder} {G : Ghost MEOrderId} (h : Represents s G) {b : Bool} {p : Nat}
    {d : OrderData MEOrderId} {ds : List (OrderData MEOrderId)} (hpd : (p, d) ∈ flat (G b))
    (hB : bookOf G b = d :: ds) (hsorted : QueueSorted b OrderData.price_ (d :: ds))
    (hside : ∀ b, ∀ o ∈ bookOf G b, o.side_ = sideOf b) {a : Aggressor}
    (ha : a.side_ = sideOf (!b)) (hreach : ¬ Better b a.price_ d.price_) (leaves : Nat) :
    SafeFill a s p leaves := by
  have hdata : s.order_pool_.data p = d := (h.core.data_of_mem hpd).1
  have hd : d.side_ = sideOf b := hside b d (by rw [hB]; exact List.mem_cons_self ..)
  refine ⟨?_, fun _ _ _ hm => matchOrder_price hm, ?_, ?_⟩
  · rw [hdata, hd, ha]
    cases b
    · exact Or.inl ⟨rfl, rfl⟩
    · exact Or.inr ⟨rfl, rfl⟩
  · rw [hdata, ha]
    cases b
    · rw [if_pos (show sideOf (!false) = .BUY from rfl)]
      simpa [Better] using hreach
    · rw [if_neg (show ¬ sideOf (!true) = .BUY by decide)]
      simpa [Better] using hreach
  · intro i p' hi hs
    obtain ⟨b', d', hd', -, -⟩ := h.ids.lookup h.core hi
    have hdata' : s.order_pool_.data p' = d' := (h.core.data_of_mem hd').1
    have hmem := mem_bookOf_of_flat hd'
    rw [hdata, hdata', hd, hside b' d' hmem] at hs
    -- a live order of the same side is in the same queue, behind its head
    have hbb : b' = b := by
      rw [← isBid_sideOf b', hs, isBid_sideOf]
    subst hbb
    rw [hdata, hdata', hd, isBid_sideOf]
    rw [hB] at hmem
    rcases List.mem_cons.mp hmem with rfl | hmem
    · exact Better.irrefl
    · exact hsorted.head_le hmem

/-- **Every fill of the loop is safe**, by induction over the opposite queue:
each is against its head, and what is left of the queue is sorted. -/
theorem fillsLoop_safe {b : Bool} {a : Aggressor} {l : List (OrderData MEOrderId)} {fuel : Nat}
    {s : MELadder} {G : Ghost MEOrderId} (leaves : Nat) (h : Represents s G)
    (hB : bookOf G b = l) (hd : l.Pairwise fun o o' => idx o.id_ ≠ idx o'.id_)
    (hother : ∀ o ∈ l, ∀ b', b' ≠ b → ∀ o' ∈ bookOf G b', idx o'.id_ ≠ idx o.id_)
    (hsorted : QueueSorted b OrderData.price_ l) (hside : ∀ b, ∀ o ∈ bookOf G b, o.side_ = sideOf b)
    (ha : a.side_ = sideOf (!b)) :
    ∀ f ∈ MELadder.fillsLoop b a fuel s leaves, SafeFill a f.1 f.2.1 f.2.2 := by
  induction l generalizing fuel s G leaves with
  | nil =>
    have hbest : s.best b = none := h.core.head_nil hB
    cases fuel with
    | zero => simp [MELadder.fillsLoop]
    | succ fuel => simp [MELadder.fillsLoop, hbest]
  | cons d ds ih =>
    cases fuel with
    | zero => simp [MELadder.fillsLoop]
    | succ fuel =>
      obtain ⟨lv, p, hbest, hfirst, hpd, hdata⟩ := h.core.head_cons hB
      have hpw := List.pairwise_cons.mp hd
      unfold MELadder.fillsLoop
      by_cases hl : leaves = 0
      · simp [hl]
      by_cases hreach : Better b a.price_ d.price_
      · simp [hl, hbest, hfirst, hdata, outOfReach_iff.mpr hreach]
      have hno : MELadder.outOfReach b a.price_ d.price_ = false := by
        rw [Bool.eq_false_iff]
        exact fun hc => hreach (outOfReach_iff.mp hc)
      -- the fill at hand is the head's; the others are those of the loop after it
      obtain ⟨s₁, G₁, hrun, hr₁, hbook₁⟩ := matchOrder_sim h hpd hB
        (fun o ho => (hpw.1 o ho).symm) (fun b' hb o' ho' => hother d (by simp) b' hb o' ho') a leaves
      rw [if_neg hl]
      simp only [hbest, hfirst, hdata, hno, Bool.false_eq_true, if_false, hrun]
      intro f hf
      rcases List.mem_cons.mp hf with rfl | hf
      · exact safeFill_head h hpd hB hsorted hside ha hreach leaves
      · by_cases hz : d.qty_ - min leaves d.qty_ = 0
        · -- the head left: the induction goes on with the queue behind it
          rw [if_pos hz] at hbook₁
          refine ih _ hr₁ (by rw [hbook₁, Function.update_self]) hpw.2 ?_
            (List.pairwise_cons.mp hsorted).2 ?_ f hf
          · intro o ho b' hb o' ho'
            rw [hbook₁, Function.update_of_ne hb] at ho'
            exact hother o (List.mem_cons_of_mem _ ho) b' hb o' ho'
          · intro b' o ho
            by_cases hb : b' = b
            · subst hb
              rw [hbook₁, Function.update_self] at ho
              exact hside b' o (by rw [hB]; exact List.mem_cons_of_mem _ ho)
            · rw [hbook₁, Function.update_of_ne hb] at ho
              exact hside b' o ho
        · -- the aggressor is done
          have hdone : leaves - min leaves d.qty_ = 0 := by omega
          rw [hdone] at hf
          cases fuel <;> simp [MELadder.fillsLoop] at hf

theorem RefBook.AdmitsAll.split {r : RefBook} {pre : List MEClientRequest} {q : MEClientRequest}
    {post : List MEClientRequest} (h : r.AdmitsAll (pre ++ q :: post)) :
    r.AdmitsAll pre ∧ (r.run pre).Admits q := by
  induction pre generalizing r with
  | nil => exact ⟨trivial, h.1⟩
  | cons p pre ih =>
    obtain ⟨hpre, hq⟩ := ih h.2
    exact ⟨⟨h.1, hpre⟩, hq⟩

theorem RefBook.FitsAll.left {r : RefBook} {pre post : List MEClientRequest}
    (h : r.FitsAll (pre ++ post)) : r.FitsAll pre := by
  induction pre generalizing r with
  | nil => trivial
  | cons p pre ih => exact ⟨h.1, ih h.2⟩

/-- **Price safety.** In every well-formed run that fits the pools and in which
no order comes to rest at a price congruent to a different live price, every
fill of every request pairs a `BUY` with a `SELL` at the passive order's limit
price, which is within the aggressor's limit and the best live price of its
side. -/
theorem fills_safe (qs : List MEClientRequest) (ha : RefBook.init.AdmitsAll qs)
    (hf : RefBook.init.FitsAll qs) (pre : List MEClientRequest) (q : MEClientRequest)
    (post : List MEClientRequest) (hqs : qs = pre ++ q :: post) :
    ∃ s evss, MEOrderBook.init.run pre = .ok (s, evss) ∧
      ∀ f ∈ s.fills q, SafeFill (s.aggressor q) f.1 f.2.1 f.2.2 := by
  subst hqs
  obtain ⟨hapre, hq⟩ := ha.split
  obtain ⟨s, hrun, G, hr, hb, hn⟩ := run_sim pre sim_init RefBook.inv_init hapre hf.left
  have hinv := RefBook.inv_init.run hapre
  refine ⟨s, _, hrun, ?_⟩
  unfold MEOrderBook.fills
  split
  next hnew =>
    -- the loop runs on the side opposite to the request's
    have hloop : ∀ b, q.side_ = sideOf (!b) → ∀ f ∈ MELadder.fillsLoop b (s.aggressor q)
        (ME_MAX_ORDER_IDS + 1) s.ladder q.qty_, SafeFill (s.aggressor q) f.1 f.2.1 f.2.2 := by
      intro b hside
      refine fillsLoop_safe q.qty_ hr (by rw [hb]) (hinv.distinct b) ?_ (hinv.sorted b)
        (by rw [hb]; exact hinv.side) hside
      intro o ho b' hne o' ho'
      exact hinv.idx_ne_of_ne hne ho (hb ▸ ho')
    unfold MELadder.fills
    have hagg : (s.aggressor q).side_ = q.side_ := rfl
    rw [hagg]
    rcases hq.side hnew with hs | hs
    · rw [hs]
      exact hloop false hs
    · rw [hs]
      exact hloop true hs
  next => simp

/-- A sweep of two prices. -/
theorem fills_safe_small : ∃ s evss,
    MEOrderBook.init.run
      [⟨.NEW, 1, 0, 7, .SELL, 101, 10⟩, ⟨.NEW, 2, 0, 9, .SELL, 100, 4⟩] = .ok (s, evss) ∧
    ∀ f ∈ s.fills ⟨.NEW, 3, 0, 8, .BUY, 101, 9⟩,
      SafeFill (s.aggressor ⟨.NEW, 3, 0, 8, .BUY, 101, 9⟩) f.1 f.2.1 f.2.2 :=
  fills_safe [⟨.NEW, 1, 0, 7, .SELL, 101, 10⟩, ⟨.NEW, 2, 0, 9, .SELL, 100, 4⟩,
    ⟨.NEW, 3, 0, 8, .BUY, 101, 9⟩] (by decide) (by decide) _ _ [] rfl

/-- A bid rests at 100 and an offer at 356, in the same slot: the offer joins the
bid's level. A `SELL` at 50 takes the bid and is then filled at 356, against a
`SELL`. All ids are in range and differ, and the pools are nearly empty. -/
theorem fills_unsafe :
    let pre : List MEClientRequest :=
      [⟨.NEW, 1, 0, 1, .BUY, 100, 10⟩, ⟨.NEW, 2, 0, 1, .SELL, 356, 10⟩]
    let q : MEClientRequest := ⟨.NEW, 3, 0, 1, .SELL, 50, 20⟩
    ∃ s evss, MEOrderBook.init.run pre = .ok (s, evss) ∧
      ∃ f ∈ s.fills q, ¬ SafeFill (s.aggressor q) f.1 f.2.1 f.2.2 := by
  intro pre q
  obtain ⟨s, evss, hrun, hsides⟩ : ∃ s evss, MEOrderBook.init.run pre = .ok (s, evss) ∧
      (s.fills q).map (fun f => (f.1.order_pool_.data f.2.1).side_) = [.BUY, .SELL] :=
    ⟨_, _, rfl, by decide⟩
  have hmem : Side.SELL ∈ (s.fills q).map fun f => (f.1.order_pool_.data f.2.1).side_ := by
    rw [hsides]
    decide
  obtain ⟨f, hf, hside⟩ := List.mem_map.mp hmem
  refine ⟨s, evss, hrun, f, hf, ?_⟩
  intro hsafe
  rcases hsafe.opposite with ⟨ha, -⟩ | ⟨-, hp⟩
  · exact absurd (show Side.SELL = .BUY from ha) (by decide)
  · rw [hside] at hp
    exact absurd hp (by decide)

end LowLatency
