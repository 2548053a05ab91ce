import LowLatency.Book.Repr
import LowLatency.Matcher.Invariant

/-!
# `MEOrderBook` refines the reference book

`Sim s r`: the ladder of `s` represents the two queues of `r`, and the id
counters agree. `step_sim` is the forward simulation: on a well-formed request
the code returns, sends what the reference sends (with the aggressor's id
reduced to 32 bits in its fills) and ends in a related state; or a pool is full,
and then the reference's next state does not fit.

The loop of `checkForMatch` is the induction inside it, over the opposite
queue: one iteration fills against the head, and the head either leaves or is
the last one touched.
-/

namespace LowLatency

open Lib (Better queueInsert QueueSorted)

/-! ## The matching loop -/

theorem outOfReach_iff {b : Bool} {p q : Int} :
    MELadder.outOfReach b p q = true ↔ Better b p q := by
  cases b <;> simp [MELadder.outOfReach, Better]

/-- **One match** against the head of side `b`. -/
theorem matchOrder_sim {s : MELadder} {G : Ghost MEOrderId} (h : Represents s G) {b : Bool}
    {p : Nat}
    {d : OrderData MEOrderId} {ds : List (OrderData MEOrderId)} (hpd : (p, d) ∈ flat (G b))
    (hB : bookOf G b = d :: ds) (hds : ∀ o ∈ ds, idx o.id_ ≠ idx d.id_)
    (hother : ∀ b', b' ≠ b → ∀ o ∈ bookOf G b', idx o.id_ ≠ idx d.id_) (a : Aggressor)
    (leaves : Nat) :
    ∃ s' G', MELadder.matchOrder s a p leaves = .ok (leaves - min leaves d.qty_, s',
        fillEvents a d (min leaves d.qty_) (leaves - min leaves d.qty_)
          (d.qty_ - min leaves d.qty_) ++
        [if d.qty_ - min leaves d.qty_ = 0 then exhaustedEvent a d
          else modifiedEvent a d (d.qty_ - min leaves d.qty_)]) ∧
      Represents s' G' ∧ bookOf G' = Function.update (bookOf G) b
        (if d.qty_ - min leaves d.qty_ = 0 then ds
          else { d with qty_ := d.qty_ - min leaves d.qty_ } :: ds) := by
  have hdata := (h.core.data_of_mem hpd).1
  set q := d.qty_ - min leaves d.qty_ with hq
  obtain ⟨hr, hbook⟩ := h.setQty hpd q
  rw [setQtyIdx_head hB hds hother] at hbook
  by_cases hz : q = 0
  · -- the head is used up and leaves
    obtain ⟨s', G', hrun, hr', hbook'⟩ := hr.remove (mem_flat_setQty_self hpd q)
    refine ⟨s', G', ?_, hr', ?_⟩
    · rw [hz] at hrun
      simp only [MELadder.matchOrder, hdata, ← hq, hz]
      rw [hrun]
      rfl
    · rw [hbook', hbook, if_pos hz]
      have hhead : Function.update (bookOf G) b ({ d with qty_ := q } :: ds) b
          = { d with qty_ := q } :: ds := by rw [Function.update_self]
      rw [removeIdx_head hhead hds
        (fun b' hb o ho => hother b' hb o (by rwa [Function.update_of_ne hb] at ho))]
      rw [Function.update_idem]
  · refine ⟨_, _, ?_, hr, by rw [hbook, if_neg hz]⟩
    simp only [MELadder.matchOrder, hdata, ← hq, if_neg hz]
    rfl

/-- **The loop of `checkForMatch` is the sweep** of the opposite queue. -/
theorem checkForMatchLoop_sim {b : Bool} {a : Aggressor} {l : List (OrderData MEOrderId)}
    {fuel : Nat} {s : MELadder} {G : Ghost MEOrderId} (leaves : Nat) (h : Represents s G)
    (hB : bookOf G b = l) (hd : l.Pairwise fun o o' => idx o.id_ ≠ idx o'.id_)
    (hother : ∀ o ∈ l, ∀ b', b' ≠ b → ∀ o' ∈ bookOf G b', idx o'.id_ ≠ idx o.id_)
    (hf : l.length < fuel) :
    ∃ s' G', MELadder.checkForMatchLoop b a fuel s leaves
        = .ok ((sweep b a leaves l).leaves, s', (sweep b a leaves l).events) ∧
      Represents s' G' ∧ bookOf G' = Function.update (bookOf G) b (sweep b a leaves l).queue := by
  induction l generalizing fuel s G leaves with
  | nil =>
    obtain ⟨fuel, rfl⟩ : ∃ f, fuel = f + 1 := ⟨fuel - 1, by omega⟩
    have hbest : s.best b = none := h.core.head_nil hB
    refine ⟨s, G, ?_, h, by rw [sweep, ← hB, Function.update_eq_self]⟩
    rw [MELadder.checkForMatchLoop, hbest]
    simp [sweep]
  | cons d ds ih =>
    obtain ⟨fuel, rfl⟩ : ∃ f, fuel = f + 1 := ⟨fuel - 1, by omega⟩
    obtain ⟨lv, p, hbest, hfirst, hpd, hdata⟩ := h.core.head_cons hB
    have hpw := List.pairwise_cons.mp hd
    by_cases hl : leaves = 0
    · refine ⟨s, G, ?_, h, ?_⟩
      · rw [MELadder.checkForMatchLoop, if_pos hl]
        simp [sweep, hl]
      · simp only [sweep, if_pos (Or.inl hl : leaves = 0 ∨ _)]
        rw [← hB, Function.update_eq_self]
    -- out of reach: the loop breaks where the sweep does
    by_cases hreach : Better b a.price_ d.price_
    · refine ⟨s, G, ?_, h, ?_⟩
      · rw [MELadder.checkForMatchLoop, if_neg hl]
        simp [hbest, hfirst, hdata, outOfReach_iff.mpr hreach, sweep, hreach]
      · simp only [sweep, if_pos (Or.inr hreach : _ ∨ Better b a.price_ d.price_)]
        rw [← hB, Function.update_eq_self]
    -- one match against the head; the rest of the queue is as before
    obtain ⟨s₁, G₁, hrun, hr₁, hbook₁⟩ := matchOrder_sim h hpd hB
      (fun o ho => (hpw.1 o ho).symm) (fun b' hb o' ho' => hother d (by simp) b' hb o' ho') a leaves
    have hgo : ¬ (leaves = 0 ∨ Better b a.price_ d.price_) := not_or.mpr ⟨hl, hreach⟩
    have hno : MELadder.outOfReach b a.price_ d.price_ = false := by
      rw [Bool.eq_false_iff]
      exact fun hc => hreach (outOfReach_iff.mp hc)
    rw [MELadder.checkForMatchLoop, if_neg hl]
    simp only [hbest, hfirst, deref_some, exec_ok_bind, hdata, hno, Bool.false_eq_true, if_false,
      hrun, sweep, if_neg hgo]
    by_cases hz : d.qty_ - min leaves d.qty_ = 0
    · rw [if_pos hz] at hbook₁
      obtain ⟨s₂, G₂, hrun₂, hr₂, hbook₂⟩ := ih (leaves - min leaves d.qty_) hr₁
        (by rw [hbook₁, Function.update_self]) hpw.2
        (by
          intro o ho b' hb o' ho'
          rw [hbook₁, Function.update_of_ne hb] at ho'
          exact hother o (List.mem_cons_of_mem _ ho) b' hb o' ho')
        (Nat.lt_of_succ_lt_succ hf)
      refine ⟨s₂, G₂, ?_, hr₂, ?_⟩
      · rw [hrun₂, if_pos hz, if_pos hz]
        simp
      · rw [hbook₂, hbook₁, if_pos hz, Function.update_idem]
    · -- the head stays with less: the aggressor is done and the loop ends
      rw [if_neg hz] at hbook₁
      have hdone : leaves - min leaves d.qty_ = 0 := by omega
      refine ⟨s₁, G₁, ?_, hr₁, by rw [hbook₁, if_neg hz]⟩
      obtain ⟨fuel, rfl⟩ : ∃ f, fuel = f + 1 :=
        ⟨fuel - 1, by simp only [List.length_cons] at hf; omega⟩
      rw [MELadder.checkForMatchLoop, if_pos hdone, if_neg hz, if_neg hz]
      simp

/-! ## Requests -/

/-- The code's book stands for the reference's. -/
def Sim (s : MEOrderBook) (r : RefBook) : Prop :=
  ∃ G, Represents s.ladder G ∧ bookOf G = r.book ∧ s.next_market_order_id_ = r.next_market_order_id_

theorem sim_init : Sim MEOrderBook.init RefBook.init := ⟨_, Represents.init, rfl, rfl⟩

/-- The priority the code gives is the reference's. -/
theorem getNextPriority_sim {s : MELadder} {G : Ghost MEOrderId} (h : Represents s G) {side : Side}
    {price : Int} (hfit : (bookOf G).SlotFits side price) :
    MELadder.getNextPriority s price
      = .ok (nextPriority (bookOf G (Ladder.isBid side)) price) := by
  unfold MELadder.getNextPriority nextPriority
  cases hs : s.getOrdersAtPrice price with
  | none =>
    have hnil : ((bookOf G (Ladder.isBid side)).filter fun o => decide (o.price_ = price)) = [] := by
      -- an order at the price would fill the slot
      refine List.filter_eq_nil_iff.mpr fun o ho hp => ?_
      exact h.slot_none hs ho (by rw [of_decide_eq_true hp])
    rw [hnil]
    rfl
  | some l =>
    obtain ⟨b, g, hg, rfl, hi, d, hd, hdp⟩ := h.slot_some hs
    obtain ⟨rfl, hp⟩ := hfit b d hd (by rw [hdp]; exact hi)
    obtain ⟨x, y, hfirst, hlast, hget⟩ := h.slot_last hg
    rw [← hdp, hp] at hget
    simp only [hfirst, hlast, deref_some, exec_ok_bind, exec_pure, hget]

/-- **`checkForMatch` is the reference's matching.** -/
theorem checkForMatch_sim {s : MEOrderBook} {r : RefBook} {G : Ghost MEOrderId}
    (h : Represents s.ladder G) (hb : bookOf G = r.book) (hinv : r.Inv) {q : MEClientRequest}
    (hside : q.side_ = .BUY ∨ q.side_ = .SELL) :
    ∃ l' G', MELadder.checkForMatch s.ladder (r.aggressor wrap32 q) q.qty_
        = .ok ((r.swept wrap32 q).leaves, l', (r.swept wrap32 q).events) ∧
      Represents l' G' ∧ bookOf G' = r.matched q := by
  have hlen : (r.book (!Ladder.isBid q.side_)).length < ME_MAX_ORDER_IDS + 1 := by
    have := h.core.length_le (!Ladder.isBid q.side_)
    rw [h.ids.size, hb] at this
    omega
  obtain ⟨l', G', hrun, hr, hbook⟩ := checkForMatchLoop_sim (b := !Ladder.isBid q.side_)
    (a := r.aggressor wrap32 q) q.qty_ h (by rw [hb]) (hinv.distinct _)
    (fun o ho b' hne o' ho' => hinv.idx_ne_of_ne hne ho (hb ▸ ho')) hlen
  refine ⟨l', G', ?_, hr, ?_⟩
  · rcases hside with hs | hs
    · have hbid : Ladder.isBid q.side_ = true := by rw [hs]; rfl
      have ha : (r.aggressor wrap32 q).side_ = .BUY := hs
      unfold MELadder.checkForMatch
      rw [ha]
      rw [hbid] at hrun
      simpa [RefBook.swept, hbid] using hrun
    · have hbid : Ladder.isBid q.side_ = false := by rw [hs]; rfl
      have ha : (r.aggressor wrap32 q).side_ = .SELL := hs
      unfold MELadder.checkForMatch
      rw [ha]
      rw [hbid] at hrun
      simpa [RefBook.swept, hbid] using hrun
  · rw [hbook, hb]
    show _ = Function.update r.book _ (r.swept id q).queue
    rw [← (RefBook.swept_congr wrap32 r q).2]
    rfl

/-- A new order: accepted, matched, and what is left of it at rest. -/
theorem add_sim {s : MEOrderBook} {r : RefBook} {q : MEClientRequest} (h : Sim s r)
    (hinv : r.Inv) (ha : r.Admits q) (hq : q.type_ = .NEW) :
    (∃ s', s.add q.client_id_ q.order_id_ q.ticker_id_ q.side_ q.price_ q.qty_
        = .ok (s', r.addEvents wrap32 q) ∧ Sim s' (r.add q)) ∨
    (s.add q.client_id_ q.order_id_ q.ticker_id_ q.side_ q.price_ q.qty_
        = .error MemPool.outOfSpace ∧ ¬ (r.add q).Fits) := by
  obtain ⟨G, hr, hb, hn⟩ := h
  obtain ⟨l₁, G₁, hmatch, hr₁, hb₁⟩ := checkForMatch_sim hr hb hinv (ha.side hq)
  unfold RefBook.aggressor at hmatch
  have hleaves := (RefBook.swept_congr wrap32 r q).1
  by_cases hl : (r.swept id q).leaves = 0
  · -- nothing is left to rest
    left
    refine ⟨⟨l₁, wrap64 (s.next_market_order_id_ + 1)⟩, ?_, G₁, hr₁, ?_, ?_⟩
    · simp only [MEOrderBook.add, hn, hmatch, exec_ok_bind, hleaves, hl, ne_eq, not_true_eq_false,
        if_false, exec_pure, RefBook.addEvents, if_true, List.append_nil]
    · simp only [RefBook.add, hl, if_true]
      exact hb₁
    · show wrap64 (s.next_market_order_id_ + 1) = wrap64 (r.next_market_order_id_ + 1)
      rw [hn]
  · have hfit := RefBook.slotFits_matched hinv ha hq hl
    rw [← hb₁] at hfit
    have hprio := getNextPriority_sim hr₁ hfit
    -- matching brings no id to life, so the entry is still free
    have hid : l₁.id_to_order_ (q.client_id_, q.order_id_) = none := by
      cases hi : l₁.id_to_order_ (q.client_id_, q.order_id_) with
      | none => rfl
      | some p =>
        obtain ⟨b, d, hd, hdi, _⟩ := hr₁.ids.lookup hr₁.core hi
        have hm := mem_bookOf_of_flat hd
        rw [hb₁] at hm
        exact absurd hdi (RefBook.matched_not_live (ha.fresh hq) hm)
    have hin : inRange (K := MEOrderId) (idx (r.resting q).id_) = true := by
      show (decide (q.client_id_ < _) && decide (q.order_id_ < _)) = true
      simp [ha.client, ha.order]
    have horder : (⟨⟨q.ticker_id_, q.client_id_, q.order_id_, r.next_market_order_id_⟩, q.side_,
        q.price_, (r.swept id q).leaves,
        nextPriority (bookOf G₁ (Ladder.isBid q.side_)) q.price_⟩ : OrderData MEOrderId)
        = r.resting q := by
      rw [hb₁]
      rfl
    have hrun : s.add q.client_id_ q.order_id_ q.ticker_id_ q.side_ q.price_ q.qty_ = (do
        let l ← l₁.allocateOrder (r.resting q)
        return (⟨l, wrap64 (s.next_market_order_id_ + 1)⟩, r.addEvents wrap32 q)) := by
      simp only [MEOrderBook.add, hn, hmatch, exec_ok_bind, hleaves, hl, ne_eq, not_false_eq_true,
        if_true, hprio, horder, RefBook.addEvents, if_false]
    rcases hr₁.rest (d := r.resting q) (ha.side hq) hin hid hfit with
      ⟨l₂, G₂, halloc, hr₂, hb₂⟩ | ⟨halloc, hcap⟩
    · left
      refine ⟨⟨l₂, wrap64 (s.next_market_order_id_ + 1)⟩, ?_, G₂, hr₂, ?_, ?_⟩
      · rw [hrun, halloc]
        rfl
      · simp only [RefBook.add, hl, if_false]
        rw [hb₂, hb₁]
      · show wrap64 (s.next_market_order_id_ + 1) = wrap64 (r.next_market_order_id_ + 1)
        rw [hn]
    · -- a pool is full, so the order does not fit the reference's bounds either
      right
      refine ⟨by rw [hrun, halloc]; rfl, ?_⟩
      rintro ⟨hlive, hlevels⟩
      simp only [RefBook.add, hl, if_false] at hlive hlevels
      rw [hb₁] at hcap
      rcases hcap with hcap | ⟨hnew, hcap⟩
      · rw [Book.live_rest] at hlive
        simp only [ME_MAX_ORDER_IDS] at hlive hcap
        omega
      · rw [Book.levels_rest_of_new hnew] at hlevels
        simp only [ME_MAX_PRICE_LEVELS] at hlevels hcap
        omega

/-- The reference's lookup, through the id table. -/
theorem find?_sim {s : MEOrderBook} {r : RefBook} {G : Ghost MEOrderId} (h : Represents s.ladder G)
    (hb : bookOf G = r.book) (i : Nat × Nat) :
    (s.ladder.id_to_order_ i = none ∧ r.find? i = none) ∨
    ∃ b p d, s.ladder.id_to_order_ i = some p ∧ (p, d) ∈ flat (G b) ∧ idx d.id_ = i ∧
      r.find? i = some d := by
  cases hi : s.ladder.id_to_order_ i with
  | none =>
    refine Or.inl ⟨rfl, List.find?_eq_none.mpr ?_⟩
    intro o ho
    rw [decide_eq_true_eq]
    rcases List.mem_append.mp ho with ho | ho <;> rw [← hb] at ho
    · exact h.ids.idx_ne hi ho
    · exact h.ids.idx_ne hi ho
  | some p =>
    obtain ⟨b, d, hd, hdi, _⟩ := h.ids.lookup h.core hi
    refine Or.inr ⟨b, p, d, rfl, hd, hdi, ?_⟩
    cases hf : r.find? i with
    | none =>
      have hm := mem_bookOf_of_flat hd
      rw [hb] at hm
      have := List.find?_eq_none.mp hf d (by
        cases b with
        | true => exact List.mem_append.mpr (Or.inl hm)
        | false => exact List.mem_append.mpr (Or.inr hm))
      exact absurd (decide_eq_true hdi) this
    | some d' =>
      -- both lookups answer to the index, and it names one order
      have hd'i : idx d'.id_ = i := by
        have hp := List.find?_some hf
        exact of_decide_eq_true hp
      have hm' := List.mem_of_find?_eq_some hf
      obtain ⟨b', hm'⟩ : ∃ b', d' ∈ bookOf G b' := by
        rw [hb]
        rcases List.mem_append.mp hm' with hm' | hm'
        · exact ⟨true, hm'⟩
        · exact ⟨false, hm'⟩
      obtain ⟨o', ho', rfl⟩ := List.mem_map.mp hm'
      rw [(h.ids.idx_inj h.core ho' hd (hd'i.trans hdi.symm)).2]

/-- A cancel: the order leaves, or the request is rejected. -/
theorem cancel_sim {s : MEOrderBook} {r : RefBook} {q : MEClientRequest} (h : Sim s r)
    (ha : r.Admits q) :
    ∃ s', s.cancel q.client_id_ q.order_id_ q.ticker_id_ = .ok (s', r.cancelEvents q) ∧
      Sim s' (r.cancel q) := by
  obtain ⟨G, hr, hb, hn⟩ := h
  have hin : inRange (K := MEOrderId) ((q.client_id_, q.order_id_) : Nat × Nat) = true := by
    show (decide (q.client_id_ < _) && decide (q.order_id_ < _)) = true
    simp [ha.client, ha.order]
  have hget : s.ladder.getIdx (q.client_id_, q.order_id_)
      = .ok (s.ladder.id_to_order_ (q.client_id_, q.order_id_)) := by
    simp [Ladder.getIdx, hin]
  rcases find?_sim hr hb (q.client_id_, q.order_id_) with
    ⟨hnone, hf⟩ | ⟨b, p, d, hsome, hpd, hdi, hf⟩
  · refine ⟨s, ?_, G, hr, ?_, hn⟩
    · simp [MEOrderBook.cancel, ha.client, hget, hnone, RefBook.cancelEvents, hf]
    · funext b
      rw [hb]
      refine (List.filter_eq_self.mpr fun o ho => decide_eq_true ?_).symm
      exact hr.ids.idx_ne hnone (by rw [hb]; exact ho)
  · obtain ⟨l', G', hrun, hr', hb'⟩ := hr.remove hpd
    refine ⟨{ s with ladder := l' }, ?_, G', hr', ?_, hn⟩
    · simp [MEOrderBook.cancel, ha.client, hget, hsome, hrun, RefBook.cancelEvents, hf,
        (hr.core.data_of_mem hpd).1]
    · rw [hb', hdi, hb]
      rfl

/-- **Forward simulation**, one request. -/
theorem step_sim {s : MEOrderBook} {r : RefBook} {q : MEClientRequest} (h : Sim s r)
    (hinv : r.Inv) (ha : r.Admits q) :
    (∃ s', s.processClientRequest q = .ok (s', r.stepEvents wrap32 q) ∧ Sim s' (r.step q)) ∨
    (s.processClientRequest q = .error MemPool.outOfSpace ∧ ¬ (r.step q).Fits) := by
  unfold MEOrderBook.processClientRequest RefBook.stepEvents RefBook.step
  cases hq : q.type_ with
  | INVALID => exact absurd hq ha.type
  | NEW => exact add_sim h hinv ha hq
  | CANCEL => exact Or.inl (cancel_sim h ha)

/-- **Forward simulation**, a whole run that fits the pools. -/
theorem run_sim (qs : List MEClientRequest) {s : MEOrderBook} {r : RefBook} (h : Sim s r)
    (hinv : r.Inv) (ha : r.AdmitsAll qs) (hf : r.FitsAll qs) :
    ∃ s', s.run qs = .ok (s', r.runEvents wrap32 qs) ∧ Sim s' (r.run qs) := by
  induction qs generalizing s r with
  | nil => exact ⟨s, rfl, h⟩
  | cons q qs ih =>
    rcases step_sim h hinv ha.1 with ⟨s₁, hrun₁, h₁⟩ | ⟨_, hno⟩
    · obtain ⟨s₂, hrun₂, h₂⟩ := ih h₁ (hinv.step ha.1) ha.2 hf.2
      refine ⟨s₂, ?_, h₂⟩
      simp only [MEOrderBook.run, hrun₁, exec_ok_bind, hrun₂, RefBook.runEvents]
      rfl
    · exact absurd hf.1 hno

/-- A run that returned did what the reference does, with no word on the
pools. -/
theorem run_sim_of_ok {s s' : MEOrderBook} {r : RefBook} {qs : List MEClientRequest}
    {evss : List (List Event)} (h : Sim s r) (hinv : r.Inv) (ha : r.AdmitsAll qs)
    (hok : s.run qs = .ok (s', evss)) : evss = r.runEvents wrap32 qs ∧ Sim s' (r.run qs) := by
  induction qs generalizing s r evss with
  | nil =>
    obtain ⟨rfl, rfl⟩ : s = s' ∧ [] = evss := by simpa [MEOrderBook.run] using hok
    exact ⟨rfl, h⟩
  | cons q qs ih =>
    obtain ⟨⟨s₁, evs₁⟩, hrun₁, hok⟩ := exec_bind_ok hok
    obtain ⟨⟨s₂, evs₂⟩, hrun₂, hok⟩ := exec_bind_ok hok
    obtain ⟨rfl, rfl⟩ : s₂ = s' ∧ evs₁ :: evs₂ = evss := by simpa using hok
    -- the other outcome of a step is an exit, which did not happen
    rcases step_sim h hinv ha.1 with ⟨s₁', hrun₁', h₁⟩ | ⟨herr, _⟩
    · rw [hrun₁] at hrun₁'
      obtain ⟨rfl, rfl⟩ : s₁ = s₁' ∧ evs₁ = r.stepEvents wrap32 q := by simpa using hrun₁'
      obtain ⟨rfl, hsim⟩ := ih h₁ (hinv.step ha.1) ha.2 hrun₂
      exact ⟨rfl, hsim⟩
    · rw [hrun₁] at herr
      exact absurd herr (by simp)

end LowLatency
