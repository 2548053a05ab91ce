import LowLatency.Book.Shelved
import LowLatency.Matcher.PriceSafety
import Mathlib.Data.List.TakeWhile

/-!
# What a new order takes, and what it leaves

`checkForMatch` starts at the best order of the other side and stops at the first
that the limit does not reach, or when nothing is left. So the orders that a new
order meets are known before it is matched: they are the first of the other side,
as a traversal lists them (`reached`). What rests of it is what they fall short of
its quantity (`MatchRule.checkForMatch`), and if that is something they are gone
from the rings, and nothing else is (`TakesReached`).

This holds in every book whose rings a traversal can list and an order can leave.
`MatchRule` says what is needed of such a representation; `Filed` and `Shelved`
are two.
-/

namespace LowLatency

/-- The orders resting on side `b` of the book. -/
def restingOrders (s : MEOrderBook) (b : Bool) : List (OrderData MEOrderId) :=
  ((s.ladder.view b).getD []).flatMap Ladder.LevelView.orders

/-- The limit of a new order reaches `o`. Without a side it reaches nothing. -/
def MEClientRequest.reaches (q : MEClientRequest) (o : OrderData MEOrderId) : Bool :=
  match q.side_ with
  | .BUY => decide (o.price_ ≤ q.price_)
  | .SELL => decide (q.price_ ≤ o.price_)
  | _ => false

namespace MEOrderBook

/-- The orders of the other side up to the first that the limit does not reach. -/
def reached (s : MEOrderBook) (q : MEClientRequest) : List (OrderData MEOrderId) :=
  (restingOrders s (!Ladder.isBid q.side_)).takeWhile q.reaches

/-- The orders of the other side from there on. -/
def unreached (s : MEOrderBook) (q : MEClientRequest) : List (OrderData MEOrderId) :=
  (restingOrders s (!Ladder.isBid q.side_)).dropWhile q.reaches

/-- The orders that the limit reaches do not use up the new order. -/
def LeavesOver (s : MEOrderBook) (q : MEClientRequest) : Prop :=
  ((s.reached q).map OrderData.qty_).sum < q.qty_

instance (s : MEOrderBook) (q : MEClientRequest) : Decidable (s.LeavesOver q) :=
  inferInstanceAs (Decidable (_ < _))

/-- The orders that stay when the new order is not used up: those of its own side
and those it does not reach. -/
def left (s : MEOrderBook) (q : MEClientRequest) : List (OrderData MEOrderId) :=
  restingOrders s (Ladder.isBid q.side_) ++ s.unreached q

end MEOrderBook

/-- A traversal lists the orders of `G`. -/
theorem Core.restingOrders {s : MEOrderBook} {G : Ghost MEOrderId} (h : Core s.ladder G)
    (b : Bool) : LowLatency.restingOrders s b = bookOf G b := by
  unfold LowLatency.restingOrders bookOf flat
  rw [h.view b, Option.getD_some, List.map_flatMap, List.flatMap_map]
  rfl

/-- Every level of `G'` is one of `G`. -/
def Ghost.LevelsIn (G' G : Ghost MEOrderId) : Prop :=
  ∀ b, ∀ g' ∈ G' b, ∃ g ∈ G b, g.ptr = g'.ptr ∧ g.price = g'.price

theorem Ghost.LevelsIn.refl (G : Ghost MEOrderId) : G.LevelsIn G := fun _ g hg => ⟨g, hg, rfl, rfl⟩

theorem Ghost.LevelsIn.trans {G G' G'' : Ghost MEOrderId} (h : G'.LevelsIn G)
    (h' : G''.LevelsIn G') : G''.LevelsIn G := by
  intro b g'' hg''
  obtain ⟨g', hg', hptr', hprice'⟩ := h' b g'' hg''
  obtain ⟨g, hg, hptr, hprice⟩ := h b g' hg'
  exact ⟨g, hg, hptr.trans hptr', hprice.trans hprice'⟩

theorem Ghost.levelsIn_setQty (G : Ghost MEOrderId) (p v : Nat) : (G.setQty p v).LevelsIn G := by
  intro b g hg
  obtain ⟨g₀, hg₀, rfl⟩ := Ghost.mem_setQty.mp hg
  exact ⟨g₀, hg₀, rfl, rfl⟩

theorem Ghost.levelsIn_remove (G : Ghost MEOrderId) (p : Nat) : (G.remove p).LevelsIn G := by
  intro b g hg
  obtain ⟨_, g₀, hg₀, rfl⟩ := mem_removeFrom.mp hg
  exact ⟨g₀, hg₀, rfl, rfl⟩

/-! ## Matching in a book that can be read -/

/-- The rings spell out `G`, and that survives the two things a match does to them. -/
structure MatchRule (J : MELadder → Ghost MEOrderId → Prop) : Prop where
  core : ∀ {s G}, J s G → Core s G
  size : ∀ {s G}, J s G → s.order_pool_.size = ME_MAX_ORDER_IDS
  setQty : ∀ {s G} (p v : Nat), J s G →
    J { s with order_pool_ := s.order_pool_.setQty p v } (G.setQty p v)
  remove : ∀ {s G b p d}, J s G → (p, d) ∈ flat (G b) →
    ∃ s', s.removeOrder p = .ok s' ∧ J s' (G.remove p)

theorem filed_matchRule : MatchRule Filed where
  core := Filed.core
  size := fun h => h.ids.size
  setQty := fun p v h => h.setQty p v
  remove := fun h hpd => h.remove hpd

theorem shelved_matchRule : MatchRule Shelved where
  core := fun h => h.core
  size := fun h => h.size
  setQty := fun p v h => h.setQty p v
  remove := fun h hpd => h.remove hpd

section Match

variable {J : MELadder → Ghost MEOrderId → Prop} {s : MELadder} {G : Ghost MEOrderId} {b : Bool}

/-- Orders other than `p` keep their place when `p` is used up. -/
theorem flat_remove_setQty {L : List (Nat × OrderData MEOrderId)} {b' : Bool} {p v : Nat}
    (hL : flat (G b') = L) (hne : ∀ o ∈ L, o.1 ≠ p) :
    flat (((G.setQty p v).remove p) b') = L := by
  unfold Ghost.remove
  rw [flat_removeFrom, flat_setQty, hL, List.map_congr_left fun o ho => if_neg (hne o ho),
    List.map_id']
  exact List.filter_eq_self.mpr fun o ho => decide_eq_true (hne o ho)

/-- One match with the first order of side `b`: it leaves, or the aggressor is
done. -/
theorem MatchRule.matchOrder (hrule : MatchRule J) (h : J s G) {p : Nat}
    {d : OrderData MEOrderId} {os : List (Nat × OrderData MEOrderId)}
    (hflat : flat (G b) = (p, d) :: os) (a : Aggressor) (leaves : Nat) :
    ∃ s' evs G', MELadder.matchOrder s a p leaves = .ok (leaves - min leaves d.qty_, s', evs) ∧
      J s' G' ∧ G'.LevelsIn G ∧ (leaves - min leaves d.qty_ = 0 ∨
        (flat (G' b) = os ∧ flat (G' (!b)) = flat (G (!b)))) := by
  have hpd : (p, d) ∈ flat (G b) := by
    rw [hflat]
    exact List.mem_cons_self ..
  have hcore := hrule.core h
  have hdata := (hcore.data_of_mem hpd).1
  set q := d.qty_ - min leaves d.qty_ with hq
  have hJ := hrule.setQty p q h
  by_cases hz : q = 0
  · -- used up: the order leaves the book, and no other has its address
    obtain ⟨s', hrun, hJ'⟩ := hrule.remove hJ (mem_flat_setQty_self hpd q)
    have hnd := hcore.flat_nodup b
    rw [hflat, List.map_cons, List.nodup_cons] at hnd
    have hne : ∀ o ∈ os, o.1 ≠ p := fun o ho he => hnd.1 (List.mem_map.mpr ⟨o, ho, he⟩)
    have hother : ∀ o ∈ flat (G (!b)), o.1 ≠ p := by
      intro o ho he
      have hb := (hcore.order_inj ho hpd he).1
      cases b <;> exact absurd hb (by simp)
    refine ⟨s', fillEvents a d (min leaves d.qty_) (leaves - min leaves d.qty_) q ++
      [exhaustedEvent a d], _, ?_, hJ',
      (Ghost.levelsIn_setQty G p q).trans (Ghost.levelsIn_remove _ p),
      Or.inr ⟨?_, flat_remove_setQty rfl hother⟩⟩
    · rw [hz] at hrun ⊢
      simp only [MELadder.matchOrder, hdata, ← hq, hz]
      rw [hrun]
      rfl
    · unfold Ghost.remove
      rw [flat_removeFrom, flat_setQty, hflat, List.map_cons, if_pos rfl,
        List.filter_cons_of_neg (by simp), List.map_congr_left fun o ho => if_neg (hne o ho),
        List.map_id']
      exact List.filter_eq_self.mpr fun o ho => decide_eq_true (hne o ho)
  · refine ⟨_, fillEvents a d (min leaves d.qty_) (leaves - min leaves d.qty_) q ++
      [modifiedEvent a d q], _, ?_, hJ, Ghost.levelsIn_setQty G p q, Or.inl (by omega)⟩
    simp only [MELadder.matchOrder, hdata, ← hq, if_neg hz]
    rfl

/-- **The loop of `checkForMatch`** takes the orders that the limit reaches until
nothing is left of the new one. -/
theorem MatchRule.checkForMatchLoop (hrule : MatchRule J) {a : Aggressor} {fuel : Nat}
    (leaves : Nat) (h : J s G) (hfuel : (flat (G b)).length < fuel) :
    let reach : OrderData MEOrderId → Bool := fun o => !MELadder.outOfReach b a.price_ o.price_
    let qty := (((bookOf G b).takeWhile reach).map OrderData.qty_).sum
    ∃ s' evs G', MELadder.checkForMatchLoop b a fuel s leaves = .ok (leaves - qty, s', evs) ∧
      J s' G' ∧ G'.LevelsIn G ∧
      (qty < leaves → flat (G' b) = (flat (G b)).dropWhile (fun o => reach o.2) ∧
        flat (G' (!b)) = flat (G (!b))) := by
  intro reach
  induction fuel generalizing s G leaves with
  | zero => exact absurd hfuel (by simp)
  | succ fuel ih =>
    intro qty
    unfold MELadder.checkForMatchLoop
    by_cases hl : leaves = 0
    · exact ⟨_, _, G, by rw [if_pos hl, hl, Nat.zero_sub], h, .refl G,
        fun hlt => absurd hlt (by omega)⟩
    rw [if_neg hl]
    -- the queue shrinks with every match that does not end the loop
    rcases (hrule.core h).head_flat b with
      ⟨hbest, hnil⟩ | ⟨lv, p, d, os, hbest, hfirst, hdata, hflat⟩
    · have hqty : qty = 0 := by
        show (((bookOf G b).takeWhile reach).map OrderData.qty_).sum = 0
        rw [bookOf, hnil]
        rfl
      refine ⟨_, _, G, by rw [hbest, hqty, Nat.sub_zero], h, .refl G, fun _ => ⟨?_, rfl⟩⟩
      rw [hnil]
      rfl
    have hbook : bookOf G b = d :: os.map Prod.snd := by rw [bookOf, hflat]; rfl
    simp only [hbest, hfirst, deref_some, exec_ok_bind, hdata]
    by_cases hout : MELadder.outOfReach b a.price_ d.price_ = true
    · have hreach : ¬ reach d = true := by simp [reach, hout]
      have hqty : qty = 0 := by
        show (((bookOf G b).takeWhile reach).map OrderData.qty_).sum = 0
        rw [hbook, List.takeWhile_cons_of_neg hreach]
        rfl
      refine ⟨_, _, G, by rw [if_pos hout, hqty, Nat.sub_zero]; rfl, h, .refl G,
        fun _ => ⟨?_, rfl⟩⟩
      rw [hflat, List.dropWhile_cons, if_neg hreach]
    rw [if_neg hout]
    have hreach : reach d = true := by simp [reach, hout]
    have hqty : qty = d.qty_ + (((os.map Prod.snd).takeWhile reach).map OrderData.qty_).sum := by
      show (((bookOf G b).takeWhile reach).map OrderData.qty_).sum = _
      rw [hbook, List.takeWhile_cons_of_pos hreach, List.map_cons, List.sum_cons]
    obtain ⟨s₁, evs₁, G₁, hrun₁, hJ₁, hin₁, hnext⟩ := hrule.matchOrder h hflat a leaves
    rw [hrun₁]
    simp only [exec_ok_bind]
    rw [hflat, List.length_cons] at hfuel
    rcases hnext with hdone | ⟨hflat₁, hother₁⟩
    · -- the aggressor is done, and so is the loop
      obtain ⟨fuel, rfl⟩ : ∃ f, fuel = f + 1 := ⟨fuel - 1, by omega⟩
      refine ⟨s₁, evs₁ ++ [], G₁, ?_, hJ₁, hin₁, fun hlt => absurd hlt (by omega)⟩
      rw [hdone, show leaves - qty = 0 by omega]
      unfold MELadder.checkForMatchLoop
      rfl
    · obtain ⟨s₂, evs₂, G₂, hrun₂, hJ₂, hin₂, htaken⟩ := ih (leaves - min leaves d.qty_) hJ₁
        (by rw [hflat₁]; omega)
      rw [bookOf, hflat₁] at hrun₂ htaken
      refine ⟨s₂, evs₁ ++ evs₂, G₂, ?_, hJ₂, hin₁.trans hin₂, fun hlt => ?_⟩
      · rw [hrun₂, show leaves - qty = leaves - min leaves d.qty_ -
          (((os.map Prod.snd).takeWhile reach).map OrderData.qty_).sum by omega]
        rfl
      · obtain ⟨hflat₂, hother₂⟩ := htaken (by omega)
        rw [hflat₂, hother₂, hother₁, hflat, List.dropWhile_cons, if_pos hreach]
        exact ⟨rfl, rfl⟩

end Match

/-- `q` has taken all that it reaches: these orders are gone from the rings of `G`,
and the others are there. -/
structure TakesReached (q : MEClientRequest) (G G' : Ghost MEOrderId) : Prop where
  levels : G'.LevelsIn G
  own : flat (G' (Ladder.isBid q.side_)) = flat (G (Ladder.isBid q.side_))
  other : flat (G' (!Ladder.isBid q.side_)) =
    (flat (G (!Ladder.isBid q.side_))).dropWhile fun o => q.reaches o.2

section TakesReached

variable {J : MELadder → Ghost MEOrderId → Prop} {s : MEOrderBook} {G G' : Ghost MEOrderId}
  {q : MEClientRequest}

/-- **Matching** leaves what the orders that are reached fall short of. -/
theorem MatchRule.checkForMatch (hrule : MatchRule J) (h : J s.ladder G) (q : MEClientRequest) :
    ∃ l evs G', MELadder.checkForMatch s.ladder (s.aggressor q) q.qty_ =
        .ok (q.qty_ - ((s.reached q).map OrderData.qty_).sum, l, evs) ∧
      J l G' ∧ (s.LeavesOver q → TakesReached q G G') := by
  have hfuel : ∀ b, (flat (G b)).length < ME_MAX_ORDER_IDS + 1 := by
    intro b
    have hle := (hrule.core h).length_le b
    rw [hrule.size h, bookOf, List.length_map] at hle
    omega
  have hloop : ∀ b, Ladder.isBid q.side_ = !b →
      q.reaches = (fun o => !MELadder.outOfReach b q.price_ o.price_) →
      ∃ l evs G', MELadder.checkForMatchLoop b (s.aggressor q) (ME_MAX_ORDER_IDS + 1) s.ladder
          q.qty_ = .ok (q.qty_ - ((s.reached q).map OrderData.qty_).sum, l, evs) ∧
        J l G' ∧ (s.LeavesOver q → TakesReached q G G') := by
    intro b hb hreaches
    obtain ⟨l, evs, G', hrun, hJ, hin, htaken⟩ :=
      hrule.checkForMatchLoop (a := s.aggressor q) q.qty_ h (hfuel b)
    have hreached : s.reached q =
        (bookOf G b).takeWhile fun o => !MELadder.outOfReach b q.price_ o.price_ := by
      unfold MEOrderBook.reached
      rw [(hrule.core h).restingOrders, hb, Bool.not_not, hreaches]
    refine ⟨l, evs, G', by rw [hreached]; exact hrun, hJ, fun hover => ?_⟩
    unfold MEOrderBook.LeavesOver at hover
    rw [hreached] at hover
    obtain ⟨hother, hown⟩ := htaken hover
    refine ⟨hin, by rw [hb]; exact hown, ?_⟩
    rw [hb, Bool.not_not, hreaches]
    exact hother
  -- without a side nothing is reached
  have hnone : (∀ o, q.reaches o = false) →
      ∃ l evs G', (.ok (q.qty_, s.ladder, []) : Exec (Nat × MELadder × List Event)) =
          .ok (q.qty_ - ((s.reached q).map OrderData.qty_).sum, l, evs) ∧
        J l G' ∧ (s.LeavesOver q → TakesReached q G G') := by
    intro hno
    have hreached : s.reached q = [] := by
      unfold MEOrderBook.reached
      rw [List.takeWhile_eq_nil_iff]
      intro hl
      simp [hno]
    refine ⟨_, _, G, by rw [hreached]; rfl, h, fun _ => ⟨.refl G, rfl, ?_⟩⟩
    rw [funext fun o : Nat × OrderData MEOrderId => hno o.2]
    cases flat (G (!Ladder.isBid q.side_)) <;> rfl
  have hside : (s.aggressor q).side_ = q.side_ := rfl
  unfold MELadder.checkForMatch
  rw [hside]
  cases hs : q.side_ with
  | BUY =>
    refine hloop false (by rw [hs]; rfl) ?_
    funext o
    simp only [MEClientRequest.reaches, hs, MELadder.outOfReach, Bool.false_eq_true, if_false,
      ← decide_not, Int.not_lt]
  | SELL =>
    refine hloop true (by rw [hs]; rfl) ?_
    funext o
    simp only [MEClientRequest.reaches, hs, MELadder.outOfReach, if_true, ← decide_not, Int.not_lt,
      gt_iff_lt]
  | INVALID | MAX => exact hnone fun o => by simp [MEClientRequest.reaches, hs]

/-- What a match that returned has left of the order and of the rings. -/
theorem MatchRule.checkForMatch_inv (hrule : MatchRule J) (h : J s.ladder G) {leaves : Nat}
    {l : MELadder} {evs : List Event}
    (hrun : MELadder.checkForMatch s.ladder (s.aggressor q) q.qty_ = .ok (leaves, l, evs)) :
    (leaves ≠ 0 ↔ s.LeavesOver q) ∧ ∃ G', J l G' ∧ (s.LeavesOver q → TakesReached q G G') := by
  obtain ⟨l', evs', G', hrun', hJ, htaken⟩ := hrule.checkForMatch h q
  rw [hrun] at hrun'
  obtain ⟨rfl, hl⟩ := Prod.mk.inj (Except.ok.inj hrun')
  obtain ⟨rfl, _⟩ := Prod.mk.inj hl
  refine ⟨?_, G', hJ, htaken⟩
  unfold MEOrderBook.LeavesOver
  omega

theorem TakesReached.book_own (ht : TakesReached q G G') (h : Core s.ladder G) :
    bookOf G' (Ladder.isBid q.side_) = restingOrders s (Ladder.isBid q.side_) := by
  rw [h.restingOrders, bookOf, ht.own]
  rfl

theorem TakesReached.book_other (ht : TakesReached q G G') (h : Core s.ladder G) :
    bookOf G' (!Ladder.isBid q.side_) = s.unreached q := by
  unfold MEOrderBook.unreached
  rw [h.restingOrders, bookOf, ht.other, bookOf, List.dropWhile_map]
  rfl

/-- The orders that are left are those of the rings. -/
theorem TakesReached.mem_left_iff (ht : TakesReached q G G') (h : Core s.ladder G)
    {o : OrderData MEOrderId} : o ∈ s.left q ↔ ∃ b, o ∈ bookOf G' b := by
  unfold MEOrderBook.left
  rw [← ht.book_own h, ← ht.book_other h, List.mem_append]
  constructor
  · rintro (ho | ho)
    · exact ⟨_, ho⟩
    · exact ⟨_, ho⟩
  · rintro ⟨b, ho⟩
    by_cases hb : b = Ladder.isBid q.side_
    · exact Or.inl (hb ▸ ho)
    · rw [Bool.not_eq.mpr (Ne.symm hb)]
      exact Or.inr ho

/-- The orders that are gone. -/
def Ghost.gone (G : Ghost MEOrderId) (q : MEClientRequest) : List (Nat × OrderData MEOrderId) :=
  (flat (G (!Ladder.isBid q.side_))).takeWhile fun o => q.reaches o.2

theorem Core.reached_eq (h : Core s.ladder G) (q : MEClientRequest) :
    s.reached q = (G.gone q).map Prod.snd := by
  unfold MEOrderBook.reached Ghost.gone
  rw [h.restingOrders, bookOf, List.takeWhile_map]
  rfl

theorem TakesReached.mem_or_gone (ht : TakesReached q G G') {b : Bool}
    {o : Nat × OrderData MEOrderId} (ho : o ∈ flat (G b)) : o ∈ flat (G' b) ∨ o ∈ G.gone q := by
  by_cases hb : b = Ladder.isBid q.side_
  · rw [hb] at ho ⊢
    exact Or.inl (ht.own ▸ ho)
  · rw [← Bool.not_eq.mpr (Ne.symm hb)] at ho ⊢
    rw [← List.takeWhile_append_dropWhile (p := fun o => q.reaches o.2)
      (l := flat (G (!Ladder.isBid q.side_))), List.mem_append] at ho
    rw [ht.other]
    exact ho.symm

theorem TakesReached.mem_of_mem (ht : TakesReached q G G') {b : Bool}
    {o : Nat × OrderData MEOrderId} (ho : o ∈ flat (G' b)) : o ∈ flat (G b) := by
  by_cases hb : b = Ladder.isBid q.side_
  · rw [hb] at ho ⊢
    exact ht.own ▸ ho
  · rw [← Bool.not_eq.mpr (Ne.symm hb)] at ho ⊢
    rw [ht.other] at ho
    exact (List.dropWhile_suffix _).subset ho

/-- What is gone is nowhere. -/
theorem TakesReached.ne_of_gone (ht : TakesReached q G G') (h : Core s.ladder G)
    {o o' : Nat × OrderData MEOrderId} (ho : o ∈ G.gone q) {b : Bool} (ho' : o' ∈ flat (G' b)) :
    o'.1 ≠ o.1 := by
  intro he
  have hsplit := List.takeWhile_append_dropWhile (p := fun o => q.reaches o.2)
    (l := flat (G (!Ladder.isBid q.side_)))
  have hin : o ∈ flat (G (!Ladder.isBid q.side_)) := (List.takeWhile_prefix _).subset ho
  obtain ⟨rfl, rfl⟩ := h.order_inj (ht.mem_of_mem ho') hin he
  rw [ht.other] at ho'
  have hnd := (h.flat_nodup (!Ladder.isBid q.side_)).of_map
  rw [← hsplit] at hnd
  exact List.disjoint_of_nodup_append hnd ho ho'

/-- A level that is still in the slot of the price is on the ring of the new order, if
no order that it does not reach stands there. -/
theorem TakesReached.slot_own (ht : TakesReached q G G') (h : Core s.ladder G) {l : MELadder}
    (h' : Core l G') (hp : PriceTable l G')
    (hhome : ∀ b, ∀ g ∈ G' b, ∀ o ∈ g.orders, priceToIndex o.2.price_ = priceToIndex g.price)
    (hfree : ∀ o ∈ s.unreached q, priceToIndex o.price_ ≠ priceToIndex q.price_) {lv : Nat}
    (hlv : l.getOrdersAtPrice q.price_ = some lv) :
    ∃ g ∈ G' (Ladder.isBid q.side_), g.ptr = lv := by
  obtain ⟨b, g, hg, rfl, hi⟩ := hp.only _ _ hlv
  by_cases hb : b = Ladder.isBid q.side_
  · exact ⟨g, hb ▸ hg, rfl⟩
  · rw [← Bool.not_eq.mpr (Ne.symm hb)] at hg
    obtain ⟨o, ho⟩ := List.exists_mem_of_ne_nil _ (h'.level _ g hg).ne
    have hmem : o.2 ∈ bookOf G' (!Ladder.isBid q.side_) := mem_bookOf.mpr ⟨g, hg, o.1, ho⟩
    rw [ht.book_other h] at hmem
    exact absurd ((hhome _ g hg o ho).trans hi) (hfree _ hmem)

end TakesReached

end LowLatency
