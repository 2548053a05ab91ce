import LowLatency.Book.HeapRemove
import LowLatency.Book.Queue

/-!
# Inserting into a sorted ring of price levels, and taking out again

`addOrdersAtPrice` and `removeOrdersAtPrice` for themselves, on any ladder:
nothing is asked here of the orders, of the tables or of how the ladder came
about. `PriceRing` is all a side's ring needs to be: its addresses hold live
levels of the side, linked both ways around, strictly sorted from the best
pointer on.

The copies of the two routines in `MEOrderBook`, `UnorderedMapMEOrderBook` and
`MarketOrderBook` differ in the spelling of the table access alone, and the
ladders of the three are instances of `Ladder K I`. So `levelRing_insert_remove`
is said of every `K` and `I`.
-/

namespace LowLatency

open Lib (Ring Better)

variable {K I : Type}

/-- The levels `ls` are the ring of side `bid`, read from the best pointer. -/
structure PriceRing (s : Ladder K I) (bid : Bool) (ls : List Nat) : Prop where
  best : s.best bid = ls.head?
  ring : Ring s.orders_at_price_pool_.nextEntry s.orders_at_price_pool_.prevEntry ls
  used : ∀ l ∈ ls, s.orders_at_price_pool_.Used l
  side : ∀ l ∈ ls, s.orders_at_price_pool_.levelSide l = sideOf bid
  sorted : ls.Pairwise fun l l' => Better bid (s.orders_at_price_pool_.levelPrice l)
    (s.orders_at_price_pool_.levelPrice l')

/-- The level at an address, without its orders. -/
def Ladder.levelAt (s : Ladder K I) (l : Nat) : LevelG K :=
  ⟨l, s.orders_at_price_pool_.levelSide l, s.orders_at_price_pool_.levelPrice l, []⟩

variable {s s' : Ladder K I} {bid : Bool} {ls other : List Nat} {n : Nat}

theorem map_ptr_levelAt (s : Ladder K I) (ls : List Nat) :
    (ls.map s.levelAt).map LevelG.ptr = ls := by
  rw [List.map_map]
  exact List.map_id' ls

/-- Levels of the two sides have different addresses. -/
theorem PriceRing.disjoint (h : PriceRing s bid ls) {l : Nat}
    (hl : s.orders_at_price_pool_.levelSide l = sideOf (!bid)) : l ∉ ls := by
  intro hm
  rw [h.side l hm] at hl
  cases bid <;> exact absurd hl (by decide)

/-- A ring whose levels were not written, apart from links that were kept. -/
theorem PriceRing.congr (h : PriceRing s bid ls) (hbest : s'.best bid = s.best bid)
    (hget : ∀ l ∈ ls, s'.orders_at_price_pool_.get l = s.orders_at_price_pool_.get l)
    (hused : ∀ l ∈ ls, s'.orders_at_price_pool_.Used l) : PriceRing s' bid ls where
  best := hbest.trans h.best
  ring := h.ring.congr (fun l hl => congrArg OrdersAtPrice.next_entry_ (hget l hl))
    (fun l hl => congrArg OrdersAtPrice.prev_entry_ (hget l hl))
  used := hused
  side := fun l hl => (congrArg OrdersAtPrice.side_ (hget l hl)).trans (h.side l hl)
  sorted := by
    refine h.sorted.imp_of_mem fun hl hl' hb => ?_
    unfold MemPool.levelPrice at hb ⊢
    rwa [hget _ hl, hget _ hl']

/-- A level is its five fields. -/
theorem MemPool.get_eq_of_fields {m m' : MemPool OrdersAtPrice} {l : Nat}
    (hside : m'.levelSide l = m.levelSide l) (hprice : m'.levelPrice l = m.levelPrice l)
    (hfirst : m'.firstOrder l = m.firstOrder l)
    (hlinks : m'.nextEntry l = m.nextEntry l ∧ m'.prevEntry l = m.prevEntry l) :
    m'.get l = m.get l := by
  obtain ⟨hnext, hprev⟩ := hlinks
  unfold levelSide levelPrice firstOrder nextEntry prevEntry at *
  cases hm : m.get l
  cases hm' : m'.get l
  simp_all

/-- **The place of a new level** among the old ones, none of which has its price. -/
theorem PriceRing.place (h : PriceRing s bid ls)
    (hside : s.orders_at_price_pool_.levelSide n = sideOf bid)
    (hprice : ∀ l ∈ ls, s.orders_at_price_pool_.levelPrice l
      ≠ s.orders_at_price_pool_.levelPrice n) :
    ∃ A B, ls = A ++ B ∧
      (insertLevel (s.levelAt n) (ls.map s.levelAt)).map LevelG.ptr = A ++ n :: B ∧
      (A ++ n :: B).Pairwise fun l l' => Better bid (s.orders_at_price_pool_.levelPrice l)
        (s.orders_at_price_pool_.levelPrice l') := by
  have hother : ∀ g ∈ ls.map s.levelAt, g.price ≠ (s.levelAt n).price := by
    intro g hg
    obtain ⟨l, hl, rfl⟩ := List.mem_map.mp hg
    exact hprice l hl
  obtain ⟨A', B', hsplit, hins, hA, hB⟩ := insertLevel_sorted (b := bid) (n := s.levelAt n)
    (List.pairwise_map.mpr h.sorted) hside hother
  obtain ⟨A, B, rfl, rfl, rfl⟩ := List.map_eq_append_iff.mp hsplit
  have hold := List.pairwise_append.mp h.sorted
  refine ⟨A, B, rfl, ?_, List.pairwise_append.mpr
    ⟨hold.1, List.pairwise_cons.mpr ⟨?_, hold.2.1⟩, ?_⟩⟩
  · rw [hins, List.map_append, List.map_cons, map_ptr_levelAt, map_ptr_levelAt]
    rfl
  · exact fun l hl => hB (s.levelAt l) (List.mem_map_of_mem hl)
  · intro l hl l' hl'
    rcases List.mem_cons.mp hl' with rfl | hl'
    · exact hA (s.levelAt l) (List.mem_map_of_mem hl)
    · exact hold.2.2 l hl l' hl'

/-- **Insertion.** The call returns, and the ring of its side has the new level
in its place; the other side is as it was. -/
theorem addOrdersAtPrice_inserts (h : PriceRing s bid ls) (ho : PriceRing s (!bid) other)
    (hn : s.orders_at_price_pool_.Used n)
    (hside : s.orders_at_price_pool_.levelSide n = sideOf bid)
    (hprice : ∀ l ∈ ls, s.orders_at_price_pool_.levelPrice l
      ≠ s.orders_at_price_pool_.levelPrice n) :
    ∃ s' A B, s.addOrdersAtPrice n = .ok s' ∧ ls = A ++ B ∧ PriceRing s' bid (A ++ n :: B) ∧
      PriceRing s' (!bid) other ∧
      (∀ l ∈ other, s'.orders_at_price_pool_.get l = s.orders_at_price_pool_.get l) ∧
      SameLevels s.orders_at_price_pool_ s'.orders_at_price_pool_ ∧
      s'.getOrdersAtPrice (s.orders_at_price_pool_.levelPrice n) = some n := by
  have hnew : n ∉ ls := fun hm => hprice n hm rfl
  have hbid : Ladder.isBid (s.levelAt n).side = bid := by
    show Ladder.isBid (s.orders_at_price_pool_.levelSide n) = bid
    rw [hside, isBid_sideOf]
  have hptr : (ls.map s.levelAt).map LevelG.ptr = ls := map_ptr_levelAt s ls
  have hbest : s.best (Ladder.isBid (s.levelAt n).side) =
      ((ls.map s.levelAt).map LevelG.ptr).head? := by
    rw [hptr, hbid]
    exact h.best
  have hlevels : ∀ g ∈ ls.map s.levelAt, s.orders_at_price_pool_.levelPrice g.ptr = g.price := by
    intro g hg
    obtain ⟨l, _, rfl⟩ := List.mem_map.mp hg
    rfl
  obtain ⟨m', hrun, hlinked⟩ := addOrdersAtPrice_spec (s := s) (g := s.levelAt n) rfl rfl hbest
    (by rw [hptr]; exact h.ring) (by rw [hptr]; exact fun a ha => (h.used a ha).1) hlevels
    (by rw [hptr]; exact hnew)
  obtain ⟨A, B, rfl, hresult, hsorted⟩ := h.place hside hprice
  have hring := hlinked.ring
  rw [hresult] at hrun hring
  rw [hbid] at hrun
  have hsame := hlinked.same
  set s' := Ladder.setBest { s with
    price_orders_at_price_ := Function.update s.price_orders_at_price_
      (priceToIndex (s.levelAt n).price) (some (s.levelAt n).ptr)
    orders_at_price_pool_ := m' } bid (A ++ n :: B).head? with hs'
  have hpool : s'.orders_at_price_pool_ = m' := setBest_orders_at_price_pool_ ..
  have hkeep : ∀ l ∈ other, s'.orders_at_price_pool_.get l = s.orders_at_price_pool_.get l := by
    intro l hl
    have hl' := ho.side l hl
    rw [hpool]
    refine MemPool.get_eq_of_fields (hsame.side l) (hsame.price l) (hsame.first l)
      (hlinked.frame l ?_ (by rw [hptr]; exact h.disjoint hl'))
    rintro rfl
    have : s.orders_at_price_pool_.levelSide l = sideOf bid := hside
    rw [this] at hl'
    cases bid <;> exact absurd hl' (by decide)
  have hmem : ∀ l ∈ A ++ n :: B, l = n ∨ l ∈ A ++ B := by
    intro l hl
    rw [List.mem_append, List.mem_cons] at hl
    rw [List.mem_append]
    tauto
  refine ⟨s', A, B, hrun, rfl, ⟨?_, ?_, ?_, ?_, ?_⟩, ?_, hkeep, ?_, ?_⟩
  · rw [hs', best_setBest, if_pos rfl]
  · rw [hpool]
    exact hring
  · intro l hl
    rw [hpool, hsame.used]
    rcases hmem l hl with rfl | hl
    · exact hn
    · exact h.used l hl
  · intro l hl
    rw [hpool, hsame.side]
    rcases hmem l hl with rfl | hl
    · exact hside
    · exact h.side l hl
  · rw [hpool]
    simp only [hsame.price]
    exact hsorted
  · refine ho.congr ?_ hkeep fun l hl => ?_
    · rw [hs', best_setBest, if_neg (by cases bid <;> decide)]
      cases bid <;> rfl
    · rw [hpool, hsame.used]
      exact ho.used l hl
  · rw [hpool]
    exact hsame
  · show s'.price_orders_at_price_ _ = _
    rw [hs', setBest_price_orders_at_price_]
    exact Function.update_self ..

/-- **Removal** of a level that the price table finds. The others are left in
their order. -/
theorem removeOrdersAtPrice_removes {price : Int} {A B : List Nat}
    (h : PriceRing s bid (A ++ n :: B)) (ho : PriceRing s (!bid) other)
    (hslot : s.getOrdersAtPrice price = some n) :
    ∃ s', s.removeOrdersAtPrice (sideOf bid) price = .ok s' ∧ PriceRing s' bid (A ++ B) ∧
      PriceRing s' (!bid) other ∧
      (∀ l ∈ other, s'.orders_at_price_pool_.get l = s.orders_at_price_pool_.get l) ∧
      (∀ l, s'.orders_at_price_pool_.levelSide l = s.orders_at_price_pool_.levelSide l ∧
        s'.orders_at_price_pool_.levelPrice l = s.orders_at_price_pool_.levelPrice l ∧
        s'.orders_at_price_pool_.firstOrder l = s.orders_at_price_pool_.firstOrder l) := by
  have hbid : Ladder.isBid (sideOf bid) = bid := isBid_sideOf bid
  have hn : n ∈ A ++ n :: B := by simp
  have hsub : ∀ l ∈ A ++ B, l ∈ A ++ n :: B := by
    intro l hl
    rw [List.mem_append] at hl
    rw [List.mem_append, List.mem_cons]
    tauto
  have hbest : s.best (Ladder.isBid (sideOf bid)) = (A ++ n :: B).head? := by
    rw [hbid]
    exact h.best
  obtain ⟨m', hrun, hun⟩ := removeOrdersAtPrice_spec hslot hbest h.ring (h.used n hn)
  rw [hbid] at hrun
  set s' := Ladder.setBest { s with
    price_orders_at_price_ := Function.update s.price_orders_at_price_ (priceToIndex price) none
    orders_at_price_pool_ := m' } bid (A ++ B).head? with hs'
  have hpool : s'.orders_at_price_pool_ = m' := setBest_orders_at_price_pool_ ..
  -- a block is still in use unless it was the removed level's
  have hused : ∀ l, l ≠ n → s.orders_at_price_pool_.Used l → m'.Used l := by
    intro l hl hu
    exact ⟨hun.size ▸ hu.1, by rw [hun.free, if_neg hl]; exact hu.2⟩
  have hothern : ∀ l ∈ other, l ∉ A ++ n :: B := fun l hl => h.disjoint (ho.side l hl)
  have hkeep : ∀ l ∈ other, s'.orders_at_price_pool_.get l = s.orders_at_price_pool_.get l := by
    intro l hl
    rw [hpool]
    exact MemPool.get_eq_of_fields (hun.side l) (hun.price l) (hun.first l)
      (hun.frame l (fun e => hothern l hl (e ▸ hn)) fun hm => hothern l hl (hsub l hm))
  refine ⟨s', hrun, ⟨?_, ?_, ?_, ?_, ?_⟩, ?_, hkeep, fun l => ?_⟩
  · rw [hs', best_setBest, if_pos rfl]
  · rw [hpool]
    exact hun.ring
  · intro l hl
    rw [hpool]
    exact hused l (fun e => h.ring.not_mem_rest (e ▸ hl)) (h.used l (hsub l hl))
  · intro l hl
    rw [hpool, hun.side]
    exact h.side l (hsub l hl)
  · rw [hpool]
    simp only [hun.price]
    exact h.sorted.sublist ((List.sublist_cons_self n B).append_left A)
  · refine ho.congr ?_ hkeep fun l hl => ?_
    · rw [hs', best_setBest, if_neg (by cases bid <;> decide)]
      cases bid <;> rfl
    · rw [hpool]
      exact hused l (fun e => hothern l hl (e ▸ hn)) (ho.used l hl)
  · rw [hpool]
    exact ⟨hun.side l, hun.price l, hun.first l⟩

/-- **`addOrdersAtPrice` is a correct insertion into a circular sorted list**, on
any ladder. The call returns with the new level among the old ones, strictly
sorted from the best pointer, and the other side's ring is untouched;
`removeOrdersAtPrice` of the level then gives every level of both sides back as
it was, and both best pointers. -/
theorem levelRing_insert_remove (h : PriceRing s bid ls) (ho : PriceRing s (!bid) other)
    (hn : s.orders_at_price_pool_.Used n)
    (hside : s.orders_at_price_pool_.levelSide n = sideOf bid)
    (hprice : ∀ l ∈ ls, s.orders_at_price_pool_.levelPrice l
      ≠ s.orders_at_price_pool_.levelPrice n) :
    ∃ s' ls', s.addOrdersAtPrice n = .ok s' ∧ ls'.Perm (n :: ls) ∧ PriceRing s' bid ls' ∧
      PriceRing s' (!bid) other ∧
      (∀ l ∈ other, s'.orders_at_price_pool_.get l = s.orders_at_price_pool_.get l) ∧
      ∃ s'', s'.removeOrdersAtPrice (sideOf bid) (s.orders_at_price_pool_.levelPrice n) = .ok s'' ∧
        PriceRing s'' bid ls ∧ PriceRing s'' (!bid) other ∧ (∀ b, s''.best b = s.best b) ∧
        ∀ l ∈ ls ++ other, s''.orders_at_price_pool_.get l = s.orders_at_price_pool_.get l := by
  obtain ⟨s', A, B, hadd, rfl, h', ho', hkeep, hsame, hslot⟩ :=
    addOrdersAtPrice_inserts h ho hn hside hprice
  obtain ⟨s'', hremove, h'', ho'', hkeep', hfields⟩ := removeOrdersAtPrice_removes h' ho' hslot
  refine ⟨s', _, hadd, List.perm_middle, h', ho', hkeep, s'', hremove, h'', ho'', ?_, ?_⟩
  · have hbest : s''.best bid = s.best bid := h''.best.trans h.best.symm
    have hbest' : s''.best (!bid) = s.best (!bid) := ho''.best.trans ho.best.symm
    intro b
    by_cases hb : b = bid
    · rw [hb]
      exact hbest
    · rw [show b = !bid by cases b <;> cases bid <;> simp_all]
      exact hbest'
  · intro l hl
    rcases List.mem_append.mp hl with hl | hl
    · obtain ⟨hs, hp, hf⟩ := hfields l
      -- read as the same list, the two rings have the same links
      exact MemPool.get_eq_of_fields (hs.trans (hsame.side l)) (hp.trans (hsame.price l))
        (hf.trans (hsame.first l)) (h.ring.links_eq h''.ring hl)
    · exact (hkeep' l hl).trans (hkeep l hl)

/-- A bid at 100, and a block for one at 105. -/
def oneBid : Ladder Nat Nat :=
  { (Ladder.init : Ladder Nat Nat) with
    bids_by_price_ := some 0
    orders_at_price_pool_ :=
      ⟨fun l => if l = 0 then ⟨⟨.BUY, 100, none, some 0, some 0⟩, false⟩
        else if l = 1 then ⟨⟨.BUY, 105, none, none, none⟩, false⟩
        else ⟨{}, true⟩, ME_MAX_PRICE_LEVELS, 2⟩ }

/-- A new best level. -/
theorem levelRing_insert_remove_best : ∃ s' ls', oneBid.addOrdersAtPrice 1 = .ok s' ∧
    ls'.Perm [1, 0] ∧ PriceRing s' true ls' := by
  have hbids : PriceRing oneBid true [0] := by
    refine ⟨rfl, Ring.singleton rfl rfl, ?_, ?_, List.pairwise_singleton _ _⟩
    · intro l hl
      rw [List.mem_singleton.mp hl]
      exact ⟨by decide, rfl⟩
    · intro l hl
      rw [List.mem_singleton.mp hl]
      rfl
  have hasks : PriceRing oneBid false [] :=
    ⟨rfl, Ring.nil, by simp, by simp, List.Pairwise.nil⟩
  obtain ⟨s', ls', hadd, hperm, h', _⟩ := levelRing_insert_remove (n := 1) hbids hasks
    ⟨by decide, rfl⟩ rfl (by
      intro l hl
      rw [List.mem_singleton.mp hl]
      decide)
  exact ⟨s', ls', hadd, hperm, h'⟩

end LowLatency
