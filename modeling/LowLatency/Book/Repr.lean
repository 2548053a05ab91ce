import LowLatency.Book.Filed

/-!
# The ladder represents a book

`Represents s G` is the invariant of a ladder whose callers behave: the heap spells
out `G` (`Core`), both sides are sorted and every order is at home (`SideOk`),
`price_orders_at_price_` and `id_to_order_` hold exactly the levels and orders
of `G`, and so do the two pools. Nothing leaks and nothing dangles.

Each routine then does what its name says to the queues `bookOf G`, and keeps
the invariant:

* `Represents.rest`: an order comes to rest, unless a pool is full;
* `Represents.remove`: an order leaves;
* `Represents.setQty`: a quantity changes.

The only thing asked of a price is that no order of the book shares its slot
with another price or on the other side. What the routines do to heap, tables
and pools is proved once, for `Filed`; here they are read as operations on queues.
-/

namespace LowLatency

open Lib (Better queueInsert Ring)

variable {K I : Type} [OrderKey K I]

structure Represents (s : Ladder K I) (G : Ghost K) : Prop where
  core : Core s G
  sides : ∀ b, SideOk b (G b)
  prices : PriceTable s G
  ids : IdTable s G

theorem Represents.filed {s : Ladder K I} {G : Ghost K} (h : Represents s G) : Filed s G where
  core := h.core
  side := fun b => (h.sides b).side
  home := fun b g hg o ho =>
    ⟨((h.sides b).orders g hg o ho).1, congrArg priceToIndex ((h.sides b).orders g hg o ho).2⟩
  prices := h.prices
  ids := h.ids

/-- The constructor's ladder represents the empty book. -/
theorem Represents.init [Inhabited K] : Represents (Ladder.init : Ladder K I) fun _ => [] where
  core :=
    { best := fun b => by cases b <;> rfl
      ring := fun _ => Ring.nil
      level := by simp
      cross := by simp
      own := by simp
      usedL := by simp
      usedO := by simp
      validL := MemPool.valid_init (by decide) _
      validO := MemPool.valid_init (by decide) _ }
  sides := fun _ => SideOk.nil
  prices := ⟨by simp, fun _ _ h => absurd h (by simp [Ladder.init]),
    fun _ h => absurd h.2 (by simp [Ladder.init, MemPool.init, MemPool.isFree]), rfl⟩
  ids := ⟨by simp, fun _ _ h => absurd h (by simp [Ladder.init]),
    fun _ h => absurd h.2 (by simp [Ladder.init, MemPool.init, MemPool.isFree]), rfl⟩

section Read

variable {s : Ladder K I} {G : Ghost K}

/-- A traversal prints the levels of the queue. -/
theorem Represents.view (h : Represents s G) (b : Bool) : s.view b = some (levelsOf (bookOf G b)) := by
  rw [h.core.view b, bookOf, levelsOf_flat (h.sides b) fun g hg => (h.core.level b g hg).ne]

/-- A null slot: no order at a price of that index. -/
theorem Represents.slot_none (h : Represents s G) {price : Int}
    (hs : s.getOrdersAtPrice price = none)
    {b : Bool} {d : OrderData K} (hd : d ∈ bookOf G b) :
    priceToIndex d.price_ ≠ priceToIndex price := by
  intro he
  obtain ⟨g, hg, p, ho⟩ := mem_bookOf.mp hd
  have hm := h.prices.mem b g hg
  rw [← ((h.sides b).orders g hg _ ho).2, he] at hm
  unfold Ladder.getOrdersAtPrice at hs
  rw [hs] at hm
  exact absurd hm (by simp)

/-- A slot in use: a level with an order at a price of that index. -/
theorem Represents.slot_some (h : Represents s G) {price : Int} {l : Nat}
    (hs : s.getOrdersAtPrice price = some l) :
    ∃ b, ∃ g ∈ G b, g.ptr = l ∧ priceToIndex g.price = priceToIndex price ∧
      ∃ d ∈ bookOf G b, d.price_ = g.price := by
  obtain ⟨b, g, hg, hl, hi⟩ := h.prices.only _ _ hs
  obtain ⟨o, ho⟩ := List.exists_mem_of_ne_nil _ (h.core.level b g hg).ne
  exact ⟨b, g, hg, hl, hi, o.2, mem_bookOf.mpr ⟨g, hg, o.1, ho⟩, ((h.sides b).orders g hg o ho).2⟩

/-- The orders at a level's price are the level's. -/
theorem SideOk.filter_price {b : Bool} {A B : List (LevelG K)} {g : LevelG K}
    (h : SideOk b (A ++ g :: B)) :
    ((flat (A ++ g :: B)).filter fun o => decide (o.2.price_ = g.price)) = g.orders := by
  obtain ⟨hA, hB⟩ := h.split
  have hnone : ∀ M : List (LevelG K), (∀ g' ∈ M, g' ∈ A ++ g :: B ∧ g'.price ≠ g.price) →
      ((flat M).filter fun o => decide (o.2.price_ = g.price)) = [] := by
    intro M hM
    refine List.filter_eq_nil_iff.mpr fun o ho hp => ?_
    obtain ⟨g', hg', ho⟩ := mem_flat.mp ho
    have := (h.orders g' (hM g' hg').1 o ho).2
    exact (hM g' hg').2 (this.symm.trans (of_decide_eq_true hp))
  rw [flat_append, flat_cons, List.filter_append, List.filter_append,
    hnone A fun g' hg' => ⟨by simp [hg'], (hA g' hg').ne⟩,
    hnone B fun g' hg' => ⟨by simp [hg'], (hB g' hg').ne.symm⟩, List.nil_append, List.append_nil]
  exact List.filter_eq_self.mpr fun o ho => decide_eq_true (h.orders g (by simp) o ho).2

/-- The level in a slot in use ends with the last order at that price. -/
theorem Represents.slot_last (h : Represents s G) {b : Bool} {g : LevelG K} (hg : g ∈ G b) :
    ∃ x y, s.orders_at_price_pool_.firstOrder g.ptr = some x ∧
      s.order_pool_.prevOrder x = some y ∧
      ((bookOf G b).filter fun o => decide (o.price_ = g.price)).getLast?
        = some (s.order_pool_.data y) := by
  obtain ⟨A, B, hL⟩ := List.append_of_mem hg
  have hok := h.core.level b g hg
  obtain ⟨x, xs, J, y, hxs, hJ, hfirst, hlast⟩ := hok.split
  refine ⟨x, y, hfirst, hlast, ?_⟩
  have hfilter : ((bookOf G b).filter fun o => decide (o.price_ = g.price))
      = g.orders.map Prod.snd := by
    unfold bookOf
    rw [List.filter_map]
    congr 1
    have hs := h.sides b
    rw [hL] at hs ⊢
    exact hs.filter_price
  have hdata : g.orders.map Prod.snd = g.ptrs.map s.order_pool_.data := by
    rw [LevelG.ptrs, List.map_map]
    exact List.map_congr_left fun o ho => (hok.data o ho).symm
  rw [hfilter, hdata, hxs, hJ, List.map_append, List.getLast?_append]
  simp

end Read

/-! ## An order comes to rest -/

section Rest

variable {s : Ladder K I} {G : Ghost K}

omit [OrderKey K I] in
/-- The levels of the book are those of the ghost lists. -/
theorem levels_bookOf (hc : Core s G) (hs : ∀ b, SideOk b (G b)) :
    (bookOf G).levels = (G true).length + (G false).length := by
  have hside : ∀ b, ((bookOf G b).map OrderData.price_).dedup.length = (G b).length := by
    intro b
    unfold bookOf
    rw [List.map_map]
    exact (hs b).prices fun g hg => (hc.level b g hg).ne
  unfold Book.levels
  rw [hside true, hside false]

/-- Joining the level of its price, the order goes where its queue puts it. -/
private theorem rested_append (h : Represents s G) {p : Nat} {d : OrderData K}
    (hside : d.side_ = .BUY ∨ d.side_ = .SELL) {g : LevelG K}
    (hg : g ∈ G (Ladder.isBid d.side_)) (hgp : d.price_ = g.price) :
    (∀ b, SideOk b ((G.append g.ptr (p, d)) b)) ∧
      bookOf (G.append g.ptr (p, d)) = (bookOf G).rest d := by
  obtain ⟨A, B, hL⟩ := List.append_of_mem hg
  have hok := hL ▸ h.sides (Ladder.isBid d.side_)
  rw [Ghost.append_eq h.core hL (p, d)]
  constructor
  · intro b
    by_cases hb : b = Ladder.isBid d.side_
    · subst hb
      rw [Function.update_self]
      refine hok.replace fun o' ho' => ?_
      rcases List.mem_append.mp ho' with ho' | ho'
      · exact hok.orders g (by simp) o' ho'
      · rw [List.mem_singleton.mp ho']
        exact ⟨(sideOf_isBid hside).symm, hgp⟩
    · rw [Function.update_of_ne hb]
      exact h.sides b
  · funext b
    unfold bookOf Book.rest
    by_cases hb : b = Ladder.isBid d.side_
    · subst hb
      rw [Function.update_self, Function.update_self]
      show _ = queueInsert _ _ (p, d).2 ((flat (G (Ladder.isBid d.side_))).map Prod.snd)
      rw [hL, queueInsert_level (x := (p, d)) hok hgp]
      simp
    · rw [Function.update_of_ne hb, Function.update_of_ne hb]

/-- Opening a level, the order goes where its queue puts it. -/
private theorem rested_insert (h : Represents s G) {p l : Nat} {d : OrderData K}
    (hside : d.side_ = .BUY ∨ d.side_ = .SELL) (hslot : s.getOrdersAtPrice d.price_ = none) :
    let n : LevelG K := ⟨l, d.side_, d.price_, [(p, d)]⟩
    (∀ b, SideOk b ((G.insert (Ladder.isBid d.side_) n) b)) ∧
      bookOf (G.insert (Ladder.isBid d.side_) n) = (bookOf G).rest d := by
  intro n
  have hprice : ∀ g ∈ G (Ladder.isBid d.side_), g.price ≠ n.price :=
    fun g hg => h.prices.ne_of_free hslot hg
  obtain ⟨hok, hflat⟩ := (h.sides (Ladder.isBid d.side_)).insertLevel (n := n) (x := (p, d))
    (sideOf_isBid hside).symm rfl rfl (sideOf_isBid hside).symm hprice
  constructor
  · intro b
    unfold Ghost.insert
    by_cases hb : b = Ladder.isBid d.side_
    · subst hb
      rw [Function.update_self]
      exact hok
    · rw [Function.update_of_ne hb]
      exact h.sides b
  · funext b
    unfold bookOf Book.rest Ghost.insert
    by_cases hb : b = Ladder.isBid d.side_
    · subst hb
      rw [Function.update_self, Function.update_self]
      exact hflat
    · rw [Function.update_of_ne hb, Function.update_of_ne hb]

variable [DecidableEq I]

/-- **An order comes to rest** in its queue, or a pool is full. -/
theorem Represents.rest (h : Represents s G) {d : OrderData K}
    (hside : d.side_ = .BUY ∨ d.side_ = .SELL)
    (hin : inRange (K := K) (idx d.id_) = true) (hid : s.id_to_order_ (idx d.id_) = none)
    (hfit : (bookOf G).SlotFits d.side_ d.price_) :
    (∃ s' G', s.allocateOrder d = .ok s' ∧ Represents s' G' ∧ bookOf G' = (bookOf G).rest d) ∨
    (s.allocateOrder d = .error MemPool.outOfSpace ∧
      (ME_MAX_ORDER_IDS ≤ (bookOf G).live + 1 ∨
        ((∀ b, ∀ o ∈ bookOf G b, o.price_ ≠ d.price_) ∧
          ME_MAX_PRICE_LEVELS ≤ (bookOf G).levels + 1))) := by
  -- a level in the slot of the price is the level of that price
  have hlevel : ∀ b, ∀ g ∈ G b, priceToIndex g.price = priceToIndex d.price_ →
      b = Ladder.isBid d.side_ ∧ g.price = d.price_ := by
    intro b g hg hi
    obtain ⟨o, ho⟩ := List.exists_mem_of_ne_nil _ (h.core.level b g hg).ne
    have hop := ((h.sides b).orders g hg o ho).2
    rw [← hop] at hi ⊢
    exact hfit b o.2 (mem_bookOf.mpr ⟨g, hg, o.1, ho⟩) hi
  have hslot : ∀ l, s.getOrdersAtPrice d.price_ = some l →
      s.orders_at_price_pool_.levelSide l = d.side_ := by
    intro l hl
    obtain ⟨b, g, hg, rfl, hi⟩ := h.prices.only _ _ hl
    obtain ⟨rfl, _⟩ := hlevel b g hg hi
    rw [(h.core.level _ g hg).side, (h.sides _).side g hg, sideOf_isBid hside]
  rcases h.filed.rest hside hin hid hslot with ⟨s', p, G', hrun, hf, hrest⟩ | ⟨hrun, hfull⟩
  · left
    have hG' : (∀ b, SideOk b (G' b)) ∧ bookOf G' = (bookOf G).rest d := by
      rcases hrest with ⟨g, hg, _, hi, rfl⟩ | ⟨hs, l, rfl⟩
      · exact rested_append h hside hg (hlevel _ g hg hi).2.symm
      · exact rested_insert h hside hs
    exact ⟨s', G', hrun, ⟨hf.core, hG'.1, hf.prices, hf.ids⟩, hG'.2⟩
  · refine Or.inr ⟨hrun, hfull.imp_right ?_⟩
    rintro ⟨hs, hcap⟩
    refine ⟨fun b o ho he => h.slot_none hs ho (by rw [he]), ?_⟩
    rw [levels_bookOf h.core h.sides]
    exact hcap

end Rest

/-! ## An order leaves, or changes its quantity -/

section Leave

variable {s : Ladder K I} {G : Ghost K} [DecidableEq I]

/-- **An order leaves** its queue. -/
theorem Represents.remove (h : Represents s G) {b : Bool} {p : Nat} {d : OrderData K}
    (hpd : (p, d) ∈ flat (G b)) :
    ∃ s' G', s.removeOrder p = .ok s' ∧ Represents s' G' ∧
      bookOf G' = (bookOf G).removeIdx (idx d.id_) := by
  obtain ⟨s', hrun, hf⟩ := h.filed.remove hpd
  refine ⟨s', G.remove p, hrun,
    ⟨hf.core, fun b' => (h.sides b').removeFrom p, hf.prices, hf.ids⟩, ?_⟩
  funext b'
  unfold bookOf Book.removeIdx Ghost.remove
  rw [flat_removeFrom, List.filter_map]
  congr 1
  refine List.filter_congr fun o ho' => ?_
  simp only [Function.comp, decide_eq_decide]
  exact not_congr (h.ids.fst_eq_iff h.core hpd ho')

/-- **A quantity changes** in its queue. -/
theorem Represents.setQty (h : Represents s G) {b : Bool} {p : Nat} {d : OrderData K}
    (hpd : (p, d) ∈ flat (G b)) (q : Nat) :
    Represents { s with order_pool_ := s.order_pool_.setQty p q } (G.setQty p q) ∧
      bookOf (G.setQty p q) = (bookOf G).setQtyIdx (idx d.id_) q := by
  have hf := h.filed.setQty p q
  refine ⟨⟨hf.core, fun b' => (h.sides b').setQty p q, hf.prices, hf.ids⟩, ?_⟩
  funext b'
  unfold bookOf Book.setQtyIdx
  rw [flat_setQty, List.map_map, List.map_map]
  refine List.map_congr_left fun o ho => ?_
  simp only [Function.comp]
  by_cases he : o.1 = p
  · rw [if_pos he, if_pos ((h.ids.fst_eq_iff h.core hpd ho).mp he)]
  · rw [if_neg he, if_neg fun e => he ((h.ids.fst_eq_iff h.core hpd ho).mpr e)]

end Leave

end LowLatency
