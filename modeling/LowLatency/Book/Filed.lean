import LowLatency.Book.Queue

/-!
# Orders filed in the ladder

`Filed s G` is the part of the book's invariant that outlives colliding prices:
the heap spells out `G` (`Core`), every order is on its own side and in the level
its price's slot names, and `price_orders_at_price_`, `id_to_order_` and the two
pools hold exactly the levels and orders of `G`. Nothing is said about how the
levels are sorted, nor that the orders of a level share its price.

Each routine keeps it:

* `Filed.rest`: an order comes to rest, unless a pool is full;
* `Filed.remove`: an order leaves;
* `Filed.setQty`: a quantity changes.

Two things are asked of an order that comes to rest: its id is free, and a level
in the slot of its price is one of its own side.
-/

namespace LowLatency

open Lib (Better queueInsert Ring)

variable {K I : Type} [OrderKey K I]

/-- `id_to_order_` and the order pool hold exactly the orders of `G`. -/
structure IdTable (s : Ladder K I) (G : Ghost K) : Prop where
  mem : ∀ b, ∀ o ∈ flat (G b), inRange (K := K) (idx o.2.id_) = true ∧
    s.id_to_order_ (idx o.2.id_) = some o.1
  only : ∀ i p, s.id_to_order_ i = some p → ∃ b, ∃ o ∈ flat (G b), o.1 = p ∧ idx o.2.id_ = i
  used : ∀ p, s.order_pool_.Used p → ∃ b, ∃ o ∈ flat (G b), o.1 = p
  size : s.order_pool_.size = ME_MAX_ORDER_IDS

/-- `price_orders_at_price_` and the level pool hold exactly the levels of
`G`. -/
structure PriceTable (s : Ladder K I) (G : Ghost K) : Prop where
  mem : ∀ b, ∀ g ∈ G b, s.price_orders_at_price_ (priceToIndex g.price) = some g.ptr
  only : ∀ i l, s.price_orders_at_price_ i = some l →
    ∃ b, ∃ g ∈ G b, g.ptr = l ∧ priceToIndex g.price = i
  used : ∀ l, s.orders_at_price_pool_.Used l → ∃ b, ∃ g ∈ G b, g.ptr = l
  size : s.orders_at_price_pool_.size = ME_MAX_PRICE_LEVELS

structure Filed (s : Ladder K I) (G : Ghost K) : Prop where
  core : Core s G
  side : ∀ b, ∀ g ∈ G b, g.side = sideOf b
  home : ∀ b, ∀ g ∈ G b, ∀ o ∈ g.orders,
    o.2.side_ = sideOf b ∧ priceToIndex o.2.price_ = priceToIndex g.price
  prices : PriceTable s G
  ids : IdTable s G

section Read

variable {s : Ladder K I} {G : Ghost K}

theorem mem_ptrs_of_mem {g : LevelG K} {o : Nat × OrderData K} (h : o ∈ g.orders) : o.1 ∈ g.ptrs :=
  List.mem_map_of_mem h

omit [OrderKey K I] in
/-- The block of a listed order holds it. -/
theorem Core.data_of_mem (h : Core s G) {b : Bool} {o : Nat × OrderData K} (ho : o ∈ flat (G b)) :
    s.order_pool_.data o.1 = o.2 ∧ s.order_pool_.Used o.1 := by
  obtain ⟨g, hg, ho⟩ := mem_flat.mp ho
  exact ⟨(h.level b g hg).data o ho, h.usedO b g hg _ (mem_ptrs_of_mem ho)⟩

omit [OrderKey K I] in
/-- An order's address determines it and its side. -/
theorem Core.order_inj (h : Core s G) {b b' : Bool} {o o' : Nat × OrderData K}
    (ho : o ∈ flat (G b)) (ho' : o' ∈ flat (G b')) (he : o.1 = o'.1) : b = b' ∧ o = o' := by
  have hd := (h.data_of_mem ho).1
  have hd' := (h.data_of_mem ho').1
  obtain ⟨g, hg, ho⟩ := mem_flat.mp ho
  obtain ⟨g', hg', ho'⟩ := mem_flat.mp ho'
  refine ⟨(h.own_eq hg hg' (mem_ptrs_of_mem ho) (he ▸ mem_ptrs_of_mem ho')).1, ?_⟩
  refine Prod.ext he ?_
  rw [← hd, ← hd', he]

omit [OrderKey K I] in
/-- No address is listed twice on a side. -/
theorem Core.flat_nodup (h : Core s G) (b : Bool) : ((flat (G b)).map Prod.fst).Nodup := by
  have he : (flat (G b)).map Prod.fst = (G b).flatMap LevelG.ptrs := by
    unfold flat
    rw [List.map_flatMap]
    rfl
  rw [he, List.nodup_flatMap]
  refine ⟨fun g hg => (h.level b g hg).ring.nodup, ?_⟩
  have hne : (G b).Pairwise fun g g' => g.ptr ≠ g'.ptr := List.pairwise_map.mp (h.ring b).nodup
  refine List.Pairwise.imp_of_mem ?_ hne
  intro g g' hg hg' hptr p hp hp'
  exact hptr (h.own b g hg b g' hg' p hp hp')

omit [OrderKey K I] in
/-- A side holds no more orders than the pool has blocks. -/
theorem Core.length_le (h : Core s G) (b : Bool) :
    (bookOf G b).length ≤ s.order_pool_.size := by
  have hle := length_le_of_lt (h.flat_nodup b) (n := s.order_pool_.size) (by
    intro a ha
    obtain ⟨o, ho, rfl⟩ := List.mem_map.mp ha
    exact (h.data_of_mem ho).2.1)
  simpa [bookOf] using hle

omit [OrderKey K I] in
/-- **What a traversal prints**: the levels of `G`. -/
theorem Core.view (h : Core s G) (b : Bool) : s.view b = some ((G b).map LevelG.view) := by
  have hlevel : ∀ g ∈ G b, s.levelView g.ptr = some g.view := by
    intro g hg
    have hok := h.level b g hg
    obtain ⟨x, xs, _, _, hxs, _, hfirst, _⟩ := hok.split
    have hr := hok.ring
    rw [hxs] at hr
    have hlen : xs.length < s.order_pool_.size + 1 := by
      have := length_le_of_lt hr.nodup (n := s.order_pool_.size)
        fun a ha => (h.usedO b g hg a (hxs ▸ ha)).1
      simp only [List.length_cons] at this
      omega
    have hdata : (x :: xs).map s.order_pool_.data = g.orders.map Prod.snd := by
      rw [← hxs, LevelG.ptrs, List.map_map]
      exact List.map_congr_left fun o ho => hok.data o ho
    simp [Ladder.levelView, Ladder.levelOrders, hfirst, hr.walk hlen, hdata, hok.side, hok.price,
      LevelG.view]
  have hmapM : ∀ L : List (LevelG K), (∀ g ∈ L, s.levelView g.ptr = some g.view) →
      (L.map LevelG.ptr).mapM s.levelView = some (L.map LevelG.view) := by
    intro L hL
    induction L with
    | nil => rfl
    | cons g L ih =>
      rw [List.map_cons, List.mapM_cons, hL g (List.mem_cons_self ..),
        ih fun g' hg' => hL g' (List.mem_cons_of_mem _ hg')]
      rfl
  have hr := h.ring b
  have hbest := h.best b
  cases hL : G b with
  | nil =>
    rw [hL] at hbest
    simp only [List.map_nil, List.head?_nil] at hbest
    simp [Ladder.view, hbest]
  | cons g L =>
    rw [hL] at hbest hr
    simp only [List.map_cons, List.head?_cons] at hbest hr
    have hlen : (L.map LevelG.ptr).length < s.orders_at_price_pool_.size + 1 := by
      have := length_le_of_lt hr.nodup (n := s.orders_at_price_pool_.size) (by
        intro a ha
        obtain ⟨g', hg', rfl⟩ := List.mem_map.mp (show a ∈ (g :: L).map LevelG.ptr from ha)
        exact (h.usedL b g' (hL ▸ hg')).1)
      simp only [List.length_cons] at this
      omega
    have hm := hmapM (g :: L) fun g' hg' => hlevel g' (hL ▸ hg')
    simp only [List.map_cons] at hm
    simp only [Ladder.view, hbest, hr.walk hlen]
    exact hm

/-- An order's index determines it. -/
theorem IdTable.idx_inj (h : IdTable s G) (hc : Core s G) {b b' : Bool} {o o' : Nat × OrderData K}
    (ho : o ∈ flat (G b)) (ho' : o' ∈ flat (G b')) (he : idx o.2.id_ = idx o'.2.id_) :
    b = b' ∧ o = o' := by
  refine hc.order_inj ho ho' ?_
  have h₁ := (h.mem b o ho).2
  rw [he, (h.mem b' o' ho').2] at h₁
  exact (Option.some.inj h₁).symm

theorem mem_bookOf_of_flat {b : Bool} {o : Nat × OrderData K} (h : o ∈ flat (G b)) :
    o.2 ∈ bookOf G b := List.mem_map_of_mem h

/-- A null entry of the id table: no such order. -/
theorem IdTable.idx_ne (h : IdTable s G) {i : I} (hi : s.id_to_order_ i = none) {b : Bool}
    {d : OrderData K} (hd : d ∈ bookOf G b) : idx d.id_ ≠ i := by
  rintro rfl
  obtain ⟨o, ho, rfl⟩ := List.mem_map.mp hd
  rw [(h.mem b o ho).2] at hi
  exact absurd hi (by simp)

/-- The order the id table names. -/
theorem IdTable.lookup (h : IdTable s G) (hc : Core s G) {i : I} {p : Nat}
    (hi : s.id_to_order_ i = some p) :
    ∃ b d, (p, d) ∈ flat (G b) ∧ idx d.id_ = i ∧ s.order_pool_.data p = d := by
  obtain ⟨b, ⟨q, d⟩, ho, rfl, hidx⟩ := h.only i p hi
  exact ⟨b, d, ho, hidx, (hc.data_of_mem ho).1⟩

omit [OrderKey K I] in
/-- What the best pointer leads to: the first order of the side. -/
theorem Core.head_flat (h : Core s G) (b : Bool) :
    (s.best b = none ∧ flat (G b) = []) ∨
    ∃ l p d os, s.best b = some l ∧ s.orders_at_price_pool_.firstOrder l = some p ∧
      s.order_pool_.data p = d ∧ flat (G b) = (p, d) :: os := by
  have hbest := h.best b
  cases hL : G b with
  | nil =>
    rw [hL] at hbest
    exact Or.inl ⟨hbest, rfl⟩
  | cons g L =>
    right
    rw [hL] at hbest
    have hg : g ∈ G b := by rw [hL]; exact List.mem_cons_self ..
    have hok := h.level b g hg
    cases ho : g.orders with
    | nil => exact absurd ho hok.ne
    | cons o os =>
      have hmem : o ∈ flat (G b) := mem_flat.mpr ⟨g, hg, by rw [ho]; simp⟩
      refine ⟨g.ptr, o.1, o.2, os ++ flat L, hbest, ?_, (h.data_of_mem hmem).1,
        by simp only [flat_cons, ho, List.cons_append]⟩
      rw [hok.first, LevelG.ptrs, ho]
      rfl

omit [OrderKey K I] in
/-- The best pointer of an empty queue. -/
theorem Core.head_nil (h : Core s G) {b : Bool} (hB : bookOf G b = []) : s.best b = none := by
  rcases h.head_flat b with ⟨hbest, _⟩ | ⟨_, _, _, _, _, _, _, hflat⟩
  · exact hbest
  · rw [bookOf, hflat] at hB
    exact absurd hB (by simp)

omit [OrderKey K I] in
/-- What the best pointer leads to: the head of the queue. -/
theorem Core.head_cons (h : Core s G) {b : Bool} {d : OrderData K} {ds : List (OrderData K)}
    (hB : bookOf G b = d :: ds) :
    ∃ l p, s.best b = some l ∧ s.orders_at_price_pool_.firstOrder l = some p ∧
      (p, d) ∈ flat (G b) ∧ s.order_pool_.data p = d := by
  rcases h.head_flat b with ⟨_, hnil⟩ | ⟨l, p, d', os, hbest, hfirst, hdata, hflat⟩
  · rw [bookOf, hnil] at hB
    exact absurd hB (by simp)
  · obtain rfl : d' = d := by
      rw [bookOf, hflat] at hB
      exact (List.cons.inj hB).1
    refine ⟨l, p, hbest, hfirst, ?_, hdata⟩
    rw [hflat]
    exact List.mem_cons_self ..

end Read

/-! ## An order comes to rest -/

section Rest

variable {s : Ladder K I} {G : Ghost K}

omit [OrderKey K I] in
/-- Taking a block from the order pool leaves the lists alone. -/
theorem Core.allocate (h : Core s G) {m : MemPool (Order K)} {x : Order K} (hv : m.Valid)
    (hsize : m.size = s.order_pool_.size)
    (hstore : m.store_ =
      Function.update s.order_pool_.store_ s.order_pool_.next_free_index_ ⟨x, false⟩) :
    Core { s with order_pool_ := m } G := by
  have hget : ∀ b, ∀ g ∈ G b, ∀ a ∈ g.ptrs, m.get a = s.order_pool_.get a := by
    intro b g hg a ha
    rw [MemPool.get_of_store hstore, if_neg]
    rintro rfl
    exact h.validO.not_used (h.usedO b g hg _ ha)
  refine ⟨h.best, h.ring, ?_, h.cross, h.own, h.usedL, ?_, h.validL, hv⟩
  · intro b g hg
    refine (h.level b g hg).congr rfl rfl rfl ?_ ?_ ?_
    · exact fun a ha => congrArg Order.next_order_ (hget b g hg a ha)
    · exact fun a ha => congrArg Order.prev_order_ (hget b g hg a ha)
    · exact fun a ha => congrArg Order.toOrderData (hget b g hg a ha)
  · intro b g hg a ha
    have hu := h.usedO b g hg a ha
    refine ⟨hsize ▸ hu.1, ?_⟩
    show m.isFree a = false
    rw [MemPool.isFree_of_store hstore]
    split
    · rfl
    · exact hu.2

omit [OrderKey K I] in
/-- Joining a level changes that level only. -/
theorem Ghost.append_eq (h : Core s G) {b : Bool} {g : LevelG K} {A B : List (LevelG K)}
    (hL : G b = A ++ g :: B) (x : Nat × OrderData K) :
    G.append g.ptr x
      = Function.update G b (A ++ { g with orders := g.orders ++ [x] } :: B) := by
  have hg : g ∈ G b := by rw [hL]; simp
  have hfix : ∀ b', ∀ M : List (LevelG K), (∀ g' ∈ M, g' ∈ G b') → (b' = b → g ∉ M) →
      M.map (fun g' => if g'.ptr = g.ptr then { g' with orders := g'.orders ++ [x] } else g') = M := by
    intro b' M hM hnot
    refine (List.map_congr_left fun g' hg' => ?_).trans (List.map_id M)
    rw [if_neg]
    · rfl
    · intro he
      obtain ⟨rfl, rfl⟩ := h.ptr_inj (hM g' hg') hg he
      exact hnot rfl hg'
  have hnd := (h.ring b).nodup.of_map
  rw [hL, List.nodup_middle, List.nodup_cons] at hnd
  funext b'
  by_cases hb : b' = b
  · subst hb
    rw [Function.update_self, Ghost.append, hL, List.map_append, List.map_cons, if_pos rfl,
      hfix b' A (fun g' hg' => by rw [hL]; simp [hg']) fun _ hg' => hnd.1 (by simp [hg']),
      hfix b' B (fun g' hg' => by rw [hL]; simp [hg']) fun _ hg' => hnd.1 (by simp [hg'])]
  · rw [Function.update_of_ne hb, Ghost.append]
    exact hfix b' (G b') (fun _ hg' => hg') fun e => absurd e hb

/-- The orders after `x` joined side `b₀`. -/
def Joined (G G' : Ghost K) (b₀ : Bool) (x : Nat × OrderData K) : Prop :=
  ∀ b o, o ∈ flat (G' b) ↔ (b = b₀ ∧ o = x) ∨ o ∈ flat (G b)

omit [OrderKey K I] in
/-- The order pool still holds listed orders only, when the block taken is that of
`x`. -/
theorem Joined.used {G' : Ghost K} {b₀ : Bool} {x : Nat × OrderData K} (hj : Joined G G' b₀ x)
    {m m' : MemPool (Order K)} (h : ∀ p, m.Used p → ∃ b, ∃ o ∈ flat (G b), o.1 = p)
    (hfree : ∀ q, m'.isFree q = if q = x.1 then false else m.isFree q) (hsize : m'.size = m.size) :
    ∀ p, m'.Used p → ∃ b, ∃ o ∈ flat (G' b), o.1 = p := by
  intro p hp
  by_cases he : p = x.1
  · exact ⟨b₀, x, (hj b₀ x).mpr (Or.inl ⟨rfl, rfl⟩), he.symm⟩
  · have hfp := hp.2
    rw [hfree, if_neg he] at hfp
    obtain ⟨b, o, ho, hop⟩ := h p ⟨hsize ▸ hp.1, hfp⟩
    exact ⟨b, o, (hj b o).mpr (Or.inr ho), hop⟩

variable [DecidableEq I]

/-- The id table after an order joined under a new index. -/
theorem IdTable.join (h : IdTable s G) {s' : Ladder K I} {G' : Ghost K} {b₀ : Bool}
    {x : Nat × OrderData K} (hj : Joined G G' b₀ x)
    (hin : inRange (K := K) (idx x.2.id_) = true) (hid : s.id_to_order_ (idx x.2.id_) = none)
    (htab : s'.id_to_order_ = Function.update s.id_to_order_ (idx x.2.id_) (some x.1))
    (hfree : ∀ q, s'.order_pool_.isFree q = if q = x.1 then false else s.order_pool_.isFree q)
    (hsize : s'.order_pool_.size = s.order_pool_.size) : IdTable s' G' where
  mem := by
    intro b o ho
    rcases (hj b o).mp ho with ⟨_, rfl⟩ | ho
    · exact ⟨hin, by rw [htab, Function.update_self]⟩
    · -- an order from before is under another index: this one was free
      have hm := h.mem b o ho
      refine ⟨hm.1, ?_⟩
      rw [htab, Function.update_of_ne]
      · exact hm.2
      · intro he
        rw [he, hid] at hm
        exact absurd hm.2 (by simp)
  only := by
    intro i p hi
    rw [htab] at hi
    by_cases he : i = idx x.2.id_
    · rw [he, Function.update_self] at hi
      exact ⟨b₀, x, (hj b₀ x).mpr (Or.inl ⟨rfl, rfl⟩), Option.some.inj hi, he.symm⟩
    · rw [Function.update_of_ne he] at hi
      obtain ⟨b, o, ho, hp⟩ := h.only i p hi
      exact ⟨b, o, (hj b o).mpr (Or.inr ho), hp⟩
  used := hj.used h.used hfree hsize
  size := hsize.trans h.size

omit [OrderKey K I] [DecidableEq I] in
/-- The price table when no level comes or goes. -/
theorem PriceTable.congr (h : PriceTable s G) {s' : Ladder K I} {G' : Ghost K}
    (hmap : ∀ b, (G' b).map (fun g => (g.ptr, g.price)) = (G b).map fun g => (g.ptr, g.price))
    (htab : s'.price_orders_at_price_ = s.price_orders_at_price_)
    (hused : ∀ l, s'.orders_at_price_pool_.Used l → s.orders_at_price_pool_.Used l)
    (hsize : s'.orders_at_price_pool_.size = s.orders_at_price_pool_.size) : PriceTable s' G' where
  mem := by
    intro b g hg
    have hm : (g.ptr, g.price) ∈ (G b).map fun g => (g.ptr, g.price) :=
      hmap b ▸ List.mem_map_of_mem hg
    obtain ⟨g₀, hg₀, he⟩ := List.mem_map.mp hm
    obtain ⟨hl, hp⟩ := Prod.mk.inj he
    rw [htab, ← hl, ← hp]
    exact h.mem b g₀ hg₀
  only := by
    intro i l hi
    rw [htab] at hi
    obtain ⟨b, g₀, hg₀, rfl, hp⟩ := h.only i l hi
    have hm : (g₀.ptr, g₀.price) ∈ (G' b).map fun g => (g.ptr, g.price) :=
      (hmap b).symm ▸ List.mem_map_of_mem hg₀
    obtain ⟨g, hg, he⟩ := List.mem_map.mp hm
    obtain ⟨hl, hp'⟩ := Prod.mk.inj he
    exact ⟨b, g, hg, hl, by rw [hp', hp]⟩
  used := by
    intro l hl
    obtain ⟨b, g₀, hg₀, rfl⟩ := h.used l (hused l hl)
    have hm : (g₀.ptr, g₀.price) ∈ (G' b).map fun g => (g.ptr, g.price) :=
      (hmap b).symm ▸ List.mem_map_of_mem hg₀
    obtain ⟨g, hg, he⟩ := List.mem_map.mp hm
    exact ⟨b, g, hg, (Prod.mk.inj he).1⟩
  size := hsize.trans h.size

omit [OrderKey K I] [DecidableEq I] in
/-- A price whose slot is null is the price of no level. -/
theorem PriceTable.ne_of_free (h : PriceTable s G) {price : Int}
    (hs : s.getOrdersAtPrice price = none) {b : Bool} {g : LevelG K} (hg : g ∈ G b) :
    g.price ≠ price := by
  intro he
  have hm := h.mem b g hg
  rw [he] at hm
  unfold Ladder.getOrdersAtPrice at hs
  rw [hs] at hm
  exact absurd hm (by simp)

omit [OrderKey K I] [DecidableEq I] in
/-- No level comes or goes when an order joins one. -/
theorem Ghost.append_levels (G : Ghost K) (l : Nat) (x : Nat × OrderData K) (b : Bool) :
    ((G.append l x) b).map (fun g => (g.ptr, g.price)) = (G b).map fun g => (g.ptr, g.price) := by
  unfold Ghost.append
  rw [List.map_map]
  refine List.map_congr_left fun g _ => ?_
  simp only [Function.comp]
  split <;> rfl

omit [OrderKey K I] [DecidableEq I] in
/-- The price table after level `n` was opened at a free slot. -/
theorem PriceTable.insert (h : PriceTable s G) {s' : Ladder K I} {b : Bool} {n : LevelG K}
    (hfreeslot : s.price_orders_at_price_ (priceToIndex n.price) = none)
    (htab : s'.price_orders_at_price_
      = Function.update s.price_orders_at_price_ (priceToIndex n.price) (some n.ptr))
    (hfree : ∀ q, s'.orders_at_price_pool_.isFree q
      = if q = n.ptr then false else s.orders_at_price_pool_.isFree q)
    (hsize : s'.orders_at_price_pool_.size = s.orders_at_price_pool_.size) :
    PriceTable s' (G.insert b n) where
  mem := by
    intro b' g hg
    rw [htab]
    rcases Ghost.mem_insert.mp hg with ⟨_, rfl⟩ | hg
    · rw [Function.update_self]
    · have hm := h.mem b' g hg
      rw [Function.update_of_ne]
      · exact hm
      · intro he
        rw [he, hfreeslot] at hm
        exact absurd hm (by simp)
  only := by
    intro i l hi
    rw [htab] at hi
    by_cases he : i = priceToIndex n.price
    · rw [he, Function.update_self] at hi
      exact ⟨b, n, Ghost.mem_insert.mpr (Or.inl ⟨rfl, rfl⟩), Option.some.inj hi, he.symm⟩
    · rw [Function.update_of_ne he] at hi
      obtain ⟨b', g, hg, hl⟩ := h.only i l hi
      exact ⟨b', g, Ghost.mem_insert.mpr (Or.inr hg), hl⟩
  used := by
    intro l hl
    by_cases he : l = n.ptr
    · exact ⟨b, n, Ghost.mem_insert.mpr (Or.inl ⟨rfl, rfl⟩), he.symm⟩
    · have hu : s.orders_at_price_pool_.Used l := by
        refine ⟨hsize ▸ hl.1, ?_⟩
        have := hl.2
        rwa [hfree, if_neg he] at this
      obtain ⟨b', g, hg, hl⟩ := h.used l hu
      exact ⟨b', g, Ghost.mem_insert.mpr (Or.inr hg), hl⟩
  size := hsize.trans h.size

omit [DecidableEq I] [OrderKey K I] in
theorem joined_append (h : Core s G) {b : Bool} {g : LevelG K} (hg : g ∈ G b)
    (x : Nat × OrderData K) : Joined G (G.append g.ptr x) b x := by
  obtain ⟨A, B, hL⟩ := List.append_of_mem hg
  rw [Ghost.append_eq h hL x]
  intro b' o'
  by_cases hb : b' = b
  · subst hb
    rw [Function.update_self, hL]
    simp only [flat_append, flat_cons, List.mem_append, List.mem_singleton, true_and]
    tauto
  · rw [Function.update_of_ne hb]
    simp [hb]

omit [DecidableEq I] [OrderKey K I] in
theorem joined_insert {b : Bool} {n : LevelG K} {x : Nat × OrderData K} (hn : n.orders = [x]) :
    Joined G (G.insert b n) b x := by
  intro b' o
  rw [mem_flat, mem_flat]
  constructor
  · rintro ⟨g, hg, ho⟩
    rcases Ghost.mem_insert.mp hg with ⟨hb, rfl⟩ | hg
    · rw [hn] at ho
      exact Or.inl ⟨hb, List.mem_singleton.mp ho⟩
    · exact Or.inr ⟨g, hg, ho⟩
  · rintro (⟨rfl, rfl⟩ | ⟨g, hg, ho⟩)
    · exact ⟨n, Ghost.mem_insert.mpr (Or.inl ⟨rfl, rfl⟩), by rw [hn]; exact List.mem_singleton_self _⟩
    · exact ⟨g, Ghost.mem_insert.mpr (Or.inr hg), ho⟩

/-- Block `p` of `s₁` was taken for `d`; nothing else differs from `s`. -/
structure Allocated (s s₁ : Ladder K I) (G : Ghost K) (p : Nat) (d : OrderData K) : Prop where
  core : Core s₁ G
  prices : PriceTable s₁ G
  used : s₁.order_pool_.Used p
  data : s₁.order_pool_.data p = d
  fresh : ∀ b, ∀ g ∈ G b, p ∉ g.ptrs
  ids : s₁.id_to_order_ = s.id_to_order_
  free : ∀ q, s₁.order_pool_.isFree q = if q = p then false else s.order_pool_.isFree q
  size : s₁.order_pool_.size = s.order_pool_.size

omit [OrderKey K I] [DecidableEq I] in
theorem Allocated.of_store {d : OrderData K} {m : MemPool (Order K)} (hc : Core s G)
    (hp : PriceTable s G) (hvalid : m.Valid) (hsize : m.size = s.order_pool_.size)
    (hstore : m.store_ = Function.update s.order_pool_.store_ s.order_pool_.next_free_index_
      ⟨{ d with prev_order_ := none, next_order_ := none }, false⟩) :
    Allocated s { s with order_pool_ := m } G s.order_pool_.next_free_index_ d := by
  refine ⟨hc.allocate hvalid hsize hstore, ⟨hp.mem, hp.only, hp.used, hp.size⟩,
    ⟨hsize ▸ hc.validO.lt, ?_⟩, ?_, ?_, rfl, MemPool.isFree_of_store hstore, hsize⟩
  · show m.isFree s.order_pool_.next_free_index_ = false
    rw [MemPool.isFree_of_store hstore, if_pos rfl]
  · show m.data s.order_pool_.next_free_index_ = d
    unfold MemPool.data
    rw [MemPool.get_of_store hstore, if_pos rfl]
  · intro b g hg hpg
    exact hc.validO.not_used (hc.usedO b g hg _ hpg)

/-- The order joins the level in the slot of its price. -/
private theorem Filed.append {s₁ : Ladder K I} {p : Nat} {d : OrderData K} (h : Filed s G)
    (ha : Allocated s s₁ G p d) (hside : d.side_ = .BUY ∨ d.side_ = .SELL)
    (hin : inRange (K := K) (idx d.id_) = true) (hid : s.id_to_order_ (idx d.id_) = none)
    {g : LevelG K} (hg : g ∈ G (Ladder.isBid d.side_))
    (hidx : priceToIndex g.price = priceToIndex d.price_)
    (hslot : s₁.getOrdersAtPrice d.price_ = some g.ptr) :
    ∃ s', s₁.addOrder p = .ok s' ∧ Filed s' (G.append g.ptr (p, d)) := by
  obtain ⟨op', hrun, hopf, hops, hcore⟩ := addOrder_append ha.core hg ha.used ha.fresh
    (by rw [ha.data]; exact hslot) (by rw [ha.data]; exact hin)
  rw [ha.data] at hrun hcore
  refine ⟨_, hrun, hcore, ?_, ?_, ?_, ?_⟩
  · intro b g' hg'
    rcases Ghost.mem_append.mp hg' with ⟨hg', _⟩ | ⟨g₀, hg₀, _, rfl⟩
    · exact h.side b g' hg'
    · exact h.side b g₀ hg₀
  · intro b g' hg' o ho
    rcases Ghost.mem_append.mp hg' with ⟨hg', _⟩ | ⟨g₀, hg₀, he, rfl⟩
    · exact h.home b g' hg' o ho
    · rcases List.mem_append.mp ho with ho | ho
      · exact h.home b g₀ hg₀ o ho
      · obtain ⟨rfl, rfl⟩ := h.core.ptr_inj hg₀ hg he
        rw [List.mem_singleton.mp ho]
        exact ⟨(sideOf_isBid hside).symm, hidx.symm⟩
  · -- the level was there already
    exact ha.prices.congr (Ghost.append_levels G g.ptr (p, d)) rfl (fun _ hl => hl) rfl
  · refine h.ids.join (joined_append h.core hg (p, d)) hin hid ?_ ?_ (hops.trans ha.size)
    · show Function.update s₁.id_to_order_ _ _ = _
      rw [ha.ids]
    · intro q
      show op'.isFree q = _
      rw [hopf, ha.free]

/-- The order opens a level, or the level pool is full. -/
private theorem Filed.insert {s₁ : Ladder K I} {p : Nat} {d : OrderData K} (h : Filed s G)
    (ha : Allocated s s₁ G p d) (hside : d.side_ = .BUY ∨ d.side_ = .SELL)
    (hin : inRange (K := K) (idx d.id_) = true) (hid : s.id_to_order_ (idx d.id_) = none)
    (hslot : s₁.getOrdersAtPrice d.price_ = none) :
    (∃ s' l, s₁.addOrder p = .ok s' ∧
      Filed s' (G.insert (Ladder.isBid d.side_) ⟨l, d.side_, d.price_, [(p, d)]⟩)) ∨
    (s₁.addOrder p = .error MemPool.outOfSpace ∧
      ME_MAX_PRICE_LEVELS ≤ (G true).length + (G false).length + 1) := by
  set n : LevelG K := ⟨s₁.orders_at_price_pool_.next_free_index_, d.side_, d.price_, [(p, d)]⟩
    with hn
  rcases addOrder_insert (g := n) ha.core ha.used ha.fresh (by rw [ha.data]; exact hslot)
      (by rw [ha.data]; exact hin) (by rw [ha.data]) with
    ⟨s', hrun, hcore, htab, hidt, hof, hos, hlf, hls⟩ | ⟨hrun, hfull⟩
  · left
    rw [ha.data, ha.ids] at hidt
    refine ⟨s', n.ptr, hrun, hcore, ?_, ?_, ha.prices.insert hslot htab hlf hls, ?_⟩
    · intro b g hg
      rcases Ghost.mem_insert.mp hg with ⟨rfl, rfl⟩ | hg
      · exact (sideOf_isBid hside).symm
      · exact h.side b g hg
    · intro b g hg o ho
      rcases Ghost.mem_insert.mp hg with ⟨rfl, rfl⟩ | hg
      · rw [List.mem_singleton.mp ho]
        exact ⟨(sideOf_isBid hside).symm, rfl⟩
      · exact h.home b g hg o ho
    · exact h.ids.join (joined_insert rfl) hin hid hidt (fun q => by rw [hof]; exact ha.free q)
        (hos.trans ha.size)
  · right
    refine ⟨hrun, ?_⟩
    -- every level block in use is one of the ladder's levels
    have hle := MemPool.size_le_of_full hfull
      (L := (G true).map LevelG.ptr ++ (G false).map LevelG.ptr) fun q hq => by
        obtain ⟨b, g, hg, rfl⟩ := ha.prices.used q hq
        cases b with
        | true => exact List.mem_append.mpr (Or.inl (List.mem_map_of_mem hg))
        | false => exact List.mem_append.mpr (Or.inr (List.mem_map_of_mem hg))
    rwa [ha.prices.size, List.length_append, List.length_map, List.length_map] at hle

/-- Where an order that came to rest stands: at the tail of the level in the
slot of its price, or in a level of its own. -/
def Rested (s : Ladder K I) (G : Ghost K) (p : Nat) (d : OrderData K) (G' : Ghost K) : Prop :=
  (∃ g ∈ G (Ladder.isBid d.side_), s.getOrdersAtPrice d.price_ = some g.ptr ∧
    priceToIndex g.price = priceToIndex d.price_ ∧ G' = G.append g.ptr (p, d)) ∨
  (s.getOrdersAtPrice d.price_ = none ∧
    ∃ l, G' = G.insert (Ladder.isBid d.side_) ⟨l, d.side_, d.price_, [(p, d)]⟩)

/-- An order that came to rest has an index inside the id table. -/
theorem Ladder.allocateOrder_inRange {s' : Ladder K I} {d : OrderData K}
    (h : s.allocateOrder d = .ok s') : inRange (K := K) (idx d.id_) = true := by
  unfold Ladder.allocateOrder at h
  obtain ⟨⟨p, m⟩, halloc, h⟩ := exec_bind_ok h
  have hdata : m.data p = d := by
    unfold MemPool.data
    rw [MemPool.get_of_store (MemPool.allocate_inv halloc).2, if_pos rfl]
  -- the last thing `addOrder` does is to write the table
  have hset : ∃ s₁ : Ladder K I, s₁.setIdx (idx (m.data p).id_) (some p) = .ok s' := by
    unfold Ladder.addOrder at h
    dsimp only at h
    split at h
    · obtain ⟨_, _, h⟩ := exec_bind_ok h
      obtain ⟨s₁, _, h⟩ := exec_bind_ok h
      exact ⟨s₁, h⟩
    · obtain ⟨_, _, h⟩ := exec_bind_ok h
      obtain ⟨_, _, h⟩ := exec_bind_ok h
      obtain ⟨s₁, _, h⟩ := exec_bind_ok h
      exact ⟨s₁, h⟩
  obtain ⟨s₁, hset⟩ := hset
  rw [hdata] at hset
  unfold Ladder.setIdx at hset
  split at hset
  next hin => exact hin
  next => exact absurd hset (by simp)

/-- **An order comes to rest**, or a pool is full. -/
theorem Filed.rest (h : Filed s G) {d : OrderData K} (hside : d.side_ = .BUY ∨ d.side_ = .SELL)
    (hin : inRange (K := K) (idx d.id_) = true) (hid : s.id_to_order_ (idx d.id_) = none)
    (hslot : ∀ l, s.getOrdersAtPrice d.price_ = some l →
      s.orders_at_price_pool_.levelSide l = d.side_) :
    (∃ s' p G', s.allocateOrder d = .ok s' ∧ Filed s' G' ∧ Rested s G p d G') ∨
    (s.allocateOrder d = .error MemPool.outOfSpace ∧
      (ME_MAX_ORDER_IDS ≤ (bookOf G).live + 1 ∨ (s.getOrdersAtPrice d.price_ = none ∧
        ME_MAX_PRICE_LEVELS ≤ (G true).length + (G false).length + 1))) := by
  rcases MemPool.allocate_cases h.core.validO
      ({ d with prev_order_ := none, next_order_ := none } : Order K) with
    ⟨m, halloc, hvalid, hsize, hstore⟩ | ⟨halloc, hfull⟩
  · set p := s.order_pool_.next_free_index_ with hpdef
    have ha : Allocated s { s with order_pool_ := m } G p d :=
      .of_store h.core h.prices hvalid hsize hstore
    have hrun : s.allocateOrder d = Ladder.addOrder { s with order_pool_ := m } p := by
      simp only [Ladder.allocateOrder, halloc, exec_ok_bind]
    rw [hrun]
    cases hs : s.getOrdersAtPrice d.price_ with
    | some l =>
      left
      -- the slot's level is one of the order's side
      obtain ⟨b, g, hg, rfl, hi⟩ := h.prices.only _ _ hs
      have hb : Ladder.isBid d.side_ = b := by
        rw [← hslot _ hs, (h.core.level b g hg).side, h.side b g hg, isBid_sideOf]
      subst hb
      obtain ⟨s', hok, hf⟩ := h.append ha hside hin hid hg hi hs
      exact ⟨s', p, _, hok, hf, Or.inl ⟨g, hg, hs, hi, rfl⟩⟩
    | none =>
      rcases h.insert ha hside hin hid hs with ⟨s', l, hok, hf⟩ | ⟨herr, hcap⟩
      · exact Or.inl ⟨s', p, _, hok, hf, Or.inr ⟨hs, l, rfl⟩⟩
      · exact Or.inr ⟨herr, Or.inr ⟨rfl, hcap⟩⟩
  · right
    refine ⟨by simp only [Ladder.allocateOrder, halloc, exec_error_bind]; rfl, Or.inl ?_⟩
    -- every order block in use is one of the ladder's orders
    have hle := MemPool.size_le_of_full hfull
      (L := (flat (G true)).map Prod.fst ++ (flat (G false)).map Prod.fst) fun q hq => by
        obtain ⟨b, o, ho, rfl⟩ := h.ids.used q hq
        cases b with
        | true => exact List.mem_append.mpr (Or.inl (List.mem_map_of_mem ho))
        | false => exact List.mem_append.mpr (Or.inr (List.mem_map_of_mem ho))
    rw [h.ids.size, List.length_append, List.length_map, List.length_map] at hle
    simpa only [Book.live, bookOf, List.length_map] using hle

end Rest

/-! ## An order leaves, or changes its quantity -/

section Leave

variable {s : Ladder K I} {G : Ghost K} [DecidableEq I]

omit [DecidableEq I] in
/-- Addresses and indices select the same order. -/
theorem IdTable.fst_eq_iff (h : IdTable s G) (hc : Core s G) {b b' : Bool} {p : Nat}
    {d : OrderData K}
    {o : Nat × OrderData K} (hpd : (p, d) ∈ flat (G b)) (ho : o ∈ flat (G b')) :
    o.1 = p ↔ idx o.2.id_ = idx d.id_ := by
  constructor
  · intro he
    rw [(hc.order_inj ho hpd he).2]
  · intro he
    rw [(h.idx_inj hc ho hpd he).2]

/-- The order pool still holds listed orders only. -/
theorem Removed.used {s' : Ladder K I} {p l : Nat} {d : OrderData K} {last : Bool}
    (hr : Removed s s' p l d last)
    (h : ∀ q, s.order_pool_.Used q → ∃ b, ∃ o ∈ flat (G b), o.1 = q) :
    ∀ q, s'.order_pool_.Used q → ∃ b, ∃ o ∈ flat ((G.remove p) b), o.1 = q := by
  intro q hq
  have hf := hq.2
  rw [hr.freeO] at hf
  split at hf
  · exact absurd hf (by simp)
  next hqp =>
    obtain ⟨b, o, ho, rfl⟩ := h q ⟨hr.sizeO ▸ hq.1, hf⟩
    exact ⟨b, o, mem_flat_remove.mpr ⟨ho, hqp⟩, rfl⟩

/-- The id table after an order left. -/
theorem IdTable.remove (h : IdTable s G) (hc : Core s G) {s' : Ladder K I} {b : Bool} {p l : Nat}
    {d : OrderData K}
    {last : Bool} (hpd : (p, d) ∈ flat (G b)) (hr : Removed s s' p l d last) :
    IdTable s' (G.remove p) := by
  refine ⟨?_, ?_, hr.used h.used, hr.sizeO.trans h.size⟩
  · intro b' o ho
    obtain ⟨ho, hne⟩ := mem_flat_remove.mp ho
    refine ⟨(h.mem b' o ho).1, ?_⟩
    rw [hr.ids, Function.update_of_ne fun e => hne ((h.fst_eq_iff hc hpd ho).mpr e)]
    exact (h.mem b' o ho).2
  · intro i q hi
    rw [hr.ids] at hi
    by_cases he : i = idx d.id_
    · rw [he, Function.update_self] at hi
      exact absurd hi (by simp)
    · rw [Function.update_of_ne he] at hi
      obtain ⟨b', o, ho, hq, hio⟩ := h.only i q hi
      refine ⟨b', o, mem_flat_remove.mpr ⟨ho, ?_⟩, hq, hio⟩
      intro hop
      exact he (hio.symm.trans ((h.fst_eq_iff hc hpd ho).mp hop))

omit [OrderKey K I] [DecidableEq I] in
/-- Nothing is left of the level of `p` exactly if it held `p` alone. -/
theorem LevelG.filter_eq_nil_iff {g : LevelG K} {p : Nat} {d : OrderData K} (hnd : g.ptrs.Nodup)
    (hpd : (p, d) ∈ g.orders) :
    (g.orders.filter fun o => decide (o.1 ≠ p)) = [] ↔ g.ptrs = [p] := by
  obtain ⟨C, D, hgo⟩ := List.append_of_mem hpd
  rw [LevelG.filter_of_split hgo hnd]
  unfold LevelG.ptrs
  rw [hgo]
  constructor
  · intro hnil
    obtain ⟨rfl, rfl⟩ := List.append_eq_nil_iff.mp hnil
    rfl
  · intro hone
    have hlen := congrArg List.length hone
    simp only [List.length_map, List.length_append, List.length_cons, List.length_nil] at hlen
    exact List.append_eq_nil_iff.mpr
      ⟨List.length_eq_zero_iff.mp (by omega), List.length_eq_zero_iff.mp (by omega)⟩

omit [OrderKey K I] [DecidableEq I] in
/-- **The levels that are left**: all but the one whose last order left. -/
theorem Ghost.level_left_iff (hc : Core s G) {b b' : Bool} {g : LevelG K} {p l : Nat} {price : Int}
    {d : OrderData K} (hg : g ∈ G b) (hpd : (p, d) ∈ g.orders) :
    (∃ g' ∈ (G.remove p) b', g'.ptr = l ∧ g'.price = price) ↔
      (∃ g' ∈ G b', g'.ptr = l ∧ g'.price = price) ∧ ¬ (g.ptrs = [p] ∧ l = g.ptr) := by
  have hgone := LevelG.filter_eq_nil_iff (hc.level b g hg).ring.nodup hpd
  constructor
  · rintro ⟨g', hg', rfl, rfl⟩
    obtain ⟨hne, g₀, hg₀, rfl⟩ := mem_removeFrom.mp hg'
    refine ⟨⟨g₀, hg₀, rfl, rfl⟩, fun hlast => hne ?_⟩
    obtain ⟨_, rfl⟩ := hc.ptr_inj hg₀ hg hlast.2
    exact hgone.mpr hlast.1
  · rintro ⟨⟨g', hg', rfl, rfl⟩, hnot⟩
    refine ⟨_, mem_removeFrom.mpr ⟨?_, g', hg', rfl⟩, rfl, rfl⟩
    by_cases he : g'.ptr = g.ptr
    · obtain ⟨_, rfl⟩ := hc.ptr_inj hg' hg he
      exact fun hnil => hnot ⟨hgone.mp hnil, rfl⟩
    · have hp : p ∉ g'.ptrs := fun hp =>
        he (hc.own b' g' hg' b g hg p hp (mem_ptrs_of_mem hpd))
      show (g'.orders.filter fun o => decide (o.1 ≠ p)) ≠ []
      rw [LevelG.filter_of_not_mem hp]
      exact (hc.level b' g' hg').ne

/-- The price table after an order left its level. -/
theorem PriceTable.remove (h : PriceTable s G) (hc : Core s G) {s' : Ladder K I} {b : Bool}
    {g : LevelG K} {p : Nat}
    {d : OrderData K} (hg : g ∈ G b) (hpd : (p, d) ∈ g.orders)
    (hprice : priceToIndex d.price_ = priceToIndex g.price)
    (hr : Removed s s' p g.ptr d (decide (g.ptrs = [p]))) : PriceTable s' (G.remove p) := by
  refine ⟨?_, ?_, ?_, hr.sizeL.trans h.size⟩
  · intro b' g' hg'
    obtain ⟨⟨g₀, hg₀, hl, hp⟩, hleft⟩ :=
      (Ghost.level_left_iff hc hg hpd).mp ⟨g', hg', rfl, rfl⟩
    have hm := h.mem b' g₀ hg₀
    rw [hl, hp] at hm
    rw [hr.slots, if_neg]
    · exact hm
    · rintro ⟨hlast, hidx⟩
      rw [hidx, hprice, h.mem b g hg] at hm
      exact hleft ⟨of_decide_eq_true hlast, (Option.some.inj hm).symm⟩
  · intro i l hi
    rw [hr.slots] at hi
    split at hi
    · exact absurd hi (by simp)
    next hcond =>
      obtain ⟨b', g₀, hg₀, rfl, hidx⟩ := h.only i l hi
      obtain ⟨g', hg', hl, hp⟩ := (Ghost.level_left_iff hc hg hpd).mpr
        ⟨⟨g₀, hg₀, rfl, rfl⟩, fun hlast => by
          obtain ⟨_, rfl⟩ := hc.ptr_inj hg₀ hg hlast.2
          exact hcond ⟨decide_eq_true hlast.1, by rw [hprice, hidx]⟩⟩
      exact ⟨b', g', hg', hl, by rw [hp, hidx]⟩
  · intro l hl
    have hf := hl.2
    rw [hr.freeL] at hf
    split at hf
    · exact absurd hf (by simp)
    next hcond =>
      obtain ⟨b', g₀, hg₀, rfl⟩ := h.used l ⟨hr.sizeL ▸ hl.1, hf⟩
      obtain ⟨g', hg', hl', _⟩ := (Ghost.level_left_iff hc hg hpd).mpr
        ⟨⟨g₀, hg₀, rfl, rfl⟩, fun hlast => hcond ⟨decide_eq_true hlast.1, hlast.2⟩⟩
      exact ⟨b', g', hg', hl'⟩

/-- **An order leaves**. -/
theorem Filed.remove (h : Filed s G) {b : Bool} {p : Nat} {d : OrderData K}
    (hpd : (p, d) ∈ flat (G b)) :
    ∃ s', s.removeOrder p = .ok s' ∧ Filed s' (G.remove p) := by
  obtain ⟨g, hg, ho⟩ := mem_flat.mp hpd
  obtain ⟨hds, hdp⟩ := h.home b g hg _ ho
  obtain ⟨s', hrun, hcore, hr⟩ := removeOrder_spec h.core hg ho
    (by unfold Ladder.getOrdersAtPrice; rw [hdp]; exact h.prices.mem b g hg)
    (by rw [hds, isBid_sideOf]) (h.ids.mem b _ hpd).1
  refine ⟨s', hrun, hcore, ?_, ?_, h.prices.remove h.core hg ho hdp hr,
    h.ids.remove h.core hpd hr⟩
  · intro b' g' hg'
    obtain ⟨_, g₀, hg₀, rfl⟩ := mem_removeFrom.mp hg'
    exact h.side b' g₀ hg₀
  · intro b' g' hg' o' ho'
    obtain ⟨_, g₀, hg₀, rfl⟩ := mem_removeFrom.mp hg'
    exact h.home b' g₀ hg₀ o' (List.mem_of_mem_filter ho')

omit [OrderKey K I] [DecidableEq I] in
/-- Changing a quantity changes nothing else of an order. -/
theorem setQty_same (p q : Nat) (o : Nat × OrderData K) :
    (if o.1 = p then (o.1, { o.2 with qty_ := q }) else o).1 = o.1 ∧
    (if o.1 = p then (o.1, { o.2 with qty_ := q }) else o).2.id_ = o.2.id_ ∧
    (if o.1 = p then (o.1, { o.2 with qty_ := q }) else o).2.side_ = o.2.side_ ∧
    (if o.1 = p then (o.1, { o.2 with qty_ := q }) else o).2.price_ = o.2.price_ := by
  split <;> exact ⟨rfl, rfl, rfl, rfl⟩

omit [OrderKey K I] [DecidableEq I] in
/-- The levels stay. -/
theorem PriceTable.setQty (h : PriceTable s G) (p q : Nat) :
    PriceTable { s with order_pool_ := s.order_pool_.setQty p q } (G.setQty p q) := by
  refine h.congr ?_ rfl (fun _ hl => hl) rfl
  intro b
  unfold Ghost.setQty
  rw [List.map_map]
  rfl

omit [DecidableEq I] in
/-- **A quantity changes**. -/
theorem Filed.setQty (h : Filed s G) (p q : Nat) :
    Filed { s with order_pool_ := s.order_pool_.setQty p q } (G.setQty p q) := by
  refine ⟨core_setQty h.core p q, ?_, ?_, h.prices.setQty p q, ?_⟩
  · intro b g hg
    obtain ⟨g₀, hg₀, rfl⟩ := List.mem_map.mp hg
    exact h.side b g₀ hg₀
  · intro b g hg o ho
    obtain ⟨g₀, hg₀, rfl⟩ := List.mem_map.mp hg
    obtain ⟨o₀, ho₀, rfl⟩ := List.mem_map.mp ho
    rw [(setQty_same p q o₀).2.2.1, (setQty_same p q o₀).2.2.2]
    exact h.home b g₀ hg₀ o₀ ho₀
  · refine ⟨?_, ?_, ?_, h.ids.size⟩
    · intro b' o ho
      obtain ⟨o₀, ho₀, rfl⟩ := mem_flat_setQty.mp ho
      rw [(setQty_same p q o₀).1, (setQty_same p q o₀).2.1]
      exact h.ids.mem b' o₀ ho₀
    · intro i r hi
      obtain ⟨b', o₀, ho₀, rfl, hidx⟩ := h.ids.only i r hi
      exact ⟨b', _, mem_flat_setQty.mpr ⟨o₀, ho₀, rfl⟩, (setQty_same p q o₀).1,
        by rw [(setQty_same p q o₀).2.1]; exact hidx⟩
    · intro r hr
      obtain ⟨b', o₀, ho₀, rfl⟩ := h.ids.used r (MemPool.used_set.mp hr)
      exact ⟨b', _, mem_flat_setQty.mpr ⟨o₀, ho₀, rfl⟩, (setQty_same p q o₀).1⟩

end Leave

end LowLatency
