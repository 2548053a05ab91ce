import LowLatency.Book.Repr

/-!
# Ladders that take any order

`Filed` needs orders with a side and with ids of their own. Here is what is left
when neither can be relied on. `Laid s G`: the heap spells out `G`, the price table
holds exactly its levels, the order pool exactly its orders, and an entry of the id
table leads to an order with that index. Every order keeps that
(`Laid.place_cases`): it joins the level in the slot of its price, whatever that
level is, or opens one.

The code tells the two rings apart by `side == Side::BUY` alone, so an order without
a side counts as an ask. Only the search for its level does not: `addOrdersAtPrice`
compares prices for `BUY` and for `SELL` and for nothing else, and puts the level
behind all others. **The rings stay sorted** exactly if the order has a side, or
joins a level, or is dearer than every ask (`Shelved.place_sorted_iff`).

`Shelved` adds what makes an order leave by the ring it stands in. A ladder that
represents a book is one of these (`Represents.shelved`).
-/

namespace LowLatency

open Lib (Better)

variable {K I : Type}

/-- The levels of a side come best first, from its best pointer on. -/
def Ladder.SideSorted (s : Ladder K I) (bid : Bool) : Prop :=
  ∃ vs, s.view bid = some vs ∧ vs.Pairwise fun v v' => Better bid v.price_ v'.price_

/-- The pools have a block for an order at this price, and for a level if it needs
one. -/
def Ladder.HasSpare (s : Ladder K I) (price : Int) : Prop :=
  s.order_pool_.HasSpare ∧ (s.getOrdersAtPrice price = none → s.orders_at_price_pool_.HasSpare)

/-- Every ask is cheaper. -/
def Ladder.AsksBelow (s : Ladder K I) (price : Int) : Prop :=
  ∃ vs, s.view false = some vs ∧ ∀ v ∈ vs, v.price_ < price

/-- An order of this side and price finds its place: it has a side, or a level is
there, or its place is the last. -/
def Ladder.FindsPlace (s : Ladder K I) (side : Side) (price : Int) : Prop :=
  side = .BUY ∨ side = .SELL ∨ s.getOrdersAtPrice price ≠ none ∨ s.AsksBelow price

section Read

variable {s : Ladder K I} {G : Ghost K}

theorem Core.sideSorted_iff (h : Core s G) (b : Bool) :
    s.SideSorted b ↔ (G b).Pairwise fun g g' => Better b g.price g'.price := by
  unfold Ladder.SideSorted
  rw [h.view b]
  constructor
  · rintro ⟨vs, hvs, hsorted⟩
    rw [← Option.some.inj hvs, List.pairwise_map] at hsorted
    exact hsorted
  · intro hsorted
    exact ⟨_, rfl, List.pairwise_map.mpr hsorted⟩

theorem Core.asksBelow_iff (h : Core s G) (price : Int) :
    s.AsksBelow price ↔ ∀ g ∈ G false, g.price < price := by
  unfold Ladder.AsksBelow
  rw [h.view false]
  constructor
  · rintro ⟨vs, hvs, hlt⟩ g hg
    rw [← Option.some.inj hvs] at hlt
    exact hlt _ (List.mem_map_of_mem hg)
  · intro hlt
    refine ⟨_, rfl, fun v hv => ?_⟩
    obtain ⟨g, hg, rfl⟩ := List.mem_map.mp hv
    exact hlt g hg

end Read

/-! ## Where a level without a side goes -/

/-- Neither comparison of `addOrdersAtPrice` is made. -/
theorem insertLevel_noSide {n : LevelG K} (hbuy : n.side ≠ .BUY) (hsell : n.side ≠ .SELL)
    (L : List (LevelG K)) : insertLevel n L = L ++ [n] := by
  cases L with
  | nil => rfl
  | cons x xs => simp [insertLevel, Ladder.addAfter, Ladder.addBefore, hbuy, hsell]

theorem insertLevel_pairwise {b : Bool} {n : LevelG K} {L : List (LevelG K)}
    (h : L.Pairwise fun g g' => Better b g.price g'.price) (hn : n.side = sideOf b)
    (hne : ∀ g ∈ L, g.price ≠ n.price) :
    (insertLevel n L).Pairwise fun g g' => Better b g.price g'.price := by
  obtain ⟨A, B, rfl, hi, hA, hB⟩ := insertLevel_sorted h hn hne
  obtain ⟨hsA, hsB, hAB⟩ := List.pairwise_append.mp h
  rw [hi]
  refine List.pairwise_append.mpr ⟨hsA, List.pairwise_cons.mpr ⟨hB, hsB⟩, ?_⟩
  intro g hg g' hg'
  rcases List.mem_cons.mp hg' with rfl | hg'
  · exact hA g hg
  · exact hAB g hg g' hg'

/-! ## Any order comes to rest -/

variable [OrderKey K I]

structure Laid (s : Ladder K I) (G : Ghost K) : Prop where
  core : Core s G
  prices : PriceTable s G
  range : ∀ b, ∀ o ∈ flat (G b), inRange (K := K) (idx o.2.id_) = true
  ids : ∀ i p, s.id_to_order_ i = some p → ∃ b, ∃ o ∈ flat (G b), o.1 = p ∧ idx o.2.id_ = i
  used : ∀ p, s.order_pool_.Used p → ∃ b, ∃ o ∈ flat (G b), o.1 = p
  size : s.order_pool_.size = ME_MAX_ORDER_IDS

/-- Where the order stands: at the tail of the level in the slot of its price, on
whatever side that is, or in a level of its own. -/
def Placed (s : Ladder K I) (G : Ghost K) (p : Nat) (d : OrderData K) (G' : Ghost K) : Prop :=
  (∃ b, ∃ g ∈ G b, s.getOrdersAtPrice d.price_ = some g.ptr ∧
    priceToIndex g.price = priceToIndex d.price_ ∧ G' = G.append g.ptr (p, d)) ∨
  (s.getOrdersAtPrice d.price_ = none ∧
    ∃ l, G' = G.insert (Ladder.isBid d.side_) ⟨l, d.side_, d.price_, [(p, d)]⟩)

section Place

variable {s s' : Ladder K I} {G : Ghost K} [DecidableEq I]

/-- The tables after order `x` joined under an index that may have been in use. -/
theorem Laid.join (h : Laid s G) {G' : Ghost K} {b₀ : Bool} {x : Nat × OrderData K}
    (hj : Joined G G' b₀ x) (hin : inRange (K := K) (idx x.2.id_) = true)
    (htab : s'.id_to_order_ = Function.update s.id_to_order_ (idx x.2.id_) (some x.1))
    (hfree : ∀ q, s'.order_pool_.isFree q = if q = x.1 then false else s.order_pool_.isFree q)
    (hsize : s'.order_pool_.size = s.order_pool_.size)
    (hcore : Core s' G') (hprices : PriceTable s' G') : Laid s' G' where
  core := hcore
  prices := hprices
  range := by
    intro b o ho
    rcases (hj b o).mp ho with ⟨_, rfl⟩ | ho
    · exact hin
    · exact h.range b o ho
  ids := by
    intro i q hi
    rw [htab] at hi
    by_cases he : i = idx x.2.id_
    · rw [he, Function.update_self] at hi
      exact ⟨b₀, x, (hj b₀ x).mpr (Or.inl ⟨rfl, rfl⟩), Option.some.inj hi, he.symm⟩
    · rw [Function.update_of_ne he] at hi
      obtain ⟨b, o, ho, hp, hidx⟩ := h.ids i q hi
      exact ⟨b, o, (hj b o).mpr (Or.inr ho), hp, hidx⟩
  used := hj.used h.used hfree hsize
  size := hsize.trans h.size

/-- **Any order** is filed in one of two places, if the pools have blocks for it and
the id table has an entry. -/
theorem Laid.place_cases (h : Laid s G) (d : OrderData K) :
    (¬ s.HasSpare d.price_ ∧ s.allocateOrder d = .error MemPool.outOfSpace) ∨
    (s.HasSpare d.price_ ∧ inRange (K := K) (idx d.id_) = false ∧
      s.allocateOrder d = .error .outOfRange) ∨
    (s.HasSpare d.price_ ∧ inRange (K := K) (idx d.id_) = true ∧
      ∃ s' p G', s.allocateOrder d = .ok s' ∧ Laid s' G' ∧ Placed s G p d G') := by
  by_cases hO : s.order_pool_.HasSpare
  swap
  · refine Or.inl ⟨fun hs => hO hs.1, ?_⟩
    simp only [Ladder.allocateOrder, MemPool.allocate_of_not_hasSpare hO h.core.validO,
      exec_error_bind]
  obtain ⟨m, halloc, hvalid, hsize, hstore⟩ := hO.allocate h.core.validO
    ({ d with prev_order_ := none, next_order_ := none } : Order K)
  have ha : Allocated s { s with order_pool_ := m } G s.order_pool_.next_free_index_ d :=
    .of_store h.core h.prices hvalid hsize hstore
  simp only [Ladder.allocateOrder, halloc, exec_ok_bind]
  cases hs : s.getOrdersAtPrice d.price_ with
  | some l =>
    have hspare : s.HasSpare d.price_ := ⟨hO, fun hn => absurd (hs.symm.trans hn) (by simp)⟩
    obtain ⟨b, g, hg, rfl, hi⟩ := h.prices.only _ _ hs
    have hslot : Ladder.getOrdersAtPrice { s with order_pool_ := m } d.price_ = some g.ptr := hs
    cases hin : inRange (K := K) (idx d.id_) with
    | false =>
      obtain ⟨x, _, _, y, _, _, hfirst, hlast⟩ := (ha.core.level b g hg).split
      refine Or.inr (Or.inl ⟨hspare, rfl, ?_⟩)
      simp only [Ladder.addOrder, ha.data, hslot, hfirst, hlast, deref_some, exec_ok_bind,
        Ladder.setIdx, hin]
      rfl
    | true =>
      obtain ⟨op', hadd, hopf, hops, hcore⟩ := addOrder_append ha.core hg ha.used ha.fresh
        (by rw [ha.data]; exact hs) (by rw [ha.data]; exact hin)
      rw [ha.data] at hadd hcore
      refine Or.inr (Or.inr ⟨hspare, rfl, _, s.order_pool_.next_free_index_, _, hadd, ?_,
        Or.inl ⟨b, g, hg, hs, hi, rfl⟩⟩)
      refine h.join (joined_append h.core hg _) hin rfl (fun q => ?_) (hops.trans ha.size) hcore ?_
      · show op'.isFree q = _
        rw [hopf, ha.free]
      · exact ha.prices.congr (Ghost.append_levels G g.ptr _) rfl (fun _ hl => hl) rfl
  | none =>
    have hslot : Ladder.getOrdersAtPrice { s with order_pool_ := m } d.price_ = none := hs
    by_cases hL : s.orders_at_price_pool_.HasSpare
    swap
    · refine Or.inl ⟨fun hsp => hL (hsp.2 hs), ?_⟩
      simp only [Ladder.addOrder, ha.data, hslot, exec_error_bind,
        MemPool.allocate_of_not_hasSpare hL h.core.validL]
    have hspare : s.HasSpare d.price_ := ⟨hO, fun _ => hL⟩
    cases hin : inRange (K := K) (idx d.id_) with
    | false =>
      -- the level is opened and linked before the id table is written
      obtain ⟨m₁, hlalloc, _, hlsize, hlstore⟩ := hL.allocate h.core.validL
        ({ side_ := d.side_, price_ := d.price_,
           first_order_ := some s.order_pool_.next_free_index_ } : OrdersAtPrice)
      obtain ⟨m₂, hlink, _⟩ := ha.core.link_new
        (g := ⟨s.orders_at_price_pool_.next_free_index_, d.side_, d.price_, []⟩)
        ((m.setPrevOrder s.order_pool_.next_free_index_ (some s.order_pool_.next_free_index_)
          ).setNextOrder s.order_pool_.next_free_index_ (some s.order_pool_.next_free_index_))
        rfl ⟨rfl, rfl⟩ hlsize hlstore
      refine Or.inr (Or.inl ⟨hspare, rfl, ?_⟩)
      simp only [Ladder.addOrder, ha.data, hslot, hlalloc, exec_ok_bind]
      rw [hlink]
      simp only [exec_ok_bind, Ladder.setIdx, hin]
      rfl
    | true =>
      rcases addOrder_insert ha.core ha.used ha.fresh (by rw [ha.data]; exact hs)
          (by rw [ha.data]; exact hin) rfl with
        ⟨s₁, hadd, hcore, htab, hidt, hof, hos, hlf, hls⟩ | ⟨_, hfull⟩
      · rw [ha.data] at hcore htab hidt
        rw [ha.ids] at hidt
        have hlaid := h.join (joined_insert rfl) hin hidt (fun q => by rw [hof]; exact ha.free q)
          (hos.trans ha.size) hcore (ha.prices.insert hs htab hlf hls)
        exact Or.inr (Or.inr ⟨hspare, rfl, s₁, _, _, hadd, hlaid, Or.inr ⟨hs, _, rfl⟩⟩)
      · obtain ⟨q, hq, hne, hfree⟩ := hL
        rw [hfull q hq hne] at hfree
        exact absurd hfree (by simp)

/-- An order that came to rest did so in one of two places. -/
theorem Laid.place (h : Laid s G) {d : OrderData K} (hrun : s.allocateOrder d = .ok s') :
    ∃ p G', Laid s' G' ∧ Placed s G p d G' := by
  rcases h.place_cases d with ⟨_, herr⟩ | ⟨_, _, herr⟩ | ⟨_, _, s₁, p, G', hok, hlaid, hplace⟩
  · rw [hrun] at herr
    exact absurd herr (by simp)
  · rw [hrun] at herr
    exact absurd herr (by simp)
  · rw [hrun] at hok
    obtain rfl := Except.ok.inj hok
    exact ⟨p, G', hlaid, hplace⟩

end Place

/-! ## Orders in their own rings -/

structure Shelved (s : Ladder K I) (G : Ghost K) : Prop extends Laid s G where
  side : ∀ b, ∀ g ∈ G b, Ladder.isBid g.side = b
  home : ∀ b, ∀ g ∈ G b, ∀ o ∈ g.orders,
    Ladder.isBid o.2.side_ = b ∧ priceToIndex o.2.price_ = priceToIndex g.price
  sorted : ∀ b, (G b).Pairwise fun g g' => Better b g.price g'.price

section Shelved

variable {s s' : Ladder K I} {G : Ghost K}

theorem Shelved.init [Inhabited K] : Shelved (Ladder.init : Ladder K I) fun _ => [] where
  core := Represents.init.core
  prices := Represents.init.prices
  range := by simp
  ids := fun _ _ h => absurd h (by simp [Ladder.init])
  used := Represents.init.ids.used
  size := Represents.init.ids.size
  side := by simp
  home := by simp
  sorted := fun _ => List.Pairwise.nil

/-- So are orders that share neither their ids nor, with other prices, their slots. -/
theorem Represents.shelved (h : Represents s G) : Shelved s G where
  core := h.core
  prices := h.prices
  range := fun b o ho => (h.ids.mem b o ho).1
  ids := h.ids.only
  used := h.ids.used
  size := h.ids.size
  side := by
    intro b g hg
    rw [(h.sides b).side g hg]
    exact isBid_sideOf b
  home := by
    intro b g hg o ho
    obtain ⟨hside, hprice⟩ := (h.sides b).orders g hg o ho
    rw [hside, hprice]
    exact ⟨isBid_sideOf b, rfl⟩
  sorted := fun b => (h.sides b).sorted

theorem Shelved.sideSorted (h : Shelved s G) (b : Bool) : s.SideSorted b :=
  (h.core.sideSorted_iff b).mpr (h.sorted b)

/-- The rings after any order came to rest. -/
theorem Shelved.placed_sorted_iff (h : Shelved s G) {p : Nat} {d : OrderData K} {G' : Ghost K}
    (hplace : Placed s G p d G') :
    (∀ b, (G' b).Pairwise fun g g' => Better b g.price g'.price) ↔
      s.FindsPlace d.side_ d.price_ := by
  rcases hplace with ⟨b₀, g₀, hg₀, hslot, _, rfl⟩ | ⟨hslot, l, rfl⟩
  · -- a level that is there keeps its price
    refine iff_of_true (fun b => ?_) (Or.inr (Or.inr (Or.inl (by rw [hslot]; simp))))
    have hprices : ((G.append g₀.ptr (p, d)) b).map LevelG.price = (G b).map LevelG.price := by
      have hlevels := congrArg (List.map Prod.snd) (Ghost.append_levels G g₀.ptr (p, d) b)
      rw [List.map_map, List.map_map] at hlevels
      exact hlevels
    have hsorted := List.pairwise_map.mpr (h.sorted b)
    rw [← hprices] at hsorted
    exact List.pairwise_map.mp hsorted
  set n : LevelG K := ⟨l, d.side_, d.price_, [(p, d)]⟩ with hn
  have hne : ∀ g ∈ G (Ladder.isBid d.side_), g.price ≠ n.price :=
    fun g hg => h.prices.ne_of_free hslot hg
  -- only the ring that the level joins is in question
  have hring : (∀ b, ((G.insert (Ladder.isBid d.side_) n) b).Pairwise
        fun g g' => Better b g.price g'.price) ↔
      (insertLevel n (G (Ladder.isBid d.side_))).Pairwise
        fun g g' => Better (Ladder.isBid d.side_) g.price g'.price := by
    unfold Ghost.insert
    constructor
    · intro hall
      have := hall (Ladder.isBid d.side_)
      rwa [Function.update_self] at this
    · intro hone b
      by_cases hb : b = Ladder.isBid d.side_
      · subst hb
        rwa [Function.update_self]
      · rw [Function.update_of_ne hb]
        exact h.sorted b
  rw [hring]
  by_cases hside : d.side_ = .BUY ∨ d.side_ = .SELL
  · refine iff_of_true ?_ (hside.imp_right Or.inl)
    exact insertLevel_pairwise (h.sorted _) (sideOf_isBid hside).symm hne
  · obtain ⟨hbuy, hsell⟩ := not_or.mp hside
    have hask : Ladder.isBid d.side_ = false := decide_eq_false hbuy
    have hfinds : s.FindsPlace d.side_ d.price_ ↔ s.AsksBelow d.price_ := by
      unfold Ladder.FindsPlace
      simp [hbuy, hsell, hslot]
    rw [hfinds, h.core.asksBelow_iff, hask, insertLevel_noSide hbuy hsell, List.pairwise_append]
    constructor
    · intro hsorted g hg
      exact hsorted.2.2 g hg n (List.mem_singleton_self _)
    · intro hlt
      refine ⟨h.sorted false, List.pairwise_singleton _ _, fun g hg g' hg' => ?_⟩
      rw [List.mem_singleton.mp hg']
      exact hlt g hg

variable [DecidableEq I]

/-- **The rings stay sorted** exactly if the order finds its place. -/
theorem Shelved.place_sorted_iff (h : Shelved s G) {d : OrderData K}
    (hrun : s.allocateOrder d = .ok s') :
    (∀ b, s'.SideSorted b) ↔ s.FindsPlace d.side_ d.price_ := by
  obtain ⟨p, G', hlaid, hplace⟩ := h.toLaid.place hrun
  rw [← h.placed_sorted_iff hplace]
  exact forall_congr' fun b => hlaid.core.sideSorted_iff b

/-- **An order of the right ring** comes to rest where it can leave again. -/
theorem Shelved.place (h : Shelved s G) {d : OrderData K} (hrun : s.allocateOrder d = .ok s')
    (hfinds : s.FindsPlace d.side_ d.price_)
    (hslot : ∀ l, s.getOrdersAtPrice d.price_ = some l →
      Ladder.isBid (s.orders_at_price_pool_.levelSide l) = Ladder.isBid d.side_) :
    ∃ G', Shelved s' G' := by
  obtain ⟨p, G', hlaid, hplace⟩ := h.toLaid.place hrun
  have hsorted := (h.placed_sorted_iff hplace).mpr hfinds
  rcases hplace with ⟨b₀, g₀, hg₀, hs, hi, rfl⟩ | ⟨_, l, rfl⟩
  · have hb₀ : b₀ = Ladder.isBid d.side_ := by
      rw [← hslot _ hs, (h.core.level b₀ g₀ hg₀).side, h.side b₀ g₀ hg₀]
    refine ⟨_, hlaid, ?_, ?_, hsorted⟩
    · intro b g hg
      rcases Ghost.mem_append.mp hg with ⟨hg, _⟩ | ⟨g₁, hg₁, _, rfl⟩
      · exact h.side b g hg
      · exact h.side b g₁ hg₁
    · intro b g hg o ho
      rcases Ghost.mem_append.mp hg with ⟨hg, _⟩ | ⟨g₁, hg₁, he, rfl⟩
      · exact h.home b g hg o ho
      · rcases List.mem_append.mp ho with ho | ho
        · exact h.home b g₁ hg₁ o ho
        · obtain ⟨rfl, rfl⟩ := h.core.ptr_inj hg₁ hg₀ he
          rw [List.mem_singleton.mp ho]
          exact ⟨hb₀.symm, hi.symm⟩
  · refine ⟨_, hlaid, ?_, ?_, hsorted⟩
    · intro b g hg
      rcases Ghost.mem_insert.mp hg with ⟨rfl, rfl⟩ | hg
      · rfl
      · exact h.side b g hg
    · intro b g hg o ho
      rcases Ghost.mem_insert.mp hg with ⟨rfl, rfl⟩ | hg
      · rw [List.mem_singleton.mp ho]
        exact ⟨rfl, rfl⟩
      · exact h.home b g hg o ho

/-- **An order leaves** the ring it stands in. -/
theorem Shelved.remove (h : Shelved s G) {b : Bool} {p : Nat} {d : OrderData K}
    (hpd : (p, d) ∈ flat (G b)) :
    ∃ s', s.removeOrder p = .ok s' ∧ Shelved s' (G.remove p) := by
  obtain ⟨g, hg, ho⟩ := mem_flat.mp hpd
  obtain ⟨hds, hdp⟩ := h.home b g hg _ ho
  obtain ⟨s', hrun, hcore, hr⟩ := removeOrder_spec h.core hg ho
    (by unfold Ladder.getOrdersAtPrice; rw [hdp]; exact h.prices.mem b g hg) hds
    (h.range b _ hpd)
  refine ⟨s', hrun, ⟨hcore, h.prices.remove h.core hg ho hdp hr, ?_, ?_,
    hr.used h.used, hr.sizeO.trans h.size⟩, ?_, ?_, ?_⟩
  · intro b' o' ho'
    exact h.range b' o' (mem_flat_remove.mp ho').1
  · intro i q hi
    rw [hr.ids] at hi
    by_cases he : i = idx d.id_
    · rw [he, Function.update_self] at hi
      exact absurd hi (by simp)
    · rw [Function.update_of_ne he] at hi
      obtain ⟨b', o', ho', hq, hidx⟩ := h.ids i q hi
      refine ⟨b', o', mem_flat_remove.mpr ⟨ho', fun hop => he ?_⟩, hq, hidx⟩
      rw [← hidx, (h.core.order_inj ho' hpd hop).2]
  · intro b' g' hg'
    obtain ⟨_, g₀, hg₀, rfl⟩ := mem_removeFrom.mp hg'
    exact h.side b' g₀ hg₀
  · intro b' g' hg' o' ho'
    obtain ⟨_, g₀, hg₀, rfl⟩ := mem_removeFrom.mp hg'
    exact h.home b' g₀ hg₀ o' (List.mem_of_mem_filter ho')
  · intro b'
    have hmap : ((G b').map fun g => { g with
        orders := g.orders.filter fun o => decide (o.1 ≠ p) }).Pairwise
          fun g g' => Better b' g.price g'.price := List.pairwise_map.mpr (h.sorted b')
    exact hmap.sublist List.filter_sublist

omit [DecidableEq I] in
/-- **A quantity changes**. -/
theorem Shelved.setQty (h : Shelved s G) (p q : Nat) :
    Shelved { s with order_pool_ := s.order_pool_.setQty p q } (G.setQty p q) := by
  refine ⟨⟨core_setQty h.core p q, h.prices.setQty p q, ?_, ?_, ?_, h.size⟩, ?_, ?_, ?_⟩
  · intro b o ho
    obtain ⟨o₀, ho₀, rfl⟩ := mem_flat_setQty.mp ho
    rw [(setQty_same p q o₀).2.1]
    exact h.range b o₀ ho₀
  · intro i r hi
    obtain ⟨b, o₀, ho₀, rfl, hidx⟩ := h.ids i r hi
    exact ⟨b, _, mem_flat_setQty.mpr ⟨o₀, ho₀, rfl⟩, (setQty_same p q o₀).1,
      by rw [(setQty_same p q o₀).2.1]; exact hidx⟩
  · intro r hr
    obtain ⟨b, o₀, ho₀, rfl⟩ := h.used r (MemPool.used_set.mp hr)
    exact ⟨b, _, mem_flat_setQty.mpr ⟨o₀, ho₀, rfl⟩, (setQty_same p q o₀).1⟩
  · intro b g hg
    obtain ⟨g₀, hg₀, rfl⟩ := List.mem_map.mp hg
    exact h.side b g₀ hg₀
  · intro b g hg o ho
    obtain ⟨g₀, hg₀, rfl⟩ := List.mem_map.mp hg
    obtain ⟨o₀, ho₀, rfl⟩ := List.mem_map.mp ho
    rw [(setQty_same p q o₀).2.2.1, (setQty_same p q o₀).2.2.2]
    exact h.home b g₀ hg₀ o₀ ho₀
  · intro b
    exact List.pairwise_map.mpr (h.sorted b)

end Shelved

end LowLatency
