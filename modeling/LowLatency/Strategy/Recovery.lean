import LowLatency.Strategy.Clear

/-!
# Rebuilding the replica after `CLEAR`

A snapshot starts a ticker with `CLEAR` and goes on with the `ADD`s of its live
orders. On a fresh book the `ADD`s build some book; this file says when the same
`ADD`s after a `CLEAR` show the same, and when they do not.

`Shown.add` is what an `ADD` does to what a book shows: an order joins the level
of its price, on whichever side that is, or opens one. Neither the addresses nor
the free blocks matter to it, which is what lets two books be compared whose
pools have different pasts.

`CLEAR` does not write `price_orders_at_price_` and does not refresh `bbo_`. So a
slot may still name a level that is gone, and an `ADD` at such a price is
appended to the freed level and linked into neither side. `Holds` keeps the
slots as they were (`old`) apart from those of the new levels; all that can go
wrong with an `ADD` is in `Holds.add` and `Holds.add_lost`.
-/

namespace LowLatency

/-! ## What a book shows -/

/-- The levels of both sides, and the cached best bid and offer. -/
structure Shown where
  levels : Bool → List (Ladder.LevelView Nat)
  bbo : BBO

/-- Level `n` behind the best one. -/
def insertViewScan (n : Ladder.LevelView Nat) :
    List (Ladder.LevelView Nat) → List (Ladder.LevelView Nat)
  | [] => [n]
  | y :: ys =>
    if Ladder.addAfter n.side_ n.price_ y.price_ then y :: insertViewScan n ys else n :: y :: ys

/-- Level `n` in its place. -/
def insertView (n : Ladder.LevelView Nat) :
    List (Ladder.LevelView Nat) → List (Ladder.LevelView Nat)
  | [] => [n]
  | x :: xs =>
    if Ladder.addAfter n.side_ n.price_ x.price_ then x :: insertViewScan n xs
    else if Ladder.addBefore n.side_ n.price_ x.price_ then n :: x :: xs
    else x :: xs ++ [n]

/-- Some level has this price. -/
def AtPrice (V : Bool → List (Ladder.LevelView Nat)) (price : Int) : Prop :=
  ∃ b, ∃ v ∈ V b, v.price_ = price

instance (V : Bool → List (Ladder.LevelView Nat)) (price : Int) : Decidable (AtPrice V price) :=
  inferInstanceAs (Decidable (∃ _, _))

/-- An order joins the level of its price, or opens one. -/
def addLevels (V : Bool → List (Ladder.LevelView Nat)) (d : OrderData Nat) :
    Bool → List (Ladder.LevelView Nat) :=
  if AtPrice V d.price_ then
    fun b => (V b).map fun v =>
      if v.price_ = d.price_ then { v with orders := v.orders ++ [d] } else v
  else
    Function.update V (Ladder.isBid d.side_)
      (insertView ⟨d.side_, d.price_, [d]⟩ (V (Ladder.isBid d.side_)))

/-- Price and quantity of the first level. -/
def topShown : List (Ladder.LevelView Nat) → Int × Nat
  | [] => (Price_INVALID, Qty_INVALID)
  | v :: _ => (v.price_, levelQty (v.orders.map OrderData.qty_))

/-- The update is at or above the best bid shown. -/
def Shown.bidUpdated (x : Shown) (u : MEMarketUpdate) : Bool :=
  decide (u.side_ = .BUY) &&
    match x.levels true with
    | [] => true
    | v :: _ => decide (u.price_ ≥ v.price_)

/-- The update is at or below the best ask shown. -/
def Shown.askUpdated (x : Shown) (u : MEMarketUpdate) : Bool :=
  decide (u.side_ = .SELL) &&
    match x.levels false with
    | [] => true
    | v :: _ => decide (u.price_ ≤ v.price_)

/-- What an `ADD` does to what is shown. -/
def Shown.add (x : Shown) (u : MEMarketUpdate) : Shown :=
  let V := addLevels x.levels (orderOf u)
  ⟨V,
    { bid_price_ := if x.bidUpdated u then (topShown (V true)).1 else x.bbo.bid_price_
      ask_price_ := if x.askUpdated u then (topShown (V false)).1 else x.bbo.ask_price_
      bid_qty_ := if x.bidUpdated u then (topShown (V true)).2 else x.bbo.bid_qty_
      ask_qty_ := if x.askUpdated u then (topShown (V false)).2 else x.bbo.ask_qty_ }⟩

/-- The levels of a heap as they are shown. -/
def Ghost.views (G : Ghost Nat) : Bool → List (Ladder.LevelView Nat) :=
  fun b => (G b).map LevelG.view

theorem atPrice_views {G : Ghost Nat} {price : Int} :
    AtPrice G.views price ↔ ∃ b, ∃ g ∈ G b, g.price = price := by
  unfold AtPrice Ghost.views
  constructor
  · rintro ⟨b, v, hv, he⟩
    obtain ⟨g, hg, rfl⟩ := List.mem_map.mp hv
    exact ⟨b, g, hg, he⟩
  · rintro ⟨b, g, hg, he⟩
    exact ⟨b, g.view, List.mem_map_of_mem hg, he⟩

theorem topOf_views (L : List (LevelG Nat)) : topOf L = topShown (L.map LevelG.view) := by
  cases L with
  | nil => rfl
  | cons g L =>
    show (g.price, levelQty _) = (g.price, levelQty ((g.orders.map Prod.snd).map OrderData.qty_))
    rw [List.map_map]
    rfl

theorem insertScan_views (n : LevelG Nat) (L : List (LevelG Nat)) :
    (insertScan n L).map LevelG.view = insertViewScan n.view (L.map LevelG.view) := by
  induction L with
  | nil => rfl
  | cons y ys ih =>
    rw [insertScan, List.map_cons, insertViewScan]
    show _ = if Ladder.addAfter n.side n.price y.price then _ else _
    split
    · rw [List.map_cons, ih]
    · rfl

theorem insertLevel_views (n : LevelG Nat) (L : List (LevelG Nat)) :
    (insertLevel n L).map LevelG.view = insertView n.view (L.map LevelG.view) := by
  cases L with
  | nil => rfl
  | cons x xs =>
    rw [insertLevel, List.map_cons, insertView]
    show _ = if Ladder.addAfter n.side n.price x.price then _ else
      if Ladder.addBefore n.side n.price x.price then _ else _
    split
    · rw [List.map_cons, insertScan_views]
    · split
      · rfl
      · rw [List.cons_append, List.map_cons, List.map_append]
        rfl

theorem mem_insertView {n v : Ladder.LevelView Nat} {L : List (Ladder.LevelView Nat)} :
    v ∈ insertView n L ↔ v = n ∨ v ∈ L := by
  have hscan : ∀ L : List (Ladder.LevelView Nat), v ∈ insertViewScan n L ↔ v = n ∨ v ∈ L := by
    intro L
    induction L with
    | nil => simp [insertViewScan]
    | cons y ys ih =>
      rw [insertViewScan]
      split
      · rw [List.mem_cons, ih, List.mem_cons]
        tauto
      · exact List.mem_cons
  cases L with
  | nil => simp [insertView]
  | cons x xs =>
    rw [insertView]
    split
    · rw [List.mem_cons, hscan, List.mem_cons]
      tauto
    · split
      · exact List.mem_cons
      · rw [List.mem_append, List.mem_singleton]
        exact Or.comm

/-- An order brings its price and takes none away. -/
theorem atPrice_addLevels {V : Bool → List (Ladder.LevelView Nat)} {d : OrderData Nat} {p : Int} :
    AtPrice (addLevels V d) p ↔ p = d.price_ ∨ AtPrice V p := by
  unfold addLevels
  split
  next hat =>
    have hkeep : ∀ b, ((V b).map fun v => if v.price_ = d.price_ then
        { v with orders := v.orders ++ [d] } else v).map Ladder.LevelView.price_
        = (V b).map Ladder.LevelView.price_ := by
      intro b
      rw [List.map_map]
      refine List.map_congr_left fun v _ => ?_
      simp only [Function.comp]
      split <;> rfl
    have hmem : ∀ W : Bool → List (Ladder.LevelView Nat),
        AtPrice W p ↔ ∃ b, p ∈ (W b).map Ladder.LevelView.price_ := by
      intro W
      unfold AtPrice
      simp only [List.mem_map]
    rw [hmem, hmem]
    simp only [hkeep]
    rw [← hmem]
    constructor
    · exact Or.inr
    · intro h
      rcases h with rfl | h
      · exact hat
      · exact h
  next =>
    unfold AtPrice
    constructor
    · rintro ⟨b, v, hv, hp⟩
      by_cases hb : b = Ladder.isBid d.side_
      · rw [hb, Function.update_self] at hv
        rcases mem_insertView.mp hv with rfl | hv
        · exact Or.inl hp.symm
        · exact Or.inr ⟨_, v, hv, hp⟩
      · rw [Function.update_of_ne hb] at hv
        exact Or.inr ⟨b, v, hv, hp⟩
    · intro h
      rcases h with rfl | ⟨b, v, hv, hp⟩
      · refine ⟨Ladder.isBid d.side_, ⟨d.side_, d.price_, [d]⟩, ?_, rfl⟩
        rw [Function.update_self]
        exact mem_insertView.mpr (Or.inl rfl)
      · refine ⟨b, v, ?_, hp⟩
        by_cases hb : b = Ladder.isBid d.side_
        · subst hb
          rw [Function.update_self]
          exact mem_insertView.mpr (Or.inr hv)
        · rw [Function.update_of_ne hb]
          exact hv

/-! ## A book under `ADD`s -/

/-- The heap spells out `G`; the slots of its levels name them, all others are
as they were. -/
structure Holds (old : Nat → Option Nat) (s : MarketLadder) (G : Ghost Nat) : Prop where
  core : Core s G
  slot : ∀ b, ∀ g ∈ G b, s.price_orders_at_price_ (priceToIndex g.price) = some g.ptr
  other : ∀ i, (∀ b, ∀ g ∈ G b, priceToIndex g.price ≠ i) → s.price_orders_at_price_ i = old i

/-- A price whose slot is that of a level of this price only. -/
def PriceOk (G : Ghost Nat) (price : Int) : Prop :=
  ∀ b, ∀ g ∈ G b, priceToIndex g.price = priceToIndex price → g.price = price

section Add

variable {old : Nat → Option Nat} {s : MarketLadder} {G : Ghost Nat}

/-- One level per price. -/
theorem Holds.price_inj (h : Holds old s G) {b b' : Bool} {g g' : LevelG Nat} (hg : g ∈ G b)
    (hg' : g' ∈ G b') (he : g.price = g'.price) : g.ptr = g'.ptr := by
  have h₁ := h.slot b g hg
  rw [he, h.slot b' g' hg'] at h₁
  exact (Option.some.inj h₁).symm

/-- An order joins the level of its price. -/
theorem Holds.views_append (h : Holds old s G) {b : Bool} {g : LevelG Nat} (hg : g ∈ G b)
    {d : OrderData Nat} (he : g.price = d.price_) (p : Nat) :
    (G.append g.ptr (p, d)).views = addLevels G.views d := by
  unfold addLevels
  rw [if_pos (atPrice_views.mpr ⟨b, g, hg, he⟩)]
  funext b'
  unfold Ghost.views Ghost.append
  rw [List.map_map, List.map_map]
  refine List.map_congr_left fun g' hg' => ?_
  show LevelG.view (if g'.ptr = g.ptr then _ else g') = if g'.price = d.price_ then _ else g'.view
  by_cases hp : g'.ptr = g.ptr
  · obtain ⟨_, rfl⟩ := h.core.ptr_inj hg' hg hp
    rw [if_pos rfl, if_pos he]
    unfold LevelG.view
    rw [List.map_append]
    rfl
  · rw [if_neg hp, if_neg fun e => hp (h.price_inj hg' hg (e.trans he.symm))]

/-- An order opens a level. -/
theorem views_insert {d : OrderData Nat} (hnot : ¬ AtPrice G.views d.price_) (l p : Nat) :
    (G.insert (Ladder.isBid d.side_) ⟨l, d.side_, d.price_, [(p, d)]⟩).views
      = addLevels G.views d := by
  unfold addLevels
  rw [if_neg hnot]
  funext b
  unfold Ghost.views Ghost.insert
  by_cases hb : b = Ladder.isBid d.side_
  · subst hb
    rw [Function.update_self, Function.update_self, insertLevel_views]
    rfl
  · rw [Function.update_of_ne hb, Function.update_of_ne hb]

/-- The pools after an order came: one more order, and `n` more levels. -/
structure Took (s s' : MarketLadder) (n : Nat) : Prop where
  orders : s'.order_pool_.inUse = s.order_pool_.inUse + 1
  sizeO : s'.order_pool_.size = s.order_pool_.size
  levels : s'.orders_at_price_pool_.inUse = s.orders_at_price_pool_.inUse + n
  sizeL : s'.orders_at_price_pool_.size = s.orders_at_price_pool_.size

/-- What an `ADD` at a price needs: room for the order, and, if it is to open a
level, a null slot and room for the level. -/
def Accepts (old : Nat → Option Nat) (s : MarketLadder) (G : Ghost Nat) (price : Int) : Prop :=
  s.order_pool_.inUse + 1 < s.order_pool_.size ∧
    (¬ AtPrice G.views price → old (priceToIndex price) = none ∧
      s.orders_at_price_pool_.inUse + 1 < s.orders_at_price_pool_.size)

/-- The book right after the order's block was taken. -/
structure Taken (s s₁ : MarketLadder) (G : Ghost Nat) (d : OrderData Nat) (p : Nat) : Prop where
  core : Core s₁ G
  used : s₁.order_pool_.Used p
  data : s₁.order_pool_.data p = d
  fresh : ∀ b, ∀ g ∈ G b, p ∉ g.ptrs
  inUse : s₁.order_pool_.inUse = s.order_pool_.inUse + 1
  size : s₁.order_pool_.size = s.order_pool_.size
  slots : s₁.price_orders_at_price_ = s.price_orders_at_price_
  levels : s₁.orders_at_price_pool_ = s.orders_at_price_pool_
  best : ∀ b, s₁.best b = s.best b

/-- Taking the block: it works as long as another one is free. -/
theorem allocateOrder_cases (h : Core s G) (d : OrderData Nat) :
    (s.order_pool_.inUse + 1 < s.order_pool_.size ∧
      ∃ s₁ p, s.allocateOrder d = s₁.addOrder p ∧ Taken s s₁ G d p) ∨
    (¬ s.order_pool_.inUse + 1 < s.order_pool_.size ∧
      s.allocateOrder d = .error MemPool.outOfSpace) := by
  rcases MemPool.allocate_cases h.validO
    ({ d with prev_order_ := none, next_order_ := none } : Order Nat) with
    ⟨m, hok, hvalid, hsize, hstore⟩ | ⟨herr, hfull⟩
  · left
    have hcount : m.inUse = s.order_pool_.inUse + 1 := MemPool.inUse_fill hsize
      (MemPool.isFree_of_store hstore) h.validO.lt h.validO.free
    refine ⟨by rw [← hcount, ← hsize]; exact hvalid.inUse_lt, { s with order_pool_ := m },
      s.order_pool_.next_free_index_, ?_, ?_⟩
    · simp only [Ladder.allocateOrder, hok, exec_ok_bind]
    · refine ⟨h.allocate hvalid hsize hstore, ⟨?_, ?_⟩, ?_, ?_, hcount, hsize, rfl, rfl, fun _ => rfl⟩
      · show _ < m.size
        rw [hsize]
        exact h.validO.lt
      · show m.isFree _ = false
        rw [MemPool.isFree_of_store hstore, if_pos rfl]
      · show m.data _ = d
        unfold MemPool.data
        rw [MemPool.get_of_store hstore, if_pos rfl]
      · intro b g hg hp
        exact h.validO.not_used (h.usedO b g hg _ hp)
  · right
    refine ⟨?_, ?_⟩
    · have := h.validO.inUse_full hfull
      omega
    · simp only [Ladder.allocateOrder, herr, exec_error_bind, MemPool.outOfSpace]

/-- The slot of a price no level has is as it was. -/
theorem Holds.slot_of_not (h : Holds old s G) {price : Int} (hok : PriceOk G price)
    (hnot : ¬ AtPrice G.views price) :
    s.getOrdersAtPrice price = old (priceToIndex price) := by
  refine h.other _ fun b g hg he => ?_
  exact hnot (atPrice_views.mpr ⟨b, g, hg, hok b g hg he⟩)

/-- The order joins the level that its price has. -/
theorem Holds.join (h : Holds old s G) {s₁ : MarketLadder} {d : OrderData Nat} {p : Nat}
    (ht : Taken s s₁ G d p) (hin : inRange (K := Nat) (idx (s₁.order_pool_.data p).id_) = true)
    (hat : AtPrice G.views d.price_) :
    ∃ s' G', s₁.addOrder p = .ok s' ∧ Holds old s' G' ∧ G'.views = addLevels G.views d ∧
      Took s s' 0 := by
  obtain ⟨b, g, hg, he⟩ := atPrice_views.mp hat
  have hslot : s₁.getOrdersAtPrice (s₁.order_pool_.data p).price_ = some g.ptr := by
    unfold Ladder.getOrdersAtPrice
    rw [ht.data, ht.slots, ← he]
    exact h.slot b g hg
  obtain ⟨op, hadd, hfree, hsize, hcore⟩ := addOrder_append ht.core hg ht.used ht.fresh hslot hin
  rw [ht.data] at hadd hcore
  refine ⟨_, _, hadd, ⟨hcore, ?_, ?_⟩, h.views_append hg he p, ?_, hsize.trans ht.size, ?_, ?_⟩
  · intro b' g' hg'
    show s₁.price_orders_at_price_ _ = _
    rw [ht.slots]
    -- the levels keep their addresses and prices
    rcases Ghost.mem_append.mp hg' with ⟨hg', _⟩ | ⟨g₀, hg₀, _, rfl⟩
    · exact h.slot b' g' hg'
    · exact h.slot b' g₀ hg₀
  · intro i hi
    show s₁.price_orders_at_price_ _ = _
    rw [ht.slots]
    refine h.other i fun b' g₀ hg₀ => ?_
    by_cases hp : g₀.ptr = g.ptr
    · exact hi b' { g₀ with orders := g₀.orders ++ [(p, d)] }
        (Ghost.mem_append.mpr (Or.inr ⟨g₀, hg₀, hp, rfl⟩))
    · exact hi b' g₀ (Ghost.mem_append.mpr (Or.inl ⟨hg₀, hp⟩))
  · exact (MemPool.inUse_congr hsize hfree).trans ht.inUse
  · show s₁.orders_at_price_pool_.inUse = _
    rw [ht.levels, Nat.add_zero]
  · exact congrArg MemPool.size ht.levels

/-- The order opens a level, in a slot that is null. -/
theorem Holds.openLevel (h : Holds old s G) {s₁ : MarketLadder} {d : OrderData Nat} {p : Nat}
    (ht : Taken s s₁ G d p) (hin : inRange (K := Nat) (idx (s₁.order_pool_.data p).id_) = true)
    (hok : PriceOk G d.price_) (hat : ¬ AtPrice G.views d.price_)
    (hnull : old (priceToIndex d.price_) = none)
    (hroom : s.orders_at_price_pool_.inUse + 1 < s.orders_at_price_pool_.size) :
    ∃ s' G', s₁.addOrder p = .ok s' ∧ Holds old s' G' ∧ G'.views = addLevels G.views d ∧
      Took s s' 1 := by
  have hslot : s₁.getOrdersAtPrice (s₁.order_pool_.data p).price_ = none := by
    unfold Ladder.getOrdersAtPrice
    rw [ht.data, ht.slots]
    exact (h.slot_of_not hok hat).trans hnull
  set g : LevelG Nat := ⟨s₁.orders_at_price_pool_.next_free_index_, d.side_, d.price_, [(p, d)]⟩
    with hg
  rcases addOrder_insert (g := g) ht.core ht.used ht.fresh hslot hin (by rw [hg, ht.data]) with
    ⟨s', hadd, hcore, hslots, _, hfreeO, hsizeO, hfreeL, hsizeL⟩ | ⟨_, hfull⟩
  · refine ⟨s', _, hadd, ⟨hcore, ?_, ?_⟩, views_insert hat _ p,
      (MemPool.inUse_congr hsizeO hfreeO).trans ht.inUse, hsizeO.trans ht.size, ?_, ?_⟩
    · intro b' g' hg'
      rw [hslots, ht.slots]
      rcases Ghost.mem_insert.mp hg' with ⟨_, rfl⟩ | hg'
      · rw [Function.update_self]
      · rw [Function.update_of_ne, h.slot b' g' hg']
        intro he
        exact hat (atPrice_views.mpr ⟨b', g', hg', hok b' g' hg' he⟩)
    · intro i hi
      have hne : i ≠ priceToIndex g.price := by
        intro e
        exact hi _ g (Ghost.mem_insert.mpr (Or.inl ⟨rfl, rfl⟩)) e.symm
      rw [hslots, ht.slots, Function.update_of_ne hne]
      exact h.other i fun b' g' hg' => hi b' g' (Ghost.mem_insert.mpr (Or.inr hg'))
    · rw [MemPool.inUse_fill hsizeL hfreeL ht.core.validL.lt ht.core.validL.free, ht.levels]
    · rw [hsizeL, ht.levels]
  · exfalso
    have hcount := ht.core.validL.inUse_full hfull
    rw [ht.levels] at hcount
    omega

/-- **An `ADD` that is accepted** shows. -/
theorem Holds.add (h : Holds old s G) {d : OrderData Nat} (hin : d.id_ < ME_MAX_ORDER_IDS)
    (hok : PriceOk G d.price_) (ha : Accepts old s G d.price_) :
    ∃ s' G', s.allocateOrder d = .ok s' ∧ Holds old s' G' ∧ G'.views = addLevels G.views d ∧
      Took s s' (if AtPrice G.views d.price_ then 0 else 1) := by
  obtain ⟨hroom, hopen⟩ := ha
  rcases allocateOrder_cases h.core d with ⟨_, s₁, p, hrun, ht⟩ | ⟨hno, _⟩
  swap
  · exact absurd hroom hno
  have hin' : inRange (K := Nat) (idx (s₁.order_pool_.data p).id_) = true := by
    rw [ht.data]
    exact decide_eq_true hin
  rw [hrun]
  by_cases hat : AtPrice G.views d.price_
  · rw [if_pos hat]
    exact h.join ht hin' hat
  · obtain ⟨hnull, hroomL⟩ := hopen hat
    rw [if_neg hat]
    exact h.openLevel ht hin' hok hat hnull hroomL

/-- **An `ADD` that is not accepted** either stops the program or is lost: its
slot is not null, it was to open a level and no level was opened. -/
theorem Holds.add_lost (h : Holds old s G) {d : OrderData Nat} (hin : d.id_ < ME_MAX_ORDER_IDS)
    (hok : PriceOk G d.price_) (ha : ¬ Accepts old s G d.price_) {s' : MarketLadder}
    (hrun : s.allocateOrder d = .ok s') :
    ¬ AtPrice G.views d.price_ ∧ old (priceToIndex d.price_) ≠ none ∧
      (∀ b, s'.best b = s.best b) ∧ s'.orders_at_price_pool_ = s.orders_at_price_pool_ := by
  rcases allocateOrder_cases h.core d with ⟨hroom, s₁, p, hrun', ht⟩ | ⟨_, herr⟩
  swap
  · exact absurd (herr.symm.trans hrun) (by simp)
  rw [hrun'] at hrun
  have hnot : ¬ AtPrice G.views d.price_ := fun hat => ha ⟨hroom, fun hno => absurd hat hno⟩
  refine ⟨hnot, ?_⟩
  have hslot : s₁.getOrdersAtPrice (s₁.order_pool_.data p).price_ = old (priceToIndex d.price_) := by
    unfold Ladder.getOrdersAtPrice
    rw [ht.data, ht.slots]
    exact h.slot_of_not hok hnot
  cases hold : old (priceToIndex d.price_) with
  | none =>
    -- the level pool is full
    exfalso
    rw [hold] at hslot
    have hin' : inRange (K := Nat) (idx (s₁.order_pool_.data p).id_) = true := by
      rw [ht.data]
      exact decide_eq_true hin
    rcases addOrder_insert ht.core ht.used ht.fresh hslot hin' rfl with
      ⟨s₂, _, hcore, _, _, _, _, hfreeL, hsizeL⟩ | ⟨herr, _⟩
    · refine ha ⟨hroom, fun _ => ⟨hold, ?_⟩⟩
      have hcount := MemPool.inUse_fill hsizeL hfreeL ht.core.validL.lt ht.core.validL.free
      have hlt := hcore.validL.inUse_lt
      rw [hcount, hsizeL, ht.levels] at hlt
      exact hlt
    · exact absurd (herr.symm.trans hrun) (by simp)
  | some l =>
    rw [hold] at hslot
    simp only [Ladder.addOrder, hslot, exec_ok_bind] at hrun
    obtain ⟨first, _, hrun⟩ := exec_bind_ok hrun
    obtain ⟨last, _, hrun⟩ := exec_bind_ok hrun
    obtain ⟨_, rfl⟩ := setIdx_inv hrun
    exact ⟨by simp, ht.best, ht.levels⟩

end Add

/-- What the heap `G` under book `s` shows. -/
def shownBy (s : MarketOrderBook) (G : Ghost Nat) : Shown := ⟨G.views, s.bbo_⟩

section Update

variable {old : Nat → Option Nat} {s : MarketOrderBook} {G : Ghost Nat} {u : MEMarketUpdate}

/-- The price of the best level is the first one shown. -/
theorem Holds.updated (h : Holds old s.ladder G) :
    s.bidUpdated u = (shownBy s G).bidUpdated u ∧ s.askUpdated u = (shownBy s G).askUpdated u := by
  have hside : ∀ b, (s.ladder.best b = none ∧ (shownBy s G).levels b = []) ∨
      ∃ l v vs, s.ladder.best b = some l ∧ (shownBy s G).levels b = v :: vs ∧
        s.ladder.orders_at_price_pool_.levelPrice l = v.price_ := by
    intro b
    have hbest := h.core.best b
    have hshown : (shownBy s G).levels b = (G b).map LevelG.view := rfl
    cases hL : G b with
    | nil =>
      rw [hL] at hbest hshown
      exact Or.inl ⟨hbest, hshown⟩
    | cons g L =>
      rw [hL] at hbest hshown
      refine Or.inr ⟨g.ptr, g.view, L.map LevelG.view, hbest, hshown, ?_⟩
      exact (h.core.level b g (by rw [hL]; exact List.mem_cons_self ..)).price
  unfold MarketOrderBook.bidUpdated MarketOrderBook.askUpdated Shown.bidUpdated Shown.askUpdated
  constructor
  · rcases hside true with ⟨hb, hv⟩ | ⟨l, v, vs, hb, hv, hp⟩
    · rw [show s.ladder.bids_by_price_ = none from hb, hv]
    · rw [show s.ladder.bids_by_price_ = some l from hb, hv]
      dsimp only
      rw [hp]
  · rcases hside false with ⟨hb, hv⟩ | ⟨l, v, vs, hb, hv, hp⟩
    · rw [show s.ladder.asks_by_price_ = none from hb, hv]
    · rw [show s.ladder.asks_by_price_ = some l from hb, hv]
      dsimp only
      rw [hp]

/-- **An accepted `ADD`, with the BBO.** -/
theorem Holds.onMarketUpdate (h : Holds old s.ladder G) (hadd : u.type_ = .ADD)
    (hin : u.order_id_ < ME_MAX_ORDER_IDS) (hok : PriceOk G u.price_)
    (ha : Accepts old s.ladder G u.price_) :
    ∃ s' G', s.onMarketUpdate u = .ok s' ∧ Holds old s'.ladder G' ∧
      shownBy s' G' = (shownBy s G).add u ∧
      Took s.ladder s'.ladder (if AtPrice G.views u.price_ then 0 else 1) := by
  obtain ⟨l, G', hrun, h', hviews, htook⟩ := h.add (d := orderOf u) hin hok ha
  have hupdate : MarketOrderBook.onUpdate s.ladder u = .ok l := by
    unfold MarketOrderBook.onUpdate
    rw [hadd]
    exact hrun
  obtain ⟨hbid, hask⟩ := h.updated (u := u)
  have hstep : s.onMarketUpdate u = .ok { s with
      ladder := l
      bbo_ := nextBBO s.bbo_ G' (s.bidUpdated u) (s.askUpdated u) } := by
    unfold MarketOrderBook.onMarketUpdate
    rw [hupdate]
    show (if u.type_ = .TRADE then _ else _) = _
    rw [if_neg (by rw [hadd]; decide)]
    exact updateBBO_spec (s := { s with ladder := l }) h'.core _ _
  refine ⟨_, G', hstep, h', ?_, htook⟩
  unfold shownBy Shown.add
  dsimp only
  rw [hviews, hbid, hask]
  have htop : ∀ b, topOf (G' b) = topShown (addLevels G.views (orderOf u) b) := by
    intro b
    rw [topOf_views, ← hviews]
    rfl
  unfold nextBBO
  rw [htop, htop]
  rfl

/-- What is shown is what a traversal and `getBBO` return. -/
def MarketOrderBook.observe (s : MarketOrderBook) :
    Option (List (Ladder.LevelView Nat)) × Option (List (Ladder.LevelView Nat)) × BBO :=
  (s.ladder.view true, s.ladder.view false, s.bbo_)

theorem Holds.observe (h : Holds old s.ladder G) :
    s.observe = (some ((shownBy s G).levels true), some ((shownBy s G).levels false),
      (shownBy s G).bbo) := by
  unfold MarketOrderBook.observe
  rw [h.core.view, h.core.view]
  rfl

/-- A level list has as many levels as the best pointer leads to, whatever is in
them. -/
theorem length_view {K I : Type} {s s' : Ladder K I} {b : Bool} (hbest : s'.best b = s.best b)
    (hlevels : s'.orders_at_price_pool_ = s.orders_at_price_pool_)
    {vs vs' : List (Ladder.LevelView K)} (h : s.view b = some vs) (h' : s'.view b = some vs') :
    vs'.length = vs.length := by
  have hmapM : ∀ (f : Nat → Option (Ladder.LevelView K)) (l : List Nat) {ws}, l.mapM f = some ws →
      ws.length = l.length := by
    intro f l
    induction l with
    | nil =>
      intro ws hw
      rw [← Option.some.inj hw]
      rfl
    | cons x l ih =>
      intro ws hw
      rw [List.mapM_cons] at hw
      obtain ⟨v, _, hw⟩ := Option.bind_eq_some_iff.mp hw
      obtain ⟨ws', hws', hw⟩ := Option.bind_eq_some_iff.mp hw
      rw [← Option.some.inj hw, List.length_cons, List.length_cons, ih hws']
  unfold Ladder.view at h h'
  rw [hbest, hlevels] at h'
  cases hb : s.best b with
  | none =>
    rw [hb] at h h'
    rw [← Option.some.inj h, ← Option.some.inj h']
  | some x =>
    rw [hb] at h h'
    obtain ⟨ls, hls, h⟩ := Option.bind_eq_some_iff.mp h
    obtain ⟨ls', hls', h'⟩ := Option.bind_eq_some_iff.mp h'
    obtain rfl : ls' = ls := Option.some.inj (hls'.symm.trans hls)
    rw [hmapM _ _ h, hmapM _ _ h']

theorem length_insertView (n : Ladder.LevelView Nat) (L : List (Ladder.LevelView Nat)) :
    (insertView n L).length = L.length + 1 := by
  have hscan : ∀ L : List (Ladder.LevelView Nat), (insertViewScan n L).length = L.length + 1 := by
    intro L
    induction L with
    | nil => rfl
    | cons y ys ih =>
      rw [insertViewScan]
      split
      · rw [List.length_cons, ih, List.length_cons]
      · rfl
  cases L with
  | nil => rfl
  | cons x xs =>
    rw [insertView]
    split
    · rw [List.length_cons, hscan, List.length_cons]
    · split
      · rfl
      · rw [List.length_append]
        rfl

/-- **If an `ADD` finds a null slot, or shows as it should, it was accepted.** -/
theorem Holds.accepts (h : Holds old s.ladder G) (hadd : u.type_ = .ADD)
    (hin : u.order_id_ < ME_MAX_ORDER_IDS) (hok : PriceOk G u.price_) {s' : MarketOrderBook}
    (hrun : s.onMarketUpdate u = .ok s')
    (hshown : old (priceToIndex u.price_) = none ∨
      ∀ b, s'.ladder.view b = some (addLevels G.views (orderOf u) b)) :
    Accepts old s.ladder G u.price_ := by
  by_contra ha
  obtain ⟨l, hl, ⟨ht, _⟩ | ⟨_, he⟩⟩ := onMarketUpdate_inv hrun
  · rw [hadd] at ht
    exact absurd ht (by decide)
  unfold MarketOrderBook.onUpdate at hl
  rw [hadd] at hl
  obtain ⟨hnot, hslot, hbest, hlevels⟩ := h.add_lost (d := orderOf u) hin hok ha hl
  rcases hshown with hnull | hshown
  · exact hslot hnull
  -- the side of the order has one level more on the one hand, and as many on the other
  have hlen := length_view (hbest (Ladder.isBid u.side_)) hlevels
    (h.core.view (Ladder.isBid u.side_)) (by rw [← he]; exact hshown (Ladder.isBid u.side_))
  unfold addLevels at hlen
  rw [if_neg hnot] at hlen
  change (Function.update G.views (Ladder.isBid u.side_) _ (Ladder.isBid u.side_)).length = _ at hlen
  rw [Function.update_self, length_insertView] at hlen
  exact Nat.succ_ne_self _ hlen

end Update

/-! ## A list of `ADD`s -/

/-- The prices of a list of updates. -/
def prices (us : List MEMarketUpdate) : Finset Int := (us.map MEMarketUpdate.price_).toFinset

/-- `ADD`s with ids in range, no two of them at different prices that share a
slot. -/
structure AddsOk (us : List MEMarketUpdate) : Prop where
  adds : ∀ u ∈ us, u.type_ = .ADD
  ids : ∀ u ∈ us, u.order_id_ < ME_MAX_ORDER_IDS
  apart : ∀ u ∈ us, ∀ v ∈ us,
    u.price_ % (ME_MAX_PRICE_LEVELS : Int) = v.price_ % (ME_MAX_PRICE_LEVELS : Int) →
    u.price_ = v.price_

theorem AddsOk.of_prefix {us vs : List MEMarketUpdate} (h : AddsOk us) (hp : vs <+: us) :
    AddsOk vs :=
  ⟨fun u hu => h.adds u (hp.subset hu), fun u hu => h.ids u (hp.subset hu),
    fun u hu v hv => h.apart u (hp.subset hu) v (hp.subset hv)⟩

/-- What a list of `ADD`s needs of a book without levels: null slots at its
prices, and room. -/
structure Fits (old : Nat → Option Nat) (s : MarketLadder) (us : List MEMarketUpdate) : Prop where
  slots : ∀ u ∈ us, old (priceToIndex u.price_) = none
  orders : s.order_pool_.inUse + us.length < s.order_pool_.size
  levels : s.orders_at_price_pool_.inUse + (prices us).card < s.orders_at_price_pool_.size

theorem onMarketUpdates_snoc (s : MarketOrderBook) (us : List MEMarketUpdate) (u : MEMarketUpdate) :
    s.onMarketUpdates (us ++ [u]) = (do
      let s ← s.onMarketUpdates us
      s.onMarketUpdate u) := by
  induction us generalizing s with
  | nil =>
    simp only [List.nil_append, MarketOrderBook.onMarketUpdates, exec_ok_bind]
    cases s.onMarketUpdate u <;> rfl
  | cons v us ih =>
    show (do
      let s ← s.onMarketUpdate v
      s.onMarketUpdates (us ++ [u])) = _
    simp only [MarketOrderBook.onMarketUpdates, ih]
    cases s.onMarketUpdate v <;> rfl

/-- The book after `us`: what it shows, and what it took. -/
structure After (old : Nat → Option Nat) (s₀ s : MarketOrderBook) (G : Ghost Nat)
    (us : List MEMarketUpdate) : Prop where
  holds : Holds old s.ladder G
  shown : shownBy s G = us.foldl Shown.add ⟨fun _ => [], s₀.bbo_⟩
  seen : ∀ p, AtPrice G.views p ↔ p ∈ prices us
  orders : s.ladder.order_pool_.inUse = s₀.ladder.order_pool_.inUse + us.length
  sizeO : s.ladder.order_pool_.size = s₀.ladder.order_pool_.size
  levels : s.ladder.orders_at_price_pool_.inUse
    = s₀.ladder.orders_at_price_pool_.inUse + (prices us).card
  sizeL : s.ladder.orders_at_price_pool_.size = s₀.ladder.orders_at_price_pool_.size

theorem prices_snoc (us : List MEMarketUpdate) (u : MEMarketUpdate) :
    prices (us ++ [u]) = insert u.price_ (prices us) := by
  unfold prices
  rw [List.map_append, List.toFinset_append]
  simp

section Adds

variable {old : Nat → Option Nat} {s₀ s : MarketOrderBook} {G : Ghost Nat}
  {us : List MEMarketUpdate} {u : MEMarketUpdate}

/-- The next price is apart from those before it. -/
theorem After.priceOk (h : After old s₀ s G us) (ha : AddsOk (us ++ [u])) : PriceOk G u.price_ := by
  intro b g hg hi
  have hmem := (h.seen g.price).mp (atPrice_views.mpr ⟨b, g, hg, rfl⟩)
  obtain ⟨v, hv, hp⟩ := List.mem_map.mp (List.mem_toFinset.mp hmem)
  rw [← hp] at hi ⊢
  exact ha.apart v (List.mem_append_left _ hv) u (List.mem_append_right _ (List.mem_singleton_self u))
    ((priceToIndex_eq_iff _ _).mp hi)

/-- The next `ADD` is accepted exactly if the longer list fits. -/
theorem After.accepts_iff (h : After old s₀ s G us) (hf : Fits old s₀.ladder us) :
    Accepts old s.ladder G u.price_ ↔ Fits old s₀.ladder (us ++ [u]) := by
  have hat := h.seen u.price_
  unfold Accepts
  rw [hat, h.orders, h.sizeO, h.levels, h.sizeL]
  constructor
  · rintro ⟨hroom, hopen⟩
    refine ⟨?_, ?_, ?_⟩
    · intro v hv
      rcases List.mem_append.mp hv with hv | hv
      · exact hf.slots v hv
      · rw [List.mem_singleton.mp hv]
        by_cases hp : u.price_ ∈ prices us
        · obtain ⟨w, hw, he⟩ := List.mem_map.mp (List.mem_toFinset.mp hp)
          rw [← he]
          exact hf.slots w hw
        · exact (hopen hp).1
    · rw [List.length_append]
      exact hroom
    · rw [prices_snoc]
      by_cases hp : u.price_ ∈ prices us
      · rw [Finset.insert_eq_of_mem hp]
        exact hf.levels
      · rw [Finset.card_insert_of_notMem hp]
        exact (hopen hp).2
  · intro hf'
    have ho := hf'.orders
    have hl := hf'.levels
    rw [List.length_append] at ho
    refine ⟨ho, fun hp => ⟨?_, ?_⟩⟩
    · exact hf'.slots u (List.mem_append_right _ (List.mem_singleton_self u))
    · rw [prices_snoc, Finset.card_insert_of_notMem hp] at hl
      exact hl

/-- One more `ADD`. -/
theorem After.step (h : After old s₀ s G us) (ha : AddsOk (us ++ [u])) (hf : Fits old s₀.ladder us)
    (hf' : Fits old s₀.ladder (us ++ [u])) :
    ∃ s' G', s.onMarketUpdate u = .ok s' ∧ After old s₀ s' G' (us ++ [u]) := by
  have hu : u ∈ us ++ [u] := List.mem_append_right _ (List.mem_singleton_self u)
  obtain ⟨s', G', hrun, h', hshown, htook⟩ := h.holds.onMarketUpdate (ha.adds u hu) (ha.ids u hu)
    (h.priceOk ha) ((h.accepts_iff hf).mpr hf')
  refine ⟨s', G', hrun, ⟨h', ?_, ?_, ?_, htook.sizeO.trans h.sizeO, ?_, htook.sizeL.trans h.sizeL⟩⟩
  · rw [hshown, h.shown, List.foldl_append]
    rfl
  · intro p
    have hviews : G'.views = addLevels G.views (orderOf u) := congrArg Shown.levels hshown
    rw [hviews, atPrice_addLevels, h.seen, prices_snoc, Finset.mem_insert]
    rfl
  · rw [htook.orders, h.orders, List.length_append]
    rfl
  · rw [htook.levels, h.levels, prices_snoc]
    by_cases hp : u.price_ ∈ prices us
    · rw [if_pos ((h.seen _).mpr hp), Finset.insert_eq_of_mem hp]
      rfl
    · rw [if_neg fun hat => hp ((h.seen _).mp hat), Finset.card_insert_of_notMem hp]
      rfl

theorem Fits.of_snoc (h : Fits old s₀.ladder (us ++ [u])) : Fits old s₀.ladder us := by
  refine ⟨fun v hv => h.slots v (List.mem_append_left _ hv), ?_, ?_⟩
  · have := h.orders
    rw [List.length_append] at this
    omega
  · have hle : (prices us).card ≤ (prices (us ++ [u])).card := by
      rw [prices_snoc]
      exact Finset.card_le_card (Finset.subset_insert ..)
    have := h.levels
    omega

/-- **A list of `ADD`s that fits** is processed. -/
theorem after_run (s₀ : MarketOrderBook) (h₀ : Holds old s₀.ladder fun _ => [])
    (us : List MEMarketUpdate)
    (ha : AddsOk us) (hf : Fits old s₀.ladder us) :
    ∃ s G, s₀.onMarketUpdates us = .ok s ∧ After old s₀ s G us := by
  induction us using List.reverseRecOn with
  | nil =>
    refine ⟨s₀, fun _ => [], rfl, h₀, rfl, ?_, rfl, rfl, rfl, rfl⟩
    intro p
    constructor
    · rintro ⟨_, _, hv, _⟩
      exact absurd hv (by simp [Ghost.views])
    · intro hp
      exact absurd hp (by simp [prices])
  | append_singleton us u ih =>
    obtain ⟨s, G, hrun, h⟩ := ih (ha.of_prefix (List.prefix_append ..)) hf.of_snoc
    obtain ⟨s', G', hstep, h'⟩ := h.step ha hf.of_snoc hf
    exact ⟨s', G', by rw [onMarketUpdates_snoc, hrun]; exact hstep, h'⟩

/-- **A list of `ADD`s that was processed, each into a null slot or showing as it
should, fits.** -/
theorem fits_of_run (s₀ : MarketOrderBook) (h₀ : Holds old s₀.ladder fun _ => [])
    (us : List MEMarketUpdate)
    (ha : AddsOk us) (hrun : s₀.onMarketUpdates us = .ok s)
    (hshow : ∀ vs u, vs ++ [u] <+: us → ∀ s', s₀.onMarketUpdates (vs ++ [u]) = .ok s' →
      old (priceToIndex u.price_) = none ∨ ∀ b, s'.ladder.view b
        = some (((vs ++ [u]).foldl Shown.add ⟨fun _ => [], s₀.bbo_⟩).levels b)) :
    Fits old s₀.ladder us := by
  induction us using List.reverseRecOn generalizing s with
  | nil => exact ⟨by simp, h₀.core.validO.inUse_lt, h₀.core.validL.inUse_lt⟩
  | append_singleton us u ih =>
    have hall := hrun
    rw [onMarketUpdates_snoc] at hrun
    obtain ⟨s₁, hrun₁, hstep⟩ := exec_bind_ok hrun
    have hpre : us <+: us ++ [u] := List.prefix_append ..
    have hf := ih (ha.of_prefix hpre) hrun₁ fun vs v hvs => hshow vs v (hvs.trans hpre)
    obtain ⟨s₂, G, hrun₂, h⟩ := after_run s₀ h₀ us (ha.of_prefix hpre) hf
    obtain rfl : s₂ = s₁ := Except.ok.inj (hrun₂.symm.trans hrun₁)
    have hu : u ∈ us ++ [u] := List.mem_append_right _ (List.mem_singleton_self u)
    refine (h.accepts_iff hf).mp (h.holds.accepts (ha.adds u hu) (ha.ids u hu) (h.priceOk ha) hstep ?_)
    refine (hshow us u (List.prefix_refl _) s hall).imp_right fun hs b => ?_
    rw [hs b, List.foldl_append, ← h.shown]
    rfl

end Adds

/-! ## After `CLEAR` -/

/-- The update a snapshot starts a ticker with. -/
def clearUpdate (ticker_id : Nat) : MEMarketUpdate := { type_ := .CLEAR, ticker_id_ := ticker_id }

/-- `CLEAR` has no side, so the cached BBO is left as it is. -/
theorem onMarketUpdate_clear (s : MarketOrderBook) (t : Nat) :
    s.onMarketUpdate (clearUpdate t) = (do
      let l ← MarketLadder.clear s.ladder
      return { s with ladder := l }) := rfl

/-- A cleared book has no levels, and the slots it had. -/
theorem Cleared.holds {s s' : MarketLadder} {n : Nat} (h : Cleared s s' n) :
    Holds s.price_orders_at_price_ s' fun _ => [] where
  core :=
    { best := h.best
      ring := fun _ => Lib.Ring.nil
      level := by simp
      cross := by simp
      own := by simp
      usedL := by simp
      usedO := by simp
      validL := h.pools.validL
      validO := h.pools.validO }
  slot := by simp
  other := fun i _ => congrFun h.slots i

theorem holds_init : Holds (fun _ => none) MarketOrderBook.init.ladder fun _ => [] where
  core := Represents.init.core
  slot := by simp
  other := fun _ _ => rfl

/-- After `CLEAR`, step by step, the `ADD`s show what they show on a fresh book,
as far as a fresh book has room for them. -/
def RebuildsAsFresh (s : MarketOrderBook) (ticker_id : Nat) (us : List MEMarketUpdate) : Prop :=
  ∀ vs, vs <+: us → ∀ f, MarketOrderBook.init.onMarketUpdates vs = .ok f →
    ∃ m, s.onMarketUpdates (clearUpdate ticker_id :: vs) = .ok m ∧ m.observe = f.observe

/-- The state before `CLEAR` is such that nothing `CLEAR` forgets matters: the BBO
is the invalid one already, the levels can be walked, the slots of the prices to
come are null, and the blocks that stay in use leave room. -/
structure Recoverable (s : MarketOrderBook) (us : List MEMarketUpdate) : Prop where
  bbo : s.bbo_ = {}
  levels : ∃ B A, Walkable s.ladder B A ∧
    ∀ vs, vs <+: us → vs.length < ME_MAX_ORDER_IDS → (prices vs).card < ME_MAX_PRICE_LEVELS →
      (∀ u ∈ vs, s.ladder.getOrdersAtPrice u.price_ = none) ∧
      s.ladder.order_pool_.inUse + vs.length < ME_MAX_ORDER_IDS + s.ladder.named.length ∧
      s.ladder.orders_at_price_pool_.inUse + (prices vs).card
        < ME_MAX_PRICE_LEVELS + (B.length + A.length)

/-- Room after `CLEAR`, counted before it. -/
theorem Cleared.fits_iff {s : MarketOrderBook} {l : MarketLadder} {n : Nat}
    (h : Cleared s.ladder l n) (vs : List MEMarketUpdate) :
    Fits s.ladder.price_orders_at_price_ l vs ↔
      (∀ u ∈ vs, s.ladder.getOrdersAtPrice u.price_ = none) ∧
      s.ladder.order_pool_.inUse + vs.length < ME_MAX_ORDER_IDS + s.ladder.named.length ∧
      s.ladder.orders_at_price_pool_.inUse + (prices vs).card < ME_MAX_PRICE_LEVELS + n := by
  have ho := h.orders
  have hl := h.levels
  constructor
  · intro hf
    have hfo := hf.orders
    have hfl := hf.levels
    rw [h.pools.sizeO] at hfo
    rw [h.pools.sizeL] at hfl
    exact ⟨hf.slots, by omega, by omega⟩
  · rintro ⟨hs, hfo, hfl⟩
    refine ⟨hs, ?_, ?_⟩
    · rw [h.pools.sizeO]
      omega
    · rw [h.pools.sizeL]
      omega

/-- A fresh book processes what it has room for. -/
theorem fits_fresh_iff (vs : List MEMarketUpdate) :
    Fits (fun _ => none) MarketOrderBook.init.ladder vs ↔
      vs.length < ME_MAX_ORDER_IDS ∧ (prices vs).card < ME_MAX_PRICE_LEVELS := by
  have ho : MarketOrderBook.init.ladder.order_pool_.inUse = 0 := MemPool.inUse_init _ _
  have hl : MarketOrderBook.init.ladder.orders_at_price_pool_.inUse = 0 := MemPool.inUse_init _ _
  constructor
  · intro hf
    have hfo := hf.orders
    have hfl := hf.levels
    rw [ho, Nat.zero_add] at hfo
    rw [hl, Nat.zero_add] at hfl
    exact ⟨hfo, hfl⟩
  · rintro ⟨hfo, hfl⟩
    refine ⟨fun _ _ => rfl, ?_, ?_⟩
    · rw [ho, Nat.zero_add]
      exact hfo
    · rw [hl, Nat.zero_add]
      exact hfl

/-- What a book that processed fitting `ADD`s shows. -/
theorem After.observe {old : Nat → Option Nat} {s₀ s : MarketOrderBook} {G : Ghost Nat}
    {us : List MEMarketUpdate} (h : After old s₀ s G us) :
    s.observe = (some ((us.foldl Shown.add ⟨fun _ => [], s₀.bbo_⟩).levels true),
      some ((us.foldl Shown.add ⟨fun _ => [], s₀.bbo_⟩).levels false),
      (us.foldl Shown.add ⟨fun _ => [], s₀.bbo_⟩).bbo) := by
  rw [h.holds.observe, h.shown]

/-- **When recovery rebuilds the replica from scratch.** For every state a book
can reach and every list of `ADD`s with ids in range and no two different prices
in one slot: `CLEAR` and the `ADD`s show, after every step, what the `ADD`s show
on a fresh book, exactly if the state before is `Recoverable`. -/
theorem clear_rebuilds_iff {hist : List MEMarketUpdate} {s : MarketOrderBook}
    (hreach : MarketOrderBook.init.onMarketUpdates hist = .ok s) (ticker_id : Nat)
    {us : List MEMarketUpdate} (ha : AddsOk us) :
    RebuildsAsFresh s ticker_id us ↔ Recoverable s us := by
  have hpools := poolsOk_init.onMarketUpdates hreach
  constructor
  · intro h
    -- right after `CLEAR`
    obtain ⟨m, hm, hobs⟩ := h [] List.nil_prefix _ rfl
    obtain ⟨m₁, hclear, hm⟩ := exec_bind_ok hm
    obtain rfl := Except.ok.inj hm
    rw [onMarketUpdate_clear] at hclear
    obtain ⟨l, hl, hm⟩ := exec_bind_ok hclear
    obtain rfl := Except.ok.inj hm
    have hbbo : s.bbo_ = {} := congrArg (fun x => x.2.2) hobs
    obtain ⟨B, A, hw, hc⟩ := clear_inv hpools hl
    refine ⟨hbbo, B, A, hw, fun vs hvs hlen hcard => ?_⟩
    refine (hc.fits_iff vs).mp ?_
    have hrun : ∀ ws, s.onMarketUpdates (clearUpdate ticker_id :: ws)
        = ({ s with ladder := l } : MarketOrderBook).onMarketUpdates ws := by
      intro ws
      rw [MarketOrderBook.onMarketUpdates, onMarketUpdate_clear, hl]
      rfl
    -- a prefix of what fits a fresh book fits it, and shows there
    have hfresh : ∀ ws, ws <+: vs → ∃ f G, MarketOrderBook.init.onMarketUpdates ws = .ok f ∧
        After (fun _ => none) MarketOrderBook.init f G ws := by
      intro ws hws
      refine after_run _ holds_init ws (ha.of_prefix (hws.trans hvs)) ((fits_fresh_iff ws).mpr ⟨?_, ?_⟩)
      · exact Nat.lt_of_le_of_lt hws.length_le hlen
      · refine Nat.lt_of_le_of_lt (Finset.card_le_card ?_) hcard
        intro p hp
        exact List.mem_toFinset.mpr (List.map_subset _ hws.subset (List.mem_toFinset.mp hp))
    obtain ⟨f, _, hf, _⟩ := hfresh vs (List.prefix_refl _)
    obtain ⟨m, hm, _⟩ := h vs hvs f hf
    rw [hrun] at hm
    refine fits_of_run { s with ladder := l } hc.holds vs (ha.of_prefix hvs) hm ?_
    intro ws u hws s' hs'
    obtain ⟨f, G, hf, hafter⟩ := hfresh _ hws
    obtain ⟨m, hm, hobs⟩ := h _ (hws.trans hvs) f hf
    rw [hrun] at hm
    obtain rfl : m = s' := Except.ok.inj (hm.symm.trans hs')
    rw [hafter.observe] at hobs
    refine Or.inr fun b => ?_
    rw [show ({ s with ladder := l } : MarketOrderBook).bbo_ = MarketOrderBook.init.bbo_ from hbbo]
    cases b
    · exact congrArg (fun x => x.2.1) hobs
    · exact congrArg (fun x => x.1) hobs
  · rintro ⟨hbbo, B, A, hw, hroom⟩ vs hvs f hf
    obtain ⟨l, hl, hc⟩ := clear_spec hpools hw
    have hfits := fits_of_run _ holds_init vs (ha.of_prefix hvs) hf fun _ _ _ _ _ => Or.inl rfl
    obtain ⟨f', G, hf', hafter⟩ := after_run _ holds_init vs (ha.of_prefix hvs) hfits
    obtain rfl : f' = f := Except.ok.inj (hf'.symm.trans hf)
    obtain ⟨hlen, hcard⟩ := (fits_fresh_iff vs).mp hfits
    obtain ⟨m, G', hm, hafter'⟩ := after_run { s with ladder := l } hc.holds vs
      (ha.of_prefix hvs) ((hc.fits_iff vs).mpr (hroom vs hvs hlen hcard))
    refine ⟨m, ?_, ?_⟩
    · rw [MarketOrderBook.onMarketUpdates, onMarketUpdate_clear, hl]
      exact hm
    · rw [hafter'.observe, hafter.observe,
        show ({ s with ladder := l } : MarketOrderBook).bbo_ = MarketOrderBook.init.bbo_ from hbbo]

/-- A book that was used and is empty again. -/
theorem clear_rebuilds_iff_small : ∃ s,
    MarketOrderBook.init.onMarketUpdates [⟨.ADD, 1, 0, .BUY, 100, 10, 1⟩,
      ⟨.CANCEL, 1, 0, .BUY, 100, 0, 1⟩] = .ok s ∧
    (RebuildsAsFresh s 0 [⟨.ADD, 2, 0, .BUY, 100, 5, 1⟩] ↔
      Recoverable s [⟨.ADD, 2, 0, .BUY, 100, 5, 1⟩]) := by
  obtain ⟨s, hs⟩ : ∃ s, MarketOrderBook.init.onMarketUpdates [⟨.ADD, 1, 0, .BUY, 100, 10, 1⟩,
      ⟨.CANCEL, 1, 0, .BUY, 100, 0, 1⟩] = .ok s := ⟨_, rfl⟩
  exact ⟨s, hs, clear_rebuilds_iff hs 0 ⟨by decide, by decide, by decide⟩⟩

/-- One bid at 100, `CLEAR`, and another bid at 100. After `CLEAR` the BBO still
shows the old bid; the new one is appended to the freed level and is on neither
side. -/
theorem clear_rebuilds_not : ∃ s,
    MarketOrderBook.init.onMarketUpdates [⟨.ADD, 1, 0, .BUY, 100, 10, 1⟩] = .ok s ∧
    (∀ m, s.onMarketUpdates [clearUpdate 0] = .ok m → m.bbo_ = ⟨100, Price_INVALID, 10, Qty_INVALID⟩) ∧
    (∀ m, s.onMarketUpdates [clearUpdate 0, ⟨.ADD, 2, 0, .BUY, 100, 5, 1⟩] = .ok m →
      m.ladder.view true = some []) ∧
    AddsOk [⟨.ADD, 2, 0, .BUY, 100, 5, 1⟩] ∧
    ¬ RebuildsAsFresh s 0 [⟨.ADD, 2, 0, .BUY, 100, 5, 1⟩] := by
  obtain ⟨s, hs, hbbo, hslot⟩ : ∃ s,
      MarketOrderBook.init.onMarketUpdates [⟨.ADD, 1, 0, .BUY, 100, 10, 1⟩] = .ok s ∧
      s.bbo_ = ⟨100, Price_INVALID, 10, Qty_INVALID⟩ ∧
      s.ladder.price_orders_at_price_ (priceToIndex 100) = some 0 := ⟨_, rfl, rfl, rfl⟩
  have hcleared : ∀ {m}, s.onMarketUpdate (clearUpdate 0) = .ok m → m.bbo_ = s.bbo_ ∧
      ∃ n, Cleared s.ladder m.ladder n := by
    intro m hm
    rw [onMarketUpdate_clear] at hm
    obtain ⟨l, hl, hm⟩ := exec_bind_ok hm
    obtain rfl := Except.ok.inj hm
    obtain ⟨B, A, _, hc⟩ := clear_inv (poolsOk_init.onMarketUpdates hs) hl
    exact ⟨rfl, _, hc⟩
  refine ⟨s, hs, ?_, ?_, ⟨by decide, by decide, by decide⟩, ?_⟩
  · intro m hm
    obtain ⟨m₁, hclear, hm⟩ := exec_bind_ok hm
    obtain rfl := Except.ok.inj hm
    exact (hcleared hclear).1.trans hbbo
  · intro m hm
    obtain ⟨m₁, hclear, hm⟩ := exec_bind_ok hm
    obtain ⟨m₂, hadd, hm⟩ := exec_bind_ok hm
    obtain rfl := Except.ok.inj hm
    obtain ⟨_, n, hc⟩ := hcleared hclear
    obtain ⟨l, hl, ⟨ht, _⟩ | ⟨_, he⟩⟩ := onMarketUpdate_inv hadd
    · exact absurd ht (by decide)
    · have hlost := hc.holds.add_lost (d := orderOf ⟨.ADD, 2, 0, .BUY, 100, 5, 1⟩) (by decide)
        (fun _ _ hg => absurd hg (by simp)) (fun hacc => ?_) hl
      · rw [he]
        unfold Ladder.view
        rw [hlost.2.2.1, hc.best]
      · have hnull := (hacc.2 fun ⟨_, _, hv, _⟩ => absurd hv (by simp [Ghost.views])).1
        exact absurd (hslot.symm.trans hnull) (by simp)
  · intro h
    obtain ⟨m, hm, hobs⟩ := h [] List.nil_prefix _ rfl
    obtain ⟨m₁, hclear, hm⟩ := exec_bind_ok hm
    obtain rfl := Except.ok.inj hm
    have hb : m₁.bbo_ = {} := congrArg (fun x => x.2.2) hobs
    rw [(hcleared hclear).1, hbbo] at hb
    exact absurd hb (by decide)

end LowLatency
