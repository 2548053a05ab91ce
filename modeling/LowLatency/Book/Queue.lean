import LowLatency.Book.HeapRemove
import LowLatency.Lib.PriceTime
import Mathlib.Data.List.Dedup

/-!
# A book as two queues

What a ladder is for, with no pointer left: each side one list of orders in
price-time order. `Book.rest`, `Book.removeIdx` and `Book.setQtyIdx` are the
three things that ever happen to it.

`bookOf G` reads a ghost book that way, level after level. On a side whose
levels are sorted and agree with their orders (`SideOk`) each list operation of
`Heap` is one of the three: joining a level's tail and opening a level are both
`queueInsert`, because what stands in front is not worse and what stands behind
is. `levelsOf` goes the other way and cuts a queue into its levels; a `SideOk`
side is recovered from its queue (`levelsOf_flat`).
-/

namespace LowLatency

open Lib (Better queueInsert)

variable {K I : Type}

/-- Both sides of a book, `true` for the bids. -/
abbrev Book (K : Type) := Bool → List (OrderData K)

namespace Book

def empty : Book K := fun _ => []

/-- Order `d` comes to rest behind its price. -/
def rest (B : Book K) (d : OrderData K) : Book K :=
  Function.update B (Ladder.isBid d.side_)
    (queueInsert (Ladder.isBid d.side_) OrderData.price_ d (B (Ladder.isBid d.side_)))

/-- The orders with index `i` leave. -/
def removeIdx [OrderKey K I] [DecidableEq I] (B : Book K) (i : I) : Book K :=
  fun b => (B b).filter fun o => decide (idx o.id_ ≠ i)

/-- The orders with index `i` get quantity `q`. -/
def setQtyIdx [OrderKey K I] [DecidableEq I] (B : Book K) (i : I) (q : Nat) : Book K :=
  fun b => (B b).map fun o => if idx o.id_ = i then { o with qty_ := q } else o

/-- The number of resting orders. -/
def live (B : Book K) : Nat := (B true).length + (B false).length

/-- The number of price levels. -/
def levels (B : Book K) : Nat :=
  ((B true).map OrderData.price_).dedup.length + ((B false).map OrderData.price_).dedup.length

/-- No order is in the way of a price's slot, be it at another price or on the
other side. -/
def SlotFits (B : Book K) (side : Side) (price : Int) : Prop :=
  ∀ b, ∀ o ∈ B b, priceToIndex o.price_ = priceToIndex price →
    b = Ladder.isBid side ∧ o.price_ = price

theorem mem_rest {B : Book K} {d o : OrderData K} {b : Bool} :
    o ∈ B.rest d b ↔ (b = Ladder.isBid d.side_ ∧ o = d) ∨ o ∈ B b := by
  unfold rest
  by_cases hb : b = Ladder.isBid d.side_
  · subst hb
    rw [Function.update_self, Lib.mem_queueInsert]
    simp
  · rw [Function.update_of_ne hb]
    simp [hb]

theorem live_rest (B : Book K) (d : OrderData K) : (B.rest d).live = B.live + 1 := by
  have hlen : ∀ b, (queueInsert b OrderData.price_ d (B b)).length = (B b).length + 1 :=
    fun b => (Lib.perm_queueInsert (B b)).length_eq
  unfold live rest
  cases Ladder.isBid d.side_ <;> simp [Function.update, hlen] <;> omega

/-- A new price is one more level. -/
theorem levels_rest_of_new {B : Book K} {d : OrderData K}
    (h : ∀ b, ∀ o ∈ B b, o.price_ ≠ d.price_) : (B.rest d).levels = B.levels + 1 := by
  have hlen : ∀ b, ((queueInsert b OrderData.price_ d (B b)).map OrderData.price_).dedup.length
      = ((B b).map OrderData.price_).dedup.length + 1 := by
    intro b
    have hnot : d.price_ ∉ (B b).map OrderData.price_ := by
      intro hm
      obtain ⟨o, ho, he⟩ := List.mem_map.mp hm
      exact h b o ho he
    have hperm : (queueInsert b OrderData.price_ d (B b)).Perm (d :: B b) :=
      Lib.perm_queueInsert (B b)
    have hp := (hperm.map OrderData.price_).dedup
    rw [hp.length_eq, List.map_cons, List.dedup_cons_of_notMem hnot, List.length_cons]
  unfold levels rest
  cases Ladder.isBid d.side_ <;> simp [Function.update, hlen] <;> omega

/-- Fewer prices, fewer levels. -/
theorem levels_mono {B B' : Book K} (h : ∀ b, ∀ o ∈ B' b, ∃ o' ∈ B b, o'.price_ = o.price_) :
    B'.levels ≤ B.levels := by
  have hside : ∀ b, ((B' b).map OrderData.price_).dedup.length
      ≤ ((B b).map OrderData.price_).dedup.length := by
    intro b
    refine ((List.nodup_dedup _).subperm ?_).length_le
    intro p hp
    obtain ⟨o, ho, rfl⟩ := List.mem_map.mp (List.mem_dedup.mp hp)
    obtain ⟨o', ho', he⟩ := h b o ho
    exact List.mem_dedup.mpr (List.mem_map.mpr ⟨o', ho', he⟩)
  exact Nat.add_le_add (hside true) (hside false)

/-- A relation between earlier and later orders survives an order coming to
rest if that order stands in it to those on either side. -/
theorem pairwise_rest {B : Book K} {d : OrderData K} {b : Bool}
    {R : OrderData K → OrderData K → Prop}
    (hs : ∀ b, Lib.QueueSorted b OrderData.price_ (B b)) (hR : (B b).Pairwise R)
    (hfront : b = Ladder.isBid d.side_ → ∀ o ∈ B b, ¬ Better b d.price_ o.price_ → R o d)
    (hback : b = Ladder.isBid d.side_ → ∀ o ∈ B b, Better b d.price_ o.price_ → R d o) :
    (B.rest d b).Pairwise R := by
  unfold rest
  by_cases hb : b = Ladder.isBid d.side_
  · subst hb
    rw [Function.update_self]
    exact Lib.pairwise_queueInsert (hs _) hR (hfront rfl) (hback rfl)
  · rw [Function.update_of_ne hb]
    exact hR

end Book

/-! ## The head of a queue -/

section Head

variable {K I : Type} [OrderKey K I] [DecidableEq I] {B : Book K} {b : Bool} {d : OrderData K}
  {ds : List (OrderData K)}

/-- Taking out the head by its index. -/
theorem removeIdx_head (hB : B b = d :: ds) (hds : ∀ o ∈ ds, idx o.id_ ≠ idx d.id_)
    (hother : ∀ b', b' ≠ b → ∀ o ∈ B b', idx o.id_ ≠ idx d.id_) :
    B.removeIdx (idx d.id_) = Function.update B b ds := by
  funext b'
  unfold Book.removeIdx
  by_cases hb : b' = b
  · subst hb
    rw [Function.update_self, hB, List.filter_cons_of_neg (by simp)]
    exact List.filter_eq_self.mpr fun o ho => decide_eq_true (hds o ho)
  · rw [Function.update_of_ne hb]
    exact List.filter_eq_self.mpr fun o ho => decide_eq_true (hother b' hb o ho)

/-- Writing the head's quantity by its index. -/
theorem setQtyIdx_head (hB : B b = d :: ds) (hds : ∀ o ∈ ds, idx o.id_ ≠ idx d.id_)
    (hother : ∀ b', b' ≠ b → ∀ o ∈ B b', idx o.id_ ≠ idx d.id_) (q : Nat) :
    B.setQtyIdx (idx d.id_) q = Function.update B b ({ d with qty_ := q } :: ds) := by
  have hkeep : ∀ l : List (OrderData K), (∀ o ∈ l, idx o.id_ ≠ idx d.id_) →
      (l.map fun o => if idx o.id_ = idx d.id_ then { o with qty_ := q } else o) = l := by
    intro l hl
    refine (List.map_congr_left fun o ho => ?_).trans (List.map_id l)
    rw [if_neg (hl o ho)]
    rfl
  funext b'
  unfold Book.setQtyIdx
  by_cases hb : b' = b
  · subst hb
    rw [Function.update_self, hB, List.map_cons, if_pos rfl, hkeep ds hds]
  · rw [Function.update_of_ne hb]
    exact hkeep _ (hother b' hb)

end Head

/-! ## Queues and their levels -/

/-- Order `o` in front of the levels behind it. -/
def pushOrder (o : OrderData K) : List (Ladder.LevelView K) → List (Ladder.LevelView K)
  | [] => [⟨o.side_, o.price_, [o]⟩]
  | v :: vs =>
    if v.price_ = o.price_ then ⟨v.side_, v.price_, o :: v.orders⟩ :: vs
    else ⟨o.side_, o.price_, [o]⟩ :: v :: vs

/-- A queue cut where its price changes. -/
def levelsOf (l : List (OrderData K)) : List (Ladder.LevelView K) := l.foldr pushOrder []

theorem flatMap_pushOrder (o : OrderData K) (vs : List (Ladder.LevelView K)) :
    (pushOrder o vs).flatMap Ladder.LevelView.orders
      = o :: vs.flatMap Ladder.LevelView.orders := by
  cases vs with
  | nil => rfl
  | cons v vs =>
    rw [pushOrder]
    split <;> rfl

/-- Nothing is lost in the cut. -/
theorem flatMap_levelsOf (l : List (OrderData K)) :
    (levelsOf l).flatMap Ladder.LevelView.orders = l := by
  induction l with
  | nil => rfl
  | cons o l ih =>
    show (pushOrder o (levelsOf l)).flatMap _ = o :: l
    rw [flatMap_pushOrder, ih]

/-- A run of orders at one price in front of another price is a level. -/
theorem levelsOf_append (side : Side) (price : Int) {rest : List (OrderData K)}
    (hrest : ∀ v ∈ (levelsOf rest).head?, v.price_ ≠ price) : ∀ {os : List (OrderData K)},
    os ≠ [] → (∀ o ∈ os, o.side_ = side ∧ o.price_ = price) →
    levelsOf (os ++ rest) = ⟨side, price, os⟩ :: levelsOf rest
  | [], h, _ => absurd rfl h
  | [o], _, ho => by
    obtain ⟨rfl, rfl⟩ := ho o (List.mem_singleton_self o)
    show pushOrder o (levelsOf rest) = _
    cases hl : levelsOf rest with
    | nil => rfl
    | cons v vs => rw [pushOrder, if_neg (hrest v (by simp [hl]))]
  | o :: o' :: os, _, ho => by
    have ih := levelsOf_append _ _ hrest (List.cons_ne_nil o' os)
      fun x hx => ho x (List.mem_cons_of_mem _ hx)
    show pushOrder o (levelsOf (o' :: os ++ rest)) = _
    rw [ih, pushOrder, if_pos (ho o (List.mem_cons_self ..)).2.symm]

/-! ## Reading the ghost lists -/

/-- The orders of a side, level after level, with their addresses. -/
def flat (L : List (LevelG K)) : List (Nat × OrderData K) := L.flatMap LevelG.orders

def bookOf (G : Ghost K) : Book K := fun b => (flat (G b)).map Prod.snd

/-- What a reader sees of a level. -/
def LevelG.view (g : LevelG K) : Ladder.LevelView K := ⟨g.side, g.price, g.orders.map Prod.snd⟩

@[simp] theorem flat_nil : flat ([] : List (LevelG K)) = [] := rfl

@[simp] theorem flat_cons (g : LevelG K) (L : List (LevelG K)) :
    flat (g :: L) = g.orders ++ flat L := rfl

@[simp] theorem flat_append (A B : List (LevelG K)) : flat (A ++ B) = flat A ++ flat B :=
  List.flatMap_append ..

theorem mem_flat {L : List (LevelG K)} {o : Nat × OrderData K} :
    o ∈ flat L ↔ ∃ g ∈ L, o ∈ g.orders := List.mem_flatMap

theorem mem_bookOf {G : Ghost K} {b : Bool} {d : OrderData K} :
    d ∈ bookOf G b ↔ ∃ g ∈ G b, ∃ p, (p, d) ∈ g.orders := by
  unfold bookOf
  rw [List.mem_map]
  constructor
  · rintro ⟨⟨p, _⟩, ho, rfl⟩
    obtain ⟨g, hg, ho⟩ := mem_flat.mp ho
    exact ⟨g, hg, p, ho⟩
  · rintro ⟨g, hg, p, ho⟩
    exact ⟨(p, d), mem_flat.mpr ⟨g, hg, ho⟩, rfl⟩

/-- The side a list of levels belongs to. -/
def sideOf (b : Bool) : Side := if b then .BUY else .SELL

@[simp] theorem isBid_sideOf (b : Bool) : Ladder.isBid (sideOf b) = b := by cases b <;> rfl

/-- `BUY` and `SELL` are the sides of the two lists. -/
theorem sideOf_isBid {s : Side} (h : s = .BUY ∨ s = .SELL) : sideOf (Ladder.isBid s) = s := by
  rcases h with rfl | rfl <;> rfl

theorem addAfter_sideOf (b : Bool) (p q : Int) :
    Ladder.addAfter (sideOf b) p q = decide (Better b q p) := by
  cases b <;> simp [Ladder.addAfter, sideOf, Better]

theorem addBefore_sideOf (b : Bool) (p q : Int) :
    Ladder.addBefore (sideOf b) p q = decide (Better b p q) := by
  cases b <;> simp [Ladder.addBefore, sideOf, Better]

/-- A side with its levels sorted, best first, and every order at home. -/
structure SideOk (b : Bool) (L : List (LevelG K)) : Prop where
  sorted : L.Pairwise fun g g' => Better b g.price g'.price
  side : ∀ g ∈ L, g.side = sideOf b
  orders : ∀ g ∈ L, ∀ o ∈ g.orders, o.2.side_ = sideOf b ∧ o.2.price_ = g.price

section SideOk

variable {b : Bool} {L : List (LevelG K)}

theorem SideOk.nil : SideOk b ([] : List (LevelG K)) :=
  ⟨List.Pairwise.nil, by simp, by simp⟩

theorem SideOk.tail {g : LevelG K} (h : SideOk b (g :: L)) : SideOk b L :=
  ⟨(List.pairwise_cons.mp h.sorted).2, fun g' hg' => h.side g' (List.mem_cons_of_mem _ hg'),
    fun g' hg' => h.orders g' (List.mem_cons_of_mem _ hg')⟩

/-- Changing a side level by level, each price and side kept. -/
theorem SideOk.map {f : LevelG K → LevelG K} (h : SideOk b L) (hs : ∀ g ∈ L, (f g).side = g.side)
    (hp : ∀ g ∈ L, (f g).price = g.price)
    (ho : ∀ g ∈ L, ∀ o ∈ (f g).orders, o.2.side_ = sideOf b ∧ o.2.price_ = g.price) :
    SideOk b (L.map f) where
  sorted := by
    rw [List.pairwise_map]
    refine List.Pairwise.imp_of_mem ?_ h.sorted
    intro g g' hg hg' hb
    rw [hp g hg, hp g' hg']
    exact hb
  side := by
    intro g' hg'
    obtain ⟨g, hg, rfl⟩ := List.mem_map.mp hg'
    exact (hs g hg).trans (h.side g hg)
  orders := by
    intro g' hg' o hgo
    obtain ⟨g, hg, rfl⟩ := List.mem_map.mp hg'
    rw [hp g hg]
    exact ho g hg o hgo

theorem SideOk.sublist {L' : List (LevelG K)} (h : SideOk b L) (hs : L'.Sublist L) : SideOk b L' :=
  ⟨h.sorted.sublist hs, fun g hg => h.side g (hs.subset hg), fun g hg => h.orders g (hs.subset hg)⟩

/-- Two levels of one price are one. -/
theorem SideOk.price_inj (h : SideOk b L) {g g' : LevelG K} (hg : g ∈ L) (hg' : g' ∈ L)
    (he : g.price = g'.price) : g = g' := by
  have hpw : L.Pairwise fun g g' => g.price ≠ g'.price := h.sorted.imp Lib.Better.ne
  exact List.inj_on_of_nodup_map (List.pairwise_map.mpr hpw) hg hg' he

/-- The levels in front of a split are better than those behind it. -/
theorem SideOk.split {A B : List (LevelG K)} {g : LevelG K} (h : SideOk b (A ++ g :: B)) :
    (∀ g' ∈ A, Better b g'.price g.price) ∧ (∀ g' ∈ B, Better b g.price g'.price) := by
  have hs := List.pairwise_append.mp h.sorted
  exact ⟨fun g' hg' => hs.2.2 g' hg' g (List.mem_cons_self ..), (List.pairwise_cons.mp hs.2.1).1⟩

/-- Exchanging a level's orders for others at home there. -/
theorem SideOk.replace {A B : List (LevelG K)} {g : LevelG K} (h : SideOk b (A ++ g :: B))
    {os : List (Nat × OrderData K)}
    (hos : ∀ o ∈ os, o.2.side_ = sideOf b ∧ o.2.price_ = g.price) :
    SideOk b (A ++ { g with orders := os } :: B) := by
  obtain ⟨hA, hB⟩ := h.split
  have hs := List.pairwise_append.mp h.sorted
  have hmem : ∀ g' ∈ A ++ { g with orders := os } :: B,
      g' = { g with orders := os } ∨ g' ∈ A ++ g :: B := by
    intro g' hg'
    simp only [List.mem_append, List.mem_cons] at hg' ⊢
    tauto
  refine ⟨List.pairwise_append.mpr ⟨hs.1, List.pairwise_cons.mpr ⟨hB, ?_⟩, ?_⟩, ?_, ?_⟩
  · exact (List.pairwise_cons.mp hs.2.1).2
  · intro g₁ hg₁ g₂ hg₂
    rcases List.mem_cons.mp hg₂ with rfl | hg₂
    · exact hA g₁ hg₁
    · exact hs.2.2 g₁ hg₁ g₂ (List.mem_cons_of_mem _ hg₂)
  · intro g' hg'
    rcases hmem g' hg' with rfl | hg'
    · exact h.side g (by simp)
    · exact h.side g' hg'
  · intro g' hg' o ho
    rcases hmem g' hg' with rfl | hg'
    · exact hos o ho
    · exact h.orders g' hg' o ho

/-- **Recovering the levels** of a side from its queue. -/
theorem levelsOf_flat (h : SideOk b L) (hne : ∀ g ∈ L, g.orders ≠ []) :
    levelsOf ((flat L).map Prod.snd) = L.map LevelG.view := by
  induction L with
  | nil => rfl
  | cons g L ih =>
    have ih := ih h.tail fun g' hg' => hne g' (List.mem_cons_of_mem _ hg')
    rw [flat_cons, List.map_append, levelsOf_append (sideOf b) g.price, ih,
      List.map_cons]
    · rw [LevelG.view, h.side g (List.mem_cons_self ..)]
    · intro v hv
      rw [ih] at hv
      obtain ⟨g', hg', rfl⟩ := List.mem_map.mp (List.mem_of_mem_head? hv)
      exact ((List.pairwise_cons.mp h.sorted).1 g' hg').ne.symm
    · simpa using hne g (List.mem_cons_self ..)
    · intro d hd
      obtain ⟨o, ho, rfl⟩ := List.mem_map.mp hd
      exact h.orders g (List.mem_cons_self ..) o ho

/-- The prices of a side's levels are the prices of its orders. -/
theorem SideOk.prices (h : SideOk b L) (hne : ∀ g ∈ L, g.orders ≠ []) :
    ((flat L).map fun o => o.2.price_).dedup.length = L.length := by
  have hnd : (L.map LevelG.price).Nodup := by
    unfold List.Nodup
    rw [List.pairwise_map]
    exact h.sorted.imp Lib.Better.ne
  have hmem : ∀ p, p ∈ ((flat L).map fun o => o.2.price_).dedup ↔ p ∈ L.map LevelG.price := by
    intro p
    rw [List.mem_dedup, List.mem_map, List.mem_map]
    constructor
    · rintro ⟨o, ho, rfl⟩
      obtain ⟨g, hg, ho⟩ := mem_flat.mp ho
      exact ⟨g, hg, (h.orders g hg o ho).2.symm⟩
    · rintro ⟨g, hg, rfl⟩
      obtain ⟨o, ho⟩ := List.exists_mem_of_ne_nil _ (hne g hg)
      exact ⟨o, mem_flat.mpr ⟨g, hg, ho⟩, (h.orders g hg o ho).2⟩
  rw [((List.perm_ext_iff_of_nodup (List.nodup_dedup _) hnd).mpr hmem).length_eq, List.length_map]

/-- Joining a level's tail is joining the queue. -/
theorem queueInsert_level {A B : List (LevelG K)} {g : LevelG K} {x : Nat × OrderData K}
    (h : SideOk b (A ++ g :: B)) (hx : x.2.price_ = g.price) :
    queueInsert b OrderData.price_ x.2 ((flat (A ++ g :: B)).map Prod.snd)
      = (flat A ++ (g.orders ++ [x]) ++ flat B).map Prod.snd := by
  obtain ⟨hA, hB⟩ := h.split
  have hfront : ∀ o ∈ (flat A ++ g.orders).map Prod.snd, ¬ Better b x.2.price_ o.price_ := by
    intro d hd
    obtain ⟨o, ho, rfl⟩ := List.mem_map.mp hd
    rw [hx]
    rcases List.mem_append.mp ho with ho | ho
    · obtain ⟨g', hg', ho⟩ := mem_flat.mp ho
      rw [(h.orders g' (by simp [hg']) o ho).2]
      exact (hA g' hg').asymm
    · rw [(h.orders g (by simp) o ho).2]
      exact Lib.Better.irrefl
  have hback : ∀ o ∈ (flat B).map Prod.snd, Better b x.2.price_ o.price_ := by
    intro d hd
    obtain ⟨o, ho, rfl⟩ := List.mem_map.mp hd
    obtain ⟨g', hg', ho⟩ := mem_flat.mp ho
    rw [hx, (h.orders g' (by simp [hg']) o ho).2]
    exact hB g' hg'
  rw [flat_append, flat_cons, ← List.append_assoc, List.map_append, Lib.queueInsert_append hfront,
    Lib.queueInsert_of_better hback]
  simp

/-- **Where a new level goes** on a sorted side: between better and worse. -/
theorem insertLevel_sorted {n : LevelG K}
    (h : L.Pairwise fun g g' => Better b g.price g'.price) (hn : n.side = sideOf b)
    (hne : ∀ g ∈ L, g.price ≠ n.price) :
    ∃ A B, L = A ++ B ∧ insertLevel n L = A ++ n :: B ∧
      (∀ g ∈ A, Better b g.price n.price) ∧ (∀ g ∈ B, Better b n.price g.price) := by
  have hscan : ∀ {L : List (LevelG K)}, (L.Pairwise fun g g' => Better b g.price g'.price) →
      (∀ g ∈ L, g.price ≠ n.price) → ∃ A B, L = A ++ B ∧ insertScan n L = A ++ n :: B ∧
        (∀ g ∈ A, Better b g.price n.price) ∧ (∀ g ∈ B, Better b n.price g.price) := by
    intro L h hne
    induction L with
    | nil => exact ⟨[], [], rfl, rfl, by simp, by simp⟩
    | cons y ys ih =>
      rw [insertScan, hn, addAfter_sideOf]
      by_cases hy : Better b y.price n.price
      · obtain ⟨A, B, he, hi, hA, hB⟩ := ih (List.pairwise_cons.mp h).2
          fun g hg => hne g (List.mem_cons_of_mem _ hg)
        refine ⟨y :: A, B, by rw [he]; rfl, ?_, ?_, hB⟩
        · rw [if_pos (decide_eq_true hy), hi]
          rfl
        · intro g hg
          rcases List.mem_cons.mp hg with rfl | hg
          · exact hy
          · exact hA g hg
      · have hny := Lib.Better.of_ne hy (hne y (List.mem_cons_self ..))
        refine ⟨[], y :: ys, rfl, by rw [if_neg (by simpa using hy)]; rfl, by simp, ?_⟩
        intro g hg
        rcases List.mem_cons.mp hg with rfl | hg
        · exact hny
        · exact hny.trans ((List.pairwise_cons.mp h).1 g hg)
  -- the best level is looked at first, with a test of its own for "in front"
  cases L with
  | nil => exact ⟨[], [], rfl, rfl, by simp, by simp⟩
  | cons y ys =>
    obtain ⟨A, B, he, hi, hA, hB⟩ := hscan h hne
    refine ⟨A, B, he, ?_, hA, hB⟩
    rw [← hi, insertLevel, insertScan, hn, addAfter_sideOf, addBefore_sideOf]
    by_cases hy : Better b y.price n.price
    · rw [if_pos (decide_eq_true hy), if_pos (decide_eq_true hy)]
    · have hny := Lib.Better.of_ne hy (hne y (List.mem_cons_self ..))
      rw [if_neg (by simpa using hy), if_pos (decide_eq_true hny), if_neg (by simpa using hy)]

/-- Opening a level keeps the side sorted and is joining the queue. -/
theorem SideOk.insertLevel {n : LevelG K} {x : Nat × OrderData K} (h : SideOk b L)
    (hn : n.side = sideOf b) (hx : n.orders = [x])
    (hxp : x.2.price_ = n.price) (hxs : x.2.side_ = sideOf b) (hne : ∀ g ∈ L, g.price ≠ n.price) :
    SideOk b (LowLatency.insertLevel n L) ∧
      (flat (LowLatency.insertLevel n L)).map Prod.snd
        = queueInsert b OrderData.price_ x.2 ((flat L).map Prod.snd) := by
  obtain ⟨A, B, rfl, hi, hA, hB⟩ := insertLevel_sorted h.sorted hn hne
  have hs := List.pairwise_append.mp h.sorted
  have hok : SideOk b (A ++ n :: B) := by
    refine ⟨List.pairwise_append.mpr ⟨hs.1, List.pairwise_cons.mpr ⟨hB, hs.2.1⟩, ?_⟩, ?_, ?_⟩
    · intro g hg g' hg'
      rcases List.mem_cons.mp hg' with rfl | hg'
      · exact hA g hg
      · exact hs.2.2 g hg g' hg'
    · intro g hg
      rcases List.mem_append.mp hg with hg | hg
      · exact h.side g (by simp [hg])
      · rcases List.mem_cons.mp hg with rfl | hg
        · exact hn
        · exact h.side g (by simp [hg])
    · intro g hg o ho
      rcases List.mem_append.mp hg with hg | hg
      · exact h.orders g (by simp [hg]) o ho
      · rcases List.mem_cons.mp hg with rfl | hg
        · rw [hx, List.mem_singleton] at ho
          subst ho
          exact ⟨hxs, hxp⟩
        · exact h.orders g (by simp [hg]) o ho
  refine ⟨hi ▸ hok, ?_⟩
  -- the same split, read with an empty level at the new price
  have h₀ : SideOk b (A ++ { n with orders := [] } :: B) := hok.replace (by simp)
  have hq := queueInsert_level h₀ hxp
  rw [hi]
  simpa [hx] using hq.symm

theorem flat_removeFrom (p : Nat) : ∀ L : List (LevelG K),
    flat (removeFrom p L) = (flat L).filter fun o => decide (o.1 ≠ p)
  | [] => rfl
  | g :: L => by
    have ih := flat_removeFrom p L
    unfold removeFrom at ih ⊢
    rw [List.map_cons, List.filter_cons, flat_cons, List.filter_append, ← ih]
    split
    · rfl
    next hempty =>
      have hnil : (g.orders.filter fun o => decide (o.1 ≠ p)) = [] := by
        by_contra hne
        exact hempty (decide_eq_true fun he => hne (List.map_eq_nil_iff.mp he))
      rw [hnil]
      rfl

theorem mem_flat_remove {G : Ghost K} {p : Nat} {b : Bool} {o : Nat × OrderData K} :
    o ∈ flat ((G.remove p) b) ↔ o ∈ flat (G b) ∧ o.1 ≠ p := by
  unfold Ghost.remove
  rw [flat_removeFrom, List.mem_filter, decide_eq_true_iff]

theorem SideOk.removeFrom (h : SideOk b L) (p : Nat) : SideOk b (LowLatency.removeFrom p L) := by
  have hmap := h.map (f := fun g => { g with orders := g.orders.filter fun o => decide (o.1 ≠ p) })
    (fun _ _ => rfl) (fun _ _ => rfl)
    (fun g hg o ho => h.orders g hg o (List.mem_of_mem_filter ho))
  exact hmap.sublist List.filter_sublist

theorem flat_setQty (G : Ghost K) (p q : Nat) (b : Bool) :
    flat ((G.setQty p q) b)
      = (flat (G b)).map fun o => if o.1 = p then (o.1, { o.2 with qty_ := q }) else o := by
  unfold Ghost.setQty flat
  rw [List.flatMap_map, List.map_flatMap]

theorem mem_flat_setQty {G : Ghost K} {p q : Nat} {b : Bool} {o : Nat × OrderData K} :
    o ∈ flat ((G.setQty p q) b) ↔ ∃ o₀ ∈ flat (G b),
      (if o₀.1 = p then (o₀.1, { o₀.2 with qty_ := q }) else o₀) = o := by
  rw [flat_setQty, List.mem_map]

theorem mem_flat_setQty_self {G : Ghost K} {p : Nat} {b : Bool} {d : OrderData K}
    (h : (p, d) ∈ flat (G b)) (q : Nat) :
    (p, { d with qty_ := q }) ∈ flat ((G.setQty p q) b) :=
  mem_flat_setQty.mpr ⟨(p, d), h, if_pos rfl⟩

theorem SideOk.setQty {G : Ghost K} (h : SideOk b (G b)) (p q : Nat) :
    SideOk b ((G.setQty p q) b) := by
  refine h.map (fun _ _ => rfl) (fun _ _ => rfl) ?_
  intro g hg o ho
  obtain ⟨o₀, ho₀, rfl⟩ := List.mem_map.mp ho
  have hd := h.orders g hg o₀ ho₀
  split <;> exact hd

end SideOk

end LowLatency
