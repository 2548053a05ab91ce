import LowLatency.Book.Heap

/-!
# Linking a new level into its side

`addOrder` on a price whose slot is empty takes a level from the pool and
`addOrdersAtPrice` links it. The search loop compares the new price with the
levels behind the best one and stops at the first it does not belong behind;
`seek_spec` reads that off the ring, `addOrdersAtPrice_spec` turns the writes
that follow into `insertLevel`, and `addOrder_insert` puts them together: the
order opens a level, or the level pool is exhausted and the call exits.

Two statements of the source do nothing: `target` equal to the best level after
the loop stands for the last level, and the rewrite of `target->next_entry_`
when the new level becomes the best finds the link already in place.
-/

namespace LowLatency

open Lib (Ring)

variable {K I : Type}

section Insert

/-- Distinct blocks of a pool are at most as many as it has. -/
theorem length_le_of_lt {l : List Nat} {n : Nat} (hnd : l.Nodup) (h : ∀ a ∈ l, a < n) :
    l.length ≤ n := by
  have hsub : l ⊆ List.range n := fun a ha => List.mem_range.mpr (h a ha)
  simpa using (hnd.subperm hsub).length_le

/-- The search loop from `z` on, along the levels `z :: zs` up to `best`: it
stops before the first level that the new one does not belong behind. -/
theorem seekLoop_chain {m : MemPool OrdersAtPrice} (side : Side) (price : Int) {best : Nat} :
    ∀ (zs : List Nat) (z fuel : Nat), zs.length + 2 ≤ fuel → best ∉ z :: zs →
      (z :: zs ++ [best]).IsChain (Lib.Link m.nextEntry m.prevEntry) →
      (∃ A w B, z :: zs = A ++ w :: B ∧
        (∀ a ∈ A, Ladder.addAfter side price (m.levelPrice a) = true) ∧
        Ladder.addAfter side price (m.levelPrice w) = false ∧
        Ladder.seekLoop m side price best fuel true z = .ok (false, w)) ∨
      ((∀ a ∈ z :: zs, Ladder.addAfter side price (m.levelPrice a) = true) ∧
        Ladder.seekLoop m side price best fuel true z = .ok (true, best)) := by
  intro zs
  induction zs with
  | nil =>
    intro z fuel hf hb hc
    obtain ⟨fuel, rfl⟩ : ∃ f, fuel = f + 2 := ⟨fuel - 2, by simp at hf; omega⟩
    have hzb : z ≠ best := fun e => hb (by simp [e])
    have hnext : m.nextEntry z = some best := (List.isChain_pair.mp hc).1
    cases haz : Ladder.addAfter side price (m.levelPrice z) with
    | false =>
      left
      exact ⟨[], z, [], rfl, by simp, haz, by simp [Ladder.seekLoop, hzb, haz]⟩
    | true =>
      right
      refine ⟨by simpa using haz, ?_⟩
      simp [Ladder.seekLoop, hzb, haz, hnext]
  | cons y ys ih =>
    intro z fuel hf hb hc
    obtain ⟨fuel, rfl⟩ : ∃ f, fuel = f + 1 := ⟨fuel - 1, by simp at hf; omega⟩
    have hzb : z ≠ best := fun e => hb (by simp [e])
    simp only [List.cons_append] at hc
    rw [List.isChain_cons_cons] at hc
    cases haz : Ladder.addAfter side price (m.levelPrice z) with
    | false =>
      left
      refine ⟨[], z, y :: ys, rfl, by simp, haz, ?_⟩
      obtain ⟨fuel, rfl⟩ : ∃ f, fuel = f + 1 := ⟨fuel - 1, by simp at hf; omega⟩
      simp [Ladder.seekLoop, hzb, haz]
    | true =>
      have hstep : Ladder.seekLoop m side price best (fuel + 1) true z
          = Ladder.seekLoop m side price best fuel true y := by
        simp [Ladder.seekLoop, hzb, haz, hc.1.1]
      rw [hstep]
      rcases ih y fuel (by simp at hf ⊢; omega) (fun hm => hb (List.mem_cons_of_mem _ hm)) hc.2 with
        ⟨A, w, B, hsplit, hA, hw, hrun⟩ | ⟨hall, hrun⟩
      · left
        refine ⟨z :: A, w, B, by rw [hsplit]; rfl, ?_, hw, hrun⟩
        intro a ha
        rcases List.mem_cons.mp ha with rfl | ha
        · exact haz
        · exact hA a ha
      · right
        refine ⟨?_, hrun⟩
        intro a ha
        rcases List.mem_cons.mp ha with rfl | ha
        · exact haz
        · exact hall a ha

/-- **The search**, on a ring read from the best level. -/
theorem seek_spec {m : MemPool OrdersAtPrice} (side : Side) (price : Int) {x : Nat} {xs : List Nat}
    (hr : Ring m.nextEntry m.prevEntry (x :: xs)) (hlt : ∀ a ∈ x :: xs, a < m.size) :
    (∃ A w B, x :: xs = A ++ w :: B ∧
      (∀ a ∈ A, Ladder.addAfter side price (m.levelPrice a) = true) ∧
      Ladder.addAfter side price (m.levelPrice w) = false ∧
      Ladder.seek m side price x = .ok (false, w)) ∨
    ((∀ a ∈ x :: xs, Ladder.addAfter side price (m.levelPrice a) = true) ∧
      Ladder.seek m side price x = .ok (true, x)) := by
  have hlen := length_le_of_lt hr.nodup hlt
  unfold Ladder.seek
  cases hax : Ladder.addAfter side price (m.levelPrice x) with
  | false => exact Or.inl ⟨[], x, xs, rfl, by simp, hax, by simp⟩
  | true =>
    cases xs with
    | nil =>
      right
      have hnext : m.nextEntry x = some x := (hr.next_self_iff).mpr rfl
      refine ⟨by simpa using hax, ?_⟩
      simp [hnext, Ladder.seekLoop, hax]
    | cons y ys =>
      have hc := hr.links
      simp only [List.head?_cons, Option.toList_some, List.cons_append] at hc
      rw [List.isChain_cons_cons] at hc
      have hxnot := (List.nodup_cons.mp hr.nodup).1
      have hchain := seekLoop_chain side price ys y (m.size + 2)
        (by simp at hlen; omega) hxnot hc.2
      -- the loop is entered with the test at `y` already made
      have hentry : ∀ r, Ladder.seekLoop m side price x (m.size + 2) true y = .ok r →
          Ladder.seekLoop m side price x (m.size + 2)
            (Ladder.addAfter side price (m.levelPrice y)) y = .ok r := by
        intro r hrun
        cases hay : Ladder.addAfter side price (m.levelPrice y) with
        | true => exact hrun
        | false =>
          have hyx : y ≠ x := fun e => hxnot (by simp [e])
          rw [← hrun]
          simp [Ladder.seekLoop, hyx, hay]
      rcases hchain with ⟨A, w, B, hsplit, hA, hw, hrun⟩ | ⟨hall, hrun⟩
      · left
        refine ⟨x :: A, w, B, by rw [hsplit]; rfl, ?_, hw, ?_⟩
        · intro a ha
          rcases List.mem_cons.mp ha with rfl | ha
          · exact hax
          · exact hA a ha
        · simp only [if_true, hc.1.1, deref_some, exec_ok_bind]
          exact hentry _ hrun
      · right
        refine ⟨?_, ?_⟩
        · intro a ha
          rcases List.mem_cons.mp ha with rfl | ha
          · exact hax
          · exact hall a ha
        · simp only [if_true, hc.1.1, deref_some, exec_ok_bind]
          exact hentry _ hrun

/-- A level that belongs behind every other one goes last. -/
theorem insertScan_all {n : LevelG K} : ∀ {L : List (LevelG K)},
    (∀ g ∈ L, Ladder.addAfter n.side n.price g.price = true) → insertScan n L = L ++ [n]
  | [], _ => rfl
  | y :: ys, h => by
    rw [insertScan, if_pos (h y (List.mem_cons_self ..)),
      insertScan_all fun g hg => h g (List.mem_cons_of_mem _ hg)]
    rfl

theorem insertScan_split {n w : LevelG K} {B : List (LevelG K)}
    (hw : Ladder.addAfter n.side n.price w.price = false) : ∀ {A : List (LevelG K)},
    (∀ g ∈ A, Ladder.addAfter n.side n.price g.price = true) →
    insertScan n (A ++ w :: B) = A ++ n :: w :: B
  | [], _ => by simp [insertScan, hw]
  | y :: ys, h => by
    rw [List.cons_append, insertScan, if_pos (h y (List.mem_cons_self ..)),
      insertScan_split hw fun g hg => h g (List.mem_cons_of_mem _ hg)]
    rfl

theorem insertLevel_all {n x : LevelG K} {xs : List (LevelG K)}
    (h : ∀ g ∈ x :: xs, Ladder.addAfter n.side n.price g.price = true) :
    insertLevel n (x :: xs) = x :: xs ++ [n] := by
  rw [insertLevel, if_pos (h x (List.mem_cons_self ..)),
    insertScan_all fun g hg => h g (List.mem_cons_of_mem _ hg)]
  rfl

theorem insertLevel_split {n x w : LevelG K} {A B : List (LevelG K)}
    (hA : ∀ g ∈ x :: A, Ladder.addAfter n.side n.price g.price = true)
    (hw : Ladder.addAfter n.side n.price w.price = false) :
    insertLevel n (x :: A ++ w :: B) = x :: A ++ n :: w :: B := by
  rw [List.cons_append, insertLevel, if_pos (hA x (List.mem_cons_self ..)),
    insertScan_split hw fun g hg => hA g (List.mem_cons_of_mem _ hg)]
  rfl

/-- Inserting a level adds it to its side and nothing else. -/
theorem mem_insertScan {n g : LevelG K} : ∀ {L : List (LevelG K)},
    g ∈ insertScan n L ↔ g = n ∨ g ∈ L
  | [] => by simp [insertScan]
  | y :: ys => by
    rw [insertScan]
    split
    · rw [List.mem_cons, mem_insertScan, List.mem_cons]
      tauto
    · rw [List.mem_cons]

theorem mem_insertLevel {n g : LevelG K} {L : List (LevelG K)} :
    g ∈ insertLevel n L ↔ g = n ∨ g ∈ L := by
  cases L with
  | nil => simp [insertLevel]
  | cons x xs =>
    rw [insertLevel]
    split
    · rw [List.mem_cons, mem_insertScan, List.mem_cons]
      tauto
    · split
      · rw [List.mem_cons]
      · rw [List.mem_append, List.mem_singleton]
        tauto

/-- A price is never on both sides of another. -/
theorem addBefore_eq_false {side : Side} {p q : Int} (h : Ladder.addAfter side p q = true) :
    Ladder.addBefore side p q = false := by
  unfold Ladder.addAfter at h
  unfold Ladder.addBefore
  cases side <;> simp at h ⊢ <;> omega

theorem best_setBest (s : Ladder K I) (b b' : Bool) (v : Option Nat) :
    (s.setBest b v).best b' = if b' = b then v else s.best b' := by
  cases b <;> cases b' <;> rfl

theorem setBest_self {s : Ladder K I} {b : Bool} {v : Option Nat} (h : s.best b = v) :
    s.setBest b v = s := by
  subst h
  cases b <;> rfl

@[simp] theorem setBest_order_pool_ (s : Ladder K I) (b : Bool) (v : Option Nat) :
    (s.setBest b v).order_pool_ = s.order_pool_ := by cases b <;> rfl

@[simp] theorem setBest_orders_at_price_pool_ (s : Ladder K I) (b : Bool) (v : Option Nat) :
    (s.setBest b v).orders_at_price_pool_ = s.orders_at_price_pool_ := by cases b <;> rfl

@[simp] theorem setBest_price_orders_at_price_ (s : Ladder K I) (b : Bool) (v : Option Nat) :
    (s.setBest b v).price_orders_at_price_ = s.price_orders_at_price_ := by cases b <;> rfl

@[simp] theorem setBest_id_to_order_ (s : Ladder K I) (b : Bool) (v : Option Nat) :
    (s.setBest b v).id_to_order_ = s.id_to_order_ := by cases b <;> rfl

/-- Two level pools that differ in list links only. -/
structure SameLevels (m m' : MemPool OrdersAtPrice) : Prop where
  side : ∀ a, m'.levelSide a = m.levelSide a
  price : ∀ a, m'.levelPrice a = m.levelPrice a
  first : ∀ a, m'.firstOrder a = m.firstOrder a
  free : m'.isFree = m.isFree
  size : m'.size = m.size
  next : m'.next_free_index_ = m.next_free_index_

theorem SameLevels.refl (m : MemPool OrdersAtPrice) : SameLevels m m :=
  ⟨fun _ => rfl, fun _ => rfl, fun _ => rfl, rfl, rfl, rfl⟩

theorem SameLevels.setPrevEntry {m m' : MemPool OrdersAtPrice} (h : SameLevels m m') (a : Nat)
    (v : Option Nat) : SameLevels m (m'.setPrevEntry a v) where
  side := fun q => ((MemPool.level_setPrevEntry m' a q v).1).trans (h.side q)
  price := fun q => ((MemPool.level_setPrevEntry m' a q v).2.1).trans (h.price q)
  first := fun q => ((MemPool.level_setPrevEntry m' a q v).2.2.1).trans (h.first q)
  free := by funext q; rw [← h.free]; exact MemPool.isFree_set ..
  size := h.size
  next := h.next

theorem SameLevels.setNextEntry {m m' : MemPool OrdersAtPrice} (h : SameLevels m m') (a : Nat)
    (v : Option Nat) : SameLevels m (m'.setNextEntry a v) where
  side := fun q => ((MemPool.level_setNextEntry m' a q v).1).trans (h.side q)
  price := fun q => ((MemPool.level_setNextEntry m' a q v).2.1).trans (h.price q)
  first := fun q => ((MemPool.level_setNextEntry m' a q v).2.2.1).trans (h.first q)
  free := by funext q; rw [← h.free]; exact MemPool.isFree_set ..
  size := h.size
  next := h.next

theorem SameLevels.valid {m m' : MemPool OrdersAtPrice} (h : SameLevels m m') (hv : m.Valid) :
    m'.Valid :=
  ⟨by rw [h.next, h.size]; exact hv.lt, by rw [h.next, h.free]; exact hv.free⟩

theorem SameLevels.used {m m' : MemPool OrdersAtPrice} (h : SameLevels m m') (q : Nat) :
    m'.Used q ↔ m.Used q := by
  unfold MemPool.Used
  rw [h.size, h.free]

/-- What linking level `g` into the side `L` leaves behind: the pool `m'`. -/
structure Linked (m m' : MemPool OrdersAtPrice) (g : LevelG K) (L : List (LevelG K)) : Prop where
  same : SameLevels m m'
  ring : Ring m'.nextEntry m'.prevEntry ((insertLevel g L).map LevelG.ptr)
  frame : ∀ a, a ≠ g.ptr → a ∉ L.map LevelG.ptr →
    m'.nextEntry a = m.nextEntry a ∧ m'.prevEntry a = m.prevEntry a

/-- The links `addOrdersAtPrice` writes around the new level `n`, between `u`
and `v`. -/
structure LinksTo (m m' : MemPool OrdersAtPrice) (u n v : Nat) : Prop where
  next : ∀ a, m'.nextEntry a = if a = u then some n else if a = n then some v else m.nextEntry a
  prev : ∀ a, m'.prevEntry a = if a = v then some n else if a = n then some u else m.prevEntry a

/-- The new level right before `w`, whose predecessor is `u`. -/
theorem LinksTo.ring {m m' : MemPool OrdersAtPrice} {u n w : Nat} {A B : List Nat}
    (h : LinksTo m m' u n w) (hr : Ring m.nextEntry m.prevEntry (A ++ w :: B))
    (hu : m.prevEntry w = some u) (hn : n ∉ A ++ w :: B) (hum : u ∈ A ++ w :: B) :
    Ring m'.nextEntry m'.prevEntry (A ++ n :: w :: B) := by
  have hnu : n ≠ u := fun e => hn (e ▸ hum)
  have hnw : n ≠ w := fun e => hn (by simp [e])
  refine hr.insertMid hu hn ?_ ?_ ?_ ?_ ?_ ?_
  · rw [h.next, if_pos rfl]
  · rw [h.prev, if_neg hnw, if_pos rfl]
  · rw [h.next, if_neg hnu, if_pos rfl]
  · rw [h.prev, if_pos rfl]
  · intro a ha hau
    rw [h.next, if_neg hau, if_neg (fun (e : a = n) => hn (e ▸ ha))]
  · intro a ha haw
    rw [h.prev, if_neg haw, if_neg (fun (e : a = n) => hn (e ▸ ha))]

theorem LinksTo.frame {m m' : MemPool OrdersAtPrice} {u n v a : Nat} (h : LinksTo m m' u n v)
    (hu : a ≠ u) (hn : a ≠ n) (hv : a ≠ v) :
    m'.nextEntry a = m.nextEntry a ∧ m'.prevEntry a = m.prevEntry a :=
  ⟨by rw [h.next, if_neg hu, if_neg hn], by rw [h.prev, if_neg hv, if_neg hn]⟩

variable {s : Ladder K I} {L : List (LevelG K)} {g : LevelG K}

/-- The first level of a side. -/
private theorem addOrdersAtPrice_nil
    (hside : s.orders_at_price_pool_.levelSide g.ptr = g.side)
    (hprice : s.orders_at_price_pool_.levelPrice g.ptr = g.price)
    (hbest : s.best (Ladder.isBid g.side) = none) :
    ∃ m', s.addOrdersAtPrice g.ptr = .ok (({ s with
        price_orders_at_price_ :=
          Function.update s.price_orders_at_price_ (priceToIndex g.price) (some g.ptr)
        orders_at_price_pool_ := m' }).setBest (Ladder.isBid g.side) (some g.ptr)) ∧
      Linked s.orders_at_price_pool_ m' g [] := by
  refine ⟨(s.orders_at_price_pool_.setNextEntry g.ptr (some g.ptr)).setPrevEntry g.ptr
    (some g.ptr), ?_, ((SameLevels.refl _).setNextEntry _ _).setPrevEntry _ _, ?_, ?_⟩
  · have hb : ∀ t, Ladder.best { s with price_orders_at_price_ := t } (Ladder.isBid g.side) = none :=
      fun _ => hbest
    simp only [Ladder.addOrdersAtPrice, hside, hprice, hb]
    cases Ladder.isBid g.side <;> rfl
  · refine Ring.singleton ?_ ?_
    · rw [(MemPool.level_setPrevEntry _ _ _ _).2.2.2, MemPool.nextEntry_setNextEntry, if_pos rfl]
    · rw [MemPool.prevEntry_setPrevEntry, if_pos rfl]
  · intro a ha _
    constructor
    · rw [(MemPool.level_setPrevEntry _ _ _ _).2.2.2, MemPool.nextEntry_setNextEntry, if_neg ha]
    · rw [MemPool.prevEntry_setPrevEntry, if_neg ha, (MemPool.level_setNextEntry _ _ _ _).2.2.2]

/-- Behind the last level: `target` is back at the best level and stands for
its predecessor. -/
private theorem addOrdersAtPrice_last {x y : Nat}
    (hside : s.orders_at_price_pool_.levelSide g.ptr = g.side)
    (hprice : s.orders_at_price_pool_.levelPrice g.ptr = g.price)
    (hbest : s.best (Ladder.isBid g.side) = some x)
    (hseek : Ladder.seek s.orders_at_price_pool_ g.side g.price x = .ok (true, x))
    (hy : s.orders_at_price_pool_.prevEntry x = some y)
    (hx : s.orders_at_price_pool_.nextEntry y = some x) :
    ∃ m', s.addOrdersAtPrice g.ptr = .ok { s with
        price_orders_at_price_ :=
          Function.update s.price_orders_at_price_ (priceToIndex g.price) (some g.ptr)
        orders_at_price_pool_ := m' } ∧
      SameLevels s.orders_at_price_pool_ m' ∧ LinksTo s.orders_at_price_pool_ m' y g.ptr x := by
  refine ⟨(((s.orders_at_price_pool_.setPrevEntry g.ptr (some y)).setPrevEntry x
    (some g.ptr)).setNextEntry g.ptr (some x)).setNextEntry y (some g.ptr), ?_,
    ((((SameLevels.refl _).setPrevEntry _ _).setPrevEntry _ _).setNextEntry _ _).setNextEntry _ _,
    ?_, ?_⟩
  · have hb : ∀ t, Ladder.best { s with price_orders_at_price_ := t } (Ladder.isBid g.side)
        = some x := fun _ => hbest
    simp [Ladder.addOrdersAtPrice, hside, hprice, hb, hseek, hy, hx]
  · intro a
    simp [MemPool.nextEntry_setNextEntry]
  · intro a
    simp [MemPool.prevEntry_setPrevEntry]

/-- Right before `w`, whose predecessor is `u`. -/
private theorem addOrdersAtPrice_before {x u w : Nat}
    (hside : s.orders_at_price_pool_.levelSide g.ptr = g.side)
    (hprice : s.orders_at_price_pool_.levelPrice g.ptr = g.price)
    (hbest : s.best (Ladder.isBid g.side) = some x)
    (hseek : Ladder.seek s.orders_at_price_pool_ g.side g.price x = .ok (false, w))
    (hu : s.orders_at_price_pool_.prevEntry w = some u) (hgw : g.ptr ≠ w)
    (hself : s.orders_at_price_pool_.nextEntry w = some w → u = w)
    (hxw : Ladder.addBefore g.side g.price (s.orders_at_price_pool_.levelPrice x) = true → x = w) :
    ∃ m', s.addOrdersAtPrice g.ptr = .ok
        (if Ladder.addBefore g.side g.price (s.orders_at_price_pool_.levelPrice x) then
          ({ s with
            price_orders_at_price_ :=
              Function.update s.price_orders_at_price_ (priceToIndex g.price) (some g.ptr)
            orders_at_price_pool_ := m' }).setBest (Ladder.isBid g.side) (some g.ptr)
        else { s with
          price_orders_at_price_ :=
            Function.update s.price_orders_at_price_ (priceToIndex g.price) (some g.ptr)
          orders_at_price_pool_ := m' }) ∧
      SameLevels s.orders_at_price_pool_ m' ∧ LinksTo s.orders_at_price_pool_ m' u g.ptr w := by
  set m₄ := (((s.orders_at_price_pool_.setPrevEntry g.ptr (some u)).setNextEntry g.ptr
    (some w)).setNextEntry u (some g.ptr)).setPrevEntry w (some g.ptr) with hm₄
  have hsame : SameLevels s.orders_at_price_pool_ m₄ :=
    ((((SameLevels.refl _).setPrevEntry _ _).setNextEntry _ _).setNextEntry _ _).setPrevEntry _ _
  have hlinks : LinksTo s.orders_at_price_pool_ m₄ u g.ptr w := by
    constructor
    · intro a
      simp [hm₄, MemPool.nextEntry_setNextEntry]
    · intro a
      simp [hm₄, MemPool.prevEntry_setPrevEntry]
  have hpw : (s.orders_at_price_pool_.setPrevEntry g.ptr (some u)).prevEntry w = some u := by
    rw [MemPool.prevEntry_setPrevEntry, if_neg (Ne.symm hgw), hu]
  have hb : ∀ t, Ladder.best { s with price_orders_at_price_ := t } (Ladder.isBid g.side)
      = some x := fun _ => hbest
  cases hadd : Ladder.addBefore g.side g.price (s.orders_at_price_pool_.levelPrice x) with
  | false =>
    refine ⟨m₄, ?_, hsame, hlinks⟩
    simp [Ladder.addOrdersAtPrice, hside, hprice, hb, hseek, hu, hpw, hadd, hm₄]
  | true =>
    have hw := hxw hadd
    subst hw
    -- the last write is idle: a single level already points at the new one
    have hidle : (if m₄.nextEntry x = some x then some g.ptr else m₄.nextEntry x)
        = m₄.nextEntry x := by
      split
      next he =>
        rw [hlinks.next] at he ⊢
        by_cases hxu : x = u
        · rw [if_pos hxu]
        · rw [if_neg hxu, if_neg (Ne.symm hgw)] at he
          exact absurd (hself he).symm hxu
      next => rfl
    refine ⟨m₄.setNextEntry x (m₄.nextEntry x), ?_, hsame.setNextEntry _ _, ?_, ?_⟩
    · conv_rhs => rw [← hidle]
      simp [Ladder.addOrdersAtPrice, hside, hprice, hb, hseek, hu, hpw, hadd, hm₄]
    · intro a
      rw [MemPool.nextEntry_setNextEntry]
      split
      next he => rw [he]; exact hlinks.next x
      next => exact hlinks.next a
    · intro a
      rw [(MemPool.level_setNextEntry _ _ _ _).2.2.2]
      exact hlinks.prev a

/-- In front of `w`: what the search found, read off the levels. -/
private theorem addOrdersAtPrice_split {x w : LevelG K} {xs A B : List (LevelG K)}
    (hside : s.orders_at_price_pool_.levelSide g.ptr = g.side)
    (hprice : s.orders_at_price_pool_.levelPrice g.ptr = g.price)
    (hbest : s.best (Ladder.isBid g.side) = some x.ptr)
    (hring : Ring s.orders_at_price_pool_.nextEntry s.orders_at_price_pool_.prevEntry
      (A.map LevelG.ptr ++ w.ptr :: B.map LevelG.ptr))
    (hpx : s.orders_at_price_pool_.levelPrice x.ptr = x.price)
    (hnew : g.ptr ∉ A.map LevelG.ptr ++ w.ptr :: B.map LevelG.ptr) (hL : x :: xs = A ++ w :: B)
    (hA : ∀ g' ∈ A, Ladder.addAfter g.side g.price g'.price = true)
    (hw : Ladder.addAfter g.side g.price w.price = false)
    (hseek : Ladder.seek s.orders_at_price_pool_ g.side g.price x.ptr = .ok (false, w.ptr)) :
    ∃ m', s.addOrdersAtPrice g.ptr = .ok (({ s with
        price_orders_at_price_ :=
          Function.update s.price_orders_at_price_ (priceToIndex g.price) (some g.ptr)
        orders_at_price_pool_ := m' }).setBest (Ladder.isBid g.side)
          ((insertLevel g (x :: xs)).map LevelG.ptr).head?) ∧
      Linked s.orders_at_price_pool_ m' g (x :: xs) := by
  have hkeep : ∀ t m', Ladder.setBest { s with
      price_orders_at_price_ := t, orders_at_price_pool_ := m' } (Ladder.isBid g.side)
        (some x.ptr) = { s with price_orders_at_price_ := t, orders_at_price_pool_ := m' } :=
    fun t m' => setBest_self hbest
  obtain ⟨u, hum, _, _, hu, _⟩ := hring.neighbours
  -- the code asks about the best level, which is `w` or comes before it
  have hfront : Ladder.addBefore g.side g.price x.price = true → A = [] := by
    intro hadd
    cases A with
    | nil => rfl
    | cons a A =>
      simp only [List.cons_append, List.cons.injEq] at hL
      have hx := hA a (List.mem_cons_self ..)
      rw [← hL.1] at hx
      rw [addBefore_eq_false hx] at hadd
      exact absurd hadd (by simp)
  have hxw : A = [] → x = w ∧ xs = B := by
    rintro rfl
    simpa using hL
  obtain ⟨m', hrun, hsame, hlinks⟩ := addOrdersAtPrice_before hside hprice hbest hseek hu
    (fun e => hnew (by simp [e])) (hring.prev_of_next_self hu)
    (fun hadd => by rw [(hxw (hfront (hpx ▸ hadd))).1])
  have hring' := hlinks.ring hring hu hnew hum
  refine ⟨m', ?_, hsame, ?_, ?_⟩
  · rw [hrun, hpx]
    by_cases hnil : A = []
    · obtain ⟨rfl, rfl⟩ := hxw hnil
      rw [insertLevel, hw]
      simp only [Bool.false_eq_true, if_false]
      split
      next => rfl
      next => rw [List.cons_append, List.map_cons, List.head?_cons, hkeep]
    · have hadd : Ladder.addBefore g.side g.price x.price = false :=
        Bool.eq_false_iff.mpr fun hadd => hnil (hfront hadd)
      obtain ⟨a, A, rfl⟩ := List.exists_cons_of_ne_nil hnil
      have hins := insertLevel_split (B := B) hA hw
      rw [← hL, List.cons_append] at hins
      simp only [List.cons_append, List.cons.injEq] at hL
      rw [hadd, hins, ← hL.1, List.map_cons, List.head?_cons, hkeep]
      rfl
  · by_cases hnil : A = []
    · obtain ⟨rfl, rfl⟩ := hxw hnil
      subst hnil
      rw [insertLevel, hw]
      simp only [Bool.false_eq_true, if_false]
      split
      next => exact hring'
      next => simpa using Ring.rotate (A := [g.ptr]) hring'
    · obtain ⟨a, A, rfl⟩ := List.exists_cons_of_ne_nil hnil
      rw [hL, insertLevel_split (B := B) hA hw]
      simpa using hring'
  · intro a hag hal
    rw [hL, List.map_append, List.map_cons] at hal
    exact hlinks.frame (fun e => hal (e ▸ hum)) hag (fun e => hal (by simp [e]))

/-- **Linking a level into its side** is `insertLevel`, on any well-formed
ring, with the best pointer at the head of the result. -/
theorem addOrdersAtPrice_spec
    (hside : s.orders_at_price_pool_.levelSide g.ptr = g.side)
    (hprice : s.orders_at_price_pool_.levelPrice g.ptr = g.price)
    (hbest : s.best (Ladder.isBid g.side) = (L.map LevelG.ptr).head?)
    (hring : Ring s.orders_at_price_pool_.nextEntry s.orders_at_price_pool_.prevEntry
      (L.map LevelG.ptr))
    (hlt : ∀ a ∈ L.map LevelG.ptr, a < s.orders_at_price_pool_.size)
    (hpr : ∀ g' ∈ L, s.orders_at_price_pool_.levelPrice g'.ptr = g'.price)
    (hnew : g.ptr ∉ L.map LevelG.ptr) :
    ∃ m', s.addOrdersAtPrice g.ptr = .ok (({ s with
        price_orders_at_price_ :=
          Function.update s.price_orders_at_price_ (priceToIndex g.price) (some g.ptr)
        orders_at_price_pool_ := m' }).setBest (Ladder.isBid g.side)
          ((insertLevel g L).map LevelG.ptr).head?) ∧
      Linked s.orders_at_price_pool_ m' g L := by
  cases L with
  | nil => exact addOrdersAtPrice_nil hside hprice hbest
  | cons x xs =>
    have hbx : s.best (Ladder.isBid g.side) = some x.ptr := hbest
    rcases seek_spec g.side g.price hring hlt with
      ⟨A, w, B, hsplit, hA, hw, hseek⟩ | ⟨hall, hseek⟩
    · -- before `w`: recover the levels from their addresses
      have hsplit : (x :: xs).map LevelG.ptr = A ++ w :: B := hsplit
      obtain ⟨A', B', hL, rfl, hB⟩ := List.map_eq_append_iff.mp hsplit
      obtain ⟨w', B'', hL', rfl, rfl⟩ := List.map_eq_cons_iff.mp hB
      subst hL'
      rw [hsplit] at hring hnew
      refine addOrdersAtPrice_split hside hprice hbx hring (hpr x (List.mem_cons_self ..)) hnew hL
        ?_ ?_ hseek
      · intro g' hg'
        rw [← hpr g' (by rw [hL]; simp [hg'])]
        exact hA _ (List.mem_map_of_mem hg')
      · rw [← hpr w' (by rw [hL]; simp)]
        exact hw
    · -- behind every level
      have hall' : ∀ g' ∈ x :: xs, Ladder.addAfter g.side g.price g'.price = true := by
        intro g' hg'
        rw [← hpr g' hg']
        exact hall _ (List.mem_map_of_mem hg')
      have hlast := List.dropLast_append_getLast (l := (x :: xs).map LevelG.ptr) (by simp)
      obtain ⟨hny, hpx⟩ := hring.seam hlast.symm
      obtain ⟨m', hrun, hsame, hlinks⟩ :=
        addOrdersAtPrice_last hside hprice hbx hseek hpx hny
      rw [insertLevel_all hall']
      refine ⟨m', ?_, hsame, ?_, ?_⟩
      · rw [hrun, List.cons_append, List.map_cons, List.head?_cons, setBest_self]
        exact hbx
      · rw [insertLevel_all hall']
        have hr' := LinksTo.ring (A := []) hlinks hring hpx hnew (List.getLast_mem _)
        have := Ring.rotate (A := [g.ptr]) hr'
        simpa using this
      · intro a hag hal
        exact hlinks.frame (fun e => hal (e ▸ List.getLast_mem _)) hag (fun e => hal (by simp [e]))

theorem Ghost.mem_insert {G : Ghost K} {b₀ b : Bool} {n g : LevelG K} :
    g ∈ (G.insert b₀ n) b ↔ (b = b₀ ∧ g = n) ∨ g ∈ G b := by
  unfold Ghost.insert
  by_cases hb : b = b₀
  · subst hb
    rw [Function.update_self, mem_insertLevel]
    simp
  · rw [Function.update_of_ne hb]
    simp [hb]

variable {G : Ghost K}

/-- The level that the pool gives out next is none of the book's. -/
theorem Core.ptr_ne_next (h : Core s G) {b : Bool} {g : LevelG K} (hg : g ∈ G b) :
    g.ptr ≠ s.orders_at_price_pool_.next_free_index_ := by
  intro he
  have hused := h.usedL b g hg
  rw [he] at hused
  exact h.validL.not_used hused

/-- A new level has an address of its own. -/
theorem Core.cross_insert (h : Core s G) {b₀ : Bool} (hptr : ∀ b, ∀ g' ∈ G b, g'.ptr ≠ g.ptr) :
    ∀ g₁ ∈ (G.insert b₀ g) true, ∀ g₂ ∈ (G.insert b₀ g) false, g₁.ptr ≠ g₂.ptr := by
  intro g₁ hg₁ g₂ hg₂
  rcases Ghost.mem_insert.mp hg₁ with ⟨hb₁, he₁⟩ | hg₁' <;>
    rcases Ghost.mem_insert.mp hg₂ with ⟨hb₂, he₂⟩ | hg₂'
  · exact absurd (hb₁.trans hb₂.symm) (by simp)
  · rw [he₁]
    exact (hptr _ g₂ hg₂').symm
  · rw [he₂]
    exact hptr _ g₁ hg₁'
  · exact h.cross g₁ hg₁' g₂ hg₂'

/-- And a new order is in no other level. -/
theorem Core.own_insert (h : Core s G) {b₀ : Bool} {p : Nat} (hptrs : g.ptrs = [p])
    (hnew : ∀ b, ∀ g' ∈ G b, p ∉ g'.ptrs) :
    ∀ b₁, ∀ g₁ ∈ (G.insert b₀ g) b₁, ∀ b₂, ∀ g₂ ∈ (G.insert b₀ g) b₂,
      ∀ a ∈ g₁.ptrs, a ∈ g₂.ptrs → g₁.ptr = g₂.ptr := by
  intro b₁ g₁ hg₁ b₂ g₂ hg₂ a ha₁ ha₂
  rcases Ghost.mem_insert.mp hg₁ with ⟨_, he₁⟩ | hg₁' <;>
    rcases Ghost.mem_insert.mp hg₂ with ⟨_, he₂⟩ | hg₂'
  · rw [he₁, he₂]
  · rw [he₁, hptrs, List.mem_singleton] at ha₁
    exact absurd (ha₁ ▸ ha₂) (hnew b₂ g₂ hg₂')
  · rw [he₂, hptrs, List.mem_singleton] at ha₂
    exact absurd (ha₂ ▸ ha₁) (hnew b₁ g₁ hg₁')
  · exact h.own b₁ g₁ hg₁' b₂ g₂ hg₂' a ha₁ ha₂

/-- The new level: its one order is linked to itself. -/
private theorem levelOk_new (op : MemPool (Order K)) {m m' : MemPool OrdersAtPrice} {l p : Nat}
    {side : Side} {price : Int} (hm : SameLevels m m')
    (hget : m.get l = { side_ := side, price_ := price, first_order_ := some p }) :
    LevelOk m' ((op.setPrevOrder p (some p)).setNextOrder p (some p))
      ⟨l, side, price, [(p, op.data p)]⟩ := by
  refine ⟨?_, ?_, ?_, by simp, ?_, ?_⟩
  · rw [hm.side]
    exact congrArg OrdersAtPrice.side_ hget
  · rw [hm.price]
    exact congrArg OrdersAtPrice.price_ hget
  · rw [hm.first]
    exact congrArg OrdersAtPrice.first_order_ hget
  · refine Ring.singleton (x := p) ?_ ?_
    · rw [MemPool.nextOrder_setNextOrder, if_pos rfl]
    · rw [MemPool.prevOrder_setNextOrder, MemPool.prevOrder_setPrevOrder, if_pos rfl]
  · intro o ho
    rw [List.mem_singleton.mp ho]
    simp

/-- A level that was there: neither it nor its orders were written. -/
private theorem LevelOk.beside {m m₁ m' : MemPool OrdersAtPrice} {op : MemPool (Order K)} {p : Nat}
    (h : LevelOk m op g) (hm : SameLevels m₁ m') (hget : m₁.get g.ptr = m.get g.ptr)
    (hp : p ∉ g.ptrs) :
    LevelOk m' ((op.setPrevOrder p (some p)).setNextOrder p (some p)) g := by
  have hne : ∀ a ∈ g.ptrs, a ≠ p := fun a ha he => hp (he ▸ ha)
  refine h.congr ?_ ?_ ?_ ?_ ?_ ?_
  · rw [hm.side]
    exact congrArg OrdersAtPrice.side_ hget
  · rw [hm.price]
    exact congrArg OrdersAtPrice.price_ hget
  · rw [hm.first]
    exact congrArg OrdersAtPrice.first_order_ hget
  · intro a ha
    rw [MemPool.nextOrder_setNextOrder, if_neg (hne a ha), MemPool.nextOrder_setPrevOrder]
  · intro a ha
    rw [MemPool.prevOrder_setNextOrder, MemPool.prevOrder_setPrevOrder, if_neg (hne a ha)]
  · intro a _
    simp

/-- The heap after a level for order `p` was taken from the pool and linked. -/
private theorem core_insert (h : Core s G) {p : Nat} (hp : s.order_pool_.Used p)
    (hnew : ∀ b, ∀ g ∈ G b, p ∉ g.ptrs) {m₁ m₂ : MemPool OrdersAtPrice} {t : Nat → Option Nat}
    {ids : I → Option Nat}
    (hg : g = ⟨s.orders_at_price_pool_.next_free_index_, (s.order_pool_.data p).side_,
      (s.order_pool_.data p).price_, [(p, s.order_pool_.data p)]⟩)
    (hvalid : m₁.Valid) (hsize : m₁.size = s.orders_at_price_pool_.size)
    (hstore : m₁.store_ = Function.update s.orders_at_price_pool_.store_ g.ptr
      ⟨{ side_ := g.side, price_ := g.price, first_order_ := some p }, false⟩)
    (hlinked : Linked m₁ m₂ g (G (Ladder.isBid g.side))) :
    Core (Ladder.setBest { s with
        order_pool_ := (s.order_pool_.setPrevOrder p (some p)).setNextOrder p (some p)
        orders_at_price_pool_ := m₂
        price_orders_at_price_ := t
        id_to_order_ := ids } (Ladder.isBid g.side)
          ((insertLevel g (G (Ladder.isBid g.side))).map LevelG.ptr).head?)
      (G.insert (Ladder.isBid g.side) g) := by
  have hgp : g.ptr = s.orders_at_price_pool_.next_free_index_ := by rw [hg]
  have hptrs : g.ptrs = [p] := by rw [hg]; rfl
  have hptr : ∀ b, ∀ g' ∈ G b, g'.ptr ≠ g.ptr := by
    intro b g' hg'
    rw [hgp]
    exact h.ptr_ne_next hg'
  have hget : ∀ q, q ≠ g.ptr → m₁.get q = s.orders_at_price_pool_.get q := fun q hq => by
    rw [MemPool.get_of_store hstore, if_neg hq]
  have hself : m₁.get g.ptr = { side_ := g.side, price_ := g.price, first_order_ := some p } := by
    rw [MemPool.get_of_store hstore, if_pos rfl]
  refine ⟨?_, ?_, ?_, h.cross_insert hptr, h.own_insert hptrs hnew, ?_, ?_, ?_, ?_⟩
  · intro b
    rw [best_setBest]
    unfold Ghost.insert
    by_cases hb : b = Ladder.isBid g.side
    · rw [if_pos hb, hb, Function.update_self]
    · rw [if_neg hb, Function.update_of_ne hb]
      exact h.best b
  · intro b
    simp only [setBest_orders_at_price_pool_]
    unfold Ghost.insert
    by_cases hb : b = Ladder.isBid g.side
    · rw [hb, Function.update_self]
      exact hlinked.ring
    · rw [Function.update_of_ne hb]
      have hfr : ∀ a ∈ (G b).map LevelG.ptr, a ≠ g.ptr ∧
          a ∉ (G (Ladder.isBid g.side)).map LevelG.ptr := by
        intro a ha
        obtain ⟨g', hg', rfl⟩ := List.mem_map.mp ha
        refine ⟨hptr b g' hg', fun hm => ?_⟩
        obtain ⟨g'', hg'', he⟩ := List.mem_map.mp hm
        exact hb (h.ptr_inj hg' hg'' he.symm).1
      refine (h.ring b).congr ?_ ?_
      · intro a ha
        rw [(hlinked.frame a (hfr a ha).1 (hfr a ha).2).1]
        exact congrArg OrdersAtPrice.next_entry_ (hget a (hfr a ha).1)
      · intro a ha
        rw [(hlinked.frame a (hfr a ha).1 (hfr a ha).2).2]
        exact congrArg OrdersAtPrice.prev_entry_ (hget a (hfr a ha).1)
  · intro b g' hg'
    simp only [setBest_orders_at_price_pool_, setBest_order_pool_]
    rcases Ghost.mem_insert.mp hg' with ⟨_, rfl⟩ | hg'
    · have hok := levelOk_new s.order_pool_ hlinked.same hself
      rw [hg] at hok ⊢
      exact hok
    · exact (h.level b g' hg').beside hlinked.same (hget _ (hptr b g' hg')) (hnew b g' hg')
  · intro b g' hg'
    simp only [setBest_orders_at_price_pool_]
    rw [hlinked.same.used]
    unfold MemPool.Used
    rw [hsize, MemPool.isFree_of_store hstore]
    rcases Ghost.mem_insert.mp hg' with ⟨_, rfl⟩ | hg'
    · exact ⟨by rw [hgp]; exact h.validL.lt, by rw [if_pos rfl]⟩
    · rw [if_neg (hptr b g' hg')]
      exact h.usedL b g' hg'
  · intro b g' hg' a ha
    simp only [setBest_order_pool_, MemPool.setNextOrder, MemPool.setPrevOrder, MemPool.used_set]
    rcases Ghost.mem_insert.mp hg' with ⟨_, rfl⟩ | hg'
    · rw [hptrs, List.mem_singleton] at ha
      rw [ha]
      exact hp
    · exact h.usedO b g' hg' a ha
  · rw [setBest_orders_at_price_pool_]
    exact hlinked.same.valid hvalid
  · rw [setBest_order_pool_]
    exact (h.validO.set _ _).set _ _

/-- A level taken from the pool is linked, whatever the orders are. -/
theorem Core.link_new (h : Core s G) {x : OrdersAtPrice} {m₁ : MemPool OrdersAtPrice}
    (op : MemPool (Order K)) (hgp : g.ptr = s.orders_at_price_pool_.next_free_index_)
    (hx : x.side_ = g.side ∧ x.price_ = g.price) (hsize : m₁.size = s.orders_at_price_pool_.size)
    (hstore : m₁.store_ = Function.update s.orders_at_price_pool_.store_ g.ptr ⟨x, false⟩) :
    ∃ m₂, Ladder.addOrdersAtPrice { s with order_pool_ := op, orders_at_price_pool_ := m₁ } g.ptr =
      .ok (({ s with
        order_pool_ := op
        price_orders_at_price_ :=
          Function.update s.price_orders_at_price_ (priceToIndex g.price) (some g.ptr)
        orders_at_price_pool_ := m₂ }).setBest (Ladder.isBid g.side)
          ((insertLevel g (G (Ladder.isBid g.side))).map LevelG.ptr).head?) ∧
      Linked m₁ m₂ g (G (Ladder.isBid g.side)) := by
  have hself : m₁.get g.ptr = x := by
    rw [MemPool.get_of_store hstore, if_pos rfl]
  have hptr : ∀ b, ∀ g' ∈ G b, g'.ptr ≠ g.ptr := by
    intro b g' hg'
    rw [hgp]
    exact h.ptr_ne_next hg'
  have hget : ∀ b, ∀ g' ∈ G b, m₁.get g'.ptr = s.orders_at_price_pool_.get g'.ptr :=
    fun b g' hg' => by rw [MemPool.get_of_store hstore, if_neg (hptr b g' hg')]
  refine addOrdersAtPrice_spec (g := g) (L := G (Ladder.isBid g.side))
    (s := { s with order_pool_ := op, orders_at_price_pool_ := m₁ })
    ((congrArg OrdersAtPrice.side_ hself).trans hx.1)
    ((congrArg OrdersAtPrice.price_ hself).trans hx.2) (h.best _) ?_ ?_ ?_ ?_
  · refine (h.ring _).congr ?_ ?_
    · intro a ha
      obtain ⟨g', hg', rfl⟩ := List.mem_map.mp ha
      exact congrArg OrdersAtPrice.next_entry_ (hget _ g' hg')
    · intro a ha
      obtain ⟨g', hg', rfl⟩ := List.mem_map.mp ha
      exact congrArg OrdersAtPrice.prev_entry_ (hget _ g' hg')
  · intro a ha
    obtain ⟨g', hg', rfl⟩ := List.mem_map.mp ha
    show g'.ptr < m₁.size
    rw [hsize]
    exact (h.usedL _ g' hg').1
  · intro g' hg'
    refine Eq.trans ?_ (h.level _ g' hg').price
    exact congrArg OrdersAtPrice.price_ (hget _ g' hg')
  · intro hm
    obtain ⟨g', hg', he⟩ := List.mem_map.mp hm
    exact hptr _ g' hg' he

variable [OrderKey K I] [DecidableEq I]

/-- **An order opens a level**, or the level pool is exhausted. -/
theorem addOrder_insert (h : Core s G) {p : Nat} (hp : s.order_pool_.Used p)
    (hnew : ∀ b, ∀ g ∈ G b, p ∉ g.ptrs)
    (hslot : s.getOrdersAtPrice (s.order_pool_.data p).price_ = none)
    (hin : inRange (K := K) (idx (s.order_pool_.data p).id_) = true)
    (hg : g = ⟨s.orders_at_price_pool_.next_free_index_, (s.order_pool_.data p).side_,
      (s.order_pool_.data p).price_, [(p, s.order_pool_.data p)]⟩) :
    (∃ s', s.addOrder p = .ok s' ∧ Core s' (G.insert (Ladder.isBid g.side) g) ∧
      s'.price_orders_at_price_ =
        Function.update s.price_orders_at_price_ (priceToIndex g.price) (some g.ptr) ∧
      s'.id_to_order_ =
        Function.update s.id_to_order_ (idx (s.order_pool_.data p).id_) (some p) ∧
      s'.order_pool_.isFree = s.order_pool_.isFree ∧ s'.order_pool_.size = s.order_pool_.size ∧
      (∀ q, s'.orders_at_price_pool_.isFree q
        = if q = g.ptr then false else s.orders_at_price_pool_.isFree q) ∧
      s'.orders_at_price_pool_.size = s.orders_at_price_pool_.size) ∨
    (s.addOrder p = .error (.assertion "Memory Pool out of space.") ∧
      ∀ q, q < s.orders_at_price_pool_.size → q ≠ g.ptr →
        s.orders_at_price_pool_.isFree q = false) := by
  have hgp : g.ptr = s.orders_at_price_pool_.next_free_index_ := by rw [hg]
  rcases MemPool.allocate_cases h.validL
      ({ side_ := (s.order_pool_.data p).side_, price_ := (s.order_pool_.data p).price_,
         first_order_ := some p } : OrdersAtPrice) with
    ⟨m₁, halloc, hvalid, hsize, hstore⟩ | ⟨halloc, hfull⟩
  · left
    have hstore' : m₁.store_ = Function.update s.orders_at_price_pool_.store_ g.ptr
        ⟨{ side_ := g.side, price_ := g.price, first_order_ := some p }, false⟩ := by
      rw [hstore, hg]
    obtain ⟨m₂, hrun, hlinked⟩ := h.link_new
      ((s.order_pool_.setPrevOrder p (some p)).setNextOrder p (some p)) hgp ⟨rfl, rfl⟩ hsize hstore'
    refine ⟨Ladder.setBest { s with
        order_pool_ := (s.order_pool_.setPrevOrder p (some p)).setNextOrder p (some p)
        orders_at_price_pool_ := m₂
        price_orders_at_price_ :=
          Function.update s.price_orders_at_price_ (priceToIndex g.price) (some g.ptr)
        id_to_order_ := Function.update s.id_to_order_ (idx (s.order_pool_.data p).id_) (some p) }
        (Ladder.isBid g.side) ((insertLevel g (G (Ladder.isBid g.side))).map LevelG.ptr).head?,
      ?_, core_insert h hp hnew hg hvalid hsize hstore' hlinked, by simp, by simp, ?_, ?_, ?_, ?_⟩
    · rw [← hgp] at halloc
      simp only [Ladder.addOrder, hslot, halloc, exec_ok_bind]
      rw [hrun]
      simp only [exec_ok_bind, Ladder.setIdx, hin, if_true]
      cases Ladder.isBid g.side <;> rfl
    · rw [setBest_order_pool_]
      funext q
      simp [MemPool.setNextOrder, MemPool.setPrevOrder]
    · rw [setBest_order_pool_]
      rfl
    · intro q
      rw [setBest_orders_at_price_pool_, hlinked.same.free, MemPool.isFree_of_store hstore']
    · rw [setBest_orders_at_price_pool_]
      exact hlinked.same.size.trans hsize
  · right
    refine ⟨?_, by rw [hgp]; exact hfull⟩
    simp only [Ladder.addOrder, hslot, halloc, exec_error_bind]

end Insert

end LowLatency
