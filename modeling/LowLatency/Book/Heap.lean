import LowLatency.Book.Ladder
import Mathlib.Data.List.Nodup
import Mathlib.Tactic.Tauto

/-!
# The shape of the ladder's heap

`Core s G` says that the pointers of `s` spell out the ghost book `G`: for each
side the list of its levels from the best pointer on, each level with the list
of its orders from the first on, every node with its address. It speaks of
shape alone. Prices need not be sorted, an order need not agree with its level
in side or price, and the two tables are not mentioned: those are facts about
the ghost lists, proved above this file.

`Ghost.append`, `Ghost.insert`, `Ghost.remove` and `Ghost.setQty` say what the
pointer code does to the lists. `insertLevel` is the search of
`addOrdersAtPrice` read off a list: on a sorted side it is sorted insertion; on
any other it still says where the code links the level, which is what a replica
fed with an arbitrary stream needs.

This file proves the two that move no level: an order whose slot names a level
goes to its tail (`addOrder_append`), and writing a quantity changes nothing
else (`core_setQty`). `HeapInsert` and `HeapRemove` do the others.
-/

namespace LowLatency

open Lib (Ring)

/-- A level with its address and its orders with theirs. -/
structure LevelG (K : Type) where
  ptr : Nat
  side : Side
  price : Int
  orders : List (Nat × OrderData K)

/-- The addresses of a level's orders. -/
def LevelG.ptrs {K : Type} (g : LevelG K) : List Nat := g.orders.map Prod.fst

/-- Both sides of a book, `true` for the bids. -/
abbrev Ghost (K : Type) := Bool → List (LevelG K)

variable {K I : Type}

/-- Level `g` is what the pools hold at its address. -/
structure LevelOk (lp : MemPool OrdersAtPrice) (op : MemPool (Order K)) (g : LevelG K) : Prop where
  side : lp.levelSide g.ptr = g.side
  price : lp.levelPrice g.ptr = g.price
  first : lp.firstOrder g.ptr = g.ptrs.head?
  ne : g.orders ≠ []
  ring : Ring op.nextOrder op.prevOrder g.ptrs
  data : ∀ o ∈ g.orders, op.data o.1 = o.2

theorem LevelOk.congr {lp lp' : MemPool OrdersAtPrice} {op op' : MemPool (Order K)} {g : LevelG K}
    (h : LevelOk lp op g) (hs : lp'.levelSide g.ptr = lp.levelSide g.ptr)
    (hp : lp'.levelPrice g.ptr = lp.levelPrice g.ptr)
    (hf : lp'.firstOrder g.ptr = lp.firstOrder g.ptr)
    (hn : ∀ a ∈ g.ptrs, op'.nextOrder a = op.nextOrder a)
    (hv : ∀ a ∈ g.ptrs, op'.prevOrder a = op.prevOrder a)
    (hd : ∀ a ∈ g.ptrs, op'.data a = op.data a) : LevelOk lp' op' g where
  side := hs.trans h.side
  price := hp.trans h.price
  first := hf.trans h.first
  ne := h.ne
  ring := h.ring.congr hn hv
  data := fun o ho => (hd o.1 (List.mem_map_of_mem ho)).trans (h.data o ho)

/-- The heap spells out `G`. -/
structure Core (s : Ladder K I) (G : Ghost K) : Prop where
  best : ∀ b, s.best b = ((G b).map LevelG.ptr).head?
  ring : ∀ b, Ring s.orders_at_price_pool_.nextEntry s.orders_at_price_pool_.prevEntry
    ((G b).map LevelG.ptr)
  level : ∀ b, ∀ g ∈ G b, LevelOk s.orders_at_price_pool_ s.order_pool_ g
  cross : ∀ g ∈ G true, ∀ g' ∈ G false, g.ptr ≠ g'.ptr
  own : ∀ b, ∀ g ∈ G b, ∀ b', ∀ g' ∈ G b', ∀ p ∈ g.ptrs, p ∈ g'.ptrs → g.ptr = g'.ptr
  usedL : ∀ b, ∀ g ∈ G b, s.orders_at_price_pool_.Used g.ptr
  usedO : ∀ b, ∀ g ∈ G b, ∀ p ∈ g.ptrs, s.order_pool_.Used p
  validL : s.orders_at_price_pool_.Valid
  validO : s.order_pool_.Valid

section Core

variable {s : Ladder K I} {G : Ghost K}

/-- A level's address determines it and its side. -/
theorem Core.ptr_inj (h : Core s G) {b b' : Bool} {g g' : LevelG K} (hg : g ∈ G b)
    (hg' : g' ∈ G b') (he : g.ptr = g'.ptr) : b = b' ∧ g = g' := by
  have hb : b = b' := by
    cases b <;> cases b'
    · rfl
    · exact absurd he.symm (h.cross g' hg' g hg)
    · exact absurd he (h.cross g hg g' hg')
    · rfl
  subst hb
  exact ⟨rfl, List.inj_on_of_nodup_map (h.ring b).nodup hg hg' he⟩

/-- An order's address determines its level. -/
theorem Core.own_eq (h : Core s G) {b b' : Bool} {g g' : LevelG K} {p : Nat} (hg : g ∈ G b)
    (hg' : g' ∈ G b') (hp : p ∈ g.ptrs) (hp' : p ∈ g'.ptrs) : b = b' ∧ g = g' :=
  h.ptr_inj hg hg' (h.own b g hg b' g' hg' p hp hp')

theorem LevelOk.ptrs_ne {lp : MemPool OrdersAtPrice} {op : MemPool (Order K)} {g : LevelG K}
    (h : LevelOk lp op g) : g.ptrs ≠ [] := by
  unfold LevelG.ptrs
  simpa using h.ne

/-- A level's list of addresses, split at its first and its last. -/
theorem LevelOk.split {lp : MemPool OrdersAtPrice} {op : MemPool (Order K)} {g : LevelG K}
    (h : LevelOk lp op g) : ∃ x xs J y, g.ptrs = x :: xs ∧ x :: xs = J ++ [y] ∧
      lp.firstOrder g.ptr = some x ∧ op.prevOrder x = some y := by
  cases hp : g.ptrs with
  | nil => exact absurd hp h.ptrs_ne
  | cons x xs =>
    have hr := h.ring
    rw [hp] at hr
    refine ⟨x, xs, (x :: xs).dropLast, (x :: xs).getLast (by simp), rfl,
      (List.dropLast_append_getLast _).symm, ?_, hr.prev_head⟩
    rw [h.first, hp]
    rfl

/-- Every level of `G'` is one of `G`, with no orders of its own. -/
def Ghost.Within (G' G : Ghost K) : Prop :=
  ∀ b, ∀ g' ∈ G' b, ∃ g ∈ G b, g.ptr = g'.ptr ∧ ∀ a ∈ g'.ptrs, a ∈ g.ptrs

theorem Core.cross_within (h : Core s G) {G' : Ghost K} (hw : G'.Within G) :
    ∀ g ∈ G' true, ∀ g' ∈ G' false, g.ptr ≠ g'.ptr := by
  intro g₁ hg₁ g₂ hg₂
  obtain ⟨g₁', hg₁', he₁, _⟩ := hw _ g₁ hg₁
  obtain ⟨g₂', hg₂', he₂, _⟩ := hw _ g₂ hg₂
  rw [← he₁, ← he₂]
  exact h.cross g₁' hg₁' g₂' hg₂'

theorem Core.own_within (h : Core s G) {G' : Ghost K} (hw : G'.Within G) :
    ∀ b, ∀ g ∈ G' b, ∀ b', ∀ g' ∈ G' b', ∀ p ∈ g.ptrs, p ∈ g'.ptrs → g.ptr = g'.ptr := by
  intro b₁ g₁ hg₁ b₂ g₂ hg₂ a ha₁ ha₂
  obtain ⟨g₁', hg₁', he₁, hp₁⟩ := hw _ g₁ hg₁
  obtain ⟨g₂', hg₂', he₂, hp₂⟩ := hw _ g₂ hg₂
  rw [← he₁, ← he₂]
  exact h.own _ g₁' hg₁' _ g₂' hg₂' a (hp₁ a ha₁) (hp₂ a ha₂)

end Core

/-! ## What the code does to the lists -/

/-- Order `x` joins level `l` at its tail. -/
def Ghost.append (G : Ghost K) (l : Nat) (x : Nat × OrderData K) : Ghost K :=
  fun b => (G b).map fun g => if g.ptr = l then { g with orders := g.orders ++ [x] } else g

/-- The walk of `addOrdersAtPrice` behind the best level. -/
def insertScan (n : LevelG K) : List (LevelG K) → List (LevelG K)
  | [] => [n]
  | y :: ys => if Ladder.addAfter n.side n.price y.price then y :: insertScan n ys else n :: y :: ys

/-- Where `addOrdersAtPrice` links level `n` into a side. -/
def insertLevel (n : LevelG K) : List (LevelG K) → List (LevelG K)
  | [] => [n]
  | x :: xs =>
    if Ladder.addAfter n.side n.price x.price then x :: insertScan n xs
    else if Ladder.addBefore n.side n.price x.price then n :: x :: xs
    else x :: xs ++ [n]

/-- Level `n` joins side `b`. -/
def Ghost.insert (G : Ghost K) (b : Bool) (n : LevelG K) : Ghost K :=
  Function.update G b (insertLevel n (G b))

/-- Order `p` leaves its level; a level without orders leaves its side. -/
def removeFrom (p : Nat) (L : List (LevelG K)) : List (LevelG K) :=
  (L.map fun g => { g with orders := g.orders.filter fun o => decide (o.1 ≠ p) }).filter
    fun g => decide (g.ptrs ≠ [])

def Ghost.remove (G : Ghost K) (p : Nat) : Ghost K := fun b => removeFrom p (G b)

/-- Order `p`'s quantity becomes `q`. -/
def Ghost.setQty (G : Ghost K) (p q : Nat) : Ghost K :=
  fun b => (G b).map fun g => { g with
    orders := g.orders.map fun o => if o.1 = p then (o.1, { o.2 with qty_ := q }) else o }

theorem Ghost.append_ptrs (G : Ghost K) (l : Nat) (x : Nat × OrderData K) (b : Bool) :
    ((G.append l x) b).map LevelG.ptr = (G b).map LevelG.ptr := by
  unfold Ghost.append
  rw [List.map_map]
  refine List.map_congr_left fun g _ => ?_
  simp only [Function.comp]
  split <;> rfl

/-- The levels after an order joined: the others, and its own one longer. -/
theorem Ghost.mem_append {G : Ghost K} {l : Nat} {x : Nat × OrderData K} {b : Bool} {g : LevelG K} :
    g ∈ (G.append l x) b ↔ (g ∈ G b ∧ g.ptr ≠ l) ∨
      ∃ g₀ ∈ G b, g₀.ptr = l ∧ g = { g₀ with orders := g₀.orders ++ [x] } := by
  unfold Ghost.append
  rw [List.mem_map]
  constructor
  · rintro ⟨g₀, h₀, rfl⟩
    by_cases he : g₀.ptr = l
    · exact Or.inr ⟨g₀, h₀, he, by rw [if_pos he]⟩
    · left
      rw [if_neg he]
      exact ⟨h₀, he⟩
  · rintro (⟨hg, hne⟩ | ⟨g₀, h₀, he, rfl⟩)
    · exact ⟨g, hg, by rw [if_neg hne]⟩
    · exact ⟨g₀, h₀, by rw [if_pos he]⟩

/-- What a level gained, if it did, is the order that joined. -/
theorem Ghost.append_part {G : Ghost K} {l p : Nat} {d : OrderData K} {b : Bool} {g : LevelG K}
    (hg : g ∈ (G.append l (p, d)) b) :
    ∃ g₀ ∈ G b, g₀.ptr = g.ptr ∧ ∀ a ∈ g.ptrs, a ∈ g₀.ptrs ∨ (a = p ∧ g₀.ptr = l) := by
  rcases Ghost.mem_append.mp hg with ⟨hg, _⟩ | ⟨g₀, hg₀, he, rfl⟩
  · exact ⟨g, hg, rfl, fun a ha => Or.inl ha⟩
  · refine ⟨g₀, hg₀, rfl, fun a ha => ?_⟩
    simp only [LevelG.ptrs, List.map_append, List.map_cons, List.map_nil, List.mem_append,
      List.mem_singleton] at ha
    exact ha.imp id fun e => ⟨e, he⟩

/-- Order `p` is linked behind `y`, the last of its level, and before `x`, the first. -/
def MemPool.linkOrder (m : MemPool (Order K)) (p y x : Nat) : MemPool (Order K) :=
  (((m.setNextOrder y (some p)).setPrevOrder p (some y)).setNextOrder p (some x)).setPrevOrder x
    (some p)

section Link

variable (m : MemPool (Order K)) (p y x a : Nat)

theorem MemPool.nextOrder_linkOrder : (m.linkOrder p y x).nextOrder a =
    if a = p then some x else if a = y then some p else m.nextOrder a := by
  simp [linkOrder, nextOrder_setNextOrder]

theorem MemPool.prevOrder_linkOrder : (m.linkOrder p y x).prevOrder a =
    if a = x then some p else if a = p then some y else m.prevOrder a := by
  simp [linkOrder, prevOrder_setPrevOrder]

theorem MemPool.data_linkOrder : (m.linkOrder p y x).data a = m.data a := by
  simp [linkOrder]

theorem MemPool.isFree_linkOrder : (m.linkOrder p y x).isFree a = m.isFree a := by
  simp [linkOrder, setNextOrder, setPrevOrder]

end Link

/-- The level that the order joined. -/
theorem LevelOk.append {lp : MemPool OrdersAtPrice} {op : MemPool (Order K)} {g : LevelG K}
    (h : LevelOk lp op g) {p x y : Nat} {xs J : List Nat} (hp : p ∉ g.ptrs)
    (hxs : g.ptrs = x :: xs) (hJ : x :: xs = J ++ [y]) :
    LevelOk lp (op.linkOrder p y x) { g with orders := g.orders ++ [(p, op.data p)] } := by
  have hcat : LevelG.ptrs { g with orders := g.orders ++ [(p, op.data p)] } = g.ptrs ++ [p] := by
    simp [LevelG.ptrs]
  have hpx : p ≠ x := fun e => hp (by rw [hxs, e]; exact List.mem_cons_self ..)
  have hpy : p ≠ y := fun e => hp (by rw [hxs, hJ, e]; simp)
  have hne : ∀ a ∈ x :: xs, a ≠ p := fun a ha e => hp (by rw [hxs, ← e]; exact ha)
  refine ⟨h.side, h.price, ?_, by simp, ?_, ?_⟩
  · rw [hcat, List.head?_append_of_ne_nil _ h.ptrs_ne]
    exact h.first
  · have hr := h.ring
    rw [hxs] at hr
    rw [hcat, hxs]
    refine hr.insertTail hJ (fun hm => hne p hm rfl) ?_ ?_ ?_ ?_ ?_ ?_
    · rw [MemPool.nextOrder_linkOrder, if_neg (Ne.symm hpy), if_pos rfl]
    · rw [MemPool.prevOrder_linkOrder, if_neg hpx, if_pos rfl]
    · rw [MemPool.nextOrder_linkOrder, if_pos rfl]
    · rw [MemPool.prevOrder_linkOrder, if_pos rfl]
    · intro a ha hay
      rw [MemPool.nextOrder_linkOrder, if_neg (hne a ha), if_neg hay]
    · intro a ha hax
      rw [MemPool.prevOrder_linkOrder, if_neg hax, if_neg (hne a ha)]
  · intro o ho
    rw [MemPool.data_linkOrder]
    rcases List.mem_append.mp ho with ho | ho
    · exact h.data o ho
    · rw [List.mem_singleton.mp ho]

/-- The levels that it did not join. -/
theorem LevelOk.apart {lp : MemPool OrdersAtPrice} {op : MemPool (Order K)} {g : LevelG K}
    (h : LevelOk lp op g) {p x y : Nat} (hp : p ∉ g.ptrs) (hx : x ∉ g.ptrs) (hy : y ∉ g.ptrs) :
    LevelOk lp (op.linkOrder p y x) g := by
  refine h.congr rfl rfl rfl ?_ ?_ (fun a _ => MemPool.data_linkOrder ..)
  · intro a ha
    rw [MemPool.nextOrder_linkOrder, if_neg (fun (e : a = p) => hp (e ▸ ha)),
      if_neg (fun (e : a = y) => hy (e ▸ ha))]
  · intro a ha
    rw [MemPool.prevOrder_linkOrder, if_neg (fun (e : a = x) => hx (e ▸ ha)),
      if_neg (fun (e : a = p) => hp (e ▸ ha))]

section Append

variable {s : Ladder K I} {G : Ghost K} [OrderKey K I] [DecidableEq I]

/-- The code path of `addOrder` when the slot names a level. -/
theorem addOrder_append_eq {p l x y : Nat}
    (hslot : s.getOrdersAtPrice (s.order_pool_.data p).price_ = some l)
    (hfirst : s.orders_at_price_pool_.firstOrder l = some x)
    (hlast : s.order_pool_.prevOrder x = some y)
    (hin : inRange (K := K) (idx (s.order_pool_.data p).id_) = true) :
    s.addOrder p = .ok { s with
      order_pool_ := s.order_pool_.linkOrder p y x
      id_to_order_ := Function.update s.id_to_order_ (idx (s.order_pool_.data p).id_) (some p) } := by
  simp [Ladder.addOrder, MemPool.linkOrder, hslot, hfirst, hlast, Ladder.setIdx, hin]

/-- **An order joins an existing level** at its tail. -/
theorem addOrder_append (h : Core s G) {b : Bool} {g : LevelG K} (hg : g ∈ G b) {p : Nat}
    (hp : s.order_pool_.Used p) (hnew : ∀ b, ∀ g ∈ G b, p ∉ g.ptrs)
    (hslot : s.getOrdersAtPrice (s.order_pool_.data p).price_ = some g.ptr)
    (hin : inRange (K := K) (idx (s.order_pool_.data p).id_) = true) :
    ∃ op', s.addOrder p = .ok { s with
        order_pool_ := op'
        id_to_order_ := Function.update s.id_to_order_ (idx (s.order_pool_.data p).id_) (some p) } ∧
      op'.isFree = s.order_pool_.isFree ∧ op'.size = s.order_pool_.size ∧
      Core { s with
        order_pool_ := op'
        id_to_order_ := Function.update s.id_to_order_ (idx (s.order_pool_.data p).id_) (some p) }
        (G.append g.ptr (p, s.order_pool_.data p)) := by
  have hok := h.level b g hg
  obtain ⟨x, xs, J, y, hxs, hJ, hfirst, hlast⟩ := hok.split
  refine ⟨s.order_pool_.linkOrder p y x, addOrder_append_eq hslot hfirst hlast hin, ?_, rfl, ?_⟩
  · funext a
    exact MemPool.isFree_linkOrder ..
  have hxg : x ∈ g.ptrs := by rw [hxs]; exact List.mem_cons_self ..
  have hyg : y ∈ g.ptrs := by rw [hxs, hJ]; simp
  refine ⟨?_, ?_, ?_, ?_, ?_, ?_, ?_, h.validL, ?_⟩
  · intro b'
    rw [Ghost.append_ptrs]
    exact h.best b'
  · intro b'
    rw [Ghost.append_ptrs]
    exact h.ring b'
  · intro b' g' hg'
    rcases Ghost.mem_append.mp hg' with ⟨hg', hne⟩ | ⟨g₀, hg₀, he, rfl⟩
    · -- the orders that were written are those of `g`
      have hfar : ∀ a ∈ g.ptrs, a ∉ g'.ptrs := fun a ha ha' =>
        hne (h.own b' g' hg' b g hg a ha' ha)
      exact (h.level b' g' hg').apart (hnew b' g' hg') (hfar x hxg) (hfar y hyg)
    · obtain ⟨rfl, rfl⟩ := h.ptr_inj hg₀ hg he
      exact hok.append (hnew _ _ hg) hxs hJ
  · intro g₁ hg₁ g₂ hg₂
    obtain ⟨g₁', hg₁', he₁, _⟩ := Ghost.append_part hg₁
    obtain ⟨g₂', hg₂', he₂, _⟩ := Ghost.append_part hg₂
    rw [← he₁, ← he₂]
    exact h.cross g₁' hg₁' g₂' hg₂'
  · intro b₁ g₁ hg₁ b₂ g₂ hg₂ a ha₁ ha₂
    obtain ⟨g₁', hg₁', he₁, hsub₁⟩ := Ghost.append_part hg₁
    obtain ⟨g₂', hg₂', he₂, hsub₂⟩ := Ghost.append_part hg₂
    rw [← he₁, ← he₂]
    rcases hsub₁ a ha₁ with h₁ | ⟨rfl, h₁⟩ <;> rcases hsub₂ a ha₂ with h₂ | ⟨h₂e, h₂⟩
    · exact h.own _ _ hg₁' _ _ hg₂' a h₁ h₂
    · exact absurd (h₂e ▸ h₁) (hnew _ _ hg₁')
    · exact absurd h₂ (hnew _ _ hg₂')
    · rw [h₁, h₂]
  · intro b' g' hg'
    obtain ⟨g₀, hg₀, he, _⟩ := Ghost.append_part hg'
    rw [← he]
    exact h.usedL b' g₀ hg₀
  · intro b' g' hg' a ha
    show _ ∧ (s.order_pool_.linkOrder p y x).isFree a = false
    rw [MemPool.isFree_linkOrder]
    obtain ⟨g₀, hg₀, _, hsub⟩ := Ghost.append_part hg'
    rcases hsub a ha with ha | ⟨rfl, _⟩
    · exact h.usedO b' g₀ hg₀ a ha
    · exact hp
  · exact (((h.validO.set _ _).set _ _).set _ _).set _ _

end Append

/-! ## Quantities -/

theorem Ghost.mem_setQty {G : Ghost K} {p q : Nat} {b : Bool} {g : LevelG K} :
    g ∈ (G.setQty p q) b ↔ ∃ g₀ ∈ G b, g = { g₀ with
      orders := g₀.orders.map fun o => if o.1 = p then (o.1, { o.2 with qty_ := q }) else o } := by
  unfold Ghost.setQty
  rw [List.mem_map]
  exact ⟨fun ⟨g₀, h, e⟩ => ⟨g₀, h, e.symm⟩, fun ⟨g₀, h, e⟩ => ⟨g₀, h, e.symm⟩⟩

/-- Rewriting quantities moves no order. -/
theorem ptrs_setQty (g : LevelG K) (p q : Nat) :
    LevelG.ptrs { g with
      orders := g.orders.map fun o => if o.1 = p then (o.1, { o.2 with qty_ := q }) else o }
      = g.ptrs := by
  unfold LevelG.ptrs
  rw [List.map_map]
  refine List.map_congr_left fun o _ => ?_
  simp only [Function.comp]
  split <;> rfl

/-- **Writing a quantity** changes that order's quantity and nothing else. -/
theorem core_setQty {s : Ladder K I} {G : Ghost K} (h : Core s G) (p q : Nat) :
    Core { s with order_pool_ := s.order_pool_.setQty p q } (G.setQty p q) := by
  have hsub : (G.setQty p q).Within G := by
    intro b g hg
    obtain ⟨g₀, hg₀, rfl⟩ := Ghost.mem_setQty.mp hg
    refine ⟨g₀, hg₀, rfl, fun a ha => ?_⟩
    rwa [ptrs_setQty] at ha
  have hptrmap : ∀ b, ((G.setQty p q) b).map LevelG.ptr = (G b).map LevelG.ptr := by
    intro b
    unfold Ghost.setQty
    rw [List.map_map]
    rfl
  refine ⟨?_, ?_, ?_, h.cross_within hsub, h.own_within hsub, ?_, ?_, h.validL, h.validO.set _ _⟩
  · intro b
    rw [hptrmap]
    exact h.best b
  · intro b
    rw [hptrmap]
    exact h.ring b
  · intro b g hg
    obtain ⟨g₀, hg₀, rfl⟩ := Ghost.mem_setQty.mp hg
    have hok := h.level b g₀ hg₀
    refine ⟨hok.side, hok.price, ?_, ?_, ?_, ?_⟩
    · rw [ptrs_setQty]
      exact hok.first
    · simpa using hok.ne
    · rw [ptrs_setQty]
      exact hok.ring.congr (fun a _ => by simp) (fun a _ => by simp)
    · intro o ho
      obtain ⟨o₀, ho₀, rfl⟩ := List.mem_map.mp ho
      have hd := hok.data o₀ ho₀
      rw [MemPool.data_setQty]
      by_cases he : o₀.1 = p
      · simp [he, ← hd]
      · simp [he, hd]
  · intro b g hg
    obtain ⟨g₀, hg₀, he, _⟩ := hsub _ g hg
    rw [← he]
    exact h.usedL b g₀ hg₀
  · intro b g hg a ha
    obtain ⟨g₀, hg₀, _, hp⟩ := hsub _ g hg
    exact MemPool.used_set.mpr (h.usedO b g₀ hg₀ a (hp a ha))

end LowLatency
