import LowLatency.Book.Repr

/-!
# `toString`: the text of a book, and its validity check

`MEOrderBook`, `UnorderedMapMEOrderBook` and `MarketOrderBook` print themselves with the
same routine, and log the result from their destructors. It walks both sides by the links
of the levels and each level by the links of its orders, twice, and prints of every level
and order who its neighbours are. With `validity_check` it compares each price with the
one before, the first with the limit of `Price`, and ends the process with `FATAL` where
they do not run from better to worse.

The classes differ in what they call an order (`OrderText`). The buffer of 4096 characters
behind each `snprintf` holds every line, so it does not appear.

`bookText` is the text as a function of the levels, with no pointer left.
`Core.toString_eq` says that this is what is printed, in whatever order the levels are
linked, and that the check stops the process exactly where the order is wrong.
-/

namespace LowLatency

open Lib (Better Ring around aroundFrom)

/-- `std::numeric_limits<Price>::min()`. -/
def Price_MIN : Int := -2 ^ 63

/-- What a class prints for its orders and levels. -/
class OrderText (K : Type) where
  /-- The id by which an order is named. -/
  orderId : K → Nat
  /-- `toString` of an order, given the ids of its neighbours. -/
  orderString : OrderData K → Nat → Nat → String
  /-- The names of a level and of its first order. -/
  levelName : String
  firstName : String

export OrderText (orderId)

variable {K I : Type} [OrderText K]

/-! ## The pieces of the text -/

/-- `%3s`: blanks in front, up to a width. -/
def padLeft (width : Nat) (text : String) : String :=
  "".pushn ' ' (width - text.length) ++ text

/-- `%-3s`: blanks behind, up to a width. -/
def padRight (width : Nat) (text : String) : String := text.pushn ' ' (width - text.length)

/-- The line of a level, up to its orders. -/
def levelLine (price prev next : Int) (qty num_orders : Nat) : String :=
  " <px:" ++ padLeft 3 (priceToString price) ++ " p:" ++ padLeft 3 (priceToString prev) ++
    " n:" ++ padLeft 3 (priceToString next) ++ "> " ++ padRight 3 (priceToString price) ++
    " @ " ++ padRight 5 (numToString Qty_INVALID qty) ++
    "(" ++ padRight 4 (ToString.toString num_orders) ++ ")"

/-- An order of the detailed text. -/
def orderLine (id qty prev next : Nat) : String :=
  "[oid:" ++ numToString OrderId_INVALID id ++ " q:" ++ numToString Qty_INVALID qty ++
    " p:" ++ numToString OrderId_INVALID prev ++ " n:" ++ numToString OrderId_INVALID next ++ "] "

/-- `price` does not come behind `last_price` on its side. -/
def outOfOrder (side : Side) (last_price price : Int) : Bool :=
  (decide (side = .SELL) && decide (price ≤ last_price)) ||
    (decide (side = .BUY) && decide (last_price ≤ price))

/-- What `FATAL` reports. -/
def notSorted (last_price : Int) (level : String) : String :=
  "Bids/Asks not sorted by ascending/descending prices last:" ++ priceToString last_price ++
    " itr:" ++ level

theorem outOfOrder_sideOf (b : Bool) (last_price price : Int) :
    outOfOrder (sideOf b) last_price price = decide ¬ Better b last_price price := by
  cases b <;> simp [outOfOrder, sideOf, Better]

/-! ## The routine -/

namespace Ladder

/-- `prev_order_ ? prev_order_->order_id_ : OrderId_INVALID`. -/
def neighbourId (m : MemPool (Order K)) : Option Nat → Nat
  | none => OrderId_INVALID
  | some o => orderId (m.data o).id_

/-- `prev_entry_ ? prev_entry_->price_ : Price_INVALID`. -/
def neighbourPrice (m : MemPool OrdersAtPrice) : Option Nat → Int
  | none => Price_INVALID
  | some l => m.levelPrice l

/-- `MEOrdersAtPrice::toString`. -/
def levelString (s : Ladder K I) (l : Nat) : String :=
  let lp := s.orders_at_price_pool_
  let m := s.order_pool_
  OrderText.levelName K ++ "[side:" ++ sideToString (lp.levelSide l) ++
    " price:" ++ priceToString (lp.levelPrice l) ++
    " " ++ OrderText.firstName K ++ ":" ++
    (match lp.firstOrder l with
      | none => "null"
      | some o => OrderText.orderString (m.data o) (neighbourId m (m.prevOrder o))
          (neighbourId m (m.nextOrder o))) ++
    " prev:" ++ priceToString (neighbourPrice lp (lp.prevEntry l)) ++
    " next:" ++ priceToString (neighbourPrice lp (lp.nextEntry l)) ++ "]"

omit [OrderText K] in
/-- The loop over the orders of a level: from the first on until `next_order_` is the first
again. -/
def eachOrder {σ : Type} (m : MemPool (Order K)) (first : Nat) (body : σ → Nat → σ) :
    Nat → Nat → σ → Exec σ
  | 0, _, _ => .error .diverges
  | fuel + 1, o_itr, acc =>
    let acc := body acc o_itr
    if m.nextOrder o_itr = some first then .ok acc
    else do
      let next ← deref (m.nextOrder o_itr)
      eachOrder m first body fuel next acc

/-- The body of the first loop: quantity and number of orders. -/
def countOrder (m : MemPool (Order K)) (acc : Nat × Nat) (o_itr : Nat) : Nat × Nat :=
  (wrap32 (acc.1 + (m.data o_itr).qty_), acc.2 + 1)

/-- The body of the second. -/
def printOrder (detailed : Bool) (m : MemPool (Order K)) (ss : String) (o_itr : Nat) : String :=
  if detailed then
    ss ++ orderLine (orderId (m.data o_itr).id_) (m.data o_itr).qty_
      (neighbourId m (m.prevOrder o_itr)) (neighbourId m (m.nextOrder o_itr))
  else ss

/-- `printer`: the text of a level, and the new `last_price`. -/
def printer (s : Ladder K I) (detailed sanity_check : Bool) (itr : Nat) (side : Side)
    (last_price : Int) : Exec (String × Int) := do
  let lp := s.orders_at_price_pool_
  let m := s.order_pool_
  let first ← deref (lp.firstOrder itr)
  let (qty, num_orders) ← eachOrder m first (countOrder m) (m.size + 1) first (0, 0)
  let prev ← deref (lp.prevEntry itr)
  let next ← deref (lp.nextEntry itr)
  let price := lp.levelPrice itr
  let ss ← eachOrder m first (printOrder detailed m) (m.size + 1) first
    (levelLine price (lp.levelPrice prev) (lp.levelPrice next) qty num_orders)
  if sanity_check then
    if outOfOrder side last_price price then
      .error (.assertion (notSorted last_price (s.levelString itr)))
    else return (ss ++ "\n", price)
  else return (ss ++ "\n", last_price)

/-- The loop over the levels of a side. -/
def printSide (s : Ladder K I) (detailed validity_check : Bool) (name : String) (side : Side) :
    Nat → Option Nat → Nat → Int → Exec String
  | 0, _, _, _ => .error .diverges
  | _ + 1, none, _, _ => .ok ""
  | fuel + 1, some itr, count, last_price => do
    let next := s.orders_at_price_pool_.nextEntry itr
    let next_itr := if next = s.best (isBid side) then none else next
    let (ss, last_price) ← s.printer detailed validity_check itr side last_price
    let rest ← s.printSide detailed validity_check name side fuel next_itr (count + 1) last_price
    return name ++ " L:" ++ ToString.toString count ++ " => " ++ ss ++ rest

/-- The text of the book of a ticker. -/
def toString (s : Ladder K I) (ticker_id : Nat) (detailed validity_check : Bool) : Exec String := do
  let fuel := s.orders_at_price_pool_.size + 1
  let asks ← s.printSide detailed validity_check "ASKS" .SELL fuel s.asks_by_price_ 0 Price_MIN
  let bids ← s.printSide detailed validity_check "BIDS" .BUY fuel s.bids_by_price_ 0 Price_INVALID
  return "Ticker:" ++ numToString TickerId_INVALID ticker_id ++ "\n" ++ asks ++
    "\n                          X\n\n" ++ bids

end Ladder

/-! ## The text without pointers -/

/-- The orders of a level, each between its neighbours. -/
def ordersText (detailed : Bool) (ss : String)
    (os : List (OrderData K × OrderData K × OrderData K)) : String :=
  os.foldl (fun ss t =>
    if detailed then
      ss ++ orderLine (orderId t.2.1.id_) t.2.1.qty_ (orderId t.1.id_) (orderId t.2.2.id_)
    else ss) ss

/-- A level between its neighbours. -/
def levelText (detailed : Bool)
    (t : Ladder.LevelView K × Ladder.LevelView K × Ladder.LevelView K) : String :=
  ordersText detailed
    (levelLine t.2.1.price_ t.1.price_ t.2.2.price_
      (wrap32 (t.2.1.orders.map OrderData.qty_).sum) t.2.1.orders.length)
    (around t.2.1.orders) ++ "\n"

/-- The levels of a side from `count` on. -/
def sideText (detailed : Bool) (name : String) :
    Nat → List (Ladder.LevelView K × Ladder.LevelView K × Ladder.LevelView K) → String
  | _, [] => ""
  | count, t :: ts =>
    name ++ " L:" ++ ToString.toString count ++ " => " ++ levelText detailed t ++
      sideText detailed name (count + 1) ts

/-- The text of a book with these levels. -/
def bookText (ticker_id : Nat) (detailed : Bool) (levels : Bool → List (Ladder.LevelView K)) :
    String :=
  "Ticker:" ++ numToString TickerId_INVALID ticker_id ++ "\n" ++
    sideText detailed "ASKS" 0 (around (levels false)) ++
    "\n                          X\n\n" ++
    sideText detailed "BIDS" 0 (around (levels true))

/-! ## The loops over a level -/

section Orders

variable {m : MemPool (Order K)}

omit [OrderText K] in
/-- Along a chain that ends in a node pointing at the first, the loop folds its body. -/
theorem eachOrder_chain {σ : Type} {first : Nat} {body : σ → Nat → σ} :
    ∀ (xs : List Nat) (x fuel : Nat) (acc : σ), xs.length < fuel → first ∉ xs →
      (x :: xs ++ [first]).IsChain (Lib.Link m.nextOrder m.prevOrder) →
      Ladder.eachOrder m first body fuel x acc = .ok ((x :: xs).foldl body acc) := by
  intro xs
  induction xs with
  | nil =>
    intro x fuel acc hf _ hc
    obtain ⟨fuel, rfl⟩ := Nat.exists_eq_succ_of_ne_zero (Nat.ne_of_gt hf)
    have hx : m.nextOrder x = some first := (List.isChain_pair.mp hc).1
    rw [Ladder.eachOrder, if_pos hx]
    rfl
  | cons y ys ih =>
    intro x fuel acc hf hs hc
    obtain ⟨fuel, rfl⟩ := Nat.exists_eq_succ_of_ne_zero (Nat.ne_of_gt (Nat.zero_lt_of_lt hf))
    simp only [List.cons_append] at hc
    rw [List.isChain_cons_cons] at hc
    have hne : y ≠ first := fun e => hs (e ▸ List.mem_cons_self ..)
    have hrec := ih y fuel (body acc x) (Nat.lt_of_succ_lt_succ hf)
      (fun hm => hs (List.mem_cons_of_mem _ hm)) hc.2
    rw [Ladder.eachOrder, hc.1.1, if_neg (by simpa using hne)]
    exact hrec

omit [OrderText K] in
/-- **Both loops fold over the orders of the level.** -/
theorem eachOrder_ring {σ : Type} {x : Nat} {xs : List Nat}
    (h : Ring m.nextOrder m.prevOrder (x :: xs)) {fuel : Nat} (hf : xs.length < fuel)
    (body : σ → Nat → σ) (acc : σ) :
    Ladder.eachOrder m x body fuel x acc = .ok ((x :: xs).foldl body acc) :=
  eachOrder_chain xs x fuel acc hf (List.nodup_cons.mp h.nodup).1 h.links

omit [OrderText K] in
/-- The first loop adds up quantities, modulo the width of `Qty`, and counts. -/
theorem foldl_countOrder (ps : List Nat) : ∀ qty num_orders : Nat,
    ps.foldl (Ladder.countOrder m) (wrap32 qty, num_orders) =
      (wrap32 (qty + ((ps.map m.data).map OrderData.qty_).sum), num_orders + ps.length) := by
  induction ps with
  | nil => exact fun _ _ => rfl
  | cons p ps ih =>
    intro qty num_orders
    have hstep : Ladder.countOrder m (wrap32 qty, num_orders) p =
        (wrap32 (qty + (m.data p).qty_), num_orders + 1) :=
      Prod.ext (Nat.mod_add_mod ..) rfl
    rw [List.foldl_cons, hstep, ih]
    simp only [List.map_cons, List.sum_cons, List.length_cons, Nat.add_assoc, Nat.add_comm 1]

/-- The second prints each order with the ids of its neighbours. -/
theorem foldl_printOrder (detailed : Bool) {ps : List Nat}
    (h : Ring m.nextOrder m.prevOrder ps) (ss : String) :
    ps.foldl (Ladder.printOrder detailed m) ss =
      ordersText detailed ss (around (ps.map m.data)) := by
  unfold ordersText
  rw [Lib.around_map, List.foldl_map]
  conv_lhs => rw [← Lib.around_middle ps, List.foldl_map]
  refine List.foldl_ext _ _ _ fun ss t ht => ?_
  obtain ⟨hprev, hnext⟩ := h.around_links t ht
  rw [Ladder.printOrder, hprev, hnext]
  rfl

end Orders

/-! ## The loop over a side -/

/-- The levels of `L` come one behind the other, the first behind `last_price`. -/
def InOrder (b : Bool) (last_price : Int) (L : List (LevelG K)) : Prop :=
  (last_price :: L.map LevelG.price).IsChain (Better b)

section Side

variable {s : Ladder K I} {G : Ghost K}

/-- **A level is printed** between its neighbours, and checked against the last price. -/
theorem Core.printer (h : Core s G) {b : Bool} {t : LevelG K × LevelG K × LevelG K}
    (ht : t ∈ around (G b)) (detailed sanity_check : Bool) (side : Side) (last_price : Int) :
    s.printer detailed sanity_check t.2.1.ptr side last_price =
      if sanity_check = true ∧ outOfOrder side last_price t.2.1.price = true then
        .error (.assertion (notSorted last_price (s.levelString t.2.1.ptr)))
      else .ok (levelText detailed (t.1.view, t.2.1.view, t.2.2.view),
        if sanity_check then t.2.1.price else last_price) := by
  obtain ⟨hu, hg, hv⟩ := Lib.mem_around ht
  have hok := h.level b _ hg
  -- the links of the level
  have hlinks := (h.ring b).around_links
  rw [Lib.around_map] at hlinks
  obtain ⟨hprev, hnext⟩ := hlinks _ (List.mem_map_of_mem ht)
  -- the orders of the level
  obtain ⟨x, xs, -, -, hxs, -, hfirst, -⟩ := hok.split
  have hr := hok.ring
  rw [hxs] at hr
  have hlen : xs.length < s.order_pool_.size + 1 := by
    have := length_le_of_lt hr.nodup (n := s.order_pool_.size)
      fun a ha => (h.usedO b _ hg a (hxs ▸ ha)).1
    simp only [List.length_cons] at this
    omega
  have hdata : (x :: xs).map s.order_pool_.data = t.2.1.view.orders := by
    rw [← hxs, LevelG.ptrs, List.map_map]
    exact List.map_congr_left fun o ho => hok.data o ho
  have hcount : (x :: xs).foldl (Ladder.countOrder s.order_pool_) (0, 0) =
      (wrap32 (t.2.1.view.orders.map OrderData.qty_).sum, t.2.1.view.orders.length) := by
    have hfold := foldl_countOrder (m := s.order_pool_) (x :: xs) 0 0
    rw [hdata, Nat.zero_add, Nat.zero_add] at hfold
    rw [← hdata, List.length_map, hdata]
    exact hfold
  have hprice : s.orders_at_price_pool_.levelPrice t.1.ptr = t.1.price := (h.level b _ hu).price
  have hprice' : s.orders_at_price_pool_.levelPrice t.2.2.ptr = t.2.2.price :=
    (h.level b _ hv).price
  unfold Ladder.printer
  simp only [hfirst, deref_some, exec_ok_bind, eachOrder_ring hr hlen, hcount, hprev, hnext,
    hok.price, hprice, hprice', foldl_printOrder detailed hr, hdata, exec_pure]
  cases sanity_check <;> simp [levelText, LevelG.view]

/-- One iteration over the levels of a side. -/
theorem Core.printSide_step (h : Core s G) {b : Bool} {first : LevelG K}
    (hfirst : s.best b = some first.ptr) {t : LevelG K × LevelG K × LevelG K}
    (ht : t ∈ around (G b)) (detailed validity_check : Bool) (name : String) (fuel count : Nat)
    (last_price : Int) :
    s.printSide detailed validity_check name (sideOf b) (fuel + 1) (some t.2.1.ptr) count
        last_price =
      if validity_check = true ∧ ¬ Better b last_price t.2.1.price then
        .error (.assertion (notSorted last_price (s.levelString t.2.1.ptr)))
      else do
        let rest ← s.printSide detailed validity_check name (sideOf b) fuel
          (if t.2.2.ptr = first.ptr then none else some t.2.2.ptr) (count + 1)
          (if validity_check then t.2.1.price else last_price)
        return name ++ " L:" ++ ToString.toString count ++ " => " ++
          levelText detailed (t.1.view, t.2.1.view, t.2.2.view) ++ rest := by
  have hlinks := (h.ring b).around_links
  rw [Lib.around_map] at hlinks
  obtain ⟨-, hnext⟩ := hlinks _ (List.mem_map_of_mem ht)
  rw [Ladder.printSide, h.printer ht, outOfOrder_sideOf, isBid_sideOf, hfirst, hnext]
  simp only [decide_eq_true_eq, Option.some.injEq]
  split <;> rfl

/-- **The levels of a side are printed** from any of them on, unless the check is made and
they are not in order; then `FATAL` names one of them. -/
theorem Core.printSide_from (h : Core s G) {b : Bool} {first : LevelG K}
    (hfirst : s.best b = some first.ptr) (detailed validity_check : Bool) (name : String)
    (fuel : Nat) (rest : List (LevelG K)) : ∀ (before g : LevelG K) (count : Nat)
    (last_price : Int), (∀ t ∈ aroundFrom first before (g :: rest), t ∈ around (G b)) →
    (∀ g' ∈ rest, g'.ptr ≠ first.ptr) →
    ((validity_check = true → InOrder b last_price (g :: rest)) →
      s.printSide detailed validity_check name (sideOf b) (fuel + rest.length + 2) (some g.ptr)
          count last_price =
        .ok (sideText detailed name count ((aroundFrom first before (g :: rest)).map
          fun t => (t.1.view, t.2.1.view, t.2.2.view)))) ∧
    (¬ (validity_check = true → InOrder b last_price (g :: rest)) → ∃ l price,
      s.printSide detailed validity_check name (sideOf b) (fuel + rest.length + 2) (some g.ptr)
          count last_price = .error (.assertion (notSorted price (s.levelString l)))) := by
  induction rest with
  | nil =>
    intro before g count last_price hin _
    have hstep := h.printSide_step hfirst (hin _ (List.mem_singleton_self _)) detailed
      validity_check name (fuel + 1) count last_price
    rw [if_pos rfl] at hstep
    have hiff : InOrder b last_price [g] ↔ Better b last_price g.price := List.isChain_pair
    rw [hiff]
    refine ⟨fun hok => hstep.trans ?_, fun hbad => ⟨g.ptr, last_price, hstep.trans ?_⟩⟩
    · rw [if_neg (by tauto)]
      rfl
    · rw [if_pos (by tauto)]
  | cons g' rest ih =>
    intro before g count last_price hin hne
    have hstep := h.printSide_step hfirst (hin _ (List.mem_cons_self ..)) detailed
      validity_check name (fuel + rest.length + 2) count last_price
    rw [if_neg (hne g' (List.mem_cons_self ..))] at hstep
    obtain ⟨hok', hbad'⟩ := ih g g' (count + 1) (if validity_check then g.price else last_price)
      (fun t ht => hin t (List.mem_cons_of_mem _ ht)) fun g'' hg'' =>
        hne g'' (List.mem_cons_of_mem _ hg'')
    have hiff : InOrder b last_price (g :: g' :: rest) ↔
        Better b last_price g.price ∧ InOrder b g.price (g' :: rest) := List.isChain_cons_cons
    rw [hiff]
    refine ⟨fun hok => hstep.trans ?_, fun hbad => ?_⟩
    · rw [if_neg (by tauto), hok' fun hv => by rw [if_pos hv]; exact (hok hv).2]
      rfl
    · by_cases hlast : validity_check = true ∧ ¬ Better b last_price g.price
      · rw [if_pos hlast] at hstep
        exact ⟨_, _, hstep⟩
      · obtain ⟨l, price, hrun⟩ := hbad' fun hrest => hbad fun hv => by
          have := hrest hv
          rw [if_pos hv] at this
          exact ⟨by tauto, this⟩
        rw [if_neg hlast, hrun] at hstep
        exact ⟨l, price, hstep⟩

/-- The limit that the first price of a side is compared with. -/
def extreme (b : Bool) : Int := if b then Price_INVALID else Price_MIN

/-- **A side is printed.** -/
theorem Core.printSide (h : Core s G) (b detailed validity_check : Bool) (name : String) :
    ((validity_check = true → InOrder b (extreme b) (G b)) →
      s.printSide detailed validity_check name (sideOf b) (s.orders_at_price_pool_.size + 1)
          (s.best b) 0 (extreme b) =
        .ok (sideText detailed name 0 (around ((G b).map LevelG.view)))) ∧
    (¬ (validity_check = true → InOrder b (extreme b) (G b)) → ∃ l price,
      s.printSide detailed validity_check name (sideOf b) (s.orders_at_price_pool_.size + 1)
          (s.best b) 0 (extreme b) = .error (.assertion (notSorted price (s.levelString l)))) := by
  have hbest := h.best b
  cases hL : G b with
  | nil =>
    rw [hL] at hbest
    rw [hbest]
    exact ⟨fun _ => rfl, fun hbad => absurd (fun _ => List.isChain_singleton _) hbad⟩
  | cons g rest =>
    have hnd := (h.ring b).nodup
    have hlen := length_le_of_lt hnd (n := s.orders_at_price_pool_.size) fun a ha => by
      obtain ⟨g', hg', rfl⟩ := List.mem_map.mp ha
      exact (h.usedL b g' hg').1
    rw [hL] at hbest hnd hlen
    obtain ⟨fuel, hfuel⟩ : ∃ fuel, s.orders_at_price_pool_.size + 1 = fuel + rest.length + 2 :=
      ⟨s.orders_at_price_pool_.size - (rest.length + 1), by
        simp only [List.length_map, List.length_cons] at hlen
        omega⟩
    have hfrom := h.printSide_from hbest detailed validity_check name fuel rest
      ((g :: rest).getLast (List.cons_ne_nil g rest)) g 0 (extreme b)
      (fun t ht => by rw [hL]; exact ht) fun g' hg' e =>
        (List.nodup_cons.mp hnd).1 (e ▸ List.mem_map_of_mem hg')
    rw [hbest, hfuel, Lib.around_map]
    exact hfrom

/-- The check passes on both sides. -/
def PassesCheck (G : Ghost K) : Prop := ∀ b, InOrder b (extreme b) (G b)

/-- **What `toString` does** with the levels linked in any order: it prints the book, and
the check stops the process exactly if some level is out of order. -/
theorem Core.toString_eq (h : Core s G) (ticker_id : Nat) (detailed validity_check : Bool) :
    ((validity_check = true → PassesCheck G) →
      s.toString ticker_id detailed validity_check =
        .ok (bookText ticker_id detailed fun b => (G b).map LevelG.view)) ∧
    (¬ (validity_check = true → PassesCheck G) → ∃ l price,
      s.toString ticker_id detailed validity_check =
        .error (.assertion (notSorted price (s.levelString l)))) := by
  obtain ⟨hasks, hasks'⟩ := h.printSide false detailed validity_check "ASKS"
  obtain ⟨hbids, hbids'⟩ := h.printSide true detailed validity_check "BIDS"
  -- the asks come first, and their error is the one that ends the process
  have hrun : s.toString ticker_id detailed validity_check = do
      let asks ← s.printSide detailed validity_check "ASKS" (sideOf false)
        (s.orders_at_price_pool_.size + 1) (s.best false) 0 (extreme false)
      let bids ← s.printSide detailed validity_check "BIDS" (sideOf true)
        (s.orders_at_price_pool_.size + 1) (s.best true) 0 (extreme true)
      return "Ticker:" ++ numToString TickerId_INVALID ticker_id ++ "\n" ++ asks ++
        "\n                          X\n\n" ++ bids := rfl
  rw [hrun]
  refine ⟨fun hok => ?_, fun hbad => ?_⟩
  · rw [hasks fun hv => hok hv false, exec_ok_bind, hbids fun hv => hok hv true]
    rfl
  · by_cases ha : validity_check = true → InOrder false (extreme false) (G false)
    · obtain ⟨l, price, hb⟩ := hbids' fun hb => hbad fun hv => by
        intro b
        cases b with
        | false => exact ha hv
        | true => exact hb hv
      rw [hasks ha, exec_ok_bind, hb]
      exact ⟨l, price, rfl⟩
    · obtain ⟨l, price, ha⟩ := hasks' ha
      rw [ha]
      exact ⟨l, price, rfl⟩

end Side

/-! ## A book that its callers keep in order -/

/-- No bid is at the largest price and no ask at the smallest. -/
def Book.WithinLimits (B : Book K) : Prop := ∀ b, ∀ o ∈ B b, Better b (extreme b) o.price_

section Sorted

variable [OrderKey K I] {s : Ladder K I} {G : Ghost K}

omit [OrderText K] [OrderKey K I] in
/-- On sorted sides only the limit can fail. -/
theorem passesCheck_iff (hs : ∀ b, SideOk b (G b)) (hne : ∀ b, ∀ g ∈ G b, g.orders ≠ []) :
    PassesCheck G ↔ (bookOf G).WithinLimits := by
  refine forall_congr' fun b => ?_
  have hsorted : ((G b).map LevelG.price).Pairwise (Better b) :=
    List.pairwise_map.mpr (hs b).sorted
  constructor
  · intro hc o ho
    obtain ⟨g, hg, p, ho⟩ := mem_bookOf.mp ho
    rw [((hs b).orders g hg _ ho).2]
    have : Trans (Better b) (Better b) (Better b) := ⟨Lib.Better.trans⟩
    have hpw : (extreme b :: (G b).map LevelG.price).Pairwise (Better b) :=
      List.isChain_iff_pairwise.mp hc
    exact (List.pairwise_cons.mp hpw).1 _ (List.mem_map_of_mem hg)
  · intro hlim
    refine (List.pairwise_cons.mpr ⟨fun p hp => ?_, hsorted⟩).isChain
    obtain ⟨g, hg, rfl⟩ := List.mem_map.mp hp
    obtain ⟨o, ho⟩ := List.exists_mem_of_ne_nil _ (hne b g hg)
    rw [← ((hs b).orders g hg o ho).2]
    exact hlim o.2 (mem_bookOf.mpr ⟨g, hg, o.1, ho⟩)

/-- **The text of a book in order** is that of its queues; the check stops the process
exactly if a bid rests at the largest price or an ask at the smallest. -/
theorem Represents.toString_eq (h : Represents s G) (ticker_id : Nat)
    (detailed validity_check : Bool) :
    ((validity_check = true → (bookOf G).WithinLimits) →
      s.toString ticker_id detailed validity_check =
        .ok (bookText ticker_id detailed fun b => levelsOf (bookOf G b))) ∧
    (¬ (validity_check = true → (bookOf G).WithinLimits) → ∃ l price,
      s.toString ticker_id detailed validity_check =
        .error (.assertion (notSorted price (s.levelString l)))) := by
  have hne : ∀ b, ∀ g ∈ G b, g.orders ≠ [] := fun b g hg => (h.core.level b g hg).ne
  rw [← passesCheck_iff h.sides hne]
  have hlevels : (fun b => levelsOf (bookOf G b)) = fun b => (G b).map LevelG.view :=
    funext fun b => levelsOf_flat (h.sides b) (hne b)
  rw [hlevels]
  exact h.core.toString_eq ticker_id detailed validity_check

end Sorted

end LowLatency
