import LowLatency.Strategy.Replica

/-!
# The cached best bid and offer

`onMarketUpdate` decides before the update, from the old best price and the
side and price of the message, which sides of `bbo_` to read again afterwards. A
side it leaves alone keeps what was cached. This file shows that it never leaves
alone a side whose best level the update touches.

A stream is `ExpectedAll` when it is one that an exchange can have sent: every
`ADD` brings an order with a side and an id nobody live has, to a slot that is
free or its own; every `MODIFY` and `CANCEL` names a live order by its id, side
and price. Nothing is said about how many orders there are. A replica whose
tables are too small for the stream ends in an `ASSERT` or in `at`, and as long
as it has not, its cache is exact (**`cached_bbo_exact`**); within the sizes of
`UpdatesOk` it never ends so.
-/

namespace LowLatency

open Lib (Better queueInsert)

/-! ## The quantity of a level -/

/-- What the additions in `Qty` come to. -/
theorem foldl_wrap32 (qs : List Nat) (acc : Nat) (hacc : acc < 2 ^ 32) :
    qs.foldl (fun acc q => wrap32 (acc + q)) acc = (acc + qs.sum) % 2 ^ 32 := by
  induction qs generalizing acc with
  | nil =>
    show acc = (acc + 0) % 2 ^ 32
    omega
  | cons q qs ih =>
    have hw : wrap32 (acc + q) < 2 ^ 32 := Nat.mod_lt _ (by decide)
    rw [List.foldl_cons, ih _ hw, List.sum_cons]
    unfold wrap32
    omega

/-- **The quantity of a level** is the sum of its orders' modulo `2 ^ 32`. -/
theorem levelQty_eq {qs : List Nat} (h : ∀ q ∈ qs, q < 2 ^ 32) :
    levelQty qs = qs.sum % 2 ^ 32 := by
  cases qs with
  | nil => rfl
  | cons q qs =>
    rw [levelQty, foldl_wrap32 qs q (h q (List.mem_cons_self ..)), List.sum_cons]

/-! ## The top of a queue -/

/-- `t` is price and quantity of the best level of `l`. Nothing here depends on
the order in which `l` lists its prices. -/
def IsTop (b : Bool) (l : List (OrderData Nat)) (t : Int × Nat) : Prop :=
  (l = [] ∧ t = (Price_INVALID, Qty_INVALID)) ∨
  ((∃ o ∈ l, o.price_ = t.1) ∧ (∀ o ∈ l, ¬ Better b o.price_ t.1) ∧
    t.2 = levelQty ((l.filter fun o => decide (o.price_ = t.1)).map OrderData.qty_))

theorem IsTop.unique {b : Bool} {l : List (OrderData Nat)} {t t' : Int × Nat} (h : IsTop b l t)
    (h' : IsTop b l t') : t = t' := by
  rcases h with ⟨hl, ht⟩ | ⟨⟨o, ho, hp⟩, hbest, hq⟩ <;>
    rcases h' with ⟨hl', ht'⟩ | ⟨⟨o', ho', hp'⟩, hbest', hq'⟩
  · rw [ht, ht']
  · rw [hl] at ho'
    exact absurd ho' List.not_mem_nil
  · rw [hl'] at ho
    exact absurd ho List.not_mem_nil
  · have hpp : t.1 = t'.1 := by
      by_contra hne
      have hn : ¬ Better b t.1 t'.1 := hp ▸ hbest' o ho
      exact hbest o' ho' (hp' ▸ Better.of_ne hn hne)
    refine Prod.ext hpp ?_
    rw [hq, hq', hpp]

/-- What `updateBBO` reads is the top of the side's queue. -/
theorem isTop_topOf {s : MarketLadder} {G : Ghost Nat} (h : Represents s G) (b : Bool) :
    IsTop b (bookOf G b) (topOf (G b)) := by
  cases hL : G b with
  | nil =>
    refine Or.inl ⟨?_, rfl⟩
    unfold bookOf
    rw [hL]
    rfl
  | cons g L =>
    have hs := h.sides b
    rw [hL] at hs
    have hg : g ∈ G b := by rw [hL]; exact List.mem_cons_self ..
    obtain ⟨o, ho⟩ := List.exists_mem_of_ne_nil _ (h.core.level b g hg).ne
    refine Or.inr ⟨⟨o.2, mem_bookOf.mpr ⟨g, hg, o.1, ho⟩, (h.sides b).orders g hg o ho |>.2⟩, ?_, ?_⟩
    · intro d hd hbetter
      obtain ⟨g', hg', p, hpd⟩ := mem_bookOf.mp hd
      have hprice := ((h.sides b).orders g' hg' _ hpd).2
      rw [hL] at hg'
      rcases List.mem_cons.mp hg' with rfl | hg'
      · exact hbetter.ne hprice
      · have hlater := (List.pairwise_cons.mp hs.sorted).1 g' hg'
        rw [← hprice] at hlater
        exact hlater.asymm hbetter
    · have hfilter : ((bookOf G b).filter fun o => decide (o.price_ = g.price))
          = g.orders.map Prod.snd := by
        unfold bookOf
        rw [List.filter_map, hL]
        exact congrArg _ (SideOk.filter_price (A := []) hs)
      show levelQty _ = levelQty (((bookOf G b).filter fun o => decide (o.price_ = g.price)).map _)
      rw [hfilter, List.map_map]
      rfl

/-- A change confined to prices worse than the top leaves the top alone. -/
theorem IsTop.keep {b : Bool} {l l' : List (OrderData Nat)} {t : Int × Nat} {W : Int → Prop}
    (h : IsTop b l t) (hW : ∀ p, W p → l ≠ [] ∧ Better b t.1 p)
    (hf : ∀ p, ¬ W p → (l'.filter fun o => decide (o.price_ = p))
      = l.filter fun o => decide (o.price_ = p)) : IsTop b l' t := by
  have hmem : ∀ o, ¬ W o.price_ → (o ∈ l' ↔ o ∈ l) := by
    intro o hn
    have he := congrArg (o ∈ ·) (hf o.price_ hn)
    simpa using he
  rcases h with ⟨hnil, ht⟩ | ⟨⟨o, ho, hp⟩, hbest, hq⟩
  · refine Or.inl ⟨List.eq_nil_iff_forall_not_mem.mpr fun o ho => ?_, ht⟩
    have hn : ¬ W o.price_ := fun hw => (hW _ hw).1 hnil
    have hin := (hmem o hn).mp ho
    rw [hnil] at hin
    exact List.not_mem_nil hin
  · have htop : ¬ W t.1 := fun hw => Better.irrefl (hW _ hw).2
    refine Or.inr ⟨⟨o, (hmem o (hp ▸ htop)).mpr ho, hp⟩, ?_, ?_⟩
    · intro o' ho' hbetter
      by_cases hw : W o'.price_
      · exact (hW _ hw).2.asymm hbetter
      · exact hbest o' ((hmem o' hw).mp ho') hbetter
    · rw [hf t.1 htop]
      exact hq

/-! ## What an update leaves alone -/

/-- An order may come to rest, if there is room. -/
structure Joins (B : Book Nat) (d : OrderData Nat) : Prop where
  side : d.side_ = .BUY ∨ d.side_ = .SELL
  fresh : ∀ b, ∀ o ∈ B b, o.id_ ≠ d.id_
  slot : B.SlotFits d.side_ d.price_

/-- An exchange whose book is `B` can send `u` next. -/
def Expected (B : Book Nat) (u : MEMarketUpdate) : Prop :=
  match u.type_ with
  | .ADD => Joins B (orderOf u)
  | .MODIFY | .CANCEL => Names B u
  | .TRADE => True
  | .INVALID | .CLEAR | .SNAPSHOT_START | .SNAPSHOT_END => False

def ExpectedAll : Book Nat → List MEMarketUpdate → Prop
  | _, [] => True
  | B, u :: us => Expected B u ∧ ExpectedAll (applyUpdate B u) us

theorem UpdateOk.expected {cap : Nat} {B : Book Nat} {u : MEMarketUpdate} (h : UpdateOk cap B u) :
    Expected B u := by
  unfold UpdateOk at h
  unfold Expected
  cases ht : u.type_ <;> rw [ht] at h
  case ADD => exact ⟨h.side, fun b o ho => (h.later b o ho).ne, h.slot⟩
  all_goals exact h

theorem UpdatesOk.expectedAll {cap : Nat} {B : Book Nat} {us : List MEMarketUpdate}
    (h : UpdatesOk cap B us) : ExpectedAll B us := by
  induction us generalizing B with
  | nil => trivial
  | cons u us ih => exact ⟨h.1.expected, ih h.2⟩

theorem ExpectedAll.take {B : Book Nat} {us : List MEMarketUpdate} (h : ExpectedAll B us)
    (n : Nat) :
    ExpectedAll B (us.take n) := by
  induction us generalizing B n with
  | nil =>
    rw [List.take_nil]
    trivial
  | cons u us ih =>
    cases n with
    | zero => trivial
    | succ n => exact ⟨h.1, ih h.2 n⟩

/-- A live order is determined by its id, and stands on its own side. -/
structure Identified (B : Book Nat) : Prop where
  inj : ∀ b b', ∀ o ∈ B b, ∀ o' ∈ B b', o.id_ = o'.id_ → b = b' ∧ o = o'
  side : ∀ b, ∀ o ∈ B b, o.side_ = sideOf b

theorem Represents.identified {s : MarketLadder} {G : Ghost Nat} (h : Represents s G) :
    Identified (bookOf G) where
  inj := by
    intro b b' o ho o' ho' he
    obtain ⟨x, hx, rfl⟩ := List.mem_map.mp ho
    obtain ⟨x', hx', rfl⟩ := List.mem_map.mp ho'
    obtain ⟨hb, hxx⟩ := h.ids.idx_inj h.core hx hx' he
    exact ⟨hb, by rw [hxx]⟩
  side := by
    intro b o ho
    obtain ⟨g, hg, p, hpo⟩ := mem_bookOf.mp ho
    exact ((h.sides b).orders g hg _ hpo).1

/-- Every order an update names by its id is on its side and at its price. -/
theorem Names.only {B : Book Nat} (hB : Identified B) {u : MEMarketUpdate} (hn : Names B u)
    {b : Bool} {o : OrderData Nat} (ho : o ∈ B b) (hid : o.id_ = u.order_id_) :
    u.side_ = sideOf b ∧ o.price_ = u.price_ := by
  obtain ⟨b', o', ho', hid', hside, hprice⟩ := hn
  obtain ⟨rfl, rfl⟩ := hB.inj b b' o ho o' ho' (hid.trans hid'.symm)
  exact ⟨by rw [← hside]; exact hB.side b o ho, hprice⟩

/-- **Prices other than the update's own** keep their orders. -/
theorem applyUpdate_filter {B : Book Nat} (hB : Identified B) {u : MEMarketUpdate}
    (hu : Expected B u) (b : Bool) {p : Int} (hp : ¬ (u.side_ = sideOf b ∧ p = u.price_)) :
    ((applyUpdate B u b).filter fun o => decide (o.price_ = p))
      = (B b).filter fun o => decide (o.price_ = p) := by
  unfold Expected at hu
  unfold applyUpdate
  -- no order here at price `p` carries the id that an update names
  have hother : Names B u → ∀ o ∈ B b, o.price_ = p → o.id_ ≠ u.order_id_ := by
    intro hn o ho hop hid
    obtain ⟨hside, hprice⟩ := hn.only hB ho hid
    exact hp ⟨hside, hop.symm.trans hprice⟩
  cases ht : u.type_ with
  | ADD =>
    simp only [ht] at hu ⊢
    unfold Book.rest
    by_cases hb : b = Ladder.isBid (orderOf u).side_
    · subst hb
      rw [Function.update_self]
      have hpne : (orderOf u).price_ ≠ p := fun he => hp ⟨(sideOf_isBid hu.side).symm, he.symm⟩
      have hdrop : decide ((orderOf u).price_ = p) = false := decide_eq_false hpne
      exact Lib.filter_queueInsert (p := fun o : OrderData Nat => decide (o.price_ = p)) hdrop _
    · rw [Function.update_of_ne hb]
  | MODIFY =>
    simp only [ht] at hu ⊢
    unfold Book.setQtyIdx
    rw [List.filter_map]
    -- the quantity is not what the filter looks at
    have hsame : ((B b).filter ((fun o : OrderData Nat => decide (o.price_ = p)) ∘
        fun o => if idx o.id_ = u.order_id_ then { o with qty_ := u.qty_ } else o))
        = (B b).filter fun o => decide (o.price_ = p) := by
      refine List.filter_congr fun o _ => ?_
      simp only [Function.comp]
      split <;> rfl
    rw [hsame]
    refine (List.map_congr_left fun o ho => ?_).trans (List.map_id _)
    obtain ⟨ho, hop⟩ := List.mem_filter.mp ho
    exact if_neg (hother hu o ho (of_decide_eq_true hop))
  | CANCEL =>
    simp only [ht] at hu ⊢
    unfold Book.removeIdx
    rw [List.filter_filter]
    refine List.filter_congr fun o ho => ?_
    by_cases hop : o.price_ = p
    · simp [hop, hother hu o ho hop]
    · simp [hop]
  | TRADE => rfl
  | INVALID => exact absurd hu (by simp [ht])
  | CLEAR => exact absurd hu (by simp [ht])
  | SNAPSHOT_START => exact absurd hu (by simp [ht])
  | SNAPSHOT_END => exact absurd hu (by simp [ht])

/-! ## One update -/

/-- The containers after an update that fits them. -/
theorem onUpdate_expected {s s' : MarketLadder} {G : Ghost Nat} (h : Represents s G)
    {u : MEMarketUpdate} (hu : Expected (bookOf G) u)
    (hrun : MarketOrderBook.onUpdate s u = .ok s') :
    ∃ G', Represents s' G' ∧ bookOf G' = applyUpdate (bookOf G) u := by
  by_cases hadd : u.type_ = .ADD
  · unfold Expected at hu
    unfold MarketOrderBook.onUpdate at hrun
    unfold applyUpdate
    simp only [hadd] at hu hrun ⊢
    have hfree : s.id_to_order_ (idx (orderOf u).id_) = none := by
      cases hi : s.id_to_order_ (idx (orderOf u).id_) with
      | none => rfl
      | some p =>
        obtain ⟨b, d, hd, hdi, _⟩ := h.ids.lookup h.core hi
        exact absurd hdi (hu.fresh b d (mem_bookOf_of_flat hd))
    rcases h.rest hu.side (Ladder.allocateOrder_inRange hrun) hfree hu.slot with
      ⟨s₁, G', hrun', hr, hb⟩ | ⟨herr, _⟩
    · rw [hrun] at hrun'
      obtain rfl : s' = s₁ := Except.ok.inj hrun'
      exact ⟨G', hr, hb⟩
    · rw [hrun] at herr
      exact absurd herr (by simp)
  · have hok : UpdateOk (ME_MAX_ORDER_IDS - 1) (bookOf G) u := by
      unfold Expected at hu
      unfold UpdateOk
      split <;> simp_all
    obtain ⟨s₁, G', hrun', hr, hb⟩ := onUpdate_sim h hok
    rw [hrun] at hrun'
    obtain rfl : s' = s₁ := Except.ok.inj hrun'
    exact ⟨G', hr, hb⟩

/-- One side of the cache. -/
def BBO.on (bbo : BBO) (b : Bool) : Int × Nat :=
  if b then (bbo.bid_price_, bbo.bid_qty_) else (bbo.ask_price_, bbo.ask_qty_)

/-- Whether `onMarketUpdate` reads side `b` again after `u`. -/
def MarketOrderBook.updated (s : MarketOrderBook) (b : Bool) (u : MEMarketUpdate) : Bool :=
  if b then s.bidUpdated u else s.askUpdated u

theorem nextBBO_on (bbo : BBO) (G : Ghost Nat) (f : Bool → Bool) (b : Bool) :
    (nextBBO bbo G (f true) (f false)).on b = if f b then topOf (G b) else bbo.on b := by
  unfold nextBBO BBO.on
  cases b
  · cases f false <;> rfl
  · cases f true <;> rfl

/-- **A side that is not read again** is not the update's, or its best price is
better than the update's. -/
theorem updated_false {s : MarketOrderBook} {G : Ghost Nat} (h : Core s.ladder G) {b : Bool}
    {u : MEMarketUpdate} (hu : s.updated b u = false) (hside : u.side_ = sideOf b) :
    ∃ g L, G b = g :: L ∧ Better b g.price u.price_ := by
  have hbest := h.best b
  cases hL : G b with
  | nil =>
    rw [hL] at hbest
    cases b <;>
      simp_all [MarketOrderBook.updated, MarketOrderBook.bidUpdated, MarketOrderBook.askUpdated,
        Ladder.best, sideOf]
  | cons g L =>
    rw [hL] at hbest
    have hprice := (h.level b g (by rw [hL]; exact List.mem_cons_self ..)).price
    refine ⟨g, L, rfl, ?_⟩
    cases b <;>
      simp_all [MarketOrderBook.updated, MarketOrderBook.bidUpdated, MarketOrderBook.askUpdated,
        Ladder.best, sideOf, Better]

/-- The replica spells out a book whose quantities are `Qty`s, and its cache is
what a fresh `updateBBO` would read. -/
structure Cached (s : MarketOrderBook) (G : Ghost Nat) : Prop where
  rep : Represents s.ladder G
  qty : ∀ b, ∀ o ∈ bookOf G b, o.qty_ < 2 ^ 32
  bbo : ∀ b, s.bbo_.on b = topOf (G b)

theorem Cached.init : Cached MarketOrderBook.init fun _ => [] where
  rep := Represents.init
  qty := by simp [bookOf]
  bbo := fun b => by cases b <;> rfl

/-- Quantities stay inside their type. -/
theorem applyUpdate_qty {B : Book Nat} {u : MEMarketUpdate} (hu : u.qty_ < 2 ^ 32)
    (h : ∀ b, ∀ o ∈ B b, o.qty_ < 2 ^ 32) : ∀ b, ∀ o ∈ applyUpdate B u b, o.qty_ < 2 ^ 32 := by
  intro b o ho
  unfold applyUpdate at ho
  cases ht : u.type_ with
  | ADD =>
    rw [ht] at ho
    rcases Book.mem_rest.mp ho with ⟨_, rfl⟩ | ho
    · exact hu
    · exact h b o ho
  | MODIFY =>
    rw [ht] at ho
    obtain ⟨o₀, ho₀, rfl⟩ := List.mem_map.mp ho
    split
    · exact hu
    · exact h b o₀ ho₀
  | CANCEL =>
    rw [ht] at ho
    exact h b o (List.mem_filter.mp ho).1
  | CLEAR =>
    rw [ht] at ho
    exact absurd ho List.not_mem_nil
  | TRADE | INVALID | SNAPSHOT_START | SNAPSHOT_END =>
    rw [ht] at ho
    exact h b o ho

/-- **One update keeps the cache exact.** -/
theorem Cached.step {s s' : MarketOrderBook} {G : Ghost Nat} (h : Cached s G) {u : MEMarketUpdate}
    (hq : u.qty_ < 2 ^ 32) (hu : Expected (bookOf G) u) (hrun : s.onMarketUpdate u = .ok s') :
    ∃ G', Cached s' G' ∧ bookOf G' = applyUpdate (bookOf G) u := by
  unfold MarketOrderBook.onMarketUpdate at hrun
  obtain ⟨l, hl, hrun⟩ := exec_bind_ok hrun
  by_cases ht : u.type_ = .TRADE
  · rw [if_pos ht] at hrun
    obtain rfl : s = s' := by simpa using hrun
    refine ⟨G, h, ?_⟩
    unfold applyUpdate
    rw [ht]
  · obtain ⟨G', hr, hb⟩ := onUpdate_expected h.rep hu hl
    rw [if_neg ht, updateBBO_spec (s := { s with ladder := l }) hr.core] at hrun
    obtain rfl := Except.ok.inj hrun
    refine ⟨G', ⟨hr, by rw [hb]; exact applyUpdate_qty hq h.qty, fun b => ?_⟩, hb⟩
    have hon := nextBBO_on s.bbo_ G' (fun b => s.updated b u) b
    refine hon.trans ?_
    cases hup : s.updated b u with
    | true => exact if_pos rfl
    | false =>
      rw [if_neg Bool.false_ne_true, h.bbo b]
      -- the old top is still the top
      refine IsTop.unique (b := b) (l := bookOf G' b) ?_ (isTop_topOf hr b)
      rw [hb]
      refine (isTop_topOf h.rep b).keep (W := fun p => u.side_ = sideOf b ∧ p = u.price_) ?_
        fun p hp => applyUpdate_filter h.rep.identified hu b hp
      rintro p ⟨hside, rfl⟩
      obtain ⟨g, L, hL, hbetter⟩ := updated_false h.rep.core hup hside
      obtain ⟨o, ho⟩ := List.exists_mem_of_ne_nil _
        (h.rep.core.level b g (by rw [hL]; exact List.mem_cons_self ..)).ne
      refine ⟨?_, by rw [hL]; exact hbetter⟩
      unfold bookOf
      rw [hL, flat_cons]
      exact fun hnil => absurd (List.append_eq_nil_iff.mp (List.map_eq_nil_iff.mp hnil)).1
        (List.ne_nil_of_mem ho)

/-- **A stream keeps the cache exact**, and the levels are those of the stream. -/
theorem Cached.run {s s' : MarketOrderBook} {G : Ghost Nat} (h : Cached s G)
    {us : List MEMarketUpdate} (hq : ∀ u ∈ us, u.qty_ < 2 ^ 32) (hu : ExpectedAll (bookOf G) us)
    (hrun : s.onMarketUpdates us = .ok s') :
    ∃ G', Cached s' G' ∧ bookOf G' = us.foldl applyUpdate (bookOf G) := by
  induction us generalizing s G with
  | nil =>
    obtain rfl : s = s' := Except.ok.inj hrun
    exact ⟨G, h, rfl⟩
  | cons u us ih =>
    obtain ⟨s₁, hrun₁, hrun⟩ := exec_bind_ok hrun
    obtain ⟨G₁, h₁, hb⟩ := h.step (hq u (List.mem_cons_self ..)) hu.1 hrun₁
    rw [List.foldl_cons, ← hb]
    exact ih h₁ (fun v hv => hq v (List.mem_cons_of_mem _ hv)) (by rw [hb]; exact hu.2) hrun

/-- `t` is what the levels of a side, as a reader of the book sees them, give
for the best of them: its price and the sum modulo `2 ^ 32` of the quantities of
all its orders. The first level is the best one. -/
def BestLevel (b : Bool) (t : Int × Nat) : List (Ladder.LevelView Nat) → Prop
  | [] => t = (Price_INVALID, Qty_INVALID)
  | v :: vs => t = (v.price_, (v.orders.map OrderData.qty_).sum % 2 ^ 32) ∧
      ∀ w ∈ vs, Better b v.price_ w.price_

theorem Cached.bestLevel {s : MarketOrderBook} {G : Ghost Nat} (h : Cached s G) (b : Bool) :
    s.ladder.view b = some (levelsOf (bookOf G b)) ∧
      BestLevel b (s.bbo_.on b) (levelsOf (bookOf G b)) := by
  have hview := h.rep.view b
  refine ⟨hview, ?_⟩
  rw [h.rep.core.view b] at hview
  rw [← Option.some.inj hview, h.bbo b]
  cases hL : G b with
  | nil => rfl
  | cons g L =>
    have hg : g ∈ G b := by rw [hL]; exact List.mem_cons_self ..
    constructor
    · have hqty : ∀ q ∈ g.orders.map fun o => o.2.qty_, q < 2 ^ 32 := by
        intro q hq
        obtain ⟨o, ho, rfl⟩ := List.mem_map.mp hq
        exact h.qty b o.2 (mem_bookOf.mpr ⟨g, hg, o.1, ho⟩)
      show (g.price, levelQty _) = (g.price, _)
      rw [levelQty_eq hqty]
      show _ = (g.price, ((g.orders.map Prod.snd).map OrderData.qty_).sum % 2 ^ 32)
      rw [List.map_map]
      rfl
    · intro w hw
      obtain ⟨g', hg', rfl⟩ := List.mem_map.mp hw
      have hs := (h.rep.sides b).sorted
      rw [hL] at hs
      exact (List.pairwise_cons.mp hs).1 g' hg'

/-- **The cached BBO is the top of the replica** after every update of a stream
an exchange can have sent, for each side, and the levels of the replica are those
of the stream. A stream within the sizes of the replica's tables is processed to
its end. -/
theorem cached_bbo_exact (us : List MEMarketUpdate) (hq : ∀ u ∈ us, u.qty_ < 2 ^ 32)
    (hu : ExpectedAll Book.empty us) (n : Nat) :
    (∀ m, MarketOrderBook.init.onMarketUpdates (us.take n) = .ok m →
      ∀ b, m.ladder.view b = some (levelsOf ((us.take n).foldl applyUpdate Book.empty b)) ∧
        BestLevel b (m.bbo_.on b) (levelsOf ((us.take n).foldl applyUpdate Book.empty b))) ∧
    (UpdatesOk (ME_MAX_ORDER_IDS - 1) Book.empty us →
      ∃ m, MarketOrderBook.init.onMarketUpdates (us.take n) = .ok m) := by
  constructor
  · intro m hrun b
    obtain ⟨G, hG, hbook⟩ := Cached.init.run (fun u hin => hq u (List.mem_of_mem_take hin))
      (hu.take n) hrun
    have hbest := hG.bestLevel b
    rw [hbook] at hbest
    exact hbest
  · intro hok
    have htake : UpdatesOk (ME_MAX_ORDER_IDS - 1) Book.empty (us.take n) :=
      (updatesOk_append.mp (by rw [List.take_append_drop]; exact hok)).1
    obtain ⟨m, _, hrun, _⟩ := onMarketUpdates_sim (us.take n) (s := MarketOrderBook.init)
      Represents.init htake
    exact ⟨m, hrun⟩

/-- The updates of a well-formed run of the exchange are such a stream. -/
theorem run_updatesOk (qs : List MEClientRequest) (ha : RefBook.init.AdmitsAll qs)
    (hf : RefBook.init.FitsAll qs) (hid : RefBook.IdsBelow ME_MAX_ORDER_IDS RefBook.init qs) :
    UpdatesOk (ME_MAX_ORDER_IDS - 1) Book.empty (updates (RefBook.init.runEvents wrap32 qs).flatten) :=
  (run_feed RefBook.inv_init RefBook.numbered_init ha hf hid wrap32).1

/-- The requests of a run that empties its best ask, fills part of a bid and
reopens the ask side. -/
def bboRequests : List MEClientRequest :=
  [⟨.NEW, 1, 0, 7, .SELL, 100, 10⟩, ⟨.NEW, 1, 0, 8, .SELL, 101, 3⟩, ⟨.NEW, 2, 0, 9, .BUY, 100, 15⟩,
    ⟨.NEW, 1, 0, 10, .SELL, 100, 2⟩, ⟨.NEW, 2, 0, 11, .BUY, 99, 4⟩, ⟨.CANCEL, 2, 0, 9, .BUY, 100, 3⟩]

theorem cached_bbo_exact_run :
    let us := (updates (RefBook.init.runEvents wrap32 bboRequests).flatten).take 7
    ∃ m, MarketOrderBook.init.onMarketUpdates us = .ok m ∧
      ∀ b, m.ladder.view b = some (levelsOf (us.foldl applyUpdate Book.empty b)) ∧
        BestLevel b (m.bbo_.on b) (levelsOf (us.foldl applyUpdate Book.empty b)) := by
  have hok := run_updatesOk bboRequests (by decide) (by decide) (by decide)
  have hcache := cached_bbo_exact _ (by decide) hok.expectedAll 7
  obtain ⟨m, hrun⟩ := hcache.2 hok
  exact ⟨m, hrun, hcache.1 m hrun⟩

end LowLatency
