import LowLatency.Matcher.Reference

/-!
# Invariants of the reference book

Two bundles. `Inv` holds in every well-formed run: the queues are sorted, every
order is on its side with quantity left, the book is not crossed, and no client
has two live orders under one id. `Numbered` is about the numbers an order is
given: as long as the market order ids have not come round, they grow along a
price, so do the priorities, and no two live orders share one.

Each is preserved by what a request does in turn: a sweep shortens a queue from
the front (`sweep_suffix`), an order joins its queue (`pairwise_queueInsert`),
a cancel filters.
-/

namespace LowLatency

open Lib (Better queueInsert QueueSorted Before)

namespace RefBook

/-- What every well-formed run keeps. -/
structure Inv (r : RefBook) : Prop where
  sorted : ∀ b, QueueSorted b OrderData.price_ (r.book b)
  side : ∀ b, ∀ o ∈ r.book b, o.side_ = sideOf b
  pos : ∀ b, ∀ o ∈ r.book b, 0 < o.qty_
  uncrossed : ∀ o ∈ r.book true, ∀ o' ∈ r.book false, o.price_ < o'.price_
  distinct : ∀ b, (r.book b).Pairwise fun o o' => idx o.id_ ≠ idx o'.id_
  apart : ∀ o ∈ r.book true, ∀ o' ∈ r.book false, idx o.id_ ≠ idx o'.id_

theorem inv_init : Inv init :=
  ⟨fun _ => List.Pairwise.nil, by simp [init, Book.empty], by simp [init, Book.empty],
    by simp [init, Book.empty], fun _ => List.Pairwise.nil, by simp [init, Book.empty]⟩

/-- No two orders on different sides are under one id. -/
theorem Inv.idx_ne_of_ne {r : RefBook} (h : Inv r) {b b' : Bool} (hne : b' ≠ b)
    {o o' : OrderData MEOrderId} (ho : o ∈ r.book b) (ho' : o' ∈ r.book b') :
    idx o'.id_ ≠ idx o.id_ := by
  cases b with
  | true =>
    obtain rfl : b' = false := by simpa using hne
    exact (h.apart o ho o' ho').symm
  | false =>
    obtain rfl : b' = true := by simpa using hne
    exact h.apart o' ho' o ho

/-- The id reported to the aggressor does not reach the book. -/
theorem swept_congr (fillId : Nat → Nat) (r : RefBook) (q : MEClientRequest) :
    (r.swept fillId q).leaves = (r.swept id q).leaves ∧
      (r.swept fillId q).queue = (r.swept id q).queue :=
  sweep_congr (a := r.aggressor fillId q) (c := r.aggressor id q) rfl q.qty_ _

/-- An order of the book after matching: one from before, but for its
quantity. -/
theorem mem_matched {r : RefBook} {q : MEClientRequest} {b : Bool} {o : OrderData MEOrderId}
    (h : o ∈ r.matched q b) : ∃ o' ∈ r.book b, o'.strip = o.strip := by
  unfold matched at h
  by_cases hb : b = !Ladder.isBid q.side_
  · subst hb
    rw [Function.update_self] at h
    exact mem_sweep h
  · rw [Function.update_of_ne hb] at h
    exact ⟨o, h, rfl⟩

/-- A relation that ignores quantities survives matching. -/
theorem pairwise_matched {r : RefBook} {R : OrderData MEOrderId → OrderData MEOrderId → Prop}
    {b : Bool} (hR : ∀ o o', R o.strip o'.strip ↔ R o o') (h : (r.book b).Pairwise R)
    (q : MEClientRequest) : (r.matched q b).Pairwise R := by
  unfold matched
  by_cases hb : b = !Ladder.isBid q.side_
  · subst hb
    rw [Function.update_self]
    exact pairwise_sweep hR h
  · rw [Function.update_of_ne hb]
    exact h

/-- What does not look at quantities carries over from the orders before. -/
theorem matched_transfer {r : RefBook} {q : MEClientRequest} {b : Bool}
    {P : OrderData MEOrderId → Prop}
    (hP : ∀ o o' : OrderData MEOrderId, o.strip = o'.strip → P o → P o')
    (h : ∀ o ∈ r.book b, P o) : ∀ o ∈ r.matched q b, P o := by
  intro o ho
  obtain ⟨o', ho', he⟩ := mem_matched ho
  exact hP o' o he (h o' ho')

theorem strip_id {o o' : OrderData MEOrderId} (h : o.strip = o'.strip) : o.id_ = o'.id_ :=
  (congrArg OrderData.id_ h : o.strip.id_ = o'.strip.id_)

theorem strip_side {o o' : OrderData MEOrderId} (h : o.strip = o'.strip) : o.side_ = o'.side_ :=
  (congrArg OrderData.side_ h : o.strip.side_ = o'.strip.side_)

theorem strip_price {o o' : OrderData MEOrderId} (h : o.strip = o'.strip) :
    o.price_ = o'.price_ :=
  (congrArg OrderData.price_ h : o.strip.price_ = o'.strip.price_)

theorem strip_priority {o o' : OrderData MEOrderId} (h : o.strip = o'.strip) :
    o.priority_ = o'.priority_ :=
  (congrArg OrderData.priority_ h : o.strip.priority_ = o'.strip.priority_)

/-- Matching keeps the invariant. -/
theorem Inv.matched {r : RefBook} (h : Inv r) (q : MEClientRequest) :
    Inv { r with book := r.matched q } where
  sorted := fun b => pairwise_matched (fun _ _ => Iff.rfl) (h.sorted b) q
  side := fun b => matched_transfer (fun _ _ he ho => strip_side he ▸ ho) (h.side b)
  pos := by
    intro b
    show ∀ o ∈ RefBook.matched r q b, 0 < o.qty_
    unfold RefBook.matched
    by_cases hb : b = !Ladder.isBid q.side_
    · subst hb
      rw [Function.update_self]
      exact sweep_pos (h.pos _)
    · rw [Function.update_of_ne hb]
      exact h.pos b
  uncrossed := by
    intro o ho o' ho'
    obtain ⟨p, hp, he⟩ := mem_matched ho
    obtain ⟨p', hp', he'⟩ := mem_matched ho'
    rw [← strip_price he, ← strip_price he']
    exact h.uncrossed p hp p' hp'
  distinct := fun b => pairwise_matched (fun _ _ => Iff.rfl) (h.distinct b) q
  apart := by
    intro o ho o' ho'
    obtain ⟨p, hp, he⟩ := mem_matched ho
    obtain ⟨p', hp', he'⟩ := mem_matched ho'
    rw [← strip_id he, ← strip_id he']
    exact h.apart p hp p' hp'

/-- Nothing on the other side is left within reach of what comes to rest. -/
theorem Inv.matched_exit {r : RefBook} (h : Inv r) {q : MEClientRequest}
    (hl : (r.swept id q).leaves ≠ 0) : ∀ o ∈ r.matched q (!Ladder.isBid q.side_),
      Better (!Ladder.isBid q.side_) q.price_ o.price_ := by
  unfold RefBook.matched
  rw [Function.update_self]
  exact sweep_exit (a := r.aggressor id q) (h.sorted _) hl

theorem matched_not_live {r : RefBook} {q : MEClientRequest} {i : Nat × Nat} (h : ¬ r.Live i)
    {b : Bool} {o : OrderData MEOrderId} (ho : o ∈ r.matched q b) : idx o.id_ ≠ i := by
  obtain ⟨o', ho', he⟩ := mem_matched ho
  intro hi
  exact h ⟨b, o', ho', by rw [strip_id he]; exact hi⟩

/-- **The slot of a resting order** is free or its own: nothing opposite is left
at its price, and no other price shares the slot. -/
theorem slotFits_matched {r : RefBook} {q : MEClientRequest} (hinv : r.Inv) (ha : r.Admits q)
    (hq : q.type_ = .NEW) (hl : (r.swept id q).leaves ≠ 0) :
    (r.matched q).SlotFits q.side_ q.price_ := by
  intro b o ho hi
  have hp := ha.price hq hl b o ho ((priceToIndex_eq_iff _ _).mp hi)
  refine ⟨?_, hp⟩
  by_contra hne
  have hb := Bool.eq_not.mpr hne
  subst hb
  exact (hinv.matched_exit hl o ho).ne hp.symm

/-- **Resting keeps the invariant**, whatever the order's numbers. -/
theorem Inv.rest {r : RefBook} (h : Inv r) {d : OrderData MEOrderId}
    (hside : d.side_ = .BUY ∨ d.side_ = .SELL) (hpos : 0 < d.qty_)
    (hid : ∀ b, ∀ o ∈ r.book b, idx o.id_ ≠ idx d.id_)
    (hreach : ∀ o ∈ r.book (!Ladder.isBid d.side_),
      Better (!Ladder.isBid d.side_) d.price_ o.price_) :
    Inv { r with book := r.book.rest d } := by
  refine ⟨?_, ?_, ?_, ?_, ?_, ?_⟩
  · intro b
    exact Book.pairwise_rest h.sorted (h.sorted b) (fun _ _ _ hn => hn) fun _ _ _ hb => hb.asymm
  · intro b o ho
    rcases Book.mem_rest.mp ho with ⟨rfl, rfl⟩ | ho
    · exact (sideOf_isBid hside).symm
    · exact h.side b o ho
  · intro b o ho
    rcases Book.mem_rest.mp ho with ⟨_, rfl⟩ | ho
    · exact hpos
    · exact h.pos b o ho
  · -- only a pair with the new order is new, and it is out of reach
    intro o hor o' hor'
    rcases Book.mem_rest.mp hor with ⟨hb, rfl⟩ | ho <;>
      rcases Book.mem_rest.mp hor' with ⟨hb', he'⟩ | ho'
    · exact absurd (hb.trans hb'.symm) (by simp)
    · have := hreach o' (by rw [← hb]; exact ho')
      rw [← hb] at this
      simpa [Better] using this
    · subst he'
      have := hreach o (by rw [← hb']; exact ho)
      rw [← hb'] at this
      simpa [Better] using this
    · exact h.uncrossed o ho o' ho'
  · intro b
    exact Book.pairwise_rest h.sorted (h.distinct b) (fun _ o ho _ => hid b o ho) fun _ o ho _ => (hid b o ho).symm
  · intro o hor o' hor'
    rcases Book.mem_rest.mp hor with ⟨hb, rfl⟩ | ho <;>
      rcases Book.mem_rest.mp hor' with ⟨hb', he'⟩ | ho'
    · exact absurd (hb.trans hb'.symm) (by simp)
    · exact (hid false o' ho').symm
    · subst he'
      exact hid true o ho
    · exact h.apart o ho o' ho'

/-- A cancel keeps the invariant. -/
theorem Inv.removeIdx {r : RefBook} (h : Inv r) (i : Nat × Nat) :
    Inv { r with book := r.book.removeIdx i } where
  sorted := fun b => (h.sorted b).sublist List.filter_sublist
  side := fun b o ho => h.side b o (List.mem_of_mem_filter ho)
  pos := fun b o ho => h.pos b o (List.mem_of_mem_filter ho)
  uncrossed := fun o ho o' ho' =>
    h.uncrossed o (List.mem_of_mem_filter ho) o' (List.mem_of_mem_filter ho')
  distinct := fun b => (h.distinct b).sublist List.filter_sublist
  apart := fun o ho o' ho' => h.apart o (List.mem_of_mem_filter ho) o' (List.mem_of_mem_filter ho')

/-- The invariant does not look at the id counter. -/
theorem Inv.congr {r r' : RefBook} (h : Inv r) (he : r'.book = r.book) : Inv r' := by
  obtain ⟨B, n⟩ := r'
  obtain rfl : B = r.book := he
  exact ⟨h.sorted, h.side, h.pos, h.uncrossed, h.distinct, h.apart⟩

theorem Inv.add {r : RefBook} {q : MEClientRequest} (h : Inv r) (ha : r.Admits q)
    (hq : q.type_ = .NEW) : Inv (r.add q) := by
  have hm := h.matched q
  by_cases hl : (r.swept id q).leaves = 0
  · exact hm.congr (by simp [RefBook.add, hl])
  · have hr := hm.rest (d := r.resting q) (ha.side hq) (Nat.pos_of_ne_zero hl)
      (fun b o ho => matched_not_live (ha.fresh hq) ho) (h.matched_exit hl)
    exact hr.congr (by simp [RefBook.add, hl])

/-- **One request keeps the invariant.** -/
theorem Inv.step {r : RefBook} {q : MEClientRequest} (h : Inv r) (ha : r.Admits q) :
    Inv (r.step q) := by
  unfold RefBook.step
  split
  next hq => exact h.add ha hq
  next => exact h.removeIdx _
  next => exact h

/-- **Every well-formed run keeps the invariant.** -/
theorem Inv.run {r : RefBook} {qs : List MEClientRequest} (h : Inv r) (ha : r.AdmitsAll qs) :
    Inv (r.run qs) := by
  induction qs generalizing r with
  | nil => exact h
  | cons q qs ih => exact ih (h.step ha.1) ha.2

/-! ## Numbers -/

/-- Market order ids and priorities, as long as the ids have not come round. -/
structure Numbered (r : RefBook) : Prop where
  fifo : ∀ b, (r.book b).Pairwise (Before b OrderData.price_ fun o => o.id_.market_order_id_)
  prio : ∀ b, (r.book b).Pairwise fun o o' => o.price_ = o'.price_ → o.priority_ < o'.priority_
  bound : ∀ b, ∀ o ∈ r.book b, o.priority_ ≤ o.id_.market_order_id_ ∧
    o.id_.market_order_id_ < r.next_market_order_id_
  ids : ∀ b, (r.book b).Pairwise fun o o' => o.id_.market_order_id_ ≠ o'.id_.market_order_id_
  idsApart : ∀ o ∈ r.book true, ∀ o' ∈ r.book false,
    o.id_.market_order_id_ ≠ o'.id_.market_order_id_
  next : 1 ≤ r.next_market_order_id_

theorem numbered_init : Numbered init :=
  ⟨fun _ => List.Pairwise.nil, fun _ => List.Pairwise.nil, by simp [init, Book.empty],
    fun _ => List.Pairwise.nil, by simp [init, Book.empty], Nat.le_refl 1⟩

theorem Numbered.matched {r : RefBook} (h : Numbered r) (q : MEClientRequest) :
    Numbered { r with book := r.matched q } where
  fifo := fun b => pairwise_matched (fun _ _ => Iff.rfl) (h.fifo b) q
  prio := fun b => pairwise_matched (fun _ _ => Iff.rfl) (h.prio b) q
  bound := fun b => matched_transfer
    (fun _ _ he ho => strip_priority he ▸ strip_id he ▸ ho) (h.bound b)
  ids := fun b => pairwise_matched (fun _ _ => Iff.rfl) (h.ids b) q
  idsApart := by
    intro o ho o' ho'
    obtain ⟨p, hp, he⟩ := mem_matched ho
    obtain ⟨p', hp', he'⟩ := mem_matched ho'
    rw [← strip_id he, ← strip_id he']
    exact h.idsApart p hp p' hp'
  next := h.next

/-- The next priority exceeds every priority at the price, and is no larger
than any bound that exceeds them all. -/
theorem nextPriority_spec {l : List (OrderData MEOrderId)} (price : Int) {n : Nat}
    (h : l.Pairwise fun o o' => o.price_ = o'.price_ → o.priority_ < o'.priority_)
    (hn : ∀ o ∈ l, o.priority_ < n) (h1 : 1 ≤ n) (hw : n < 2 ^ 64) :
    (∀ o ∈ l, o.price_ = price → o.priority_ < nextPriority l price) ∧
      nextPriority l price ≤ n := by
  unfold nextPriority
  -- the code reads the last order at the price
  rcases List.eq_nil_or_concat (l.filter fun o => decide (o.price_ = price)) with hf | ⟨A, x, hf⟩
  · rw [hf]
    refine ⟨fun o ho he => ?_, h1⟩
    have : o ∈ l.filter fun o => decide (o.price_ = price) :=
      List.mem_filter.mpr ⟨ho, decide_eq_true he⟩
    rw [hf] at this
    exact absurd this (by simp)
  · rw [List.concat_eq_append] at hf
    have hx : x ∈ l.filter fun o => decide (o.price_ = price) := by rw [hf]; simp
    obtain ⟨hxl, hxp⟩ := List.mem_filter.mp hx
    have hxn := hn x hxl
    rw [hf, List.getLast?_append, List.getLast?_singleton]
    simp only [Option.some_or, wrap64_eq (Nat.lt_of_le_of_lt (Nat.succ_le_of_lt hxn) hw)]
    refine ⟨fun o ho he => ?_, hxn⟩
    have hm : o ∈ l.filter fun o => decide (o.price_ = price) :=
      List.mem_filter.mpr ⟨ho, decide_eq_true he⟩
    rw [hf] at hm
    -- `x` is last at the price, and priorities ascend there
    rcases List.mem_append.mp hm with hA | hX
    · have hpw := List.Pairwise.sublist (List.filter_sublist (p := fun o => decide (o.price_ = price))) h
      rw [hf] at hpw
      have := (List.pairwise_append.mp hpw).2.2 o hA x (by simp)
        (by rw [he]; exact (of_decide_eq_true hxp).symm)
      omega
    · rw [List.mem_singleton.mp hX]
      omega

/-- Resting under the next id keeps the numbers in order. -/
theorem Numbered.rest {r : RefBook} (hn : Numbered r)
    (hs : ∀ b, QueueSorted b OrderData.price_ (r.book b))
    {d : OrderData MEOrderId} (hid : d.id_.market_order_id_ = r.next_market_order_id_)
    (hp : d.priority_ = nextPriority (r.book (Ladder.isBid d.side_)) d.price_)
    (hw : r.next_market_order_id_ < 2 ^ 64) :
    Numbered ⟨r.book.rest d, r.next_market_order_id_ + 1⟩ := by
  -- the next id is above every id in the book
  have hlt : ∀ b, ∀ o ∈ r.book b, o.id_.market_order_id_ < d.id_.market_order_id_ := by
    intro b o ho
    rw [hid]
    exact (hn.bound b o ho).2
  obtain ⟨hprio, hple⟩ := nextPriority_spec d.price_ (n := r.next_market_order_id_)
    (hn.prio (Ladder.isBid d.side_))
    (fun o ho => Nat.lt_of_le_of_lt (hn.bound _ o ho).1 (hn.bound _ o ho).2) hn.next hw
  rw [← hp] at hprio hple
  refine ⟨?_, ?_, ?_, ?_, ?_, Nat.le_add_left ..⟩
  · intro b
    refine Book.pairwise_rest hs (hn.fifo b) (fun _ o ho hnb => ?_) fun _ _ _ hb => Or.inl hb
    -- what stands before the new order is better, or earlier at its price
    by_cases he : o.price_ = d.price_
    · exact Or.inr ⟨he, hlt b o ho⟩
    · exact Or.inl (Better.of_ne hnb fun e => he e.symm)
  · intro b
    refine Book.pairwise_rest hs (hn.prio b) (fun hb o ho _ he => ?_) fun _ o _ hb he => ?_
    · subst hb
      exact hprio o ho he
    · exact absurd he hb.ne
  · intro b o ho
    rcases Book.mem_rest.mp ho with ⟨_, rfl⟩ | ho
    · rw [hid]
      exact ⟨hple, Nat.lt_succ_self _⟩
    · exact ⟨(hn.bound b o ho).1, Nat.lt_succ_of_lt (hn.bound b o ho).2⟩
  · intro b
    exact Book.pairwise_rest hs (hn.ids b) (fun _ o ho _ => (hlt b o ho).ne) fun _ o ho _ => (hlt b o ho).ne'
  · intro o hor o' hor'
    rcases Book.mem_rest.mp hor with ⟨hb, rfl⟩ | ho <;>
      rcases Book.mem_rest.mp hor' with ⟨hb', he'⟩ | ho'
    · exact absurd (hb.trans hb'.symm) (by simp)
    · exact (hlt false o' ho').ne'
    · subst he'
      exact (hlt true o ho).ne
    · exact hn.idsApart o ho o' ho'

theorem Numbered.removeIdx {r : RefBook} (h : Numbered r) (i : Nat × Nat) :
    Numbered { r with book := r.book.removeIdx i } where
  fifo := fun b => (h.fifo b).sublist List.filter_sublist
  prio := fun b => (h.prio b).sublist List.filter_sublist
  bound := fun b o ho => h.bound b o (List.mem_of_mem_filter ho)
  ids := fun b => (h.ids b).sublist List.filter_sublist
  idsApart := fun o ho o' ho' =>
    h.idsApart o (List.mem_of_mem_filter ho) o' (List.mem_of_mem_filter ho')
  next := h.next

/-- **One request keeps the numbers in order** while an id is left. -/
theorem Numbered.step {r : RefBook} {q : MEClientRequest} (hn : Numbered r) (h : Inv r)
    (hw : q.type_ = .NEW → r.next_market_order_id_ < OrderId_INVALID) : Numbered (r.step q) := by
  unfold RefBook.step
  split
  next hq =>
    have hw' : r.next_market_order_id_ + 1 < 2 ^ 64 := by
      have := hw hq
      unfold OrderId_INVALID at this
      omega
    have hm := hn.matched q
    unfold RefBook.add
    rw [wrap64_eq hw']
    split
    next => exact ⟨hm.fifo, hm.prio, fun b o ho => ⟨(hm.bound b o ho).1,
        Nat.lt_succ_of_lt (hm.bound b o ho).2⟩, hm.ids, hm.idsApart, Nat.le_add_left ..⟩
    next => exact hm.rest (h.matched q).sorted (d := r.resting q) rfl rfl (Nat.lt_of_succ_lt hw')
  next => exact hn.removeIdx _
  next => exact hn

/-- **A run keeps the numbers in order** while ids are left. -/
theorem Numbered.run {r : RefBook} {qs : List MEClientRequest} (hn : Numbered r) (h : Inv r)
    (ha : r.AdmitsAll qs) (hw : IdsBelow OrderId_INVALID r qs) : Numbered (r.run qs) := by
  induction qs generalizing r with
  | nil => exact hn
  | cons q qs ih => exact ih (hn.step h hw.1) (h.step ha.1) ha.2 hw.2

end RefBook

end LowLatency
