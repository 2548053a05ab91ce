import LowLatency.Book.Queue

/-!
# What a market update means

A reader of the market data feed knows an order by its market order id alone.
`applyUpdate` is the meaning of one update on a book of such orders, with no
pointer and no pool: `ADD` brings an order to rest, `MODIFY` writes its
quantity, `CANCEL` takes it out, `CLEAR` empties the book, everything else
leaves it alone.

`UpdateOk` is what a reader may rely on when an update arrives: an `ADD` is
later than every live order, its slot is its own and there is room for it (`cap`
orders are allowed for: a reader that follows several tickers from one pool has
less than the pool for each); `MODIFY` and `CANCEL` name a live order by its id,
side and price. `FeedInv`
is what then holds of the book between any two updates, in the middle of a
request as much as between requests, because every clause is kept by each
update on its own.
-/

namespace LowLatency

open Lib (Better queueInsert QueueSorted Before)

/-- The feed's orders are identified by the market order id itself, which
indexes `oid_to_order_`. -/
instance : OrderKey Nat Nat where
  idx := fun i => i
  inRange := fun i => decide (i < ME_MAX_ORDER_IDS)

@[simp] theorem idx_nat (i : Nat) : idx i = i := rfl

/-- The order an `ADD` brings. -/
def orderOf (u : MEMarketUpdate) : OrderData Nat :=
  ⟨u.order_id_, u.side_, u.price_, u.qty_, u.priority_⟩

def applyUpdate (B : Book Nat) (u : MEMarketUpdate) : Book Nat :=
  match u.type_ with
  | .ADD => B.rest (orderOf u)
  | .MODIFY => B.setQtyIdx u.order_id_ u.qty_
  | .CANCEL => B.removeIdx u.order_id_
  | .CLEAR => Book.empty
  | .INVALID | .TRADE | .SNAPSHOT_START | .SNAPSHOT_END => B

/-- An order may come to rest: it has a side, it is the latest, its slot is
free or its own, and the pools have room. -/
structure AddOk (cap : Nat) (B : Book Nat) (d : OrderData Nat) : Prop where
  side : d.side_ = .BUY ∨ d.side_ = .SELL
  range : d.id_ < ME_MAX_ORDER_IDS
  later : ∀ b, ∀ o ∈ B b, o.id_ < d.id_
  slot : B.SlotFits d.side_ d.price_
  live : (B.rest d).live ≤ cap
  levels : (B.rest d).levels ≤ ME_MAX_PRICE_LEVELS - 1

/-- The update names a live order. -/
def Names (B : Book Nat) (u : MEMarketUpdate) : Prop :=
  ∃ b, ∃ o ∈ B b, o.id_ = u.order_id_ ∧ o.side_ = u.side_ ∧ o.price_ = u.price_

def UpdateOk (cap : Nat) (B : Book Nat) (u : MEMarketUpdate) : Prop :=
  match u.type_ with
  | .ADD => AddOk cap B (orderOf u)
  | .MODIFY | .CANCEL => Names B u
  | .TRADE => True
  | .INVALID | .CLEAR | .SNAPSHOT_START | .SNAPSHOT_END => False

/-- Every update of a stream arrives at a book that expects it. -/
def UpdatesOk (cap : Nat) : Book Nat → List MEMarketUpdate → Prop
  | _, [] => True
  | B, u :: us => UpdateOk cap B u ∧ UpdatesOk cap (applyUpdate B u) us

theorem updatesOk_append {cap : Nat} {B : Book Nat} {us vs : List MEMarketUpdate} :
    UpdatesOk cap B (us ++ vs) ↔ UpdatesOk cap B us ∧ UpdatesOk cap (us.foldl applyUpdate B) vs := by
  induction us generalizing B with
  | nil => simp [UpdatesOk]
  | cons u us ih =>
    show UpdateOk cap B u ∧ UpdatesOk cap (applyUpdate B u) (us ++ vs) ↔
      (UpdateOk cap B u ∧ UpdatesOk cap (applyUpdate B u) us) ∧
        UpdatesOk cap (us.foldl applyUpdate (applyUpdate B u)) vs
    rw [ih, and_assoc]

/-- More room does no harm. -/
theorem UpdateOk.mono {cap cap' : Nat} {B : Book Nat} {u : MEMarketUpdate} (hle : cap ≤ cap')
    (h : UpdateOk cap B u) : UpdateOk cap' B u := by
  unfold UpdateOk at h ⊢
  split
  next he =>
    rw [he] at h
    exact ⟨h.side, h.range, h.later, h.slot, Nat.le_trans h.live hle, h.levels⟩
  all_goals
    next he =>
      rw [he] at h
      exact h

/-- What holds of a feed's book between any two updates. -/
structure FeedInv (B : Book Nat) : Prop where
  fifo : ∀ b, (B b).Pairwise (Before b OrderData.price_ OrderData.id_)
  side : ∀ b, ∀ o ∈ B b, o.side_ = sideOf b
  range : ∀ b, ∀ o ∈ B b, o.id_ < ME_MAX_ORDER_IDS
  ids : ∀ b, (B b).Pairwise fun o o' => o.id_ ≠ o'.id_
  idsApart : ∀ o ∈ B true, ∀ o' ∈ B false, o.id_ ≠ o'.id_
  slots : ∀ b, ∀ o ∈ B b, ∀ b', ∀ o' ∈ B b', priceToIndex o.price_ = priceToIndex o'.price_ →
    b = b' ∧ o.price_ = o'.price_
  live : B.live ≤ ME_MAX_ORDER_IDS - 1
  levels : B.levels ≤ ME_MAX_PRICE_LEVELS - 1

namespace FeedInv

theorem empty : FeedInv Book.empty :=
  ⟨fun _ => List.Pairwise.nil, by simp [Book.empty], by simp [Book.empty],
    fun _ => List.Pairwise.nil, by simp [Book.empty], by simp [Book.empty],
    Nat.zero_le _, Nat.zero_le _⟩

variable {B : Book Nat}

theorem sorted (h : FeedInv B) (b : Bool) : QueueSorted b OrderData.price_ (B b) :=
  Lib.queueSorted_of_before (h.fifo b)

/-- A live order is determined by its id. -/
theorem id_inj (h : FeedInv B) {b b' : Bool} {o o' : OrderData Nat} (ho : o ∈ B b)
    (ho' : o' ∈ B b') (he : o.id_ = o'.id_) : b = b' ∧ o = o' := by
  have hside : ∀ b, ∀ {o o' : OrderData Nat}, o ∈ B b → o' ∈ B b → o.id_ = o'.id_ → o = o' := by
    intro b o o' ho ho' he
    exact List.inj_on_of_nodup_map (List.pairwise_map.mpr (h.ids b)) ho ho' he
  cases b <;> cases b'
  · exact ⟨rfl, hside _ ho ho' he⟩
  · exact absurd he.symm (h.idsApart o' ho' o ho)
  · exact absurd he (h.idsApart o ho o' ho')
  · exact ⟨rfl, hside _ ho ho' he⟩

/-- An order joins as the latest. -/
theorem rest (h : FeedInv B) {d : OrderData Nat} (ha : AddOk (ME_MAX_ORDER_IDS - 1) B d) :
    FeedInv (B.rest d) where
  fifo := by
    intro b
    refine Book.pairwise_rest h.sorted (h.fifo b) ?_ fun _ _ _ hb => Or.inl hb
    intro _ o ho hn
    by_cases he : o.price_ = d.price_
    · exact Or.inr ⟨he, ha.later b o ho⟩
    · exact Or.inl (Better.of_ne hn fun e => he e.symm)
  side := by
    intro b o ho
    rcases Book.mem_rest.mp ho with ⟨hb, he⟩ | ho
    · rw [hb, he]
      exact (sideOf_isBid ha.side).symm
    · exact h.side b o ho
  range := by
    intro b o ho
    rcases Book.mem_rest.mp ho with ⟨_, he⟩ | ho
    · rw [he]
      exact ha.range
    · exact h.range b o ho
  ids := by
    intro b
    exact Book.pairwise_rest h.sorted (h.ids b) (fun _ o ho _ => (ha.later b o ho).ne)
      fun _ o ho _ => (ha.later b o ho).ne'
  idsApart := by
    intro o ho o' ho'
    rcases Book.mem_rest.mp ho with ⟨hb, he⟩ | hm <;>
      rcases Book.mem_rest.mp ho' with ⟨hb', he'⟩ | hm'
    · exact absurd (hb.trans hb'.symm) (by simp)
    · rw [he]
      exact (ha.later false o' hm').ne'
    · rw [he']
      exact (ha.later true o hm).ne
    · exact h.idsApart o hm o' hm'
  slots := by
    intro b o ho b' o' ho' hi
    rcases Book.mem_rest.mp ho with ⟨hb, he⟩ | hm <;>
      rcases Book.mem_rest.mp ho' with ⟨hb', he'⟩ | hm'
    · exact ⟨hb.trans hb'.symm, by rw [he, he']⟩
    · rw [he] at hi
      obtain ⟨hb', hp⟩ := ha.slot b' o' hm' hi.symm
      exact ⟨hb.trans hb'.symm, by rw [he, hp]⟩
    · rw [he'] at hi
      obtain ⟨hb, hp⟩ := ha.slot b o hm hi
      exact ⟨hb.trans hb'.symm, by rw [he', hp]⟩
    · exact h.slots b o hm b' o' hm' hi
  live := ha.live
  levels := ha.levels

/-- Fewer orders: every clause is inherited. -/
theorem sublist {B' : Book Nat} (h : FeedInv B) (hs : ∀ b, (B' b).Sublist (B b)) : FeedInv B' where
  fifo := fun b => (h.fifo b).sublist (hs b)
  side := fun b o ho => h.side b o ((hs b).subset ho)
  range := fun b o ho => h.range b o ((hs b).subset ho)
  ids := fun b => (h.ids b).sublist (hs b)
  idsApart := fun o ho o' ho' => h.idsApart o ((hs _).subset ho) o' ((hs _).subset ho')
  slots := fun b o ho b' o' ho' => h.slots b o ((hs b).subset ho) b' o' ((hs b').subset ho')
  live := by
    have h₁ := (hs true).length_le
    have h₂ := (hs false).length_le
    have h₃ := h.live
    unfold Book.live at h₃ ⊢
    omega
  levels := Nat.le_trans (Book.levels_mono fun b o ho => ⟨o, (hs b).subset ho, rfl⟩) h.levels

/-- Quantities do not matter. -/
theorem setQty (h : FeedInv B) (i q : Nat) : FeedInv (B.setQtyIdx i q) := by
  have hget : ∀ {b o}, o ∈ B.setQtyIdx i q b →
      ∃ o₀ ∈ B b, o₀.id_ = o.id_ ∧ o₀.side_ = o.side_ ∧ o₀.price_ = o.price_ := by
    intro b o ho
    obtain ⟨o₀, ho₀, rfl⟩ := List.mem_map.mp ho
    refine ⟨o₀, ho₀, ?_⟩
    split <;> exact ⟨rfl, rfl, rfl⟩
  -- no clause between two orders mentions a quantity
  have hpair : ∀ {R : OrderData Nat → OrderData Nat → Prop} {b : Bool},
      (∀ o₁ o₂ q₁ q₂, R o₁ o₂ → R { o₁ with qty_ := q₁ } { o₂ with qty_ := q₂ }) →
      (B b).Pairwise R → (B.setQtyIdx i q b).Pairwise R := by
    intro R b hR hp
    unfold Book.setQtyIdx
    rw [List.pairwise_map]
    refine hp.imp ?_
    intro o₁ o₂ h₁₂
    split <;> split
    · exact hR _ _ _ _ h₁₂
    · exact hR o₁ o₂ q o₂.qty_ h₁₂
    · exact hR o₁ o₂ o₁.qty_ q h₁₂
    · exact h₁₂
  refine ⟨fun b => hpair (fun _ _ _ _ hr => hr) (h.fifo b), ?_, ?_,
    fun b => hpair (fun _ _ _ _ hr => hr) (h.ids b), ?_, ?_, ?_, ?_⟩
  · intro b o ho
    obtain ⟨o₀, ho₀, _, hs, _⟩ := hget ho
    rw [← hs]
    exact h.side b o₀ ho₀
  · intro b o ho
    obtain ⟨o₀, ho₀, hi, _⟩ := hget ho
    rw [← hi]
    exact h.range b o₀ ho₀
  · intro o ho o' ho'
    obtain ⟨o₀, ho₀, hi, _⟩ := hget ho
    obtain ⟨o₀', ho₀', hi', _⟩ := hget ho'
    rw [← hi, ← hi']
    exact h.idsApart o₀ ho₀ o₀' ho₀'
  · intro b o ho b' o' ho'
    obtain ⟨o₀, ho₀, _, _, hp⟩ := hget ho
    obtain ⟨o₀', ho₀', _, _, hp'⟩ := hget ho'
    rw [← hp, ← hp']
    exact h.slots b o₀ ho₀ b' o₀' ho₀'
  · have hl := h.live
    unfold Book.live at hl ⊢
    unfold Book.setQtyIdx
    rw [List.length_map, List.length_map]
    exact hl
  · refine Nat.le_trans (Book.levels_mono fun b o ho => ?_) h.levels
    obtain ⟨o₀, ho₀, _, _, hp⟩ := hget ho
    exact ⟨o₀, ho₀, hp⟩

/-- **One update keeps the feed's invariant.** -/
theorem apply (h : FeedInv B) {u : MEMarketUpdate} (hu : UpdateOk (ME_MAX_ORDER_IDS - 1) B u) :
    FeedInv (applyUpdate B u) := by
  unfold UpdateOk at hu
  unfold applyUpdate
  split
  next he => exact h.rest (by simpa [he] using hu)
  next => exact h.setQty _ _
  next => exact h.sublist fun _ => List.filter_sublist
  next => exact FeedInv.empty
  next => exact h
  next => exact h
  next => exact h
  next => exact h

/-- **A stream keeps the feed's invariant.** -/
theorem foldl {us : List MEMarketUpdate} (h : FeedInv B)
    (hu : UpdatesOk (ME_MAX_ORDER_IDS - 1) B us) :
    FeedInv (us.foldl applyUpdate B) := by
  induction us generalizing B with
  | nil => exact h
  | cons u us ih => exact ih (h.apply hu.1) hu.2

end FeedInv

end LowLatency
