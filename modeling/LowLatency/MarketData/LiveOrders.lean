import LowLatency.MarketData.SnapshotSynthesizer
import LowLatency.MarketData.Updates

/-!
# The live orders of a feed, and the snapshot of them

The ideal book has no queues and no bounds: for each ticker and market order id
it has an order or none. `replay` is the meaning of an update on it, and the
exchange's live orders after `n` increments are what the first `n` updates leave
of the empty book (`live`).

The synthesizer keeps these orders in its tables and its pool (`Keeps`), for any
stream of updates that its `ASSERT`s let pass, as long as there is no `CLEAR`
among them: it ignores one, and the matching engine never sends one. Replaying
its snapshot from *any* book then gives the live orders of every ticker
(`Keeps.replay_orderMessages`), because a ticker's `CLEAR` removes whatever was
there before.
-/

namespace LowLatency

/-- The live orders by ticker and market order id. -/
abbrev LiveOrders := Nat → Nat → Option (OrderData Nat)

namespace LiveOrders

def empty : LiveOrders := fun _ _ => none

def set (B : LiveOrders) (t i : Nat) (v : Option (OrderData Nat)) : LiveOrders :=
  Function.update B t (Function.update (B t) i v)

theorem set_apply (B : LiveOrders) (t₀ i₀ : Nat) (v : Option (OrderData Nat)) (t i : Nat) :
    B.set t₀ i₀ v t i = if t = t₀ ∧ i = i₀ then v else B t i :=
  update_update_apply B t₀ i₀ v t i

/-- What an update means. -/
def replay (B : LiveOrders) (u : MEMarketUpdate) : LiveOrders :=
  match u.type_ with
  | .ADD => B.set u.ticker_id_ u.order_id_ (some (orderOf u))
  | .MODIFY => B.set u.ticker_id_ u.order_id_
      ((B u.ticker_id_ u.order_id_).map fun o => { o with qty_ := u.qty_, price_ := u.price_ })
  | .CANCEL => B.set u.ticker_id_ u.order_id_ none
  | .CLEAR => Function.update B u.ticker_id_ fun _ => none
  | .INVALID | .TRADE | .SNAPSHOT_START | .SNAPSHOT_END => B

def replayAll (B : LiveOrders) (us : List MEMarketUpdate) : LiveOrders := us.foldl replay B

theorem replayAll_cons (B : LiveOrders) (u : MEMarketUpdate) (us : List MEMarketUpdate) :
    B.replayAll (u :: us) = (B.replay u).replayAll us :=
  rfl

theorem replayAll_append (B : LiveOrders) (us vs : List MEMarketUpdate) :
    B.replayAll (us ++ vs) = (B.replayAll us).replayAll vs :=
  List.foldl_append

/-- The marks of a snapshot mean nothing. -/
theorem replay_of_mark {B : LiveOrders} {u : MEMarketUpdate}
    (h : u.type_ = .SNAPSHOT_START ∨ u.type_ = .SNAPSHOT_END) : B.replay u = B := by
  unfold replay
  rcases h with h | h <;> rw [h]

theorem replayAll_finalEvents (B : LiveOrders) (us : List MEMarketUpdate) :
    B.replayAll (finalEvents us) = B.replayAll us := by
  induction us generalizing B with
  | nil => rfl
  | cons u us ih =>
    unfold finalEvents
    rw [List.filter_cons]
    split
    · exact ih _
    next hu =>
      rw [decide_eq_true_iff, not_and_or, not_not, not_not] at hu
      rw [replayAll_cons, replay_of_mark hu]
      exact ih B

/-- An update says something about its own ticker alone. -/
theorem replay_congr {B B' : LiveOrders} {t : Nat} (h : B t = B' t) (u : MEMarketUpdate) :
    B.replay u t = B'.replay u t := by
  have hset : ∀ (v v' : Option (OrderData Nat)), (u.ticker_id_ = t → v = v') →
      B.set u.ticker_id_ u.order_id_ v t = B'.set u.ticker_id_ u.order_id_ v' t := by
    intro v v' hv
    funext i
    rw [set_apply, set_apply, h]
    split
    next hti => exact hv hti.1.symm
    next => rfl
  unfold replay
  cases u.type_ with
  | ADD => exact hset _ _ fun _ => rfl
  | MODIFY =>
    refine hset _ _ fun ht => ?_
    rw [ht, h]
  | CANCEL => exact hset _ _ fun _ => rfl
  | CLEAR =>
    show Function.update B _ _ t = Function.update B' _ _ t
    by_cases ht : t = u.ticker_id_
    · rw [ht, Function.update_self, Function.update_self]
    · rw [Function.update_of_ne ht, Function.update_of_ne ht]
      exact h
  | INVALID | TRADE | SNAPSHOT_START | SNAPSHOT_END => exact h

theorem replayAll_congr {B B' : LiveOrders} {t : Nat} (h : B t = B' t)
    (us : List MEMarketUpdate) : B.replayAll us t = B'.replayAll us t := by
  induction us generalizing B B' with
  | nil => exact h
  | cons u us ih => exact ih (replay_congr h u)

/-- The exchange's live orders after the increments `1 .. n`. -/
def live (us : List MEMarketUpdate) (n : Nat) : LiveOrders := empty.replayAll (us.take n)

theorem live_append {us : List MEMarketUpdate} {n : Nat} (h : n ≤ us.length)
    (vs : List MEMarketUpdate) : live (us ++ vs) n = live us n := by
  unfold live
  rw [List.take_append_of_le_length h]

theorem live_succ {us : List MEMarketUpdate} {n : Nat} {u : MEMarketUpdate}
    (h : us[n]? = some u) : live us (n + 1) = (live us n).replay u := by
  unfold live
  rw [List.take_add_one, h, replayAll_append]
  rfl

end LiveOrders

/-! ## The synthesizer keeps the live orders -/

namespace SnapshotSynthesizer

open LiveOrders (replay replayAll live)

/-- The tables and the pool hold `B`. -/
structure Keeps (s : SnapshotSynthesizer) (B : LiveOrders) : Prop where
  orders : ∀ t i, B t i = (s.ticker_orders_ t i).map fun p => orderOf (s.order_pool_.get p)
  block : ∀ {t i p}, s.ticker_orders_ t i = some p → i < ME_MAX_ORDER_IDS ∧
    s.order_pool_.isFree p = false ∧ (s.order_pool_.get p).type_ = .ADD ∧
    (s.order_pool_.get p).ticker_id_ = t ∧ (s.order_pool_.get p).order_id_ = i
  inj : ∀ {t i t' i' p}, s.ticker_orders_ t i = some p → s.ticker_orders_ t' i' = some p →
    t = t' ∧ i = i'

theorem keeps_init : Keeps init LiveOrders.empty where
  orders := fun _ _ => rfl
  block := fun h => absurd h (by simp [init])
  inj := fun h => absurd h (by simp [init])

theorem getOrder_inv {s : SnapshotSynthesizer} {t i : Nat} {v : Option Nat}
    (h : s.getOrder t i = .ok v) :
    t < ME_MAX_TICKERS ∧ i < ME_MAX_ORDER_IDS ∧ s.ticker_orders_ t i = v := by
  unfold getOrder at h
  split at h
  next hr => exact ⟨hr.1, hr.2, Except.ok.inj h⟩
  next => exact absurd h (by simp)

theorem checkedOrder_inv {s : SnapshotSynthesizer} {u : MEMarketUpdate} {p : Nat}
    (h : s.checkedOrder u = .ok p) : s.ticker_orders_ u.ticker_id_ u.order_id_ = some p := by
  unfold checkedOrder at h
  obtain ⟨order, hget, h⟩ := exec_bind_ok h
  obtain ⟨_, _, h⟩ := exec_bind_ok h
  obtain ⟨q, hq, h⟩ := exec_bind_ok h
  obtain ⟨_, _, h⟩ := exec_bind_ok h
  obtain ⟨_, _, h⟩ := exec_bind_ok h
  obtain rfl : q = p := by simpa using h
  rw [(getOrder_inv hget).2.2]
  exact deref_inv hq

section OneUpdate

variable {s s' : SnapshotSynthesizer} {B : LiveOrders} {u : MEMarketUpdate}

/-- A new order gets a block of its own. -/
theorem Keeps.add (h : s.Keeps B) (hu : u.type_ = .ADD) (hi : u.order_id_ < ME_MAX_ORDER_IDS)
    {p : Nat} {m : MemPool MEMarketUpdate} (hm : s.order_pool_.allocate u = .ok (p, m)) :
    Keeps { s with
      order_pool_ := m
      ticker_orders_ := s.setOrder u.ticker_id_ u.order_id_ (some p) }
      (B.set u.ticker_id_ u.order_id_ (some (orderOf u))) := by
  have hstore := (MemPool.allocate_inv hm).2
  -- the block just taken was free, so no entry led to it
  have hold : ∀ {t i q}, s.ticker_orders_ t i = some q → q ≠ p := by
    intro t i q hq he
    have hused := (h.block hq).2.1
    rw [he, MemPool.allocate_free hm] at hused
    exact absurd hused (by simp)
  have hentry : ∀ {t i q}, s.setOrder u.ticker_id_ u.order_id_ (some p) t i = some q →
      (t = u.ticker_id_ ∧ i = u.order_id_ ∧ q = p) ∨ s.ticker_orders_ t i = some q := by
    intro t i q hq
    rw [setOrder_apply] at hq
    split at hq
    next hti => exact Or.inl ⟨hti.1, hti.2, (Option.some.inj hq).symm⟩
    next => exact Or.inr hq
  refine ⟨?_, ?_, ?_⟩
  · intro t i
    show _ = (s.setOrder u.ticker_id_ u.order_id_ (some p) t i).map fun q => orderOf (m.get q)
    rw [LiveOrders.set_apply, setOrder_apply]
    split
    · rw [Option.map_some, MemPool.get_of_store hstore, if_pos rfl]
    · rw [h.orders]
      cases hq : s.ticker_orders_ t i with
      | none => rfl
      | some q =>
        rw [Option.map_some, Option.map_some, MemPool.get_of_store hstore, if_neg (hold hq)]
  · intro t i q hq
    show _ ∧ m.isFree q = false ∧ (m.get q).type_ = _ ∧ (m.get q).ticker_id_ = _ ∧
      (m.get q).order_id_ = _
    rw [MemPool.get_of_store hstore, MemPool.isFree_of_store hstore]
    rcases hentry hq with ⟨rfl, rfl, rfl⟩ | hq
    · rw [if_pos rfl, if_pos rfl]
      exact ⟨hi, rfl, hu, rfl, rfl⟩
    · rw [if_neg (hold hq), if_neg (hold hq)]
      exact h.block hq
  · intro t i t' i' q hq hq'
    rcases hentry hq with ⟨ht, hi, he⟩ | hq <;> rcases hentry hq' with ⟨ht', hi', he'⟩ | hq'
    · exact ⟨ht.trans ht'.symm, hi.trans hi'.symm⟩
    · exact absurd he (hold hq')
    · exact absurd he' (hold hq)
    · exact h.inj hq hq'

/-- The block of an order is patched. -/
theorem Keeps.modify (h : s.Keeps B) {p : Nat}
    (hp : s.ticker_orders_ u.ticker_id_ u.order_id_ = some p) :
    Keeps { s with
      order_pool_ := s.order_pool_.set p
        { s.order_pool_.get p with qty_ := u.qty_, price_ := u.price_ } }
      (B.set u.ticker_id_ u.order_id_ ((B u.ticker_id_ u.order_id_).map fun o =>
        { o with qty_ := u.qty_, price_ := u.price_ })) := by
  refine ⟨?_, ?_, h.inj⟩
  · intro t i
    show _ = (s.ticker_orders_ t i).map fun q => orderOf ((s.order_pool_.set p _).get q)
    rw [LiveOrders.set_apply]
    split
    next hti =>
      rw [hti.1, hti.2, h.orders, hp, Option.map_some, Option.map_some, Option.map_some,
        MemPool.get_set, if_pos rfl]
      rfl
    -- other entries lead to other blocks
    next hti =>
      rw [h.orders]
      cases hq : s.ticker_orders_ t i with
      | none => rfl
      | some q =>
        have hne : q ≠ p := by
          rintro rfl
          exact hti (h.inj hq hp)
        rw [Option.map_some, Option.map_some, MemPool.get_set, if_neg hne]
  · intro t i q hq
    obtain ⟨h₁, h₂, h₃⟩ := h.block hq
    refine ⟨h₁, (MemPool.isFree_set ..).trans h₂, ?_⟩
    show ((s.order_pool_.set p _).get q).type_ = _ ∧ ((s.order_pool_.set p _).get q).ticker_id_ = _ ∧
      ((s.order_pool_.set p _).get q).order_id_ = _
    rw [MemPool.get_set]
    split
    next he =>
      rw [he] at h₃
      exact h₃
    next => exact h₃

/-- The block of an order is freed. -/
theorem Keeps.cancel (h : s.Keeps B) {p : Nat}
    (hp : s.ticker_orders_ u.ticker_id_ u.order_id_ = some p) :
    Keeps { s with
      order_pool_ := s.order_pool_.release p
      ticker_orders_ := s.setOrder u.ticker_id_ u.order_id_ none }
      (B.set u.ticker_id_ u.order_id_ none) := by
  have hentry : ∀ {t i q}, s.setOrder u.ticker_id_ u.order_id_ none t i = some q →
      s.ticker_orders_ t i = some q ∧ q ≠ p := by
    intro t i q hq
    rw [setOrder_apply] at hq
    split at hq
    next => exact absurd hq (by simp)
    next hti =>
      refine ⟨hq, ?_⟩
      rintro rfl
      exact hti (h.inj hq hp)
  refine ⟨?_, ?_, fun hq hq' => h.inj (hentry hq).1 (hentry hq').1⟩
  · intro t i
    show _ = (s.setOrder u.ticker_id_ u.order_id_ none t i).map fun q =>
      orderOf ((s.order_pool_.release p).get q)
    rw [LiveOrders.set_apply, setOrder_apply]
    split
    · rfl
    · rw [h.orders]
      simp only [MemPool.get_release]
  · intro t i q hq
    obtain ⟨hq, hne⟩ := hentry hq
    obtain ⟨h₁, h₂, h₃⟩ := h.block hq
    refine ⟨h₁, ?_, ?_⟩
    · show (s.order_pool_.release p).isFree q = false
      rw [MemPool.isFree_release, if_neg hne]
      exact h₂
    · show ((s.order_pool_.release p).get q).type_ = _ ∧
        ((s.order_pool_.release p).get q).ticker_id_ = _ ∧
        ((s.order_pool_.release p).get q).order_id_ = _
      rw [MemPool.get_release]
      exact h₃

/-- **One increment**: the synthesizer goes on keeping the live orders. -/
theorem Keeps.onUpdate (h : s.Keeps B) (hu : u.type_ ≠ .CLEAR) (hrun : s.onUpdate u = .ok s') :
    s'.Keeps (B.replay u) ∧ s'.last_inc_seq_num_ = s.last_inc_seq_num_ := by
  unfold SnapshotSynthesizer.onUpdate at hrun
  unfold LiveOrders.replay
  split at hrun
  next he =>
    obtain ⟨order, hget, hrun⟩ := exec_bind_ok hrun
    obtain ⟨_, _, hrun⟩ := exec_bind_ok hrun
    obtain ⟨⟨p, m⟩, hm, hrun⟩ := exec_bind_ok hrun
    obtain rfl := Except.ok.inj hrun
    rw [he]
    exact ⟨h.add he (getOrder_inv hget).2.1 hm, rfl⟩
  next he =>
    obtain ⟨p, hp, hrun⟩ := exec_bind_ok hrun
    obtain rfl := Except.ok.inj hrun
    rw [he]
    exact ⟨h.modify (checkedOrder_inv hp), rfl⟩
  next he =>
    obtain ⟨p, hp, hrun⟩ := exec_bind_ok hrun
    obtain ⟨m, hm, hrun⟩ := exec_bind_ok hrun
    obtain rfl := Except.ok.inj hrun
    obtain ⟨_, rfl⟩ := MemPool.deallocate_inv hm
    rw [he]
    exact ⟨h.cancel (checkedOrder_inv hp), rfl⟩
  -- `SNAPSHOT_*` and `INVALID` do nothing; `CLEAR` is excluded
  case h_5 he => exact absurd he hu
  all_goals
    next he =>
      rw [he]
      split at hrun
      · obtain rfl := Except.ok.inj hrun
        exact ⟨h, rfl⟩
      · exact absurd hrun (by simp)

end OneUpdate

/-- The synthesizer has applied the increments up to its number. -/
def Follows (s : SnapshotSynthesizer) (us : List MEMarketUpdate) : Prop :=
  s.last_inc_seq_num_ ≤ us.length ∧ s.Keeps (live us s.last_inc_seq_num_)

theorem Follows.append {s : SnapshotSynthesizer} {us : List MEMarketUpdate} (h : s.Follows us)
    (vs : List MEMarketUpdate) : s.Follows (us ++ vs) := by
  refine ⟨Nat.le_trans h.1 (by simp), ?_⟩
  rw [LiveOrders.live_append h.1]
  exact h.2

/-- **The next increment.** -/
theorem Follows.addToSnapshot {s s' : SnapshotSynthesizer} {us : List MEMarketUpdate}
    (h : s.Follows us) {m : MDPMarketUpdate}
    (hm : us[s.last_inc_seq_num_]? = some m.me_market_update_)
    (hclear : m.me_market_update_.type_ ≠ .CLEAR) (hrun : s.addToSnapshot m = .ok s') :
    s'.Follows us := by
  unfold SnapshotSynthesizer.addToSnapshot at hrun
  obtain ⟨s₁, hon, hrun⟩ := exec_bind_ok hrun
  obtain ⟨_, hseq, hrun⟩ := exec_bind_ok hrun
  obtain rfl := Except.ok.inj hrun
  obtain ⟨hk, hlast⟩ := h.2.onUpdate hclear hon
  have hnum : m.seq_num_ = s.last_inc_seq_num_ + 1 := by
    rw [← hlast]
    exact of_decide_eq_true (ASSERT_ok hseq)
  refine ⟨?_, ?_⟩
  · show m.seq_num_ ≤ us.length
    rw [hnum]
    exact (List.getElem?_eq_some_iff.mp hm).1
  · show Keeps _ (live us m.seq_num_)
    rw [hnum, LiveOrders.live_succ hm]
    exact ⟨hk.orders, hk.block, hk.inj⟩

/-! ## A snapshot replays to the live orders -/

/-- `ADD`s of one ticker, found by id. -/
theorem replayAll_adds {t : Nat} {f : Nat → Option MEMarketUpdate}
    (hf : ∀ i u, f i = some u → u.type_ = .ADD ∧ u.ticker_id_ = t ∧ u.order_id_ = i)
    (is : List Nat) (B : LiveOrders) (t' i : Nat) :
    B.replayAll (is.filterMap f) t' i =
      if t' = t ∧ i ∈ is ∧ (f i).isSome then (f i).map orderOf else B t' i := by
  induction is generalizing B with
  | nil => simp [replayAll]
  | cons a is ih =>
    cases ha : f a with
    | none =>
      rw [List.filterMap_cons_none ha, ih]
      refine if_congr ?_ rfl rfl
      have : i = a → ¬ (f i).isSome := by
        rintro rfl
        simp [ha]
      rw [List.mem_cons]
      tauto
    | some u =>
      obtain ⟨hty, ht, hi⟩ := hf a u ha
      have hstep : B.replay u = B.set t a (some (orderOf u)) := by
        unfold LiveOrders.replay
        rw [hty, ht, hi]
      rw [List.filterMap_cons_some ha, LiveOrders.replayAll_cons, hstep, ih, LiveOrders.set_apply]
      -- a later `ADD` of the same id would be the same message
      by_cases hia : i = a
      · subst hia
        rw [ha]
        by_cases htt : t' = t <;> simp [htt]
      · simp [hia]

/-- The part of a snapshot about ticker `t`, whatever the book held before. -/
theorem Keeps.replay_ticker {s : SnapshotSynthesizer} {L : LiveOrders} (h : s.Keeps L) (t : Nat)
    (B : LiveOrders) : B.replayAll ({ type_ := .CLEAR, ticker_id_ := t } :: s.tickerOrders t) =
      Function.update B t (L t) := by
  have hclear : B.replay { type_ := .CLEAR, ticker_id_ := t } =
      Function.update B t fun _ => none := rfl
  funext t' i
  rw [LiveOrders.replayAll_cons, hclear]
  unfold tickerOrders
  rw [replayAll_adds (t := t)]
  · by_cases ht : t' = t
    · subst ht
      rw [Function.update_self, Function.update_self, h.orders, Option.map_map]
      split
      · rfl
      -- no message names the id, so the table has no entry for it
      next hn =>
        cases hp : s.ticker_orders_ t' i with
        | none => rfl
        | some p =>
          refine absurd ⟨rfl, List.mem_range.mpr (h.block hp).1, ?_⟩ hn
          simp [hp]
    · rw [if_neg fun hc => ht hc.1, Function.update_of_ne ht, Function.update_of_ne ht]
  · intro j u hu
    obtain ⟨p, hp, rfl⟩ := Option.map_eq_some_iff.mp hu
    exact (h.block hp).2.2

/-- The messages between START and END. -/
def orderMessages (s : SnapshotSynthesizer) : List MEMarketUpdate :=
  (List.range ME_MAX_TICKERS).flatMap fun t =>
    { type_ := .CLEAR, ticker_id_ := t } :: s.tickerOrders t

theorem snapshotMessages_eq (s : SnapshotSynthesizer) : s.snapshotMessages =
    { type_ := .SNAPSHOT_START, order_id_ := s.last_inc_seq_num_ } ::
      (s.orderMessages ++ [{ type_ := .SNAPSHOT_END, order_id_ := s.last_inc_seq_num_ }]) := rfl

/-- **A snapshot gives every ticker its live orders**, whatever the book held. -/
theorem Keeps.replay_orderMessages {s : SnapshotSynthesizer} {L : LiveOrders} (h : s.Keeps L)
    (B : LiveOrders) {t : Nat} (ht : t < ME_MAX_TICKERS) :
    B.replayAll s.orderMessages t = L t := by
  have hblocks : ∀ (ts : List Nat) (B : LiveOrders) (t : Nat),
      B.replayAll (ts.flatMap fun t => { type_ := .CLEAR, ticker_id_ := t } :: s.tickerOrders t) t
        = if t ∈ ts then L t else B t := by
    intro ts
    induction ts with
    | nil => exact fun _ _ => rfl
    | cons a ts ih =>
      intro B t
      rw [List.flatMap_cons, LiveOrders.replayAll_append, h.replay_ticker, ih]
      by_cases hta : t = a
      · subst hta
        simp
      · simp [hta]
  unfold orderMessages
  rw [hblocks, if_pos (List.mem_range.mpr ht)]

theorem Keeps.orderMessages_type {s : SnapshotSynthesizer} {L : LiveOrders} (h : s.Keeps L)
    {u : MEMarketUpdate} (hu : u ∈ s.orderMessages) : u.type_ = .CLEAR ∨ u.type_ = .ADD := by
  obtain ⟨t, _, hu⟩ := List.mem_flatMap.mp hu
  rcases List.mem_cons.mp hu with rfl | hu
  · exact Or.inl rfl
  · obtain ⟨i, _, hi⟩ := List.mem_filterMap.mp hu
    obtain ⟨p, hp, rfl⟩ := Option.map_eq_some_iff.mp hi
    exact Or.inr (h.block hp).2.2.1

/-- The END of a snapshot, by its place. -/
theorem Keeps.snapshot_end {s : SnapshotSynthesizer} {L : LiveOrders} (h : s.Keeps L) {i : Nat}
    {u : MEMarketUpdate} (hu : s.snapshotMessages[i]? = some u) (he : u.type_ = .SNAPSHOT_END) :
    i = s.orderMessages.length + 1 ∧ u.order_id_ = s.last_inc_seq_num_ := by
  rw [snapshotMessages_eq] at hu
  cases i with
  | zero =>
    obtain rfl := Option.some.inj hu
    exact absurd he (by simp)
  | succ i =>
    rw [List.getElem?_cons_succ] at hu
    rcases Nat.lt_trichotomy i s.orderMessages.length with hi | hi | hi
    · rw [List.getElem?_append_left hi] at hu
      have hty := h.orderMessages_type (List.mem_of_getElem? hu)
      rw [he] at hty
      exact absurd hty (by simp)
    · subst hi
      rw [List.getElem?_concat_length] at hu
      obtain rfl := Option.some.inj hu
      exact ⟨rfl, rfl⟩
    · rw [List.getElem?_eq_none (by simp; omega)] at hu
      exact absurd hu (by simp)

end SnapshotSynthesizer

end LowLatency
