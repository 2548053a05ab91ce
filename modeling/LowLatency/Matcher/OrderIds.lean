import LowLatency.MarketData.MarketIds
import LowLatency.Matcher.Conservation
import LowLatency.Matcher.Sweep

/-!
# The market order id of a new order, in all its messages

`generateNewMarketOrderId` counts in `uint64_t`, and `add` hands the id on: to the
`ACCEPTED` response, to `checkForMatch` and through it to `match` for the `FILLED`
responses, and to the `ADD` update. `checkForMatch` declares it a `Qty`, and `match`
an `OrderId` again.

So the responses to the aggressor carry the low 32 bits of the id, and every other
message carries the id (`checkForMatchLoop_fills`). `one_market_id_iff` says for
which orders that makes no difference: those with an id below `2 ^ 32`, and those
that are filled against nothing. No two orders of a book get one id until the
counter has come round (`run_acceptedIds`).
-/

namespace LowLatency

/-- Every other element, from the first on. -/
def everyOther {α : Type} : List α → List α
  | a :: _ :: l => a :: everyOther l
  | l => l

/-- The `FILLED` responses among the messages. -/
def filledResponses (evs : List Event) : List MEClientResponse :=
  (responses evs).filter fun r => decide (r.type_ = .FILLED)

/-- The `FILLED` responses to the aggressor: `match` sends one to it, and then one
to the owner of the passive order. -/
def aggressorFills (evs : List Event) : List MEClientResponse := everyOther (filledResponses evs)

/-- The market order ids under which orders were accepted. -/
def acceptedIds (evs : List Event) : List Nat :=
  ((responses evs).filter fun r => decide (r.type_ = .ACCEPTED)).map
    MEClientResponse.market_order_id_

/-- What is sent for a new order carries one market order id throughout, and no
earlier order had it. -/
structure OneId (id : Nat) (earlier : List Nat) (evs : List Event) : Prop where
  accepted : ∀ r ∈ responses evs, r.type_ = .ACCEPTED → r.market_order_id_ = id
  filled : ∀ r ∈ aggressorFills evs, r.market_order_id_ = id
  added : ∀ u ∈ updates evs, u.type_ = .ADD → u.order_id_ = id
  fresh : id ∉ earlier

theorem filledResponses_append (evs evs' : List Event) :
    filledResponses (evs ++ evs') = filledResponses evs ++ filledResponses evs' := by
  unfold filledResponses
  rw [responses_append, List.filter_append]

theorem acceptedIds_append (evs evs' : List Event) :
    acceptedIds (evs ++ evs') = acceptedIds evs ++ acceptedIds evs' := by
  unfold acceptedIds
  rw [responses_append, List.filter_append, List.map_append]

/-! ## What matching sends -/

/-- The side against which an order is matched, `true` for the bids. -/
def opposite? : Side → Option Bool
  | .BUY => some false
  | .SELL => some true
  | _ => none

/-- The loop against side `bid` has something to fill. -/
def MELadder.Reaches (s : MELadder) (bid : Bool) (price : Int) (leaves_qty : Nat) : Prop :=
  leaves_qty ≠ 0 ∧ ∃ level itr, s.best bid = some level ∧
    s.orders_at_price_pool_.firstOrder level = some itr ∧
    MELadder.outOfReach bid price (s.order_pool_.data itr).price_ = false

/-- An order meets one that it is filled against. -/
def MELadder.Meets (s : MELadder) (side : Side) (price : Int) (qty : Nat) : Prop :=
  ∃ bid, opposite? side = some bid ∧ s.Reaches bid price qty

/-- A response to the aggressor, with the id that `checkForMatch` was given. -/
structure Aggressor.Answered (a : Aggressor) (r : MEClientResponse) : Prop where
  client_id : r.client_id_ = a.client_id_
  client_order_id : r.client_order_id_ = a.client_order_id_
  market_order_id : r.market_order_id_ = a.new_market_order_id_

variable {a : Aggressor} {s s' : MELadder} {leaves leaves' : Nat} {evs : List Event}

/-- A fill sends two responses, the first to the aggressor. -/
theorem matchOrder_filledResponses {itr : Nat}
    (h : MELadder.matchOrder s a itr leaves = .ok (leaves', s', evs)) :
    ∃ r r', filledResponses evs = [r, r'] ∧ a.Answered r := by
  unfold MELadder.matchOrder at h
  dsimp only at h
  split at h
  · obtain ⟨s₁, _, h⟩ := exec_bind_ok h
    obtain ⟨-, -, rfl⟩ : _ = leaves' ∧ s₁ = s' ∧ _ = evs := by simpa using h
    exact ⟨_, _, rfl, rfl, rfl, rfl⟩
  · obtain ⟨-, -, rfl⟩ : _ = leaves' ∧ _ = s' ∧ _ = evs := by simpa using h
    exact ⟨_, _, rfl, rfl, rfl, rfl⟩

/-- **The loop** answers the aggressor under the id it was given, and answers it at
all exactly if there is something to fill. -/
theorem checkForMatchLoop_fills {bid : Bool} {fuel : Nat}
    (h : MELadder.checkForMatchLoop bid a fuel s leaves = .ok (leaves', s', evs)) :
    (∀ r ∈ aggressorFills evs, a.Answered r) ∧
      (aggressorFills evs ≠ [] ↔ s.Reaches bid a.price_ leaves) := by
  induction fuel generalizing s leaves leaves' s' evs with
  | zero => exact absurd h (by simp [MELadder.checkForMatchLoop])
  | succ fuel ih =>
    have hstop : (.ok (leaves, s, []) : Exec (Nat × MELadder × List Event)) =
        .ok (leaves', s', evs) → ¬ s.Reaches bid a.price_ leaves →
        (∀ r ∈ aggressorFills evs, a.Answered r) ∧
          (aggressorFills evs ≠ [] ↔ s.Reaches bid a.price_ leaves) := by
      intro h hno
      obtain ⟨-, -, rfl⟩ : leaves = leaves' ∧ s = s' ∧ [] = evs := by simpa using h
      exact ⟨fun r hr => absurd hr (List.not_mem_nil), iff_of_false (fun h => h rfl) hno⟩
    unfold MELadder.checkForMatchLoop at h
    by_cases hl : leaves = 0
    · rw [if_pos hl] at h
      exact hstop h fun hr => hr.1 hl
    rw [if_neg hl] at h
    cases hbest : s.best bid with
    | none =>
      simp only [hbest] at h
      refine hstop h ?_
      rintro ⟨_, level, itr, hsome, _⟩
      exact absurd (hbest.symm.trans hsome) (by simp)
    | some level =>
      simp only [hbest] at h
      obtain ⟨itr, hitr, h⟩ := exec_bind_ok h
      split at h
      next hout =>
        refine hstop h ?_
        rintro ⟨_, level', itr', hsome, hfirst, hin⟩
        obtain rfl := Option.some.inj (hbest.symm.trans hsome)
        obtain rfl := Option.some.inj ((deref_inv hitr).symm.trans hfirst)
        exact absurd (hout.symm.trans hin) (by simp)
      next hin =>
        obtain ⟨⟨leaves₁, s₁, evs₁⟩, hrun₁, h⟩ := exec_bind_ok h
        obtain ⟨⟨leaves₂, s₂, evs₂⟩, hrun₂, h⟩ := exec_bind_ok h
        obtain ⟨-, -, rfl⟩ : leaves₂ = leaves' ∧ s₂ = s' ∧ evs₁ ++ evs₂ = evs := by simpa using h
        obtain ⟨r, r', hfilled, hr⟩ := matchOrder_filledResponses hrun₁
        have hfills : aggressorFills (evs₁ ++ evs₂) = r :: aggressorFills evs₂ := by
          unfold aggressorFills
          rw [filledResponses_append, hfilled]
          rfl
        rw [hfills]
        refine ⟨?_, iff_of_true (List.cons_ne_nil _ _) ?_⟩
        · intro q hq
          rcases List.mem_cons.mp hq with rfl | hq
          · exact hr
          · exact (ih hrun₂).1 q hq
        · exact ⟨hl, level, itr, hbest, deref_inv hitr, Bool.eq_false_iff.mpr hin⟩

theorem checkForMatch_fills {qty : Nat}
    (h : MELadder.checkForMatch s a qty = .ok (leaves', s', evs)) :
    (∀ r ∈ aggressorFills evs, a.Answered r) ∧
      (aggressorFills evs ≠ [] ↔ s.Meets a.side_ a.price_ qty) := by
  unfold MELadder.checkForMatch at h
  split at h
  next hside =>
    obtain ⟨hids, hsome⟩ := checkForMatchLoop_fills h
    refine ⟨hids, hsome.trans ?_⟩
    unfold MELadder.Meets
    rw [hside]
    simp [opposite?]
  next hside =>
    obtain ⟨hids, hsome⟩ := checkForMatchLoop_fills h
    refine ⟨hids, hsome.trans ?_⟩
    unfold MELadder.Meets
    rw [hside]
    simp [opposite?]
  next hbuy hsell =>
    obtain ⟨-, -, rfl⟩ : qty = leaves' ∧ s = s' ∧ [] = evs := by simpa using h
    refine ⟨fun r hr => absurd hr List.not_mem_nil, iff_of_false (fun h => h rfl) ?_⟩
    rintro ⟨bid, hopposite, _⟩
    unfold opposite? at hopposite
    split at hopposite
    next hside => exact hbuy hside
    next hside => exact hsell hside
    next => exact absurd hopposite (by simp)

/-- Neither an `ACCEPTED` response nor an `ADD` update. -/
def NotNew : Event → Prop
  | .response r => r.type_ ≠ .ACCEPTED
  | .update u => u.type_ ≠ .ADD

/-- Matching sends neither. -/
theorem notNew_sweepRule (a : Aggressor) (N : Nat) : SweepRule a N (fun _ => True) NotNew where
  fill := by
    intro s itr leaves _ _ _ e he
    simp only [fillEvents, List.mem_cons, List.not_mem_nil, or_false] at he
    rcases he with rfl | rfl | rfl <;> simp [NotNew]
  exhausted := by
    intro s itr _ _
    simp [exhaustedEvent, NotNew]
  modified := by
    intro s itr qty _ _
    simp [modifiedEvent, NotNew]
  setQty := fun _ _ => trivial
  remove := fun _ _ _ => trivial

theorem acceptedIds_of_notNew (h : ∀ e ∈ evs, NotNew e) : acceptedIds evs = [] := by
  unfold acceptedIds
  rw [List.map_eq_nil_iff, List.filter_eq_nil_iff]
  intro r hr
  rw [decide_eq_true_eq]
  exact h _ (mem_responses.mp hr)

/-! ## A new order -/

section Add

variable {m m' : MEOrderBook} {client_id client_order_id ticker_id : Nat} {side : Side}
  {price : Int} {qty : Nat}

/-- **The ids in the messages of a new order**: its own, but for the fills, which
carry the low 32 bits of it. -/
theorem add_ids
    (h : m.add client_id client_order_id ticker_id side price qty = .ok (m', evs)) :
    m'.next_market_order_id_ = wrap64 (m.next_market_order_id_ + 1) ∧
    acceptedIds evs = [m.next_market_order_id_] ∧
    (∀ u ∈ updates evs, u.type_ = .ADD → u.order_id_ = m.next_market_order_id_) ∧
    (∀ r ∈ aggressorFills evs, r.market_order_id_ = wrap32 m.next_market_order_id_) ∧
    (aggressorFills evs ≠ [] ↔ m.ladder.Meets side price qty) := by
  obtain ⟨leaves, l, evs₁, hmatch, hnext, hend⟩ := MEOrderBook.add_inv h
  obtain ⟨hids, hsome⟩ := checkForMatch_fills hmatch
  obtain ⟨-, -, hplain⟩ := (notNew_sweepRule _ qty).checkForMatch trivial hmatch
  have hnone := acceptedIds_of_notNew hplain
  have hcut : ∀ r ∈ aggressorFills evs₁, r.market_order_id_ = wrap32 m.next_market_order_id_ :=
    fun r hr => (hids r hr).market_order_id
  refine ⟨hnext, ?_⟩
  rcases hend with ⟨-, -, rfl⟩ | ⟨-, o, hid, -, -, -, -, rfl⟩
  · refine ⟨congrArg (m.next_market_order_id_ :: ·) hnone, ?_, hcut, hsome⟩
    intro u hu hadd
    exact absurd hadd (hplain _ (mem_updates.mp hu))
  · have hfills : aggressorFills (evs₁ ++ [addedEvent o]) = aggressorFills evs₁ := by
      unfold aggressorFills
      rw [filledResponses_append, show filledResponses [addedEvent o] = [] from rfl,
        List.append_nil]
    have haccepted : acceptedIds (evs₁ ++ [addedEvent o]) = [] := by
      rw [acceptedIds_append, hnone]
      rfl
    refine ⟨congrArg (m.next_market_order_id_ :: ·) haccepted, ?_, ?_, ?_⟩
    · intro u hu hadd
      have hmem : Event.update u ∈ evs₁ ++ [addedEvent o] := mem_updates.mp hu
      rcases List.mem_append.mp hmem with hu | hu
      · exact absurd hadd (hplain _ hu)
      · obtain rfl := Event.update.inj (List.mem_singleton.mp hu)
        rw [hid]
    · intro r hr
      exact hcut r (hfills ▸ hr)
    · exact (hfills ▸ hsome : aggressorFills (evs₁ ++ [addedEvent o]) ≠ [] ↔ _)

end Add

/-! ## A run -/

/-- The new orders among some requests. -/
def newOrders (qs : List MEClientRequest) : Nat := qs.countP fun q => decide (q.type_ = .NEW)

theorem wrap64_wrap64_add (n i : Nat) : wrap64 (wrap64 n + i) = wrap64 (n + i) :=
  Nat.mod_add_mod n (2 ^ 64) i

section Run

variable {m m' : MEOrderBook} {q : MEClientRequest} {qs : List MEClientRequest}

/-- A request takes an id if it brings an order. -/
theorem processClientRequest_acceptedIds (h : m.processClientRequest q = .ok (m', evs)) :
    (q.type_ = .NEW ∧ m'.next_market_order_id_ = wrap64 (m.next_market_order_id_ + 1) ∧
      acceptedIds evs = [m.next_market_order_id_]) ∨
    (q.type_ ≠ .NEW ∧ m'.next_market_order_id_ = m.next_market_order_id_ ∧
      acceptedIds evs = []) := by
  unfold MEOrderBook.processClientRequest at h
  cases hq : q.type_ with
  | NEW =>
    rw [hq] at h
    obtain ⟨hnext, hids, -⟩ := add_ids h
    exact Or.inl ⟨rfl, hnext, hids⟩
  | CANCEL =>
    rw [hq] at h
    rcases MEOrderBook.cancel_inv h with ⟨rfl, rfl⟩ | ⟨p, -, -, hnext, rfl⟩
    · exact Or.inr ⟨by simp, rfl, rfl⟩
    · exact Or.inr ⟨by simp, hnext, rfl⟩
  | INVALID =>
    rw [hq] at h
    exact absurd h (by simp)

/-- **The ids of a run** are the counter's values one after the other. -/
theorem run_acceptedIds {evss : List (List Event)} (hm : m.next_market_order_id_ < 2 ^ 64)
    (h : m.run qs = .ok (m', evss)) :
    m'.next_market_order_id_ = wrap64 (m.next_market_order_id_ + newOrders qs) ∧
      acceptedIds evss.flatten =
        (List.range (newOrders qs)).map fun i => wrap64 (m.next_market_order_id_ + i) := by
  induction qs generalizing m evss with
  | nil =>
    obtain ⟨rfl, rfl⟩ : m = m' ∧ [] = evss := by simpa [MEOrderBook.run] using h
    exact ⟨(wrap64_eq hm).symm, rfl⟩
  | cons q qs ih =>
    obtain ⟨⟨m₁, evs₁⟩, hone, h⟩ := exec_bind_ok h
    obtain ⟨⟨m₂, evss₂⟩, hrest, h⟩ := exec_bind_ok h
    obtain ⟨rfl, rfl⟩ : m₂ = m' ∧ evs₁ :: evss₂ = evss := by simpa using h
    rw [List.flatten_cons, acceptedIds_append]
    rcases processClientRequest_acceptedIds hone with ⟨hq, hnext, hids⟩ | ⟨hq, hnext, hids⟩
    · have hcount : newOrders (q :: qs) = newOrders qs + 1 :=
        List.countP_cons_of_pos (decide_eq_true hq)
      obtain ⟨hnext', hids'⟩ := ih (hnext ▸ Nat.mod_lt _ (by decide)) hrest
      rw [hnext] at hnext' hids'
      constructor
      · rw [hnext', hcount, wrap64_wrap64_add, Nat.add_assoc, Nat.add_comm 1]
      · have hfirst : wrap64 (m.next_market_order_id_ + 0) = m.next_market_order_id_ := wrap64_eq hm
        rw [hids, hids', hcount, List.range_succ_eq_map, List.map_cons, List.map_map, hfirst,
          List.singleton_append]
        congr 1
        apply List.map_congr_left
        intro i _
        show wrap64 (wrap64 (m.next_market_order_id_ + 1) + i) = wrap64 (_ + (i + 1))
        rw [wrap64_wrap64_add, Nat.add_assoc, Nat.add_comm 1]
    · have hcount : newOrders (q :: qs) = newOrders qs :=
        List.countP_cons_of_neg (by simpa using hq)
      obtain ⟨hnext', hids'⟩ := ih (hnext ▸ hm) hrest
      rw [hnext] at hnext' hids'
      rw [hids, hcount]
      exact ⟨hnext', hids'⟩

/-- The counter has not come round as long as fewer than `2 ^ 64` orders were
added. -/
theorem next_fresh_iff (k : Nat) :
    wrap64 (1 + k) ∉ (List.range k).map (fun i => wrap64 (1 + i)) ↔ k < 2 ^ 64 := by
  rw [List.mem_map]
  constructor
  · intro h
    by_contra hk
    refine h ⟨k - 2 ^ 64, List.mem_range.mpr (by omega), ?_⟩
    unfold wrap64
    omega
  · rintro hk ⟨i, hi, heq⟩
    rw [List.mem_range] at hi
    unfold wrap64 at heq
    omega

end Run

section OneId

variable {qs : List MEClientRequest} {m m' : MEOrderBook} {evss : List (List Event)}
  {client_id client_order_id ticker_id : Nat} {side : Side} {price : Int} {qty : Nat}

/-- **One market order id per order**: a new order is reported under one id, its
own, and no earlier order of the book had it, exactly if the counter has not come
round, and the order's id fits into 32 bits or the order is filled against
nothing. -/
theorem MEOrderBook.one_market_id_iff (hrun : init.run qs = .ok (m, evss))
    (hadd : m.add client_id client_order_id ticker_id side price qty = .ok (m', evs)) :
    OneId m.next_market_order_id_ (acceptedIds evss.flatten) evs ↔
      newOrders qs < 2 ^ 64 ∧
        (m.next_market_order_id_ < 2 ^ 32 ∨ ¬ m.ladder.Meets side price qty) := by
  obtain ⟨-, hids, hadded, hfills, hsome⟩ := add_ids hadd
  obtain ⟨hnext, hearlier⟩ := run_acceptedIds (show (1 : Nat) < 2 ^ 64 by decide) hrun
  have hfresh : m.next_market_order_id_ ∉ acceptedIds evss.flatten ↔ newOrders qs < 2 ^ 64 := by
    rw [hnext, hearlier]
    exact next_fresh_iff _
  rw [← hfresh]
  constructor
  · intro h
    refine ⟨h.fresh, ?_⟩
    by_cases hmeets : m.ladder.Meets side price qty
    · -- the first fill shows what the id was cut to
      obtain ⟨r, hr⟩ := List.exists_mem_of_ne_nil _ (hsome.mpr hmeets)
      have hsame := (hfills r hr).symm.trans (h.filled r hr)
      exact Or.inl (hsame ▸ Nat.mod_lt _ (by decide))
    · exact Or.inr hmeets
  · rintro ⟨hfresh, hfits⟩
    refine ⟨?_, ?_, hadded, hfresh⟩
    · intro r hr htype
      have hmem : r.market_order_id_ ∈ acceptedIds evs :=
        List.mem_map_of_mem (List.mem_filter.mpr ⟨hr, decide_eq_true htype⟩)
      rw [hids] at hmem
      exact List.mem_singleton.mp hmem
    · intro r hr
      rcases hfits with hfits | hno
      · rw [hfills r hr, wrap32_eq hfits]
      · exact absurd (hsome.mp (List.ne_nil_of_mem hr)) hno

/-! An order of another client, and one that fills it. -/

def restingSell : MEClientRequest := { churnNew with side_ := .SELL }

def crossingBuy : MEClientRequest := { churnNew with client_id_ := 1 }

/-- The two in a book that is empty otherwise. -/
theorem crossing_events (k : Nat) :
    ((⟨Book.empty, k⟩ : RefBook).step restingSell).stepEvents wrap32 crossingBuy =
      acceptedEvent 1 0 0 (wrap64 (k + 1)) .BUY 100 1 ::
        (fillEvents ⟨1, 0, 0, .BUY, 100, wrap32 (wrap64 (k + 1))⟩
          ⟨⟨0, 0, 0, k⟩, .SELL, 100, 1, 1⟩ 1 0 0 ++
        [exhaustedEvent ⟨1, 0, 0, .BUY, 100, wrap32 (wrap64 (k + 1))⟩
          ⟨⟨0, 0, 0, k⟩, .SELL, 100, 1, 1⟩]) := by
  rfl

/-- **After any run that leaves the book empty** the two can come, and the second is
filled. -/
theorem crossing_after {k : Nat} (ha : RefBook.init.AdmitsAll qs) (hf : RefBook.init.FitsAll qs)
    (hend : RefBook.init.run qs = ⟨Book.empty, k⟩)
    (hsell : (⟨Book.empty, k⟩ : RefBook).Admits restingSell)
    (hbuy : ((⟨Book.empty, k⟩ : RefBook).step restingSell).Admits crossingBuy) :
    ∃ m m' evss evs, MEOrderBook.init.run (qs ++ [restingSell]) = .ok (m, evss) ∧
      m.next_market_order_id_ = wrap64 (k + 1) ∧ m.add 1 0 0 .BUY 100 1 = .ok (m', evs) ∧
      ∃ r ∈ aggressorFills evs, r.market_order_id_ = wrap32 (wrap64 (k + 1)) := by
  have hone : ((⟨Book.empty, k⟩ : RefBook).step restingSell).Fits := by
    have hlive : ((⟨Book.empty, k⟩ : RefBook).step restingSell).book.live = 1 := rfl
    have hlevels : ((⟨Book.empty, k⟩ : RefBook).step restingSell).book.levels = 1 := rfl
    unfold RefBook.Fits
    rw [hlive, hlevels]
    decide
  have hnone : (((⟨Book.empty, k⟩ : RefBook).step restingSell).step crossingBuy).Fits := by
    have hlive : (((⟨Book.empty, k⟩ : RefBook).step restingSell).step crossingBuy).book.live = 0 :=
      rfl
    have hlevels : (((⟨Book.empty, k⟩ : RefBook).step restingSell).step crossingBuy).book.levels =
        0 := rfl
    unfold RefBook.Fits
    rw [hlive, hlevels]
    decide
  have hall : RefBook.init.AdmitsAll (qs ++ [restingSell]) := by
    rw [RefBook.admitsAll_append, hend]
    exact ⟨ha, hsell, trivial⟩
  have hfits : RefBook.init.FitsAll (qs ++ [restingSell]) := by
    rw [RefBook.fitsAll_append, hend]
    exact ⟨hf, hone, trivial⟩
  have hbook : RefBook.init.run (qs ++ [restingSell]) =
      (⟨Book.empty, k⟩ : RefBook).step restingSell := by
    rw [RefBook.run_append, hend]
    rfl
  obtain ⟨m, hrun, hsim⟩ := run_sim (qs ++ [restingSell]) sim_init RefBook.inv_init hall hfits
  have hinv := RefBook.inv_init.run hall
  rw [hbook] at hsim hinv
  rcases step_sim hsim hinv hbuy with ⟨m', hadd, _⟩ | ⟨_, hno⟩
  · obtain ⟨_, _, _, hnext⟩ := hsim
    refine ⟨m, m', _, _, hrun, hnext, hadd, ?_⟩
    rw [crossing_events]
    exact ⟨_, List.mem_singleton_self _, rfl⟩
  · exact absurd hnone hno

/-- The second order of a book, filled against the first: one id, 2. -/
theorem one_market_id_iff_second : ∃ m m' evss evs,
    MEOrderBook.init.run [restingSell] = .ok (m, evss) ∧
    m.add 1 0 0 .BUY 100 1 = .ok (m', evs) ∧ m.next_market_order_id_ = 2 ∧
    OneId m.next_market_order_id_ (acceptedIds evss.flatten) evs := by
  obtain ⟨m, m', evss, evs, hrun, hnext, hadd, _⟩ :=
    @crossing_after [] 1 trivial trivial rfl (by decide) (by decide)
  refine ⟨m, m', evss, evs, hrun, hadd, hnext, ?_⟩
  refine (MEOrderBook.one_market_id_iff hrun hadd).mpr ⟨by decide, Or.inl ?_⟩
  rw [hnext]
  decide

/-- A client that keeps sending and cancelling leaves the book empty. -/
theorem run_churn_empty (n : Nat) {k : Nat} (hk : k + n < 2 ^ 64) :
    (⟨Book.empty, k⟩ : RefBook).AdmitsAll (churn n) ∧
      (⟨Book.empty, k⟩ : RefBook).FitsAll (churn n) ∧
      (⟨Book.empty, k⟩ : RefBook).run (churn n) = ⟨Book.empty, k + n⟩ := by
  induction n generalizing k with
  | zero => exact ⟨trivial, trivial, rfl⟩
  | succ n ih =>
    have hpair : ((⟨Book.empty, k⟩ : RefBook).step churnNew).step churnCancel =
        ⟨Book.empty, k + 1⟩ := by
      rw [RefBook.step_churn, wrap64_eq (by omega)]
    obtain ⟨hadmits, hfits, hend⟩ := ih (k := k + 1) (by omega)
    refine ⟨⟨RefBook.admits_churnNew k, RefBook.admits_churnCancel _, ?_⟩,
      ⟨RefBook.fits_churnNew k, ?_, ?_⟩, ?_⟩
    · rw [hpair]
      exact hadmits
    · rw [hpair]
      exact RefBook.fits_empty _
    · rw [hpair]
      exact hfits
    · show (((⟨Book.empty, k⟩ : RefBook).step churnNew).step churnCancel).run (churn n) = _
      rw [hpair, hend, Nat.add_assoc, Nat.add_comm 1]

/-- **The first order with an id above 32 bits that is filled**: its fill reports the
id of the very first order. -/
theorem one_market_id_cut : ∃ qs m m' evss evs,
    MEOrderBook.init.run qs = .ok (m, evss) ∧ m.next_market_order_id_ < OrderId_INVALID ∧
    m.add 1 0 0 .BUY 100 1 = .ok (m', evs) ∧
    ¬ OneId m.next_market_order_id_ (acceptedIds evss.flatten) evs := by
  have hcount : ∃ n, 1 + n = 2 ^ 32 := ⟨2 ^ 32 - 1, by decide⟩
  obtain ⟨n, hn⟩ := hcount
  obtain ⟨hadmits, hfits, hend⟩ := run_churn_empty n (k := 1) (by omega)
  rw [hn] at hend
  obtain ⟨m, m', evss, evs, hrun, hnext, hadd, r, hr, hid⟩ :=
    crossing_after hadmits hfits hend (by decide) (by decide)
  refine ⟨_, m, m', evss, evs, hrun, by rw [hnext]; decide, hadd, ?_⟩
  intro h
  have hsame := hid.symm.trans (h.filled r hr)
  rw [hnext] at hsame
  exact absurd hsame (by decide)

end OneId

end LowLatency
