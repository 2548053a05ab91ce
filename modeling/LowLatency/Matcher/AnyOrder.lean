import LowLatency.MarketData.Mirror
import LowLatency.Matcher.Lifecycle
import Mathlib.Data.Int.Interval

/-!
# Requests that the books take in any order

`Admissible` asks of every request that the books fit it where it arrives. Here is
what a list of requests can say about itself so that no book has to be looked at
(`AnyOrder`): the ids are in range, no client gives two orders the same id, the
prices of the new orders lie in a band for which the books have enough levels, and
there are fewer new orders than the pools have blocks. It holds of a list with
requests left out or in another order if it holds of the list (`AnyOrder.subperm`).

An order in a book was brought by one of the new orders so far, and every new order
adds at most one to what rests. This is what a request leaves as it was
(`BooksAfter.step`), and all of `Admissible` follows from it.
-/

namespace LowLatency

/-- The new orders among some requests. -/
def newRequests (qs : List MEClientRequest) : List MEClientRequest :=
  qs.filter fun q => decide (q.type_ = .NEW)

theorem mem_newRequests {qs : List MEClientRequest} {q : MEClientRequest} :
    q ∈ newRequests qs ↔ q ∈ qs ∧ q.type_ = .NEW := by
  simp [newRequests]

theorem newRequests_append (qs rs : List MEClientRequest) :
    newRequests (qs ++ rs) = newRequests qs ++ newRequests rs := List.filter_append ..

/-- What an order is known by. -/
def MEClientRequest.key (q : MEClientRequest) : Nat × Nat := (q.client_id_, q.order_id_)

/-- A band of 127 prices: at most that many levels a side, no two in one slot. -/
def InBand (lo price : Int) : Prop := lo ≤ price ∧ price < lo + 127

/-- Requests that the books take in any order. -/
structure AnyOrder (lo : Int) (qs : List MEClientRequest) : Prop where
  ticker : ∀ q ∈ qs, q.ticker_id_ < ME_MAX_TICKERS
  client : ∀ q ∈ qs, q.client_id_ < ME_MAX_NUM_CLIENTS
  order : ∀ q ∈ qs, q.order_id_ < ME_MAX_ORDER_IDS
  type : ∀ q ∈ qs, q.type_ ≠ .INVALID
  side : ∀ q ∈ newRequests qs, q.side_ = .BUY ∨ q.side_ = .SELL
  band : ∀ q ∈ newRequests qs, InBand lo q.price_
  fresh : ((newRequests qs).map MEClientRequest.key).Nodup
  few : (newRequests qs).length < ME_MAX_ORDER_IDS

/-- **Leaving requests out and changing their order** is no matter. -/
theorem AnyOrder.subperm {lo : Int} {qs rs : List MEClientRequest} (h : AnyOrder lo rs)
    (hsub : qs.Subperm rs) : AnyOrder lo qs := by
  have hnew : (newRequests qs).Subperm (newRequests rs) := hsub.filter _
  refine ⟨fun q hq => h.ticker q (hsub.subset hq), fun q hq => h.client q (hsub.subset hq),
    fun q hq => h.order q (hsub.subset hq), fun q hq => h.type q (hsub.subset hq),
    fun q hq => h.side q (hnew.subset hq), fun q hq => h.band q (hnew.subset hq), ?_,
    Nat.lt_of_le_of_lt hnew.length_le h.few⟩
  obtain ⟨l, hperm, hsublist⟩ := hnew
  exact (hperm.map _).nodup_iff.mp (h.fresh.sublist (hsublist.map _))

/-! ## What the books hold -/

namespace RefBook

variable {r : RefBook} {q : MEClientRequest}

/-- A new order adds at most one to what rests. -/
theorem live_step_le (r : RefBook) (q : MEClientRequest) :
    (r.step q).book.live ≤ r.book.live + (newRequests [q]).length := by
  have hmatched : (r.matched q).live ≤ r.book.live := by
    have hside : ∀ b, (r.matched q b).length ≤ (r.book b).length := by
      intro b
      unfold matched
      by_cases hb : b = !Ladder.isBid q.side_
      · subst hb
        have hsuffix := (sweep_suffix (b := !Ladder.isBid q.side_) (a := r.aggressor id q) q.qty_
          (r.book (!Ladder.isBid q.side_))).length_le
        rw [List.length_map, List.length_map] at hsuffix
        rwa [Function.update_self]
      · rw [Function.update_of_ne hb]
    exact Nat.add_le_add (hside true) (hside false)
  unfold step
  split
  next ht =>
    have hone : (newRequests [q]).length = 1 := by simp [newRequests, ht]
    unfold add
    dsimp only
    split
    · omega
    · rw [Book.live_rest]
      omega
  next =>
    refine Nat.le_trans ?_ (Nat.le_add_right _ _)
    exact Nat.add_le_add (List.length_filter_le ..) (List.length_filter_le ..)
  next => exact Nat.le_add_right _ _

theorem next_market_order_id_step_le (r : RefBook) (q : MEClientRequest) :
    (r.step q).next_market_order_id_ ≤ r.next_market_order_id_ + (newRequests [q]).length := by
  unfold step
  split
  next ht =>
    have hone : (newRequests [q]).length = 1 := by simp [newRequests, ht]
    rw [hone]
    exact Nat.mod_le _ _
  next => exact Nat.le_add_right _ _
  next => exact Nat.le_add_right _ _

/-- Prices of a band are at most so many levels. -/
theorem levels_of_inBand {lo : Int} (h : ∀ b, ∀ o ∈ r.book b, InBand lo o.price_) :
    r.book.levels ≤ ME_MAX_PRICE_LEVELS - 1 := by
  have hside : ∀ b, ((r.book b).map OrderData.price_).dedup.length ≤ 127 := by
    intro b
    have hsub : ((r.book b).map OrderData.price_).toFinset ⊆ Finset.Ico lo (lo + 127) := by
      intro p hp
      obtain ⟨o, ho, rfl⟩ := List.mem_map.mp (List.mem_toFinset.mp hp)
      exact Finset.mem_Ico.mpr (h b o ho)
    have hcard := Finset.card_le_card hsub
    rw [List.card_toFinset, Int.card_Ico] at hcard
    omega
  have := hside true
  have := hside false
  unfold Book.levels ME_MAX_PRICE_LEVELS
  omega

end RefBook

/-- What the books are after the new orders `ns`. -/
structure BooksAfter (lo : Int) (ns : List MEClientRequest) (R : RefExchange) : Prop where
  brought : ∀ t b, ∀ o ∈ (R t).book b, InBand lo o.price_ ∧
    idx o.id_ ∈ ns.map MEClientRequest.key
  live : ∑ t ∈ Finset.range ME_MAX_TICKERS, (R t).book.live ≤ ns.length
  ids : ∀ t, (R t).next_market_order_id_ ≤ ns.length + 1

namespace BooksAfter

variable {lo : Int} {ns : List MEClientRequest} {R : RefExchange} {q : MEClientRequest}

theorem init (lo : Int) : BooksAfter lo [] RefExchange.init where
  brought := fun _ _ _ ho => absurd ho List.not_mem_nil
  live := by
    refine Nat.le_of_eq (Finset.sum_eq_zero fun _ _ => rfl)
  ids := fun _ => Nat.le_refl 1

/-- **One request.** -/
theorem step (h : BooksAfter lo ns R) (ht : q.ticker_id_ < ME_MAX_TICKERS)
    (hband : q.type_ = .NEW → InBand lo q.price_) :
    BooksAfter lo (ns ++ newRequests [q]) (R.step q) := by
  refine ⟨?_, ?_, ?_⟩
  · refine RefExchange.step_forall
      (P := fun r => ∀ b, ∀ o ∈ r.book b, InBand lo o.price_ ∧
        idx o.id_ ∈ (ns ++ newRequests [q]).map MEClientRequest.key) ?_ ?_
    · intro t b o ho
      obtain ⟨hprice, hkey⟩ := h.brought t b o ho
      rw [List.map_append]
      exact ⟨hprice, List.mem_append_left _ hkey⟩
    · intro b o ho
      rw [List.map_append, List.mem_append]
      rcases mem_step ho with ⟨hnew, -, rfl⟩ | ⟨o', ho', he⟩
      · refine ⟨hband hnew, .inr (List.mem_map.mpr ⟨q, ?_, rfl⟩)⟩
        exact mem_newRequests.mpr ⟨List.mem_singleton_self q, hnew⟩
      · obtain ⟨hprice, hkey⟩ := h.brought _ b o' ho'
        rw [← RefBook.strip_price he, ← RefBook.strip_id he]
        exact ⟨hprice, .inl hkey⟩
  · have hmem : q.ticker_id_ ∈ Finset.range ME_MAX_TICKERS := Finset.mem_range.mpr ht
    have hothers : ∑ t ∈ (Finset.range ME_MAX_TICKERS).erase q.ticker_id_, (R.step q t).book.live =
        ∑ t ∈ (Finset.range ME_MAX_TICKERS).erase q.ticker_id_, (R t).book.live := by
      refine Finset.sum_congr rfl fun t ht => ?_
      rw [RefExchange.step_other (Finset.ne_of_mem_erase ht)]
    have hlive := h.live
    rw [← Finset.add_sum_erase _ _ hmem] at hlive ⊢
    rw [hothers, RefExchange.step_self, List.length_append]
    have := (R q.ticker_id_).live_step_le q
    omega
  · refine RefExchange.step_forall
      (P := fun r => r.next_market_order_id_ ≤ (ns ++ newRequests [q]).length + 1) ?_ ?_
    · intro t
      have := h.ids t
      rw [List.length_append]
      omega
    · have := (R q.ticker_id_).next_market_order_id_step_le q
      have := h.ids q.ticker_id_
      rw [List.length_append]
      omega

end BooksAfter

/-! ## Every request is admitted -/

namespace RefExchange

theorem AllAlong.imp {P Q : RefExchange → MEClientRequest → Prop} (hPQ : ∀ R q, P R q → Q R q)
    {R : RefExchange} {qs : List MEClientRequest} (h : AllAlong P R qs) : AllAlong Q R qs := by
  induction qs generalizing R with
  | nil => trivial
  | cons q qs ih => exact ⟨hPQ R q h.1, ih h.2⟩

end RefExchange

/-- The books admit a request and have room for what it leaves. -/
structure FitsBooks (R : RefExchange) (q : MEClientRequest) : Prop where
  admits : R.Admits q
  fits : R.StepFits q
  ids : R.IdBelow ME_MAX_ORDER_IDS q
  total : TotalFits R q

/-- **The next request**, whatever came before it. -/
theorem BooksAfter.fitsBooks {lo : Int} {ps qs : List MEClientRequest} {R : RefExchange}
    {q : MEClientRequest} (h : BooksAfter lo (newRequests ps) R)
    (hall : AnyOrder lo (ps ++ q :: qs)) :
    FitsBooks R q ∧ BooksAfter lo (newRequests (ps ++ [q])) (R.step q) := by
  have hmem : q ∈ ps ++ q :: qs := by simp
  have hsplit : newRequests (ps ++ q :: qs) =
      newRequests ps ++ (newRequests [q] ++ newRequests qs) := by
    rw [← newRequests_append, ← newRequests_append]
    rfl
  have hnew : q.type_ = .NEW → q ∈ newRequests (ps ++ q :: qs) ∧ newRequests [q] = [q] :=
    fun ht => ⟨mem_newRequests.mpr ⟨hmem, ht⟩, by simp [newRequests, ht]⟩
  have hticker := hall.ticker q hmem
  have hband := fun ht => hall.band q (hnew ht).1
  have hnext : BooksAfter lo (newRequests (ps ++ [q])) (R.step q) := by
    rw [newRequests_append]
    exact h.step hticker hband
  have hfew : (newRequests (ps ++ [q])).length < ME_MAX_ORDER_IDS := by
    have hlength := hall.few
    rw [hsplit, List.length_append, List.length_append] at hlength
    rw [newRequests_append, List.length_append]
    omega
  -- its id is not among those before it
  have hfresh : q.type_ = .NEW → q.key ∉ (newRequests ps).map MEClientRequest.key := by
    intro ht hkey
    have hnodup := hall.fresh
    rw [hsplit, (hnew ht).2, List.map_append] at hnodup
    exact (List.nodup_append.mp hnodup).2.2 _ hkey _ (List.mem_cons_self ..) rfl
  have hlive := hnext.live
  refine ⟨⟨⟨hticker, ?_⟩, ?_, ?_, ?_⟩, hnext⟩
  · refine ⟨hall.client q hmem, hall.order q hmem, hall.type q hmem,
      fun ht => hall.side q (hnew ht).1, ?_, ?_⟩
    · rintro ht ⟨b, o, ho, hid⟩
      refine hfresh ht ?_
      show (q.client_id_, q.order_id_) ∈ _
      rw [← hid]
      exact (h.brought _ b o ho).2
    · intro ht _ b o ho hslot
      obtain ⟨o', ho', he⟩ := RefBook.mem_matched ho
      have hold := (h.brought _ b o' ho').1
      have hown := hband ht
      rw [RefBook.strip_price he] at hold
      unfold InBand at hold hown
      simp only [ME_MAX_PRICE_LEVELS] at hslot
      omega
  · refine ⟨?_, ?_⟩
    · have hone := Finset.add_sum_erase _ (fun t => (R.step q t).book.live)
        (Finset.mem_range.mpr hticker)
      simp only [RefExchange.step_self] at hone
      omega
    · have hlevels := RefBook.levels_of_inBand (r := R.step q q.ticker_id_) fun b o ho =>
        (hnext.brought _ b o ho).1
      rwa [RefExchange.step_self] at hlevels
  · intro ht
    have hids := h.ids q.ticker_id_
    rw [newRequests_append, (hnew ht).2, List.length_append, List.length_singleton] at hfew
    omega
  · unfold TotalFits
    omega

/-- **Requests that the books take in any order are admissible in this one.** -/
theorem AnyOrder.admissible {lo : Int} {qs : List MEClientRequest} (h : AnyOrder lo qs) :
    Admissible qs := by
  have hall : ∀ (qs ps : List MEClientRequest) (R : RefExchange),
      BooksAfter lo (newRequests ps) R → AnyOrder lo (ps ++ qs) →
      RefExchange.AllAlong FitsBooks R qs := by
    intro qs
    induction qs with
    | nil => exact fun _ _ _ _ => trivial
    | cons q qs ih =>
      intro ps R hR hqs
      obtain ⟨htaken, hnext⟩ := hR.fitsBooks hqs
      refine ⟨htaken, ih (ps ++ [q]) _ hnext ?_⟩
      rwa [List.append_assoc]
  have htaken := hall qs [] RefExchange.init (BooksAfter.init lo) h
  exact ⟨htaken.imp fun _ _ ht => ht.admits, htaken.imp fun _ _ ht => ht.fits,
    htaken.imp fun _ _ ht => ht.ids, htaken.imp fun _ _ ht => ht.total⟩

end LowLatency
