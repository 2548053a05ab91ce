import LowLatency.Matcher.Invariant
import LowLatency.MarketData.Updates

/-!
# The feed follows the exchange's book

Read as updates of a book of market order ids (`applyUpdate`), the messages a
request sends lead from the feed of the book before it to the feed of the book
after it, and each arrives at a book that expects it (`UpdatesOk`).

In a sweep an update is sent for every passive order touched, so the feed goes
through all the intermediate books of the matching loop: the induction is over
the opposite queue, and after each fill the feed's book is the one with the head
gone, or with less on it. A cancel and a resting order are one update each.
-/

namespace LowLatency

open Lib (Better queueInsert QueueSorted Before)

@[simp] theorem updates_nil : updates [] = [] := rfl

@[simp] theorem updates_append (es fs : List Event) :
    updates (es ++ fs) = updates es ++ updates fs := List.filterMap_append

@[simp] theorem updates_response (r : MEClientResponse) (es : List Event) :
    updates (.response r :: es) = updates es := rfl

@[simp] theorem updates_update (u : MEMarketUpdate) (es : List Event) :
    updates (.update u :: es) = u :: updates es := rfl

/-- An order as the feed knows it. -/
def toFeed (o : OrderData MEOrderId) : OrderData Nat :=
  ⟨o.id_.market_order_id_, o.side_, o.price_, o.qty_, o.priority_⟩

def feedOf (B : Book MEOrderId) : Book Nat := fun b => (B b).map toFeed

theorem mem_feedOf {B : Book MEOrderId} {b : Bool} {d : OrderData Nat} :
    d ∈ feedOf B b ↔ ∃ o ∈ B b, toFeed o = d := List.mem_map

theorem feedOf_rest (B : Book MEOrderId) (d : OrderData MEOrderId) :
    feedOf (B.rest d) = (feedOf B).rest (toFeed d) := by
  funext b
  show (B.rest d b).map toFeed = _
  unfold Book.rest
  by_cases hb : b = Ladder.isBid d.side_
  · subst hb
    show _ = Function.update (feedOf B) (Ladder.isBid d.side_) _ (Ladder.isBid d.side_)
    rw [Function.update_self, Function.update_self]
    exact Lib.map_queueInsert (r := OrderData.price_) (f := toFeed) (fun _ => rfl) _
  · rw [Function.update_of_ne hb]
    show _ = Function.update (feedOf B) (Ladder.isBid d.side_) _ b
    rw [Function.update_of_ne hb]
    rfl

theorem live_feedOf (B : Book MEOrderId) : (feedOf B).live = B.live := by
  unfold Book.live feedOf
  rw [List.length_map, List.length_map]

theorem levels_feedOf (B : Book MEOrderId) : (feedOf B).levels = B.levels := by
  have hmap : ∀ b, (feedOf B b).map OrderData.price_ = (B b).map OrderData.price_ := by
    intro b
    unfold feedOf
    rw [List.map_map]
    rfl
  unfold Book.levels
  rw [hmap, hmap]

/-! ## A sweep -/

/-- **The updates of a sweep** follow it fill by fill. -/
theorem sweep_feed (cap : Nat) {b : Bool} {a : Aggressor} {l : List (OrderData MEOrderId)}
    (leaves : Nat)
    {F : Book Nat} (hF : F b = l.map toFeed)
    (hid : l.Pairwise fun o o' => o.id_.market_order_id_ ≠ o'.id_.market_order_id_)
    (hother : ∀ o ∈ l, ∀ b', b' ≠ b → ∀ d ∈ F b', d.id_ ≠ o.id_.market_order_id_) :
    UpdatesOk cap F (updates (sweep b a leaves l).events) ∧
      (updates (sweep b a leaves l).events).foldl applyUpdate F
        = Function.update F b ((sweep b a leaves l).queue.map toFeed) := by
  induction l generalizing leaves F with
  | nil =>
    refine ⟨trivial, ?_⟩
    show F = Function.update F b ([] : List (OrderData Nat))
    rw [← List.map_nil (f := toFeed), ← hF, Function.update_eq_self]
  | cons o os ih =>
    have hpw := List.pairwise_cons.mp hid
    have hhead : F b = toFeed o :: os.map toFeed := hF
    -- the head's id is its own, on either side
    have htail : ∀ d ∈ os.map toFeed, idx d.id_ ≠ idx (toFeed o).id_ := by
      intro d hd
      obtain ⟨o', ho', rfl⟩ := List.mem_map.mp hd
      exact (hpw.1 o' ho').symm
    have hopp : ∀ b', b' ≠ b → ∀ d ∈ F b', idx d.id_ ≠ idx (toFeed o).id_ :=
      fun b' hb d hd => hother o (List.mem_cons_self ..) b' hb d hd
    have hnames : ∀ u : MEMarketUpdate, u.order_id_ = o.id_.market_order_id_ →
        u.side_ = o.side_ → u.price_ = o.price_ → Names F u := by
      intro u h₁ h₂ h₃
      exact ⟨b, toFeed o, by rw [hhead]; exact List.mem_cons_self .., h₁.symm, h₂.symm, h₃.symm⟩
    simp only [sweep]
    split
    · refine ⟨trivial, ?_⟩
      show F = Function.update F b ((o :: os).map toFeed)
      rw [← hF, Function.update_eq_self]
    · split
      · -- the head is gone
        have hrem := removeIdx_head hhead htail hopp
        obtain ⟨hok, hfold⟩ := ih (leaves - min leaves o.qty_)
          (F := Function.update F b (os.map toFeed)) (by rw [Function.update_self]) hpw.2 (by
            intro o' ho' b' hb d hd
            rw [Function.update_of_ne hb] at hd
            exact hother o' (List.mem_cons_of_mem _ ho') b' hb d hd)
        have happ : ∀ u : MEMarketUpdate, u.type_ = .CANCEL →
            u.order_id_ = o.id_.market_order_id_ →
            applyUpdate F u = Function.update F b (os.map toFeed) := by
          intro u h₁ h₂
          unfold applyUpdate
          rw [h₁, h₂]
          exact hrem
        simp only [fillEvents, exhaustedEvent, updates_response, updates_update, List.cons_append,
          List.nil_append]
        refine ⟨⟨trivial, hnames _ rfl rfl rfl, ?_⟩, ?_⟩
        · show UpdatesOk cap (applyUpdate F _) _
          rw [happ _ rfl rfl]
          exact hok
        · show (updates _).foldl applyUpdate (applyUpdate F _) = _
          rw [happ _ rfl rfl, hfold, Function.update_idem]
      · -- the head stays, with less on it
        have hset := setQtyIdx_head hhead htail hopp (o.qty_ - min leaves o.qty_)
        simp only [fillEvents, modifiedEvent, updates_response, updates_update, updates_nil,
          List.cons_append, List.nil_append]
        refine ⟨⟨trivial, hnames _ rfl rfl rfl, trivial⟩, ?_⟩
        show Book.setQtyIdx F (idx (toFeed o).id_) (o.qty_ - min leaves o.qty_) = _
        rw [hset]
        rfl

/-! ## Requests -/

/-- Two live orders of one index are one. -/
theorem RefBook.Inv.idx_inj {r : RefBook} (h : r.Inv) {b b' : Bool} {o o' : OrderData MEOrderId}
    (ho : o ∈ r.book b) (ho' : o' ∈ r.book b') (he : idx o.id_ = idx o'.id_) : o = o' := by
  cases b <;> cases b'
  · exact List.inj_on_of_nodup_map (List.pairwise_map.mpr (h.distinct false)) ho ho' he
  · exact absurd he.symm (h.apart o' ho' o ho)
  · exact absurd he (h.apart o ho o' ho')
  · exact List.inj_on_of_nodup_map (List.pairwise_map.mpr (h.distinct true)) ho ho' he

/-- Two live orders of one market order id are one. -/
theorem RefBook.Numbered.id_inj {r : RefBook} (h : r.Numbered) {b b' : Bool}
    {o o' : OrderData MEOrderId} (ho : o ∈ r.book b) (ho' : o' ∈ r.book b')
    (he : o.id_.market_order_id_ = o'.id_.market_order_id_) : o = o' := by
  cases b <;> cases b'
  · exact List.inj_on_of_nodup_map (List.pairwise_map.mpr (h.ids false)) ho ho' he
  · exact absurd he.symm (h.idsApart o' ho' o ho)
  · exact absurd he (h.idsApart o ho o' ho')
  · exact List.inj_on_of_nodup_map (List.pairwise_map.mpr (h.ids true)) ho ho' he

/-- Finding an order: it is live under that index. -/
theorem RefBook.find?_some {r : RefBook} {i : Nat × Nat} {o : OrderData MEOrderId}
    (h : r.find? i = some o) : (∃ b, o ∈ r.book b) ∧ idx o.id_ = i := by
  refine ⟨?_, ?_⟩
  · rcases List.mem_append.mp (List.mem_of_find?_eq_some h) with hm | hm
    · exact ⟨true, hm⟩
    · exact ⟨false, hm⟩
  · have hp := List.find?_some h
    exact of_decide_eq_true hp

theorem RefBook.find?_none {r : RefBook} {i : Nat × Nat} (h : r.find? i = none) {b : Bool}
    {o : OrderData MEOrderId} (ho : o ∈ r.book b) : idx o.id_ ≠ i := by
  intro he
  have hn := List.find?_eq_none.mp h o (by
    cases b with
    | true => exact List.mem_append.mpr (Or.inl ho)
    | false => exact List.mem_append.mpr (Or.inr ho))
  exact hn (decide_eq_true he)

/-- The feed of a book after a new order was matched. -/
theorem matched_feed (cap : Nat) {r : RefBook} (hn : r.Numbered) (fillId : Nat → Nat)
    (q : MEClientRequest) :
    UpdatesOk cap (feedOf r.book) (updates (r.swept fillId q).events) ∧
      (updates (r.swept fillId q).events).foldl applyUpdate (feedOf r.book)
        = feedOf (r.matched q) := by
  obtain ⟨hok, hfold⟩ := sweep_feed cap (a := r.aggressor fillId q) (b := !Ladder.isBid q.side_)
    (l := r.book (!Ladder.isBid q.side_)) q.qty_ (F := feedOf r.book) rfl (hn.ids _) (by
      intro o ho b' hb d hd
      obtain ⟨o', ho', rfl⟩ := mem_feedOf.mp hd
      generalize hc : (!Ladder.isBid q.side_) = c at ho hb
      cases b' <;> cases c
      · exact absurd rfl hb
      · exact fun he => hn.idsApart o ho o' ho' he.symm
      · exact hn.idsApart o' ho' o ho
      · exact absurd rfl hb)
  refine ⟨hok, hfold.trans ?_⟩
  funext b
  show _ = (r.matched q b).map toFeed
  unfold RefBook.matched
  rw [← (RefBook.swept_congr fillId r q).2]
  by_cases hb : b = !Ladder.isBid q.side_
  · subst hb
    rw [Function.update_self, Function.update_self]
    rfl
  · rw [Function.update_of_ne hb, Function.update_of_ne hb]
    rfl

/-- **The feed follows the book**, one request: every update is expected, and
together they lead to the feed of the next book. -/
theorem step_feed {r : RefBook} {q : MEClientRequest} (hinv : r.Inv) (hn : r.Numbered)
    (ha : r.Admits q) (hid : q.type_ = .NEW → r.next_market_order_id_ < ME_MAX_ORDER_IDS)
    {cap : Nat} (hlive : (r.step q).book.live ≤ cap)
    (hlev : (r.step q).book.levels ≤ ME_MAX_PRICE_LEVELS - 1) (fillId : Nat → Nat) :
    UpdatesOk cap (feedOf r.book) (updates (r.stepEvents fillId q)) ∧
      (updates (r.stepEvents fillId q)).foldl applyUpdate (feedOf r.book)
        = feedOf (r.step q).book := by
  unfold RefBook.stepEvents RefBook.step at *
  cases hq : q.type_ with
  | INVALID => exact absurd hq ha.type
  | NEW =>
    simp only [hq] at hlive hlev ⊢
    obtain ⟨hok, hfold⟩ := matched_feed cap hn fillId q
    unfold RefBook.addEvents RefBook.add at *
    by_cases hl : (r.swept id q).leaves = 0
    · simp only [hl, if_true, List.append_nil, acceptedEvent, updates_response]
      exact ⟨hok, hfold⟩
    · simp only [hl, if_false] at hlive hlev ⊢
      simp only [acceptedEvent, updates_response, updates_append, addedEvent, updates_update,
        updates_nil]
      rw [updatesOk_append, List.foldl_append, hfold]
      refine ⟨⟨hok, ?_, trivial⟩, (feedOf_rest _ _).symm⟩
      -- the resting order is the latest, in a slot of its own, and there is room
      show AddOk cap (feedOf (r.matched q)) (toFeed (r.resting q))
      refine ⟨ha.side hq, hid hq, ?_, ?_, ?_, ?_⟩
      · intro b d hd
        obtain ⟨o, ho, rfl⟩ := mem_feedOf.mp hd
        exact ((hn.matched q).bound b o ho).2
      · intro b d hd hi
        obtain ⟨o, ho, rfl⟩ := mem_feedOf.mp hd
        exact RefBook.slotFits_matched hinv ha hq hl b o ho hi
      · rw [← feedOf_rest, live_feedOf]
        exact hlive
      · rw [← feedOf_rest, levels_feedOf]
        exact hlev
  | CANCEL =>
    simp only [RefBook.cancelEvents, RefBook.cancel]
    cases hfind : r.find? (q.client_id_, q.order_id_) with
    | none =>
      refine ⟨trivial, ?_⟩
      funext b
      show (r.book b).map toFeed = (r.book.removeIdx _ b).map toFeed
      congr 1
      exact (List.filter_eq_self.mpr fun o ho =>
        decide_eq_true (RefBook.find?_none hfind ho)).symm
    | some o =>
      obtain ⟨⟨b₀, ho⟩, hi⟩ := RefBook.find?_some hfind
      refine ⟨⟨⟨b₀, toFeed o, mem_feedOf.mpr ⟨o, ho, rfl⟩, rfl, rfl, rfl⟩, trivial⟩, ?_⟩
      funext b
      show ((r.book b).map toFeed).filter (fun d => decide (idx d.id_ ≠ o.id_.market_order_id_))
        = (r.book.removeIdx _ b).map toFeed
      unfold Book.removeIdx
      rw [List.filter_map]
      congr 1
      refine List.filter_congr fun o' ho' => ?_
      simp only [Function.comp, decide_eq_decide, ← hi]
      refine not_congr ⟨fun he => ?_, fun he => ?_⟩
      · rw [hn.id_inj ho' ho he]
      · rw [hinv.idx_inj ho' ho he]
        rfl

end LowLatency
