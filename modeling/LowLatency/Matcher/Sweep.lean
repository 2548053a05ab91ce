import LowLatency.Book.Leads
import LowLatency.Matcher.MEOrderBook

/-!
# What a sweep keeps

The matching loop takes the first order of the best level, fills it, and unlinks
it when nothing is left. A property `J` of ladders that survives these steps
survives the sweep, and if every fill of such a ladder is reported by messages
of the kind `E`, so is the sweep (`SweepRule.checkForMatch`). No representation
of the book is assumed: the rule is for facts that hold however its levels are
linked.
-/

namespace LowLatency

/-- The order the loop looks at: the first of the best level of a side. -/
def MELadder.AtTop (s : MELadder) (itr : Nat) : Prop :=
  ∃ b level, s.best b = some level ∧ s.orders_at_price_pool_.firstOrder level = some itr

/-- What has to be checked of one fill, for aggressors with at most `N` left:
what `J` needs, and that every message is of the kind `E`. -/
structure SweepRule (a : Aggressor) (N : Nat) (J : MELadder → Prop) (E : Event → Prop) :
    Prop where
  fill : ∀ {s itr leaves}, J s → s.AtTop itr → leaves ≤ N →
    ∀ e ∈ fillEvents a (s.order_pool_.data itr)
        (min leaves (s.order_pool_.data itr).qty_)
        (leaves - min leaves (s.order_pool_.data itr).qty_)
        ((s.order_pool_.data itr).qty_ - min leaves (s.order_pool_.data itr).qty_), E e
  exhausted : ∀ {s itr}, J s → s.AtTop itr → E (exhaustedEvent a (s.order_pool_.data itr))
  modified : ∀ {s itr} qty, J s → s.AtTop itr → E (modifiedEvent a (s.order_pool_.data itr) qty)
  setQty : ∀ {s itr v}, J s → v ≤ (s.order_pool_.data itr).qty_ →
    J { s with order_pool_ := s.order_pool_.setQty itr v }
  remove : ∀ {s s' itr}, J s → s.AtTop itr → s.removeOrder itr = .ok s' → J s'

section Rule

variable {a : Aggressor} {N : Nat} {J : MELadder → Prop} {E : Event → Prop}

theorem SweepRule.matchOrder (hrule : SweepRule a N J E) {s s' : MELadder}
    {itr leaves leaves' : Nat} {evs : List Event} (h : J s) (hitr : s.AtTop itr)
    (hleaves : leaves ≤ N)
    (hrun : MELadder.matchOrder s a itr leaves = .ok (leaves', s', evs)) :
    J s' ∧ leaves' ≤ N ∧ ∀ e ∈ evs, E e := by
  have hfill := hrule.fill h hitr hleaves
  have hqty := hrule.setQty h
    (Nat.sub_le (s.order_pool_.data itr).qty_ (min leaves (s.order_pool_.data itr).qty_))
  -- the fill is followed by one more event
  have hlast : ∀ (fills : List Event) (e : Event), (∀ f ∈ fills, E f) → E e →
      ∀ f ∈ fills ++ [e], E f := by
    intro fills e hfills he f hf
    rcases List.mem_append.mp hf with hf | hf
    · exact hfills f hf
    · rw [List.mem_singleton.mp hf]
      exact he
  unfold MELadder.matchOrder at hrun
  dsimp only at hrun
  split at hrun
  · obtain ⟨s₁, hremove, hrun⟩ := exec_bind_ok hrun
    obtain ⟨rfl, rfl, rfl⟩ : _ = leaves' ∧ s₁ = s' ∧ _ = evs := by simpa using hrun
    exact ⟨hrule.remove hqty hitr hremove, (Nat.sub_le _ _).trans hleaves,
      hlast _ _ hfill (hrule.exhausted h hitr)⟩
  · obtain ⟨rfl, rfl, rfl⟩ : _ = leaves' ∧ _ = s' ∧ _ = evs := by simpa using hrun
    exact ⟨hqty, (Nat.sub_le _ _).trans hleaves, hlast _ _ hfill (hrule.modified _ h hitr)⟩

theorem SweepRule.checkForMatchLoop (hrule : SweepRule a N J E) {b : Bool}
    {fuel leaves leaves' : Nat} {s s' : MELadder} {evs : List Event} (h : J s)
    (hleaves : leaves ≤ N)
    (hrun : MELadder.checkForMatchLoop b a fuel s leaves = .ok (leaves', s', evs)) :
    J s' ∧ leaves' ≤ N ∧ ∀ e ∈ evs, E e := by
  induction fuel generalizing s leaves leaves' s' evs with
  | zero => exact absurd hrun (by simp [MELadder.checkForMatchLoop])
  | succ fuel ih =>
    -- a loop that stops sends nothing
    have hstop : (.ok (leaves, s, []) : Exec (Nat × MELadder × List Event))
        = .ok (leaves', s', evs) → J s' ∧ leaves' ≤ N ∧ ∀ e ∈ evs, E e := by
      intro hrun
      obtain ⟨rfl, rfl, rfl⟩ : leaves = leaves' ∧ s = s' ∧ [] = evs := by simpa using hrun
      exact ⟨h, hleaves, by simp⟩
    unfold MELadder.checkForMatchLoop at hrun
    by_cases hl : leaves = 0
    · rw [if_pos hl] at hrun
      exact hstop hrun
    rw [if_neg hl] at hrun
    cases hbest : s.best b with
    | none =>
      simp only [hbest] at hrun
      exact hstop hrun
    | some level =>
      simp only [hbest] at hrun
      obtain ⟨itr, hitr, hrun⟩ := exec_bind_ok hrun
      split at hrun
      · exact hstop hrun
      · obtain ⟨⟨leaves₁, s₁, evs₁⟩, hrun₁, hrun⟩ := exec_bind_ok hrun
        obtain ⟨⟨leaves₂, s₂, evs₂⟩, hrun₂, hrun⟩ := exec_bind_ok hrun
        obtain ⟨rfl, rfl, rfl⟩ : leaves₂ = leaves' ∧ s₂ = s' ∧ evs₁ ++ evs₂ = evs := by
          simpa using hrun
        obtain ⟨h₁, hleaves₁, he₁⟩ := hrule.matchOrder h ⟨b, level, hbest, deref_inv hitr⟩ hleaves hrun₁
        obtain ⟨h₂, hleaves₂, he₂⟩ := ih h₁ hleaves₁ hrun₂
        refine ⟨h₂, hleaves₂, fun e he => ?_⟩
        exact (List.mem_append.mp he).elim (he₁ e) (he₂ e)

/-- **The sweep rule.** -/
theorem SweepRule.checkForMatch {qty leaves' : Nat} (hrule : SweepRule a qty J E)
    {s s' : MELadder} {evs : List Event} (h : J s)
    (hrun : MELadder.checkForMatch s a qty = .ok (leaves', s', evs)) :
    J s' ∧ leaves' ≤ qty ∧ ∀ e ∈ evs, E e := by
  unfold MELadder.checkForMatch at hrun
  split at hrun
  · exact hrule.checkForMatchLoop h (Nat.le_refl qty) hrun
  · exact hrule.checkForMatchLoop h (Nat.le_refl qty) hrun
  · obtain ⟨rfl, rfl, rfl⟩ : qty = leaves' ∧ s = s' ∧ [] = evs := by simpa using hrun
    exact ⟨h, Nat.le_refl qty, by simp⟩

end Rule

/-! ## Responses -/

/-- The rule where only the responses matter. -/
structure FillRule (a : Aggressor) (N : Nat) (J : MELadder → Prop)
    (G : MEClientResponse → Prop) : Prop where
  fill : ∀ {s level itr leaves}, J s → s.orders_at_price_pool_.firstOrder level = some itr →
    leaves ≤ N →
    ∀ r ∈ responses (fillEvents a (s.order_pool_.data itr)
        (min leaves (s.order_pool_.data itr).qty_)
        (leaves - min leaves (s.order_pool_.data itr).qty_)
        ((s.order_pool_.data itr).qty_ - min leaves (s.order_pool_.data itr).qty_)), G r
  setQty : ∀ {s itr v}, J s → v ≤ (s.order_pool_.data itr).qty_ →
    J { s with order_pool_ := s.order_pool_.setQty itr v }
  remove : ∀ {s s' p}, J s → s.removeOrder p = .ok s' → J s'

variable {a : Aggressor} {N : Nat} {J : MELadder → Prop} {G : MEClientResponse → Prop}

theorem mem_responses {evs : List Event} {r : MEClientResponse} :
    r ∈ responses evs ↔ .response r ∈ evs := by
  unfold responses
  rw [List.mem_filterMap]
  constructor
  · intro h
    obtain ⟨e, he, her⟩ := h
    cases e with
    | response r' => rwa [← Option.some.inj her]
    | update u => exact absurd her (by simp)
  · intro h
    exact ⟨_, h, rfl⟩

theorem FillRule.sweepRule (hrule : FillRule a N J G) :
    SweepRule a N J fun e => ∀ r, e = .response r → G r where
  fill := by
    intro s itr leaves h hitr hleaves e he r her
    obtain ⟨_, level, _, hfirst⟩ := hitr
    exact hrule.fill h hfirst hleaves r (mem_responses.mpr (her ▸ he))
  exhausted := fun _ _ _ her => absurd her (by simp [exhaustedEvent])
  modified := fun _ _ _ _ her => absurd her (by simp [modifiedEvent])
  setQty := hrule.setQty
  remove := fun h _ hrun => hrule.remove h hrun

theorem matchOrder_rule (hrule : FillRule a N J G) {s s' : MELadder}
    {itr leaves leaves' : Nat} {evs : List Event} (h : J s) (hitr : s.AtTop itr)
    (hleaves : leaves ≤ N)
    (hrun : MELadder.matchOrder s a itr leaves = .ok (leaves', s', evs)) :
    J s' ∧ leaves' ≤ N ∧ ∀ r ∈ responses evs, G r := by
  obtain ⟨hs, hle, hevs⟩ := hrule.sweepRule.matchOrder h hitr hleaves hrun
  exact ⟨hs, hle, fun r hr => hevs _ (mem_responses.mp hr) r rfl⟩

theorem checkForMatch_rule {qty leaves' : Nat} (hrule : FillRule a qty J G) {s s' : MELadder}
    {evs : List Event} (h : J s)
    (hrun : MELadder.checkForMatch s a qty = .ok (leaves', s', evs)) :
    J s' ∧ leaves' ≤ qty ∧ ∀ r ∈ responses evs, G r := by
  obtain ⟨hs, hle, hevs⟩ := hrule.sweepRule.checkForMatch h hrun
  exact ⟨hs, hle, fun r hr => hevs _ (mem_responses.mp hr) r rfl⟩

/-! ## How a request ends -/

/-- **A new order** is matched, and rests if anything is left of it. -/
theorem MEOrderBook.add_inv {s s' : MEOrderBook} {client_id client_order_id ticker_id : Nat}
    {side : Side} {price : Int} {qty : Nat} {evs : List Event}
    (h : s.add client_id client_order_id ticker_id side price qty = .ok (s', evs)) :
    ∃ leaves l evs₁, MELadder.checkForMatch s.ladder ⟨client_id, client_order_id, ticker_id, side,
        price, wrap32 s.next_market_order_id_⟩ qty = .ok (leaves, l, evs₁) ∧
      s'.next_market_order_id_ = wrap64 (s.next_market_order_id_ + 1) ∧
      ((leaves = 0 ∧ s'.ladder = l ∧
        evs = acceptedEvent client_id client_order_id ticker_id s.next_market_order_id_ side price
          qty :: evs₁) ∨
      (leaves ≠ 0 ∧ ∃ o : OrderData MEOrderId,
        o.id_ = ⟨ticker_id, client_id, client_order_id, s.next_market_order_id_⟩ ∧
        o.side_ = side ∧ o.price_ = price ∧ o.qty_ = leaves ∧
        l.allocateOrder o = .ok s'.ladder ∧
        evs = acceptedEvent client_id client_order_id ticker_id s.next_market_order_id_ side price
          qty :: (evs₁ ++ [addedEvent o]))) := by
  unfold MEOrderBook.add at h
  dsimp only at h
  obtain ⟨⟨leaves, l, evs₁⟩, hmatch, h⟩ := exec_bind_ok h
  refine ⟨leaves, l, evs₁, hmatch, ?_⟩
  split at h
  next hleaves =>
    obtain ⟨priority, _, h⟩ := exec_bind_ok h
    obtain ⟨l', halloc, h⟩ := exec_bind_ok h
    obtain ⟨rfl, rfl⟩ : _ = s' ∧ _ = evs := by simpa using h
    exact ⟨rfl, Or.inr ⟨hleaves, _, rfl, rfl, rfl, rfl, halloc, rfl⟩⟩
  next hleaves =>
    obtain ⟨rfl, rfl⟩ : _ = s' ∧ _ = evs := by simpa using h
    exact ⟨rfl, Or.inl ⟨not_not.mp hleaves, rfl, rfl⟩⟩

/-- **A cancel** is rejected and changes nothing, or takes out the order that the
table has for it. -/
theorem MEOrderBook.cancel_inv {s s' : MEOrderBook} {client_id order_id ticker_id : Nat}
    {evs : List Event} (h : s.cancel client_id order_id ticker_id = .ok (s', evs)) :
    (s' = s ∧ evs = [rejectedEvent client_id order_id ticker_id]) ∨
    ∃ p, s.ladder.id_to_order_ (client_id, order_id) = some p ∧
      s.ladder.removeOrder p = .ok s'.ladder ∧
      s'.next_market_order_id_ = s.next_market_order_id_ ∧
      evs = canceledEvents client_id order_id ticker_id (s.ladder.order_pool_.data p) := by
  have hrejected : (.ok (s, [rejectedEvent client_id order_id ticker_id]) :
      Exec (MEOrderBook × List Event)) = .ok (s', evs) →
      s' = s ∧ evs = [rejectedEvent client_id order_id ticker_id] := by
    intro h
    obtain ⟨rfl, rfl⟩ : s = s' ∧ _ = evs := by simpa using h
    exact ⟨rfl, rfl⟩
  simp only [MEOrderBook.cancel] at h
  split at h
  · obtain ⟨found, hfound, h⟩ := exec_bind_ok h
    cases found with
    | none => exact Or.inl (hrejected h)
    | some p =>
      obtain ⟨l, hremove, h⟩ := exec_bind_ok h
      obtain ⟨rfl, rfl⟩ : _ = s' ∧ _ = evs := by simpa using h
      exact Or.inr ⟨p, (getIdx_ok hfound).symm, hremove, rfl, rfl⟩
  · exact Or.inl (hrejected h)

/-! ## The types of the updates -/

/-- What the matching engine publishes: orders and trades. -/
def Incremental (u : MEMarketUpdate) : Prop :=
  u.type_ = .ADD ∨ u.type_ = .MODIFY ∨ u.type_ = .CANCEL ∨ u.type_ = .TRADE

/-- Every update among the messages is one of those. -/
def AllIncremental (evs : List Event) : Prop := ∀ u, .update u ∈ evs → Incremental u

theorem AllIncremental.append {evs evs' : List Event} (h : AllIncremental evs)
    (h' : AllIncremental evs') : AllIncremental (evs ++ evs') :=
  fun u hu => (List.mem_append.mp hu).elim (h u) (h' u)

theorem AllIncremental.nil : AllIncremental [] := fun _ h => absurd h (by simp)

theorem AllIncremental.response (r : MEClientResponse) : AllIncremental [.response r] :=
  fun _ h => absurd h (by simp)

theorem AllIncremental.update {u : MEMarketUpdate} (h : Incremental u) :
    AllIncremental [.update u] := by
  intro v hv
  obtain rfl := Event.update.inj (List.mem_singleton.mp hv)
  exact h

theorem mem_updates {evs : List Event} {u : MEMarketUpdate} :
    u ∈ updates evs ↔ .update u ∈ evs := by
  unfold updates
  rw [List.mem_filterMap]
  constructor
  · intro h
    obtain ⟨e, he, heu⟩ := h
    cases e with
    | response r => exact absurd heu (by simp)
    | update v => rwa [← Option.some.inj heu]
  · intro h
    exact ⟨_, h, rfl⟩

theorem AllIncremental.updates {evs : List Event} (h : AllIncremental evs) {u : MEMarketUpdate}
    (hu : u ∈ updates evs) : Incremental u := h u (mem_updates.mp hu)

theorem incremental_sweepRule (a : Aggressor) (N : Nat) :
    SweepRule a N (fun _ => True) fun e => AllIncremental [e] where
  fill := by
    intro s itr leaves _ _ _ e he
    unfold fillEvents at he
    rcases List.mem_cons.mp he with rfl | he
    · exact .response _
    · rcases List.mem_cons.mp he with rfl | he
      · exact .response _
      · rw [List.mem_singleton.mp he]
        exact .update (Or.inr (Or.inr (Or.inr rfl)))
  exhausted := fun _ _ => .update (Or.inr (Or.inr (Or.inl rfl)))
  modified := fun _ _ _ => .update (Or.inr (Or.inl rfl))
  setQty := fun _ _ => trivial
  remove := fun _ _ _ => trivial

theorem checkForMatch_incremental {qty leaves' : Nat} {s s' : MELadder} {evs : List Event}
    (hrun : MELadder.checkForMatch s a qty = .ok (leaves', s', evs)) : AllIncremental evs := by
  intro u hu
  have hevs := ((incremental_sweepRule a qty).checkForMatch trivial hrun).2.2
  exact hevs _ hu u (List.mem_singleton_self _)

/-- **No request makes the exchange publish anything else**, `CLEAR` in
particular. -/
theorem processClientRequest_incremental {s s' : MEOrderBook} {q : MEClientRequest}
    {evs : List Event} (hrun : s.processClientRequest q = .ok (s', evs)) :
    AllIncremental evs := by
  unfold MEOrderBook.processClientRequest at hrun
  split at hrun
  · obtain ⟨leaves, l, evs₁, hmatch, _, hend⟩ := MEOrderBook.add_inv hrun
    have h₁ := checkForMatch_incremental hmatch
    rcases hend with ⟨_, _, rfl⟩ | ⟨_, o, _, _, _, _, _, rfl⟩
    · exact (AllIncremental.response _).append h₁
    · exact (AllIncremental.response _).append (h₁.append (.update (Or.inl rfl)))
  · rcases MEOrderBook.cancel_inv hrun with ⟨_, rfl⟩ | ⟨p, _, _, _, rfl⟩
    · exact .response _
    · exact (AllIncremental.update (Or.inr (Or.inr (Or.inl rfl)))).append (.response _)
  · exact absurd hrun (by simp)

end LowLatency
