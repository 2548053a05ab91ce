import LowLatency.Matcher.Sweep

/-!
# Whose orders a book can reach

In any state of `MEOrderBook`, however its levels are linked, a pointer leads to
an order that was once added (`Leads`). So a response is addressed to the client
of the request or to one whose order came to rest before
(`processClientRequest_owners`). Nothing is assumed of prices and ids.
-/

namespace LowLatency

variable {Q : MEOrderId → Prop}

/-- A response to the client `c` or to the owner of an order of the kind `Q`. -/
def AddressedTo (Q : MEOrderId → Prop) (c : Nat) (r : MEClientResponse) : Prop :=
  r.client_id_ = c ∨ ∃ k, Q k ∧ r.client_id_ = k.client_id_

/-- A fill tells the aggressor and the owner of the passive order. -/
theorem leads_fillRule (a : Aggressor) (N : Nat) :
    FillRule a N (Leads Q) (AddressedTo Q a.client_id_) where
  fill := by
    intro s level itr leaves h hitr _ r hr
    rcases List.mem_cons.mp hr with rfl | hr
    · exact Or.inl rfl
    · rw [List.mem_singleton.mp hr]
      exact Or.inr ⟨_, h.first level itr hitr, rfl⟩
  setQty := fun h _ => h.setQty _ _
  remove := fun h hrun => h.removeOrder hrun

/-- A new order rests under the request's ids, and only if it is of the kind `Q`
does the book stay so. -/
theorem add_owners {s s' : MEOrderBook} {client_id client_order_id ticker_id : Nat} {side : Side}
    {price : Int} {qty : Nat} {evs : List Event} (h : Leads Q s.ladder)
    (hnew : Q ⟨ticker_id, client_id, client_order_id, s.next_market_order_id_⟩)
    (hrun : s.add client_id client_order_id ticker_id side price qty = .ok (s', evs)) :
    Leads Q s'.ladder ∧ ∀ r ∈ responses evs, AddressedTo Q client_id r := by
  obtain ⟨leaves, l, evs₁, hmatch, _, hend⟩ := MEOrderBook.add_inv hrun
  obtain ⟨hl, _, ha⟩ := checkForMatch_rule (leads_fillRule _ _) h hmatch
  rcases hend with ⟨_, hs', rfl⟩ | ⟨_, o, hid, _, _, _, halloc, rfl⟩
  · rw [hs']
    refine ⟨hl, fun r hr => ?_⟩
    simp only [responses, acceptedEvent, List.filterMap_cons] at hr
    rcases List.mem_cons.mp hr with rfl | hr
    · exact Or.inl rfl
    · exact ha r hr
  · refine ⟨hl.allocateOrder (by rw [hid]; exact hnew) halloc, fun r hr => ?_⟩
    simp only [responses, acceptedEvent, addedEvent, List.filterMap_cons, List.filterMap_append,
      List.filterMap_nil, List.append_nil] at hr
    rcases List.mem_cons.mp hr with rfl | hr
    · exact Or.inl rfl
    · exact ha r hr

theorem cancel_owners {s s' : MEOrderBook} {client_id order_id ticker_id : Nat} {evs : List Event}
    (h : Leads Q s.ladder) (hrun : s.cancel client_id order_id ticker_id = .ok (s', evs)) :
    Leads Q s'.ladder ∧ ∀ r ∈ responses evs, AddressedTo Q client_id r := by
  rcases MEOrderBook.cancel_inv hrun with ⟨rfl, rfl⟩ | ⟨p, _, hremove, _, rfl⟩
  · refine ⟨h, fun r hr => ?_⟩
    rw [List.mem_singleton.mp hr]
    exact Or.inl rfl
  · refine ⟨h.removeOrder hremove, fun r hr => ?_⟩
    rw [List.mem_singleton.mp (show r ∈ [_] from hr)]
    exact Or.inl rfl

/-- **One request**: the pointers keep leading to orders of the kind `Q`, and
nobody else hears of it. -/
theorem processClientRequest_owners {s s' : MEOrderBook} {q : MEClientRequest} {evs : List Event}
    (h : Leads Q s.ladder)
    (hnew : ∀ id, Q ⟨q.ticker_id_, q.client_id_, q.order_id_, id⟩)
    (hrun : s.processClientRequest q = .ok (s', evs)) :
    Leads Q s'.ladder ∧ ∀ r ∈ responses evs, AddressedTo Q q.client_id_ r := by
  unfold MEOrderBook.processClientRequest at hrun
  split at hrun
  · exact add_owners h (hnew _) hrun
  · exact cancel_owners h hrun
  · exact absurd hrun (by simp)

end LowLatency
