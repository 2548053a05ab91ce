import LowLatency.Book.HeapInsert

/-!
# What the ladder's pointers lead to

`Leads Q s`: every order that the id table, a level or another order points at
has an identity of the kind `Q`, whether or not the block it is in is still in
use. A freed block keeps its contents, so this survives everything: colliding
prices, repeated ids, links into freed blocks. It is all that can be said of a
ladder in an arbitrary state, and enough to know that an identity read through a
pointer is one that was once put there.
-/

namespace LowLatency

variable {K I : Type} {Q : K → Prop}

/-- Every pointer to an order leads to one of the kind `Q`. -/
structure Leads (Q : K → Prop) (s : Ladder K I) : Prop where
  id : ∀ i p, s.id_to_order_ i = some p → Q (s.order_pool_.data p).id_
  first : ∀ l p, s.orders_at_price_pool_.firstOrder l = some p → Q (s.order_pool_.data p).id_
  next : ∀ q p, s.order_pool_.nextOrder q = some p → Q (s.order_pool_.data p).id_
  prev : ∀ q p, s.order_pool_.prevOrder q = some p → Q (s.order_pool_.data p).id_

namespace Leads

variable {s s' : Ladder K I}

theorem init [Inhabited K] : Leads Q (Ladder.init : Ladder K I) where
  id := fun _ _ h => absurd h (by simp [Ladder.init])
  first := fun _ _ h => absurd h (by
    simp [Ladder.init, MemPool.firstOrder, MemPool.get, MemPool.init, default])
  next := fun _ _ h => absurd (show none = some _ from h) (by simp)
  prev := fun _ _ h => absurd (show none = some _ from h) (by simp)

theorem mono {Q' : K → Prop} (h : Leads Q s) (hQ : ∀ k, Q k → Q' k) : Leads Q' s where
  id := fun i p hp => hQ _ (h.id i p hp)
  first := fun l p hp => hQ _ (h.first l p hp)
  next := fun q p hp => hQ _ (h.next q p hp)
  prev := fun q p hp => hQ _ (h.prev q p hp)

/-- Links of levels, best pointers and the price table lead to no order. -/
theorem congr (h : Leads Q s) (ho : s'.order_pool_ = s.order_pool_)
    (hi : s'.id_to_order_ = s.id_to_order_)
    (hf : ∀ l, s'.orders_at_price_pool_.firstOrder l = s.orders_at_price_pool_.firstOrder l) :
    Leads Q s' := by
  refine ⟨?_, ?_, ?_, ?_⟩
  · rw [hi, ho]
    exact h.id
  · intro l p
    rw [hf, ho]
    exact h.first l p
  · rw [ho]
    exact h.next
  · rw [ho]
    exact h.prev

/-! ## One write -/

theorem setNextOrder (h : Leads Q s) (q : Nat) {v : Option Nat}
    (hv : ∀ p, v = some p → Q (s.order_pool_.data p).id_) :
    Leads Q { s with order_pool_ := s.order_pool_.setNextOrder q v } := by
  refine ⟨?_, ?_, ?_, ?_⟩
  · intro i p hp
    simpa using h.id i p hp
  · intro l p hp
    simpa using h.first l p hp
  · intro q' p hp
    simp only [MemPool.nextOrder_setNextOrder] at hp
    rw [MemPool.data_setNextOrder]
    split at hp
    · exact hv p hp
    · exact h.next q' p hp
  · intro q' p hp
    simp only [MemPool.prevOrder_setNextOrder] at hp
    simpa using h.prev q' p hp

theorem setPrevOrder (h : Leads Q s) (q : Nat) {v : Option Nat}
    (hv : ∀ p, v = some p → Q (s.order_pool_.data p).id_) :
    Leads Q { s with order_pool_ := s.order_pool_.setPrevOrder q v } := by
  refine ⟨?_, ?_, ?_, ?_⟩
  · intro i p hp
    simpa using h.id i p hp
  · intro l p hp
    simpa using h.first l p hp
  · intro q' p hp
    simp only [MemPool.nextOrder_setPrevOrder] at hp
    simpa using h.next q' p hp
  · intro q' p hp
    simp only [MemPool.prevOrder_setPrevOrder] at hp
    rw [MemPool.data_setPrevOrder]
    split at hp
    · exact hv p hp
    · exact h.prev q' p hp

/-- A new quantity leaves links and identities alone. -/
theorem setQty (h : Leads Q s) (q v : Nat) :
    Leads Q { s with order_pool_ := s.order_pool_.setQty q v } := by
  have hid : ∀ p, ((s.order_pool_.setQty q v).data p).id_ = (s.order_pool_.data p).id_ := by
    intro p
    rw [MemPool.data_setQty]
    split <;> rfl
  refine ⟨?_, ?_, ?_, ?_⟩
  · intro i p hp
    rw [hid]
    exact h.id i p hp
  · intro l p hp
    rw [hid]
    exact h.first l p hp
  · intro q' p hp
    rw [hid]
    exact h.next q' p (by simpa using hp)
  · intro q' p hp
    rw [hid]
    exact h.prev q' p (by simpa using hp)

theorem setFirstOrder (h : Leads Q s) (l : Nat) {v : Option Nat}
    (hv : ∀ p, v = some p → Q (s.order_pool_.data p).id_) :
    Leads Q { s with orders_at_price_pool_ := s.orders_at_price_pool_.setFirstOrder l v } := by
  refine ⟨h.id, ?_, h.next, h.prev⟩
  intro l' p hp
  simp only [MemPool.firstOrder_setFirstOrder] at hp
  split at hp
  · exact hv p hp
  · exact h.first l' p hp

theorem setId [DecidableEq I] (h : Leads Q s) (i : I) {v : Option Nat}
    (hv : ∀ p, v = some p → Q (s.order_pool_.data p).id_) :
    Leads Q { s with id_to_order_ := Function.update s.id_to_order_ i v } := by
  refine ⟨?_, h.first, h.next, h.prev⟩
  intro i' p hp
  by_cases hi : i' = i
  · subst hi
    exact hv p (by simpa using hp)
  · exact h.id i' p (by simpa [hi] using hp)

/-- A block filled with an order of the kind `Q` that has no neighbours yet. -/
theorem fillOrder (h : Leads Q s) {m : MemPool (Order K)} {n : Nat} {d : OrderData K}
    (hm : m.store_ = Function.update s.order_pool_.store_ n
      ⟨{ d with prev_order_ := none, next_order_ := none }, false⟩) (hd : Q d.id_) :
    Leads Q { s with order_pool_ := m } ∧ m.data n = d := by
  have hget := MemPool.get_of_store hm
  have hdata : ∀ p, m.data p = if p = n then d else s.order_pool_.data p := by
    intro p
    unfold MemPool.data
    rw [hget]
    split <;> rfl
  have hlead : ∀ p, Q (s.order_pool_.data p).id_ → Q (m.data p).id_ := by
    intro p hp
    rw [hdata]
    split
    · exact hd
    · exact hp
  refine ⟨⟨?_, ?_, ?_, ?_⟩, by rw [hdata, if_pos rfl]⟩
  · exact fun i p hp => hlead p (h.id i p hp)
  · exact fun l p hp => hlead p (h.first l p hp)
  · intro q p hp
    simp only [MemPool.nextOrder, hget] at hp
    split at hp
    · exact absurd hp (by simp)
    · exact hlead p (h.next q p hp)
  · intro q p hp
    simp only [MemPool.prevOrder, hget] at hp
    split at hp
    · exact absurd hp (by simp)
    · exact hlead p (h.prev q p hp)

/-- A block filled with a level whose first order is of the kind `Q`. -/
theorem fillLevel (h : Leads Q s) {m : MemPool OrdersAtPrice} {n : Nat} {x : OrdersAtPrice}
    (hm : m.store_ = Function.update s.orders_at_price_pool_.store_ n ⟨x, false⟩)
    (hx : ∀ p, x.first_order_ = some p → Q (s.order_pool_.data p).id_) :
    Leads Q { s with orders_at_price_pool_ := m } := by
  refine ⟨h.id, ?_, h.next, h.prev⟩
  intro l p hp
  simp only [MemPool.firstOrder, MemPool.get_of_store hm] at hp
  split at hp
  · exact hx p hp
  · exact h.first l p hp

/-- Freed blocks keep their contents. -/
theorem release (h : Leads Q s) (q : Nat) :
    Leads Q { s with order_pool_ := s.order_pool_.release q } := by
  have hdata : ∀ p, (s.order_pool_.release q).data p = s.order_pool_.data p := by
    intro p
    unfold MemPool.data
    rw [MemPool.get_release]
  refine ⟨?_, ?_, ?_, ?_⟩
  · exact fun i p hp => by rw [hdata]; exact h.id i p hp
  · exact fun l p hp => by rw [hdata]; exact h.first l p hp
  · intro q' p hp
    rw [hdata]
    exact h.next q' p (by simpa [MemPool.nextOrder] using hp)
  · intro q' p hp
    rw [hdata]
    exact h.prev q' p (by simpa [MemPool.prevOrder] using hp)

end Leads

/-! ## The routines -/

section Routines

variable {s s' : Ladder K I}

/-- Linking a level writes no pointer to an order. -/
theorem addOrdersAtPrice_orders {n : Nat} (h : s.addOrdersAtPrice n = .ok s') :
    s'.order_pool_ = s.order_pool_ ∧ s'.id_to_order_ = s.id_to_order_ ∧
      ∀ l, s'.orders_at_price_pool_.firstOrder l = s.orders_at_price_pool_.firstOrder l := by
  unfold Ladder.addOrdersAtPrice at h
  dsimp only at h
  split at h
  · rw [← Except.ok.inj h]
    simp
  · obtain ⟨⟨add_after, target⟩, _, h⟩ := exec_bind_ok h
    dsimp only at h
    split at h
    · split at h
      · obtain ⟨last, _, h⟩ := exec_bind_ok h
        obtain ⟨after, _, h⟩ := exec_bind_ok h
        rw [← Except.ok.inj h]
        simp
      · rw [exec_ok_bind] at h
        obtain ⟨after, _, h⟩ := exec_bind_ok h
        rw [← Except.ok.inj h]
        simp
    · obtain ⟨before, _, h⟩ := exec_bind_ok h
      split at h
      · rw [← Except.ok.inj h]
        simp
      · rw [← Except.ok.inj h]
        simp

/-- Nor does unlinking one. -/
theorem removeOrdersAtPrice_orders {side : Side} {price : Int}
    (h : s.removeOrdersAtPrice side price = .ok s') :
    s'.order_pool_ = s.order_pool_ ∧ s'.id_to_order_ = s.id_to_order_ ∧
      ∀ l, s'.orders_at_price_pool_.firstOrder l = s.orders_at_price_pool_.firstOrder l := by
  have hrel : ∀ (m : MemPool OrdersAtPrice) (l l' : Nat),
      (m.release l).firstOrder l' = m.firstOrder l' := by
    intro m l l'
    unfold MemPool.firstOrder
    rw [MemPool.get_release]
  unfold Ladder.removeOrdersAtPrice at h
  dsimp only at h
  obtain ⟨l, _, h⟩ := exec_bind_ok h
  simp only [exec_ok_bind] at h
  split at h
  · obtain ⟨m, hm, h⟩ := exec_bind_ok h
    rw [setBest_orders_at_price_pool_] at hm
    rw [← Except.ok.inj h, (MemPool.deallocate_inv hm).2]
    simp [hrel]
  · obtain ⟨before, _, h⟩ := exec_bind_ok h
    obtain ⟨after, _, h⟩ := exec_bind_ok h
    obtain ⟨m, hm, h⟩ := exec_bind_ok h
    rw [← Except.ok.inj h, (MemPool.deallocate_inv hm).2]
    refine ⟨?_, ?_, fun l' => by simp [hrel]⟩
    · dsimp only
      split <;> simp
    · dsimp only
      split <;> simp

variable [OrderKey K I] [DecidableEq I]

theorem setIdx_ok {i : I} {v : Option Nat} (h : s.setIdx i v = .ok s') :
    s' = { s with id_to_order_ := Function.update s.id_to_order_ i v } := by
  unfold Ladder.setIdx at h
  split at h
  next => exact (Except.ok.inj h).symm
  next => exact absurd h (by simp)

omit [DecidableEq I] in
theorem getIdx_ok {i : I} {v : Option Nat} (h : s.getIdx i = .ok v) : v = s.id_to_order_ i := by
  unfold Ladder.getIdx at h
  split at h
  next => exact (Except.ok.inj h).symm
  next => exact absurd h (by simp)

theorem Leads.addOrder (h : Leads Q s) {p : Nat} (hp : Q (s.order_pool_.data p).id_)
    (hrun : s.addOrder p = .ok s') : Leads Q s' := by
  have hself : ∀ q, some p = some q → Q (s.order_pool_.data q).id_ := by
    intro q hq
    rw [← Option.some.inj hq]
    exact hp
  unfold Ladder.addOrder at hrun
  dsimp only at hrun
  simp only [exec_ok_bind] at hrun
  split at hrun
  · -- a level of its own
    obtain ⟨⟨n, m⟩, halloc, hrun⟩ := exec_bind_ok hrun
    obtain ⟨s₁, hlink, hset⟩ := exec_bind_ok hrun
    have h₁ := (h.setPrevOrder p hself).setNextOrder p (v := some p) (by simpa using hself)
    have h₂ := h₁.fillLevel (MemPool.allocate_inv halloc).2 (by simpa using hself)
    obtain ⟨ho, hi, hf⟩ := addOrdersAtPrice_orders hlink
    have h₃ : Leads Q s₁ := h₂.congr ho hi hf
    rw [setIdx_ok hset]
    refine h₃.setId _ fun q hq => ?_
    rw [ho]
    simpa using hself q hq
  · -- behind the last order of a level
    obtain ⟨first, hfirst, hrun⟩ := exec_bind_ok hrun
    obtain ⟨last, _, hrun⟩ := exec_bind_ok hrun
    have hhead : ∀ q, some first = some q → Q (s.order_pool_.data q).id_ := by
      intro q hq
      rw [← Option.some.inj hq]
      exact h.first _ _ (deref_inv hfirst)
    have h₁ := h.setNextOrder last hself
    have h₂ := h₁.setPrevOrder p (h₁.prev first)
    have h₃ := h₂.setNextOrder p (v := some first) (by simpa using hhead)
    have h₄ := h₃.setPrevOrder first (v := some p) (by simpa using hself)
    rw [setIdx_ok hrun]
    exact h₄.setId _ (by simpa using hself)

theorem Leads.allocateOrder (h : Leads Q s) {d : OrderData K} (hd : Q d.id_)
    (hrun : s.allocateOrder d = .ok s') : Leads Q s' := by
  unfold Ladder.allocateOrder at hrun
  obtain ⟨⟨p, m⟩, halloc, hrun⟩ := exec_bind_ok hrun
  obtain ⟨h₁, hdata⟩ := h.fillOrder (MemPool.allocate_inv halloc).2 hd
  exact h₁.addOrder (by rw [hdata]; exact hd) hrun

theorem Leads.removeOrder (h : Leads Q s) {p : Nat} (hrun : s.removeOrder p = .ok s') :
    Leads Q s' := by
  unfold Ladder.removeOrder at hrun
  dsimp only at hrun
  -- both branches end by clearing the id table and giving the block back
  have hend : ∀ s₁ s₂ m, Leads Q s₁ →
      s₁.setIdx (idx (s.order_pool_.data p).id_) none = .ok s₂ →
      s₂.order_pool_.deallocate p = .ok m → Leads Q { s₂ with order_pool_ := m } := by
    intro s₁ s₂ m h₁ hset hm
    have h₂ : Leads Q s₂ := by
      rw [setIdx_ok hset]
      exact h₁.setId _ fun q hq => absurd hq (by simp)
    rw [(MemPool.deallocate_inv hm).2]
    exact h₂.release p
  simp only [exec_ok_bind] at hrun
  split at hrun
  · obtain ⟨s₁, hlevel, hrun⟩ := exec_bind_ok hrun
    obtain ⟨s₂, hset, hrun⟩ := exec_bind_ok hrun
    obtain ⟨m, hm, hrun⟩ := exec_bind_ok hrun
    obtain ⟨ho, hi, hf⟩ := removeOrdersAtPrice_orders hlevel
    rw [← Except.ok.inj hrun]
    exact hend s₁ s₂ m (h.congr ho hi hf) hset hm
  · obtain ⟨before, hbefore, hrun⟩ := exec_bind_ok hrun
    obtain ⟨after, hafter, hrun⟩ := exec_bind_ok hrun
    obtain ⟨l, _, hrun⟩ := exec_bind_ok hrun
    obtain ⟨s₂, hset, hrun⟩ := exec_bind_ok hrun
    obtain ⟨m, hm, hrun⟩ := exec_bind_ok hrun
    have hA : ∀ q, some after = some q → Q (s.order_pool_.data q).id_ := by
      intro q hq
      rw [← Option.some.inj hq]
      exact h.next _ _ (deref_inv hafter)
    have hB : ∀ q, some before = some q → Q (s.order_pool_.data q).id_ := by
      intro q hq
      rw [← Option.some.inj hq]
      exact h.prev _ _ (deref_inv hbefore)
    have hnone : ∀ (op : MemPool (Order K)) (q : Nat), none = some q → Q (op.data q).id_ :=
      fun _ _ hq => absurd hq (by simp)
    rw [← Except.ok.inj hrun]
    refine hend _ s₂ m ?_ hset hm
    split
    · have h₁ := (h.setFirstOrder l hA).setNextOrder before hA
      have h₂ := h₁.setPrevOrder after (v := some before) (by simpa using hB)
      exact (h₂.setNextOrder p (hnone _)).setPrevOrder p (hnone _)
    · have h₁ := h.setNextOrder before hA
      have h₂ := h₁.setPrevOrder after (v := some before) (by simpa using hB)
      exact (h₂.setNextOrder p (hnone _)).setPrevOrder p (hnone _)

end Routines

end LowLatency
