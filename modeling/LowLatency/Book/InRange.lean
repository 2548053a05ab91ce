import LowLatency.Book.Ladder

/-!
# Which accesses can throw

`id_to_order_` is the only table of a ladder that is indexed with what came from
outside. `priceToIndex` stays inside the price table whatever the price, and all
else is followed by pointer. So a routine ends in `at` only if it is given an index
past the end of `id_to_order_`, or an order whose own index is. `NoThrow` says that
a routine does not end there; how it ends otherwise is left open, on any heap.
-/

namespace LowLatency

/-- No index on the way is out of range. -/
structure NoThrow {α : Type} (x : Exec α) : Prop where
  ne : x ≠ .error .outOfRange

namespace NoThrow

variable {α β : Type}

theorem ok (a : α) : NoThrow (Except.ok a : Exec α) := ⟨by simp⟩

theorem error {f : Fault} (hf : f ≠ .outOfRange) : NoThrow (Except.error f : Exec α) :=
  ⟨fun h => hf (Except.error.inj h)⟩

theorem bind {x : Exec α} {f : α → Exec β} (hx : NoThrow x)
    (hf : ∀ a, x = .ok a → NoThrow (f a)) : NoThrow (x >>= f) := by
  cases hxa : x with
  | ok a => exact hf a hxa
  | error e =>
    rw [hxa] at hx
    exact error fun he => hx.ne (by rw [he])

theorem deref (v : Option Nat) : NoThrow (LowLatency.deref v) := by
  cases v with
  | none => exact error (by simp)
  | some p => exact ok p

theorem ASSERT (cond : Bool) (msg : String) : NoThrow (LowLatency.ASSERT cond msg) := by
  cases cond with
  | true => exact ok ()
  | false => exact error (by simp)

end NoThrow

/-! ## Memory pools -/

section Pools

variable {T : Type}

theorem noThrow_allocate (m : MemPool T) (x : T) : NoThrow (m.allocate x) := by
  have hloop : ∀ (store : Nat → ObjectBlock T) (size initial fuel next : Nat),
      NoThrow (MemPool.updateNextFreeIndexLoop store size initial fuel next) := by
    intro store size initial fuel
    induction fuel with
    | zero => intro next; exact .error (by simp)
    | succ fuel ih =>
      intro next
      unfold MemPool.updateNextFreeIndexLoop
      by_cases hfree : (store next).is_free_ = true
      · rw [if_pos hfree]
        exact .ok _
      · rw [if_neg hfree]
        dsimp only
        generalize (if next + 1 = size then 0 else next + 1) = next'
        by_cases hround : initial = next'
        · rw [if_pos hround]
          exact .error (by simp)
        · rw [if_neg hround]
          exact ih _
  unfold MemPool.allocate
  refine (NoThrow.ASSERT ..).bind fun _ _ => ?_
  exact (hloop ..).bind fun _ _ => .ok _

theorem noThrow_deallocate (m : MemPool T) (p : Nat) : NoThrow (m.deallocate p) := by
  unfold MemPool.deallocate
  refine (NoThrow.ASSERT ..).bind fun _ _ => ?_
  exact (NoThrow.ASSERT ..).bind fun _ _ => .ok _

end Pools

/-! ## Ladders -/

namespace Ladder

variable {K I : Type}

theorem noThrow_seek (m : MemPool OrdersAtPrice) (side : Side) (price : Int) (best : Nat) :
    NoThrow (seek m side price best) := by
  have hloop : ∀ (fuel : Nat) (add_after : Bool) (target : Nat),
      NoThrow (seekLoop m side price best fuel add_after target) := by
    intro fuel
    induction fuel with
    | zero => intro add_after target; exact .error (by simp)
    | succ fuel ih =>
      intro add_after target
      unfold seekLoop
      split
      · split
        · exact (NoThrow.deref _).bind fun _ _ => ih _ _
        · exact ih _ _
      · exact .ok _
  unfold seek
  split
  · exact (NoThrow.deref _).bind fun _ _ => hloop ..
  · exact .ok _

theorem noThrow_addOrdersAtPrice (s : Ladder K I) (n : Nat) : NoThrow (s.addOrdersAtPrice n) := by
  unfold addOrdersAtPrice
  dsimp only
  split
  · exact .ok _
  · refine (noThrow_seek ..).bind fun r _ => ?_
    split
    · split
      · refine (NoThrow.deref _).bind fun _ _ => ?_
        exact (NoThrow.deref _).bind fun _ _ => .ok _
      · refine (NoThrow.ok _).bind fun _ _ => ?_
        exact (NoThrow.deref _).bind fun _ _ => .ok _
    · refine (NoThrow.deref _).bind fun _ _ => ?_
      split
      · exact .ok _
      · exact .ok _

theorem noThrow_removeOrdersAtPrice (s : Ladder K I) (side : Side) (price : Int) :
    NoThrow (s.removeOrdersAtPrice side price) := by
  unfold removeOrdersAtPrice
  refine (NoThrow.deref _).bind fun l _ => ?_
  dsimp only
  simp only [exec_ok_bind]
  split
  · exact (noThrow_deallocate ..).bind fun _ _ => .ok _
  · refine (NoThrow.deref _).bind fun _ _ => ?_
    refine (NoThrow.deref _).bind fun _ _ => ?_
    exact (noThrow_deallocate ..).bind fun _ _ => .ok _

variable [OrderKey K I] [DecidableEq I]

theorem noThrow_setIdx {i : I} (h : inRange (K := K) i = true) (s : Ladder K I)
    (v : Option Nat) : NoThrow (s.setIdx i v) := by
  unfold setIdx
  rw [if_pos h]
  exact .ok _

omit [DecidableEq I] in
theorem noThrow_getIdx {i : I} (h : inRange (K := K) i = true) (s : Ladder K I) :
    NoThrow (s.getIdx i) := by
  unfold getIdx
  rw [if_pos h]
  exact .ok _

theorem noThrow_addOrder {s : Ladder K I} {p : Nat}
    (h : inRange (K := K) (idx (s.order_pool_.data p).id_) = true) : NoThrow (s.addOrder p) := by
  unfold addOrder
  dsimp only
  simp only [exec_ok_bind]
  split
  · refine (noThrow_allocate ..).bind fun _ _ => ?_
    exact (noThrow_addOrdersAtPrice ..).bind fun s₁ _ => noThrow_setIdx h s₁ _
  · refine (NoThrow.deref _).bind fun _ _ => ?_
    exact (NoThrow.deref _).bind fun _ _ => noThrow_setIdx h _ _

/-- **A new order** throws only by its own index. -/
theorem noThrow_allocateOrder {d : OrderData K} (h : inRange (K := K) (idx d.id_) = true)
    (s : Ladder K I) : NoThrow (s.allocateOrder d) := by
  unfold allocateOrder
  refine (noThrow_allocate ..).bind fun r hr => ?_
  refine noThrow_addOrder ?_
  have hdata : r.2.data r.1 = d := by
    unfold MemPool.data
    rw [MemPool.get_of_store (MemPool.allocate_inv hr).2, if_pos rfl]
  show inRange (K := K) (idx (r.2.data r.1).id_) = true
  rw [hdata]
  exact h

/-- **An order that leaves** throws only by its own index. -/
theorem noThrow_removeOrder {s : Ladder K I} {p : Nat}
    (h : inRange (K := K) (idx (s.order_pool_.data p).id_) = true) : NoThrow (s.removeOrder p) := by
  unfold removeOrder
  dsimp only
  simp only [exec_ok_bind]
  split
  · refine (noThrow_removeOrdersAtPrice ..).bind fun s₁ _ => ?_
    refine (noThrow_setIdx h s₁ _).bind fun s₂ _ => ?_
    exact (noThrow_deallocate ..).bind fun _ _ => .ok _
  · refine (NoThrow.deref _).bind fun _ _ => ?_
    refine (NoThrow.deref _).bind fun _ _ => ?_
    refine (NoThrow.deref _).bind fun _ _ => ?_
    refine (noThrow_setIdx h _ _).bind fun s₂ _ => ?_
    exact (noThrow_deallocate ..).bind fun _ _ => .ok _

end Ladder

end LowLatency
