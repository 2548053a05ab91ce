import LowLatency.Common.MemPool

/-!
# `OptMemPool`: the pool without its checks

`src/common/opt_mem_pool.h`, as `-DNDEBUG` compiles it. The data and the order
of the steps are those of `MemPool`; what is gone are the assertions. With them
went the exit of `updateNextFreeIndex`: the comparison with
`initial_free_index` is still made, but nothing depends on it, so a search in a
full store goes round for ever. `fuel` bounds the iterations of a call, and
running out of it is `diverges`.
-/

namespace LowLatency

abbrev OptMemPool (T : Type) := MemPool T

namespace OptMemPool

variable {T : Type}

def updateNextFreeIndexLoop (store : Nat → ObjectBlock T) (size : Nat) : Nat → Nat → Exec Nat
  | 0, _ => .error .diverges
  | fuel + 1, next =>
    if (store next).is_free_ then .ok next
    else
      let next := next + 1
      let next := if next = size then 0 else next
      updateNextFreeIndexLoop store size fuel next

def updateNextFreeIndex (fuel : Nat) (m : OptMemPool T) : Exec Nat :=
  updateNextFreeIndexLoop m.store_ m.size fuel m.next_free_index_

def allocate (fuel : Nat) (m : OptMemPool T) (x : T) : Exec (Nat × OptMemPool T) := do
  let ret := m.next_free_index_
  let m : OptMemPool T := { m with store_ := Function.update m.store_ ret ⟨x, false⟩ }
  let next ← updateNextFreeIndex fuel m
  return (ret, { m with next_free_index_ := next })

def deallocate (m : OptMemPool T) (elem : Nat) : Exec (OptMemPool T) :=
  return { m with store_ := Function.update m.store_ elem ⟨m.get elem, true⟩ }

/-! ## The search, compared with `MemPool`'s -/

/-- What the checked search finds the unchecked one finds, with any fuel that
is not less. -/
theorem loop_of_checked {store : Nat → ObjectBlock T} {size initial r : Nat} :
    ∀ {fuel fuel' next : Nat}, fuel ≤ fuel' →
      MemPool.updateNextFreeIndexLoop store size initial fuel next = .ok r →
      updateNextFreeIndexLoop store size fuel' next = .ok r := by
  intro fuel
  induction fuel with
  | zero =>
    intro fuel' next _ h
    exact absurd h (by simp [MemPool.updateNextFreeIndexLoop])
  | succ fuel ih =>
    intro fuel' next hle h
    obtain ⟨fuel', rfl⟩ : ∃ f, fuel' = f + 1 := ⟨fuel' - 1, by omega⟩
    unfold MemPool.updateNextFreeIndexLoop at h
    unfold updateNextFreeIndexLoop
    by_cases hfree : (store next).is_free_ = true
    · rw [if_pos hfree] at h ⊢
      exact h
    · rw [if_neg hfree] at h ⊢
      dsimp only at h ⊢
      generalize (if next + 1 = size then 0 else next + 1) = i at h ⊢
      by_cases hround : initial = i
      · rw [if_pos hround] at h
        exact absurd h (by simp)
      · rw [if_neg hround] at h
        exact ih (Nat.le_of_succ_le_succ hle) h

/-- In a full store no fuel is enough. -/
theorem loop_full {store : Nat → ObjectBlock T} {size : Nat}
    (hfull : ∀ q, q < size → (store q).is_free_ = false) :
    ∀ (fuel next : Nat), next < size →
      updateNextFreeIndexLoop store size fuel next = .error .diverges := by
  intro fuel
  induction fuel with
  | zero =>
    intro next _
    rfl
  | succ fuel ih =>
    intro next hlt
    rw [updateNextFreeIndexLoop, if_neg (by rw [hfull next hlt]; simp)]
    refine ih _ ?_
    split
    next => omega
    next => omega

/-- **Allocation** is `MemPool`'s as long as another free block is left;
otherwise it never returns. -/
theorem allocate_cases {m : OptMemPool T} (hm : m.Valid) (x : T) :
    (∃ m', (∀ fuel, m.size ≤ fuel → allocate fuel m x = .ok (m.next_free_index_, m')) ∧
      m'.Valid ∧ m'.size = m.size ∧
      m'.store_ = Function.update m.store_ m.next_free_index_ ⟨x, false⟩) ∨
    ((∀ fuel, allocate fuel m x = .error .diverges) ∧
      ∀ q, q < m.size → q ≠ m.next_free_index_ → m.isFree q = false) := by
  rcases MemPool.allocate_cases hm x with ⟨m', hok, hvalid, hsize, hstore⟩ | ⟨_, hfull⟩
  · left
    refine ⟨m', fun fuel hfuel => ?_, hvalid, hsize, hstore⟩
    unfold MemPool.allocate at hok
    obtain ⟨_, _, hok⟩ := exec_bind_ok hok
    obtain ⟨next, hnext, hok⟩ := exec_bind_ok hok
    cases hok
    unfold MemPool.updateNextFreeIndex at hnext
    simp only [allocate, updateNextFreeIndex, loop_of_checked hfuel hnext]
    rfl
  · right
    refine ⟨fun fuel => ?_, hfull⟩
    have hstill : ∀ q, q < m.size →
        (Function.update m.store_ m.next_free_index_ ⟨x, false⟩ q).is_free_ = false := by
      intro q hq
      by_cases he : q = m.next_free_index_
      · rw [he, Function.update_self]
      · rw [Function.update_of_ne he]
        exact hfull q hq he
    have hloop := loop_full hstill fuel m.next_free_index_ hm.lt
    simp only [allocate, updateNextFreeIndex, hloop]
    rfl

end OptMemPool

end LowLatency
