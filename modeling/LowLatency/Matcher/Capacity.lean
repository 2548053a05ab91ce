import LowLatency.Common.PoolRuns
import LowLatency.Matcher.Book

/-!
# How many objects a pool of `N` blocks holds

One less than it has blocks. An `allocate` looks for the block the next one will
take, after it has filled its own; in a program that fills the pool completely
the last `allocate` finds none and does not return. `pool_capacity` states it
for the two pools and for the order book, whose constructor gives its level pool
`ME_MAX_PRICE_LEVELS` blocks: a run returns exactly when the book never has more
than `ME_MAX_PRICE_LEVELS - 1` levels and `ME_MAX_ORDER_IDS - 1` orders.
-/

namespace LowLatency

open Lib (Allocator)
open Lib.Allocator (Call Legal)

/-! ## The book's two pools -/

/-- Distinct blocks in use leave one for the next. -/
theorem MemPool.Valid.length_lt {T : Type} {m : MemPool T} (hm : m.Valid) {l : List Nat}
    (hnd : l.Nodup) (hl : ∀ p ∈ l, m.Used p) : l.length < m.size := by
  have hnot : m.next_free_index_ ∉ l := fun h => hm.not_used (hl _ h)
  have hle := length_le_of_lt (List.nodup_cons.mpr ⟨hnot, hnd⟩) (n := m.size) (by
    intro p hp
    rcases List.mem_cons.mp hp with rfl | hp
    · exact hm.lt
    · exact (hl p hp).1)
  exact hle

/-- The orders of a book leave one block of their pool free. -/
theorem Represents.live_lt {s : MELadder} {G : Ghost MEOrderId} (h : Represents s G) :
    (bookOf G).live < ME_MAX_ORDER_IDS := by
  have hlt : ((flat (G true)).map Prod.fst ++ (flat (G false)).map Prod.fst).length
      < s.order_pool_.size := by
    refine h.core.validO.length_lt ?_ ?_
    · refine (h.core.flat_nodup true).append (h.core.flat_nodup false) ?_
      intro p hp hp'
      obtain ⟨o, ho, rfl⟩ := List.mem_map.mp hp
      obtain ⟨o', ho', he⟩ := List.mem_map.mp hp'
      exact absurd (h.core.order_inj ho ho' he.symm).1 (by simp)
    · intro p hp
      rcases List.mem_append.mp hp with hp | hp <;> obtain ⟨o, ho, rfl⟩ := List.mem_map.mp hp
      · exact (h.core.data_of_mem ho).2
      · exact (h.core.data_of_mem ho).2
  rw [h.ids.size, List.length_append, List.length_map, List.length_map] at hlt
  unfold Book.live bookOf
  rwa [List.length_map, List.length_map]

/-- And so do its levels. -/
theorem Represents.levels_lt {s : MELadder} {G : Ghost MEOrderId} (h : Represents s G) :
    (bookOf G).levels < ME_MAX_PRICE_LEVELS := by
  have hlt : ((G true).map LevelG.ptr ++ (G false).map LevelG.ptr).length
      < s.orders_at_price_pool_.size := by
    refine h.core.validL.length_lt ?_ ?_
    · refine (h.core.ring true).nodup.append (h.core.ring false).nodup ?_
      intro p hp hp'
      obtain ⟨g, hg, rfl⟩ := List.mem_map.mp hp
      obtain ⟨g', hg', he⟩ := List.mem_map.mp hp'
      exact h.core.cross g hg g' hg' he.symm
    · intro p hp
      rcases List.mem_append.mp hp with hp | hp <;> obtain ⟨g, hg, rfl⟩ := List.mem_map.mp hp
      · exact h.core.usedL true g hg
      · exact h.core.usedL false g hg
  rw [h.prices.size, List.length_append, List.length_map, List.length_map] at hlt
  rwa [levels_bookOf h.core h.sides]

/-- A book that exists fits its pools. -/
theorem Sim.fits {s : MEOrderBook} {r : RefBook} (h : Sim s r) : r.Fits := by
  obtain ⟨G, hr, hb, _⟩ := h
  have hlive := hr.live_lt
  have hlevels := hr.levels_lt
  rw [hb] at hlive hlevels
  exact ⟨Nat.le_sub_one_of_lt hlive, Nat.le_sub_one_of_lt hlevels⟩

/-- **A well-formed run returns exactly when it fits the pools.** -/
theorem run_returns_iff (qs : List MEClientRequest) {s : MEOrderBook} {r : RefBook} (h : Sim s r)
    (hinv : r.Inv) (ha : r.AdmitsAll qs) :
    (∃ s' evss, s.run qs = .ok (s', evss)) ↔ r.FitsAll qs := by
  constructor
  · rintro ⟨s', evss, hrun⟩
    induction qs generalizing s r evss with
    | nil => trivial
    | cons q qs ih =>
      obtain ⟨⟨s₁, evs₁⟩, hstep, hrun⟩ := exec_bind_ok hrun
      obtain ⟨⟨s₂, evs₂⟩, hrun₂, hrun⟩ := exec_bind_ok hrun
      obtain ⟨rfl, _⟩ : s₂ = s' ∧ evs₁ :: evs₂ = evss := by simpa using hrun
      rcases step_sim h hinv ha.1 with ⟨s₁', hstep', h₁⟩ | ⟨herr, _⟩
      · rw [hstep] at hstep'
        obtain ⟨rfl, rfl⟩ : s₁ = s₁' ∧ evs₁ = r.stepEvents wrap32 q := by simpa using hstep'
        exact ⟨h₁.fits, ih h₁ (hinv.step ha.1) ha.2 _ hrun₂⟩
      · rw [hstep] at herr
        exact absurd herr (by simp)
  · intro hf
    obtain ⟨s', hrun, _⟩ := run_sim qs h hinv ha hf
    exact ⟨s', _, hrun⟩

/-! ## The capacity -/

/-- **A pool of `N` blocks serves `N - 1` objects.** A program that needs at most
`N` at a time gets through, with either pool, exactly when it needs at most
`N - 1`. So does a book, with the capacities of its two pools. -/
theorem pool_capacity {T : Type} (dflt : T) {N : Nat} (hN : 1 ≤ N) {cs : List (Call T)}
    (hl : Legal N 0 cs) :
    ((∃ s, MemPool.allocator.run (PoolRuns.start N dflt) cs = .ok s) ↔ Legal (N - 1) 0 cs) ∧
    (∀ fuel, N ≤ fuel →
      ((∃ s, (OptMemPool.allocator fuel).run (PoolRuns.start N dflt) cs = .ok s)
        ↔ Legal (N - 1) 0 cs)) ∧
    ∀ qs, RefBook.init.AdmitsAll qs →
      ((∃ s evss, MEOrderBook.init.run qs = .ok (s, evss)) ↔ RefBook.init.FitsAll qs) := by
  have h₀ := PoolRuns.tracks_start (N := N) hN dflt
  refine ⟨?_, fun fuel hfuel => ?_, fun qs ha => ?_⟩
  · exact PoolRuns.takesNext_memPool.serves.returns_iff h₀ hl
  · exact (PoolRuns.takesNext_optMemPool hfuel).serves.returns_iff h₀ hl
  · exact run_returns_iff qs sim_init RefBook.inv_init ha

/-- One of two blocks, given back in between, serves any number of objects. -/
theorem pool_capacity_small :
    Legal 2 0 [Call.allocate 'a', .deallocate 0, .allocate 'b'] ∧
    ∃ s, MemPool.allocator.run (PoolRuns.start 2 ' ') [.allocate 'a', .deallocate 0, .allocate 'b']
      = .ok s :=
  ⟨by decide, (pool_capacity ' ' (by decide) (by decide)).1.mpr (by decide)⟩

/-- The second block of two: `MemPool` exits, and `OptMemPool` searches for
ever. -/
theorem pool_full :
    Legal 2 0 [Call.allocate 'a', .allocate 'b'] ∧
    MemPool.allocator.run (PoolRuns.start 2 ' ') [.allocate 'a', .allocate 'b']
      = .error MemPool.outOfSpace ∧
    ∀ fuel, (OptMemPool.allocator fuel).run (PoolRuns.start 2 ' ') [.allocate 'a', .allocate 'b']
      = .error .diverges := by
  refine ⟨by decide, rfl, fun fuel => ?_⟩
  rcases fuel with _ | _ | fuel
  · rfl
  · rfl
  · -- the first search ends at block 1, the second finds both blocks taken
    set m : OptMemPool Char :=
      ⟨Function.update (MemPool.init 2 ' ').store_ 0 ⟨'a', false⟩, 2, 1⟩ with hm
    have hvalid : m.Valid := ⟨by decide, rfl⟩
    have hfirst : (OptMemPool.allocator (fuel + 2)).call (PoolRuns.start 2 ' ') (.allocate 'a')
        = .ok ⟨m, [0]⟩ := rfl
    rcases OptMemPool.allocate_cases hvalid 'b' with ⟨m', _, hvalid', hsize, hstore⟩ | ⟨herr, _⟩
    · have hfree := hvalid'.free
      have hlt := hvalid'.lt
      rw [hsize] at hlt
      rw [MemPool.isFree_of_store hstore] at hfree
      have : m'.next_free_index_ = 0 ∨ m'.next_free_index_ = 1 := by
        change m'.next_free_index_ < 2 at hlt
        omega
      rcases this with h | h <;> rw [h] at hfree <;> exact absurd hfree (by decide)
    · have hsecond : (OptMemPool.allocator (fuel + 2)).call ⟨m, [0]⟩ (.allocate 'b')
          = .error .diverges := by
        simp only [Allocator.call, OptMemPool.allocator, herr]
        rfl
      simp only [Allocator.run, hfirst, exec_ok_bind, hsecond, exec_error_bind]

end LowLatency
