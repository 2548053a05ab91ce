import LowLatency.Common.OptMemPool
import LowLatency.Lib.Allocator

/-!
# Whole runs of the two memory pools

`MemPool` and `OptMemPool` as allocators of `Lib.Allocator`. Between calls a
pool tracks the program that uses it (`Tracks`): the blocks in use are the
program's live ones, each given out once, and `next_free_index_` designates a
free one.

What a call does to the pool is the same in both (`TakesNext`), up to how a full
pool ends: with its last free block taken, `allocate` still looks for another
one, and exits in `MemPool` or searches for ever in `OptMemPool`. So both serve
one object less than they have blocks.
-/

namespace LowLatency

open Lib (Allocator)
open Lib.Allocator (Call State Legal Serves)

variable {T : Type}

def MemPool.allocator : Allocator Fault (MemPool T) T := ⟨MemPool.allocate, MemPool.deallocate⟩

def OptMemPool.allocator (fuel : Nat) : Allocator Fault (OptMemPool T) T :=
  ⟨OptMemPool.allocate fuel, OptMemPool.deallocate⟩

namespace PoolRuns

/-- A new pool, and a program that holds nothing yet. -/
def start (N : Nat) (dflt : T) : State (MemPool T) := ⟨MemPool.init N dflt, []⟩

structure Tracks (N : Nat) (s : State (MemPool T)) : Prop where
  size : s.pool.size = N
  valid : s.pool.Valid
  nodup : s.live.Nodup
  used : ∀ p, s.pool.Used p ↔ p ∈ s.live

theorem tracks_start {N : Nat} (hN : 0 < N) (dflt : T) : Tracks N (start N dflt) where
  size := rfl
  valid := MemPool.valid_init hN dflt
  nodup := List.nodup_nil
  used := fun p => ⟨fun h => absurd h.2 (by simp [start, MemPool.init, MemPool.isFree]),
    fun h => absurd (h : p ∈ []) List.not_mem_nil⟩

variable {N : Nat} {s s' : State (MemPool T)}

theorem Tracks.lt (h : Tracks N s) {p : Nat} (hp : p ∈ s.live) : p < N :=
  h.size ▸ ((h.used p).mpr hp).1

/-- The block handed out next is not live. -/
theorem Tracks.next_not_live (h : Tracks N s) : s.pool.next_free_index_ ∉ s.live :=
  fun hm => h.valid.not_used ((h.used _).mpr hm)

/-- One block is free, so the program holds fewer than the pool has. -/
theorem Tracks.live_lt (h : Tracks N s) : s.live.length < N := by
  have hcard : s.pool.inUse = s.live.length := by
    unfold MemPool.inUse
    rw [← List.toFinset_card_of_nodup h.nodup]
    congr 1
    ext p
    rw [Finset.mem_filter, Finset.mem_range, List.mem_toFinset]
    exact h.used p
  have := h.valid.inUse_lt
  rw [hcard, h.size] at this
  exact this

/-! ## One call -/

theorem Tracks.allocate (h : Tracks N s) {x : T} {pool : MemPool T} (hvalid : pool.Valid)
    (hsize : pool.size = s.pool.size)
    (hstore : pool.store_ = Function.update s.pool.store_ s.pool.next_free_index_ ⟨x, false⟩) :
    Tracks N ⟨pool, s.live ++ [s.pool.next_free_index_]⟩ where
  size := hsize.trans h.size
  valid := hvalid
  nodup := by
    refine h.nodup.append (List.nodup_singleton _) ?_
    rw [List.disjoint_singleton]
    exact h.next_not_live
  used := fun p => by
    rw [MemPool.used_of_store hsize hstore h.valid.lt, h.used, List.mem_append,
      List.mem_singleton, or_comm]

theorem Tracks.deallocate (h : Tracks N s) {i : Nat} (hi : i < s.live.length) :
    Tracks N ⟨s.pool.release s.live[i], s.live.eraseIdx i⟩ where
  size := h.size
  valid := h.valid.release _
  nodup := h.nodup.sublist (List.eraseIdx_sublist ..)
  used := fun p => by
    rw [MemPool.used_release, h.used, ← h.nodup.erase_getElem i hi, h.nodup.mem_erase_iff, and_comm]

/-- What the two pools' calls have in common. -/
structure TakesNext (N : Nat) (A : Allocator Fault (MemPool T) T) : Prop where
  allocate : ∀ {m : MemPool T} (x : T), m.Valid → m.size = N →
    (∃ m', A.allocate m x = .ok (m.next_free_index_, m') ∧ m'.Valid ∧ m'.size = m.size ∧
      m'.store_ = Function.update m.store_ m.next_free_index_ ⟨x, false⟩) ∨
    ((∃ e, A.allocate m x = .error e) ∧
      ∀ q, q < m.size → q ≠ m.next_free_index_ → m.isFree q = false)
  deallocate : ∀ {m : MemPool T} {p : Nat}, m.Used p → A.deallocate m p = .ok (m.release p)

theorem takesNext_memPool : TakesNext N (MemPool.allocator : Allocator Fault (MemPool T) T) where
  allocate := fun x hm _ => by
    rcases MemPool.allocate_cases hm x with hok | ⟨herr, hfull⟩
    · exact Or.inl hok
    · exact Or.inr ⟨⟨_, herr⟩, hfull⟩
  deallocate := MemPool.deallocate_ok

theorem takesNext_optMemPool {fuel : Nat} (hfuel : N ≤ fuel) :
    TakesNext N (OptMemPool.allocator fuel : Allocator Fault (OptMemPool T) T) where
  allocate := fun x hm hsize => by
    rcases OptMemPool.allocate_cases hm x with ⟨m', hok, hrest⟩ | ⟨herr, hfull⟩
    · exact Or.inl ⟨m', hok fuel (hsize ▸ hfuel), hrest⟩
    · exact Or.inr ⟨⟨_, herr fuel⟩, hfull⟩
  deallocate := fun _ => rfl

variable {A : Allocator Fault (MemPool T) T}

/-- **An allocate that returned** handed out a block that was not live, filled
it, and left every other block as it was. -/
theorem TakesNext.call_allocate (hA : TakesNext N A) (h : Tracks N s) {x : T}
    (hc : A.call s (.allocate x) = .ok s') :
    Tracks N s' ∧ ∃ p, p ∉ s.live ∧ s'.live = s.live ++ [p] ∧
      ∀ q, s'.pool.get q = if q = p then x else s.pool.get q := by
  obtain ⟨p, hok, hlive⟩ := Allocator.call_allocate hc
  rcases hA.allocate x h.valid h.size with ⟨m', hok', hvalid, hsize, hstore⟩ | ⟨⟨e, herr⟩, _⟩
  · rw [hok] at hok'
    obtain ⟨rfl, rfl⟩ : p = s.pool.next_free_index_ ∧ s'.pool = m' := by simpa using hok'
    refine ⟨?_, _, h.next_not_live, hlive, MemPool.get_of_store hstore⟩
    have := h.allocate hvalid hsize hstore
    rwa [← hlive] at this
  · rw [herr] at hok
    exact absurd hok (by simp)

/-- **A deallocate** of a live block returns and changes no block's contents. -/
theorem TakesNext.call_deallocate (hA : TakesNext N A) (h : Tracks N s) {i : Nat}
    (hi : i < s.live.length) :
    ∃ s', A.call s (.deallocate i) = .ok s' ∧ Tracks N s' ∧ s'.live = s.live.eraseIdx i ∧
      ∀ q, s'.pool.get q = s.pool.get q := by
  have hp : s.live[i]? = some s.live[i] := List.getElem?_eq_getElem hi
  have hdel := hA.deallocate ((h.used _).mpr (List.getElem_mem hi))
  refine ⟨⟨s.pool.release s.live[i], s.live.eraseIdx i⟩, ?_, h.deallocate hi, rfl,
    MemPool.get_release _ _⟩
  simp only [Allocator.call, hp, hdel]
  rfl

/-- **Both pools serve `N - 1` objects.** -/
theorem TakesNext.serves (hA : TakesNext N A) : Serves A (Tracks N) (N - 1) where
  allocate := by
    intro s s' x h hc
    obtain ⟨h', p, _, hlive, _⟩ := hA.call_allocate h hc
    refine ⟨h', ?_⟩
    have := h'.live_lt
    rw [hlive, List.length_append, List.length_singleton] at this
    omega
  deallocate := by
    intro s s' i h hi hc
    obtain ⟨s₁, hok, h₁, _⟩ := hA.call_deallocate h hi
    rw [hc] at hok
    cases hok
    exact h₁
  allocate_returns := by
    intro s x h hlt
    rcases hA.allocate x h.valid h.size with ⟨m', hok, _⟩ | ⟨_, hfull⟩
    · refine ⟨⟨m', s.live ++ [s.pool.next_free_index_]⟩, ?_⟩
      simp only [Allocator.call, hok]
      rfl
    · -- all blocks but the next in use would be more than the program holds
      have := MemPool.size_le_of_full hfull (L := s.live) fun q hq => (h.used q).mp hq
      have hsize := h.size
      omega
  deallocate_returns := by
    intro s i h hi
    obtain ⟨s', hok, _⟩ := hA.call_deallocate h hi
    exact ⟨s', hok⟩

/-- **`MemPool` never hands out a live block.** In every program that keeps at
most `N - 1` objects live, after any of its calls the pool tracks the program,
and the next call returns: an `allocate` with a block that was not live, and
neither call touches the contents of a block that stays live. -/
theorem memPool_sound (dflt : T) (hN : 2 ≤ N) {cs : List (Call T)}
    (hl : Legal (N - 1) 0 cs) (pre post : List (Call T)) (hcs : cs = pre ++ post) :
    ∃ s, MemPool.allocator.run (start N dflt) pre = .ok s ∧ Tracks N s ∧
      ∀ c rest, post = c :: rest → ∃ s', MemPool.allocator.call s c = .ok s' ∧ Tracks N s' ∧
        (∀ x, c = .allocate x → ∃ p, p ∉ s.live ∧ s'.live = s.live ++ [p] ∧
          s'.pool.get p = x) ∧
        ∀ q ∈ s.live, q ∈ s'.live → s'.pool.get q = s.pool.get q := by
  subst hcs
  have hserves := (takesNext_memPool (T := T) (N := N)).serves
  have h₀ : Tracks N (start N dflt) := tracks_start (by omega) dflt
  obtain ⟨s, hrun⟩ := hserves.run_ok h₀ hl.left
  have hs := hserves.run_inv h₀ hl.left hrun
  refine ⟨s, hrun, hs, ?_⟩
  rintro c rest rfl
  have hrest := hl.rest (s := start N dflt) hrun
  cases c with
  | allocate x =>
    obtain ⟨s', hc⟩ := hserves.call_ok hs hrest
    obtain ⟨hs', p, hp, hlive, hget⟩ := takesNext_memPool.call_allocate hs hc
    refine ⟨s', hc, hs', ?_, ?_⟩
    · rintro y ⟨⟩
      exact ⟨p, hp, hlive, by rw [hget, if_pos rfl]⟩
    · intro q hq _
      have hne : q ≠ p := fun e => hp (e ▸ hq)
      rw [hget, if_neg hne]
  | deallocate i =>
    obtain ⟨s', hc, hs', _, hget⟩ := takesNext_memPool.call_deallocate hs hrest.1
    refine ⟨s', hc, hs', ?_, fun q _ _ => hget q⟩
    rintro x ⟨⟩

/-- A block freed behind the cursor, and the next one taken ahead of it. -/
theorem memPool_sound_small :
    Legal (3 - 1) 0 [Call.allocate 'a', .allocate 'b', .deallocate 0, .allocate 'c'] ∧
    ∃ s, MemPool.allocator.run (start 3 ' ') [.allocate 'a', .allocate 'b', .deallocate 0] = .ok s ∧
      ∃ s', MemPool.allocator.call s (.allocate 'c') = .ok s' ∧ ∃ p, p ∉ s.live ∧
        s'.live = s.live ++ [p] ∧ s'.pool.get p = 'c' := by
  have hl : Legal (3 - 1) 0 [Call.allocate 'a', .allocate 'b', .deallocate 0, .allocate 'c'] := by
    decide
  obtain ⟨s, hrun, _, hnext⟩ := memPool_sound ' ' (by decide) hl
    [.allocate 'a', .allocate 'b', .deallocate 0] [.allocate 'c'] rfl
  obtain ⟨s', hc, _, hnew, _⟩ := hnext _ _ rfl
  exact ⟨hl, s, hrun, s', hc, hnew _ rfl⟩

end PoolRuns

end LowLatency
