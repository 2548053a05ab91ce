import LowLatency.Common.Types
import Mathlib.Data.Finset.Card
import Mathlib.Data.Finset.Range

/-!
# `MemPool`: the fixed-capacity block pool

`src/common/mem_pool.h`. The pool's `store_` never moves, so a block is named
by its index and an object pointer *is* that index; a freed block keeps its
last contents (no destructor runs), which is what a dangling pointer reads.

`allocate` takes the block at `next_free_index_` and then looks for the next
free one, once around the store. When there is none it exits, although the
block it was asked for has just been taken: a pool of `n` blocks serves only
`n - 1` live objects. `allocate_cases` states both outcomes, and everything
above this file uses the pool through it and through `deallocate_ok`.
-/

namespace LowLatency

structure ObjectBlock (T : Type) where
  object_ : T
  is_free_ : Bool

structure MemPool (T : Type) where
  store_ : Nat → ObjectBlock T
  size : Nat
  next_free_index_ : Nat

namespace MemPool

variable {T : Type}

/-- The constructor: `num_elems` free blocks. -/
def init (num_elems : Nat) (dflt : T) : MemPool T where
  store_ := fun _ => ⟨dflt, true⟩
  size := num_elems
  next_free_index_ := 0

/-- The object in block `p`, free or not. -/
def get (m : MemPool T) (p : Nat) : T := (m.store_ p).object_

def isFree (m : MemPool T) (p : Nat) : Bool := (m.store_ p).is_free_

/-- A write through an object pointer. -/
def set (m : MemPool T) (p : Nat) (x : T) : MemPool T :=
  { m with store_ := Function.update m.store_ p ⟨x, m.isFree p⟩ }

/-- Block `p` holds a live object. -/
def Used (m : MemPool T) (p : Nat) : Prop := p < m.size ∧ m.isFree p = false

/-- The loop of `updateNextFreeIndex`, started at `initial`. After one round
the search is back at `initial` and the `ASSERT` exits, so `size` iterations
are all it can make. -/
def updateNextFreeIndexLoop (store : Nat → ObjectBlock T) (size initial : Nat) :
    Nat → Nat → Exec Nat
  | 0, _ => .error .diverges
  | fuel + 1, next =>
    if (store next).is_free_ then .ok next
    else
      let next := next + 1
      let next := if next = size then 0 else next
      if initial = next then .error (.assertion "Memory Pool out of space.")
      else updateNextFreeIndexLoop store size initial fuel next

def updateNextFreeIndex (m : MemPool T) : Exec Nat :=
  updateNextFreeIndexLoop m.store_ m.size m.next_free_index_ m.size m.next_free_index_

def allocate (m : MemPool T) (x : T) : Exec (Nat × MemPool T) := do
  let ret := m.next_free_index_
  ASSERT (m.isFree ret) ("Expected free ObjectBlock at index:" ++ toString ret)
  let m := { m with store_ := Function.update m.store_ ret ⟨x, false⟩ }
  let next ← m.updateNextFreeIndex
  return (ret, { m with next_free_index_ := next })

def deallocate (m : MemPool T) (elem : Nat) : Exec (MemPool T) := do
  ASSERT (decide (elem < m.size)) "Element being deallocated does not belong to this Memory pool."
  ASSERT (!m.isFree elem) ("Expected in-use ObjectBlock at index:" ++ toString elem)
  return { m with store_ := Function.update m.store_ elem ⟨m.get elem, true⟩ }

/-- How `allocate` ends when the pool is full. -/
def outOfSpace : Fault := .assertion "Memory Pool out of space."

/-- Between calls `next_free_index_` designates a free block of the store. -/
structure Valid (m : MemPool T) : Prop where
  lt : m.next_free_index_ < m.size
  free : m.isFree m.next_free_index_ = true

/-! ## Reads after writes -/

theorem get_set (m : MemPool T) (p q : Nat) (x : T) :
    (m.set p x).get q = if q = p then x else m.get q := by
  by_cases h : q = p
  · subst h; simp [get, set]
  · simp [get, set, h]

@[simp] theorem isFree_set (m : MemPool T) (p q : Nat) (x : T) :
    (m.set p x).isFree q = m.isFree q := by
  by_cases h : q = p
  · subst h; simp [isFree, set]
  · simp [isFree, set, h]

@[simp] theorem size_set (m : MemPool T) (p : Nat) (x : T) : (m.set p x).size = m.size := rfl

@[simp] theorem next_free_index_set (m : MemPool T) (p : Nat) (x : T) :
    (m.set p x).next_free_index_ = m.next_free_index_ := rfl

theorem used_set {m : MemPool T} {p q : Nat} {x : T} : (m.set p x).Used q ↔ m.Used q := by
  simp [Used]

theorem Valid.set {m : MemPool T} (h : m.Valid) (p : Nat) (x : T) : (m.set p x).Valid :=
  ⟨h.lt, by rw [next_free_index_set, isFree_set]; exact h.free⟩

/-! ## The search for a free block -/

/-- One step of the search wraps around at the end of the store. -/
private theorem nextIndex_eq {size i : Nat} (h : i < size) :
    (if i + 1 = size then 0 else i + 1) = (i + 1) % size := by
  split
  next he => rw [he, Nat.mod_self]
  next hne => rw [Nat.mod_eq_of_lt (by omega)]

/-- The search stops at a free block when one lies ahead of `initial`. -/
private theorem loop_found (store : Nat → ObjectBlock T) {size : Nat} (initial : Nat) :
    ∀ (d fuel next : Nat), d < fuel → next < size →
      (store ((next + d) % size)).is_free_ = true →
      (∀ e, 0 < e → e ≤ d → (next + e) % size ≠ initial) →
      ∃ r, r < size ∧ (store r).is_free_ = true ∧
        updateNextFreeIndexLoop store size initial fuel next = .ok r := by
  intro d
  induction d with
  | zero =>
    intro fuel next hd hlt hfree _
    obtain ⟨fuel, rfl⟩ : ∃ f, fuel = f + 1 := ⟨fuel - 1, by omega⟩
    rw [Nat.add_zero, Nat.mod_eq_of_lt hlt] at hfree
    exact ⟨next, hlt, hfree, by rw [updateNextFreeIndexLoop, if_pos hfree]⟩
  | succ d ih =>
    intro fuel next hd hlt hfree hne
    obtain ⟨fuel, rfl⟩ : ∃ f, fuel = f + 1 := ⟨fuel - 1, by omega⟩
    by_cases hnext : (store next).is_free_ = true
    · exact ⟨next, hlt, hnext, by rw [updateNextFreeIndexLoop, if_pos hnext]⟩
    · have hstep : ∀ e, ((next + 1) % size + e) % size = (next + (e + 1)) % size := by
        intro e
        rw [Nat.mod_add_mod, Nat.add_assoc, Nat.add_comm 1 e]
      have hin : initial ≠ (next + 1) % size := fun he => hne 1 (by omega) (by omega) he.symm
      obtain ⟨r, hr, hrf, hrun⟩ := ih fuel ((next + 1) % size) (by omega)
        (Nat.mod_lt _ (by omega)) (by rw [hstep]; exact hfree)
        (fun e he hed => by rw [hstep]; exact hne (e + 1) (by omega) (by omega))
      refine ⟨r, hr, hrf, ?_⟩
      rw [updateNextFreeIndexLoop, if_neg hnext]
      simp only [nextIndex_eq hlt, if_neg hin]
      exact hrun

/-- When no block is free the search comes back to `initial` and exits. -/
private theorem loop_full {store : Nat → ObjectBlock T} {size : Nat} (initial : Nat)
    (hfull : ∀ q, q < size → (store q).is_free_ = false) :
    ∀ (d fuel next : Nat), d < fuel → next < size → (next + (d + 1)) % size = initial →
      updateNextFreeIndexLoop store size initial fuel next
        = .error (.assertion "Memory Pool out of space.") := by
  intro d
  induction d with
  | zero =>
    intro fuel next hd hlt hini
    obtain ⟨fuel, rfl⟩ : ∃ f, fuel = f + 1 := ⟨fuel - 1, by omega⟩
    rw [updateNextFreeIndexLoop, if_neg (by rw [hfull next hlt]; simp)]
    simp only [nextIndex_eq hlt]
    rw [if_pos hini.symm]
  | succ d ih =>
    intro fuel next hd hlt hini
    obtain ⟨fuel, rfl⟩ : ∃ f, fuel = f + 1 := ⟨fuel - 1, by omega⟩
    rw [updateNextFreeIndexLoop, if_neg (by rw [hfull next hlt]; simp)]
    simp only [nextIndex_eq hlt]
    split
    next => rfl
    next =>
      refine ih fuel _ (by omega) (Nat.mod_lt _ (by omega)) ?_
      rw [← hini, Nat.mod_add_mod]
      congr 1
      omega

/-! ## What the two calls do -/

/-- The pool right after block `next_free_index_` is filled. -/
private theorem filled_isFree (m : MemPool T) (x : T) (q : Nat) :
    (Function.update m.store_ m.next_free_index_ ⟨x, false⟩ q).is_free_
      = if q = m.next_free_index_ then false else m.isFree q := by
  by_cases h : q = m.next_free_index_
  · subst h; simp
  · simp [h, isFree]

/-- **Allocation** hands out the block at `next_free_index_` as long as another
free block is left; otherwise it exits with the pool's own message. -/
theorem allocate_cases {m : MemPool T} (hm : m.Valid) (x : T) :
    (∃ m', m.allocate x = .ok (m.next_free_index_, m') ∧ m'.Valid ∧ m'.size = m.size ∧
      m'.store_ = Function.update m.store_ m.next_free_index_ ⟨x, false⟩) ∨
    (m.allocate x = .error (.assertion "Memory Pool out of space.") ∧
      ∀ q, q < m.size → q ≠ m.next_free_index_ → m.isFree q = false) := by
  have hpos : 0 < m.size := Nat.lt_of_le_of_lt (Nat.zero_le _) hm.lt
  by_cases hex : ∃ q, q < m.size ∧ q ≠ m.next_free_index_ ∧ m.isFree q = true
  · left
    obtain ⟨q, hq, hne, hfree⟩ := hex
    -- `q` lies `d` steps ahead of the filled block, and `d` is not a full round
    have hd : ∃ d, 0 < d ∧ d < m.size ∧ (m.next_free_index_ + d) % m.size = q := by
      have hlt := hm.lt
      rcases Nat.lt_or_gt_of_ne hne with h | h
      · refine ⟨m.size - m.next_free_index_ + q, by omega, by omega, ?_⟩
        rw [show m.next_free_index_ + (m.size - m.next_free_index_ + q) = q + m.size by omega,
          Nat.add_mod_right, Nat.mod_eq_of_lt hq]
      · exact ⟨q - m.next_free_index_, by omega, by omega,
          by rw [Nat.add_sub_cancel' (Nat.le_of_lt h), Nat.mod_eq_of_lt hq]⟩
    obtain ⟨d, _, hds, hdq⟩ := hd
    obtain ⟨r, hr, hrf, hrun⟩ := loop_found
      (Function.update m.store_ m.next_free_index_ ⟨x, false⟩)
      m.next_free_index_ d m.size m.next_free_index_ hds hm.lt
      (by rw [hdq, filled_isFree, if_neg hne]; exact hfree)
      (by
        intro e he hed heq
        have hlt := hm.lt
        rcases Nat.lt_or_ge (m.next_free_index_ + e) m.size with h | h
        · rw [Nat.mod_eq_of_lt h] at heq
          omega
        · rw [Nat.mod_eq_sub_mod h, Nat.mod_eq_of_lt (by omega)] at heq
          omega)
    refine ⟨{ m with
      store_ := Function.update m.store_ m.next_free_index_ ⟨x, false⟩
      next_free_index_ := r }, ?_, ⟨hr, hrf⟩, rfl, rfl⟩
    simp only [allocate, hm.free, ASSERT_true, updateNextFreeIndex, hrun]
    rfl
  · right
    have hnone : ∀ q, q < m.size → q ≠ m.next_free_index_ → m.isFree q = false := by
      intro q hq hne
      cases hfq : m.isFree q with
      | false => rfl
      | true => exact absurd ⟨q, hq, hne, hfq⟩ hex
    refine ⟨?_, hnone⟩
    have hfull : ∀ q, q < m.size →
        (Function.update m.store_ m.next_free_index_ ⟨x, false⟩ q).is_free_ = false := by
      intro q hq
      rw [filled_isFree]
      split
      next => rfl
      next hne => exact hnone q hq hne
    have hrun := loop_full m.next_free_index_ hfull
      (m.size - 1) m.size m.next_free_index_ (by omega) hm.lt
      (by rw [show m.size - 1 + 1 = m.size by omega, Nat.add_mod_right, Nat.mod_eq_of_lt hm.lt])
    simp only [allocate, hm.free, ASSERT_true, updateNextFreeIndex, hrun]
    rfl

/-- What `allocate` does when it returns, whatever the pool. -/
theorem allocate_inv {m m' : MemPool T} {x : T} {n : Nat} (h : m.allocate x = .ok (n, m')) :
    n = m.next_free_index_ ∧ m'.store_ = Function.update m.store_ n ⟨x, false⟩ := by
  unfold allocate at h
  dsimp only at h
  obtain ⟨_, _, h⟩ := exec_bind_ok h
  obtain ⟨_, _, h⟩ := exec_bind_ok h
  obtain ⟨rfl, rfl⟩ : m.next_free_index_ = n ∧ _ = m' := by simpa using h
  exact ⟨rfl, rfl⟩

/-- The block handed out was free. -/
theorem allocate_free {m m' : MemPool T} {x : T} {n : Nat} (h : m.allocate x = .ok (n, m')) :
    m.isFree n = true := by
  obtain ⟨rfl, _⟩ := allocate_inv h
  unfold allocate at h
  dsimp only at h
  obtain ⟨_, hfree, _⟩ := exec_bind_ok h
  exact ASSERT_ok hfree

/-- Reads from a pool one block of which was filled. -/
theorem get_of_store {m m' : MemPool T} {n : Nat} {x : T}
    (h : m'.store_ = Function.update m.store_ n ⟨x, false⟩) (q : Nat) :
    m'.get q = if q = n then x else m.get q := by
  unfold get
  rw [h]
  by_cases hq : q = n
  · subst hq; simp
  · simp [hq]

theorem isFree_of_store {m m' : MemPool T} {n : Nat} {x : T}
    (h : m'.store_ = Function.update m.store_ n ⟨x, false⟩) (q : Nat) :
    m'.isFree q = if q = n then false else m.isFree q := by
  unfold isFree
  rw [h]
  by_cases hq : q = n
  · subst hq; simp
  · simp [hq]

theorem used_of_store {m m' : MemPool T} {n : Nat} {x : T} (hsize : m'.size = m.size)
    (h : m'.store_ = Function.update m.store_ n ⟨x, false⟩) (hn : n < m.size) {q : Nat} :
    m'.Used q ↔ q = n ∨ m.Used q := by
  unfold Used
  rw [hsize, isFree_of_store h]
  by_cases hq : q = n
  · simp [hq, hn]
  · simp [hq]

/-- The pool with block `p` marked free. -/
def release (m : MemPool T) (p : Nat) : MemPool T :=
  { m with store_ := Function.update m.store_ p ⟨m.get p, true⟩ }

/-- **Deallocation** of a live block succeeds and changes its flag only. -/
theorem deallocate_ok {m : MemPool T} {p : Nat} (hp : m.Used p) :
    m.deallocate p = .ok (m.release p) := by
  have hlt : decide (p < m.size) = true := decide_eq_true hp.1
  simp only [deallocate, hlt, hp.2, Bool.not_false, ASSERT_true]
  rfl

@[simp] theorem get_release (m : MemPool T) (p q : Nat) : (m.release p).get q = m.get q := by
  unfold get release
  by_cases h : q = p
  · subst h; simp [get]
  · simp [h]

theorem isFree_release (m : MemPool T) (p q : Nat) :
    (m.release p).isFree q = if q = p then true else m.isFree q := by
  unfold isFree release
  by_cases h : q = p
  · subst h; simp
  · simp [h]

@[simp] theorem size_release (m : MemPool T) (p : Nat) : (m.release p).size = m.size := rfl

/-- Freeing a block keeps the pool valid. -/
theorem Valid.release {m : MemPool T} (h : m.Valid) (p : Nat) : (m.release p).Valid := by
  refine ⟨h.lt, ?_⟩
  rw [isFree_release]
  split
  · rfl
  · exact h.free

theorem used_release {m : MemPool T} {p q : Nat} :
    (m.release p).Used q ↔ m.Used q ∧ q ≠ p := by
  unfold Used
  rw [isFree_release, size_release]
  by_cases hq : q = p
  · simp [hq]
  · simp [hq]

/-- The block handed out next is not in use. -/
theorem Valid.not_used {m : MemPool T} (h : m.Valid) : ¬ m.Used m.next_free_index_ := by
  intro hused
  have hfree := hused.2
  rw [h.free] at hfree
  exact absurd hfree (by simp)

theorem Used.release {m : MemPool T} {p q : Nat} (h : m.Used q) (hne : q ≠ p) :
    (m.release p).Used q :=
  ⟨h.1, by rw [isFree_release, if_neg hne]; exact h.2⟩

theorem valid_init {n : Nat} (h : 0 < n) (dflt : T) : (init n dflt).Valid := ⟨h, rfl⟩

/-- Only a live block can be deallocated. -/
theorem deallocate_inv {m m' : MemPool T} {p : Nat} (h : m.deallocate p = .ok m') :
    m.Used p ∧ m' = m.release p := by
  have hp : m.Used p := by
    unfold deallocate at h
    obtain ⟨_, hlt, h⟩ := exec_bind_ok h
    obtain ⟨_, hfree, _⟩ := exec_bind_ok h
    refine ⟨of_decide_eq_true (ASSERT_ok hlt), ?_⟩
    simpa using ASSERT_ok hfree
  rw [deallocate_ok hp] at h
  exact ⟨hp, (Except.ok.inj h).symm⟩

/-! ## How many blocks are in use -/

def inUse (m : MemPool T) : Nat :=
  ((Finset.range m.size).filter fun p => m.isFree p = false).card

theorem inUse_congr {m m' : MemPool T} (hsize : m'.size = m.size) (hfree : m'.isFree = m.isFree) :
    m'.inUse = m.inUse := by
  unfold inUse
  rw [hsize, hfree]

theorem inUse_fill {m m' : MemPool T} {n : Nat} (hsize : m'.size = m.size)
    (hfree : ∀ q, m'.isFree q = if q = n then false else m.isFree q) (hn : n < m.size)
    (hwas : m.isFree n = true) : m'.inUse = m.inUse + 1 := by
  have hset : ((Finset.range m'.size).filter fun p => m'.isFree p = false)
      = insert n ((Finset.range m.size).filter fun p => m.isFree p = false) := by
    ext q
    simp only [Finset.mem_filter, Finset.mem_range, Finset.mem_insert, hsize, hfree]
    by_cases hq : q = n
    · simp [hq, hn]
    · simp [hq]
  unfold inUse
  rw [hset, Finset.card_insert_of_notMem]
  simp [hwas]

theorem inUse_release {m : MemPool T} {p : Nat} (hp : m.Used p) :
    (m.release p).inUse + 1 = m.inUse := by
  refine (inUse_fill (m := m.release p) (n := p) (size_release m p).symm (fun q => ?_) hp.1 ?_).symm
  · rw [isFree_release]
    by_cases hq : q = p
    · rw [if_pos hq, hq, hp.2]
    · rw [if_neg hq, if_neg hq]
  · rw [isFree_release, if_pos rfl]

/-- The block at `next_free_index_` is not in use. -/
theorem Valid.inUse_lt {m : MemPool T} (h : m.Valid) : m.inUse < m.size := by
  have hlt : ((Finset.range m.size).filter fun p => m.isFree p = false).card
      < (Finset.range m.size).card := by
    refine Finset.card_lt_card (Finset.filter_ssubset.mpr ⟨m.next_free_index_, ?_, ?_⟩)
    · exact Finset.mem_range.mpr h.lt
    · simp [h.free]
  rwa [Finset.card_range] at hlt

/-- A pool whose only free block is the next one. -/
theorem Valid.inUse_full {m : MemPool T} (h : m.Valid)
    (hfull : ∀ q, q < m.size → q ≠ m.next_free_index_ → m.isFree q = false) :
    m.inUse + 1 = m.size := by
  have hset : ((Finset.range m.size).filter fun p => m.isFree p = false)
      = (Finset.range m.size).erase m.next_free_index_ := by
    ext q
    simp only [Finset.mem_filter, Finset.mem_range, Finset.mem_erase]
    constructor
    · rintro ⟨hq, hused⟩
      refine ⟨?_, hq⟩
      intro he
      rw [he, h.free] at hused
      exact absurd hused (by simp)
    · rintro ⟨hne, hq⟩
      exact ⟨hq, hfull q hq hne⟩
  unfold inUse
  rw [hset, Finset.card_erase_of_mem (Finset.mem_range.mpr h.lt), Finset.card_range]
  have := h.lt
  omega

theorem inUse_init (n : Nat) (dflt : T) : (init n dflt).inUse = 0 := by
  unfold inUse
  rw [Finset.card_eq_zero, Finset.filter_eq_empty_iff]
  intro q _ h
  exact absurd h (by simp [init, isFree])

/-- Pool `m'` is `m` with the blocks `L` given back. -/
structure Released (m m' : MemPool T) (L : List Nat) : Prop where
  get : ∀ q, m'.get q = m.get q
  size : m'.size = m.size
  free : ∀ q, m'.isFree q = (m.isFree q || decide (q ∈ L))
  valid : m.Valid → m'.Valid
  inUse : m'.inUse + L.length = m.inUse

theorem Released.nil (m : MemPool T) : Released m m [] :=
  ⟨fun _ => rfl, rfl, fun q => by simp, id, rfl⟩

theorem Released.cons {m m' : MemPool T} {p : Nat} {L : List Nat} (hp : m.Used p)
    (h : Released (m.release p) m' L) : Released m m' (p :: L) where
  get := fun q => (h.get q).trans (get_release ..)
  size := h.size
  free := by
    intro q
    rw [h.free, isFree_release]
    by_cases hq : q = p <;> simp [hq]
  valid := fun hv => h.valid (hv.release p)
  inUse := by
    have hone := inUse_release hp
    have := h.inUse
    rw [List.length_cons]
    omega

theorem Released.trans {m m₁ m₂ : MemPool T} {L₁ L₂ : List Nat} (h₁ : Released m m₁ L₁)
    (h₂ : Released m₁ m₂ L₂) : Released m m₂ (L₁ ++ L₂) where
  get := fun q => (h₂.get q).trans (h₁.get q)
  size := h₂.size.trans h₁.size
  free := by
    intro q
    rw [h₂.free, h₁.free]
    simp [List.mem_append, Bool.or_assoc]
  valid := fun hv => h₂.valid (h₁.valid hv)
  inUse := by
    have := h₁.inUse
    have := h₂.inUse
    rw [List.length_append]
    omega

theorem Released.perm {m m' : MemPool T} {L L' : List Nat} (h : Released m m' L)
    (hp : L.Perm L') : Released m m' L' where
  get := h.get
  size := h.size
  free := fun q => by rw [h.free q, decide_eq_decide.mpr hp.mem_iff]
  valid := h.valid
  inUse := hp.length_eq ▸ h.inUse

theorem Released.used_iff {m m' : MemPool T} {L : List Nat} (h : Released m m' L) {q : Nat} :
    m'.Used q ↔ m.Used q ∧ q ∉ L := by
  unfold Used
  rw [h.size, h.free]
  simp [and_assoc]

/-- A list of fewer than `n` distinct blocks misses one. -/
theorem exists_not_mem {n : Nat} {l : List Nat} (h : l.length < n) : ∃ q, q < n ∧ q ∉ l := by
  have hcard : l.toFinset.card < (Finset.range n).card := by
    rw [Finset.card_range]
    exact Nat.lt_of_le_of_lt (List.toFinset_card_le l) h
  obtain ⟨q, hq, hnot⟩ := Finset.exists_mem_notMem_of_card_lt_card hcard
  exact ⟨q, Finset.mem_range.mp hq, fun hm => hnot (List.mem_toFinset.mpr hm)⟩

/-- A list of all blocks in use of a full pool has at most one block less than
the pool. -/
theorem size_le_of_full {m : MemPool T}
    (hfull : ∀ q, q < m.size → q ≠ m.next_free_index_ → m.isFree q = false) {L : List Nat}
    (hL : ∀ q, m.Used q → q ∈ L) : m.size ≤ L.length + 1 := by
  by_contra hlt
  obtain ⟨q, hq, hnot⟩ := exists_not_mem (n := m.size) (l := m.next_free_index_ :: L)
    (by simp only [List.length_cons]; omega)
  have hne : q ≠ m.next_free_index_ := fun e => hnot (by rw [e]; exact List.mem_cons_self ..)
  exact hnot (List.mem_cons_of_mem _ (hL q ⟨hq, hfull q hq hne⟩))

/-- Besides the next block one more is free, which is what `allocate` needs. -/
def HasSpare (m : MemPool T) : Prop :=
  ∃ q, q < m.size ∧ q ≠ m.next_free_index_ ∧ m.isFree q = true

theorem HasSpare.allocate {m : MemPool T} (h : m.HasSpare) (hm : m.Valid) (x : T) :
    ∃ m', m.allocate x = .ok (m.next_free_index_, m') ∧ m'.Valid ∧ m'.size = m.size ∧
      m'.store_ = Function.update m.store_ m.next_free_index_ ⟨x, false⟩ := by
  rcases allocate_cases hm x with hok | ⟨_, hfull⟩
  · exact hok
  · obtain ⟨q, hq, hne, hfree⟩ := h
    rw [hfull q hq hne] at hfree
    exact absurd hfree (by simp)

theorem allocate_of_not_hasSpare {m : MemPool T} (h : ¬ m.HasSpare) (hm : m.Valid) (x : T) :
    m.allocate x = .error outOfSpace := by
  rcases allocate_cases hm x with ⟨m', _, hvalid, hsize, hstore⟩ | ⟨herr, _⟩
  · -- the next block found is one more free block
    have hfree := hvalid.free
    rw [isFree_of_store hstore] at hfree
    refine absurd ⟨m'.next_free_index_, hsize ▸ hvalid.lt, ?_, ?_⟩ h
    · intro he
      rw [if_pos he] at hfree
      exact absurd hfree (by simp)
    · split at hfree
      · exact absurd hfree (by simp)
      · exact hfree
  · exact herr

/-- Of two free blocks one is not the next. -/
theorem hasSpare_of_ne {m : MemPool T} {p q : Nat} (hp : p < m.size) (hq : q < m.size)
    (hne : p ≠ q) (hfp : m.isFree p = true) (hfq : m.isFree q = true) : m.HasSpare := by
  by_cases hnext : p = m.next_free_index_
  · exact ⟨q, hq, fun he => hne (hnext.trans he.symm), hfq⟩
  · exact ⟨p, hp, hnext, hfp⟩

/-- When blocks are given back, any one of them is a spare. -/
theorem hasSpare_iff_of_released {m m' : MemPool T} (hm : m.Valid) (hm' : m'.Valid)
    (hsize : m'.size = m.size) (hused : ∀ p, m'.Used p → m.Used p) :
    m'.HasSpare ↔ m.HasSpare ∨ ∃ p, m.Used p ∧ ¬ m'.Used p := by
  have hfree : ∀ {p}, p < m.size → m.isFree p = true → m'.isFree p = true := by
    intro p hp hf
    by_contra hne
    have hf' := (hused p ⟨hsize.symm ▸ hp, Bool.not_eq_true _ ▸ hne⟩).2
    rw [hf] at hf'
    exact absurd hf' (by simp)
  constructor
  · intro h
    obtain ⟨q, hq, hne, hfq⟩ := h
    -- the next block and `q` are free now; both were before, or one was given back
    have hback : ∀ p, p < m.size → m'.isFree p = true → m.isFree p = true ∨
        m.Used p ∧ ¬ m'.Used p := by
      intro p hp hf
      cases hfp : m.isFree p with
      | true => exact Or.inl rfl
      | false => exact Or.inr ⟨⟨hp, hfp⟩, fun hu => absurd (hf.symm.trans hu.2) (by simp)⟩
    rcases hback q (hsize ▸ hq) hfq with hfq₀ | hgone
    · rcases hback m'.next_free_index_ (hsize ▸ hm'.lt) hm'.free with hfn₀ | hgone
      · exact Or.inl (hasSpare_of_ne (hsize ▸ hq) (hsize ▸ hm'.lt) hne hfq₀ hfn₀)
      · exact Or.inr ⟨_, hgone⟩
    · exact Or.inr ⟨_, hgone⟩
  · rintro (⟨q, hq, hne, hfq⟩ | ⟨p, hp, hgone⟩)
    · exact hasSpare_of_ne (hsize.symm ▸ hq) (hsize.symm ▸ hm.lt) hne (hfree hq hfq)
        (hfree hm.lt hm.free)
    · have hfp : m'.isFree p = true := by
        by_contra hne
        exact hgone ⟨hsize.symm ▸ hp.1, Bool.not_eq_true _ ▸ hne⟩
      refine hasSpare_of_ne (hsize.symm ▸ hp.1) (hsize.symm ▸ hm.lt) (fun he => ?_) hfp
        (hfree hm.lt hm.free)
      exact hm.not_used (he ▸ hp)

end MemPool

end LowLatency
