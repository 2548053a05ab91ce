import Mathlib.Data.List.Basic

/-!
# Allocators: a program that takes and returns blocks

An allocator hands out a block name for an object and takes blocks back. The
program that uses it is a list of calls (`run`). It only has the blocks it was
given, so what it deallocates it names by position among its live ones, oldest
first; which addresses it received is up to the allocator. `Legal n` therefore
speaks of the calls alone: the program never has more than `n` live blocks, and
every deallocation names one of them.

`Safe` collects what the steps of a partially correct allocator of capacity
`cap` keep, `Serves` adds that it returns whenever the capacity allows it. Then
`Serves.returns_iff`: a program whose deallocations are legal gets through
exactly when it stays within `cap`.
-/

namespace LowLatency.Lib

structure Allocator (ε σ α : Type) where
  allocate : σ → α → Except ε (Nat × σ)
  deallocate : σ → Nat → Except ε σ

namespace Allocator

variable {ε σ α : Type}

inductive Call (α : Type)
  | allocate (x : α)
  | deallocate (i : Nat)
deriving Repr

/-- The pool, and the program's live blocks in the order it got them. -/
structure State (σ : Type) where
  pool : σ
  live : List Nat

/-- One call. A position that holds no block is no call, and `Legal` rules it
out. -/
def call (A : Allocator ε σ α) (s : State σ) : Call α → Except ε (State σ)
  | .allocate x => do
    let (p, pool) ← A.allocate s.pool x
    return ⟨pool, s.live ++ [p]⟩
  | .deallocate i =>
    match s.live[i]? with
    | none => return s
    | some p => do
      let pool ← A.deallocate s.pool p
      return ⟨pool, s.live.eraseIdx i⟩

def run (A : Allocator ε σ α) (s : State σ) : List (Call α) → Except ε (State σ)
  | [] => .ok s
  | c :: cs => do
    let s ← A.call s c
    A.run s cs

/-- With `k` live blocks at the start, the calls never have more than `n` live
and deallocate live ones only. -/
def Legal (n : Nat) : Nat → List (Call α) → Prop
  | _, [] => True
  | k, .allocate _ :: cs => k < n ∧ Legal n (k + 1) cs
  | k, .deallocate i :: cs => i < k ∧ Legal n (k - 1) cs

instance decidableLegal (n : Nat) : (k : Nat) → (cs : List (Call α)) → Decidable (Legal n k cs)
  | _, [] => inferInstanceAs (Decidable True)
  | k, .allocate _ :: cs =>
    have := decidableLegal n (k + 1) cs
    inferInstanceAs (Decidable (k < n ∧ Legal n (k + 1) cs))
  | k, .deallocate i :: cs =>
    have := decidableLegal n (k - 1) cs
    inferInstanceAs (Decidable (i < k ∧ Legal n (k - 1) cs))

/-! ## What one call does -/

variable {A : Allocator ε σ α} {s s' : State σ}

theorem call_allocate {x : α} (h : A.call s (.allocate x) = .ok s') :
    ∃ p, A.allocate s.pool x = .ok (p, s'.pool) ∧ s'.live = s.live ++ [p] := by
  cases hA : A.allocate s.pool x with
  | error e =>
    simp only [call, hA] at h
    exact absurd h (by simp [bind, Except.bind])
  | ok r =>
    simp only [call, hA] at h
    cases h
    exact ⟨r.1, rfl, rfl⟩

theorem call_deallocate {i : Nat} (hi : i < s.live.length)
    (h : A.call s (.deallocate i) = .ok s') :
    A.deallocate s.pool s.live[i] = .ok s'.pool ∧ s'.live = s.live.eraseIdx i := by
  have hp : s.live[i]? = some s.live[i] := List.getElem?_eq_getElem hi
  cases hA : A.deallocate s.pool s.live[i] with
  | error e =>
    simp only [call, hp, hA] at h
    exact absurd h (by simp [bind, Except.bind])
  | ok pool =>
    simp only [call, hp, hA] at h
    cases h
    exact ⟨rfl, rfl⟩

theorem run_cons {c : Call α} {cs : List (Call α)} (h : A.run s (c :: cs) = .ok s') :
    ∃ s₁, A.call s c = .ok s₁ ∧ A.run s₁ cs = .ok s' := by
  cases hc : A.call s c with
  | error e =>
    simp only [run, hc] at h
    exact absurd h (by simp [bind, Except.bind])
  | ok s₁ =>
    simp only [run, hc] at h
    exact ⟨s₁, rfl, h⟩

/-- A legal call leaves a legal rest. -/
theorem Legal.step {n : Nat} {c : Call α} {cs : List (Call α)}
    (h : Legal n s.live.length (c :: cs)) (hc : A.call s c = .ok s') :
    Legal n s'.live.length cs := by
  cases c with
  | allocate x =>
    obtain ⟨p, _, hlive⟩ := call_allocate hc
    rw [hlive, List.length_append]
    exact h.2
  | deallocate i =>
    obtain ⟨_, hlive⟩ := call_deallocate h.1 hc
    rw [hlive, List.length_eraseIdx_of_lt h.1]
    exact h.2

/-- After the first calls of a legal program the others are legal. -/
theorem Legal.rest {n : Nat} {pre post : List (Call α)}
    (h : Legal n s.live.length (pre ++ post)) (hrun : A.run s pre = .ok s') :
    Legal n s'.live.length post := by
  induction pre generalizing s with
  | nil =>
    cases hrun
    exact h
  | cons c cs ih =>
    obtain ⟨s₁, hc, hcs⟩ := run_cons hrun
    exact ih (h.step hc) hcs

theorem Legal.left {n : Nat} {pre post : List (Call α)} {k : Nat} (h : Legal n k (pre ++ post)) :
    Legal n k pre := by
  induction pre generalizing k with
  | nil => trivial
  | cons c cs ih =>
    cases c with
    | allocate x => exact ⟨h.1, ih h.2⟩
    | deallocate i => exact ⟨h.1, ih h.2⟩

/-! ## Capacity -/

/-- What returning calls keep: `Inv` survives them, and the block beyond `cap`
is never handed out. -/
structure Safe (A : Allocator ε σ α) (Inv : State σ → Prop) (cap : Nat) : Prop where
  allocate : ∀ {s s' : State σ} {x : α}, Inv s → A.call s (.allocate x) = .ok s' →
    Inv s' ∧ s.live.length < cap
  deallocate : ∀ {s s' : State σ} {i : Nat}, Inv s → i < s.live.length →
    A.call s (.deallocate i) = .ok s' → Inv s'

/-- And calls within the capacity do return. -/
structure Serves (A : Allocator ε σ α) (Inv : State σ → Prop) (cap : Nat) : Prop
    extends Safe A Inv cap where
  allocate_returns : ∀ {s : State σ} (x : α), Inv s → s.live.length < cap →
    ∃ s', A.call s (.allocate x) = .ok s'
  deallocate_returns : ∀ {s : State σ} {i : Nat}, Inv s → i < s.live.length →
    ∃ s', A.call s (.deallocate i) = .ok s'

variable {Inv : State σ → Prop} {n cap : Nat} {cs : List (Call α)}

theorem Safe.call_inv (h : Safe A Inv cap) {c : Call α} (hinv : Inv s)
    (hl : Legal n s.live.length (c :: cs)) (hc : A.call s c = .ok s') : Inv s' := by
  cases c with
  | allocate x => exact (h.allocate hinv hc).1
  | deallocate i => exact h.deallocate hinv hl.1 hc

theorem Safe.run_inv (h : Safe A Inv cap) (hinv : Inv s) (hl : Legal n s.live.length cs)
    (hrun : A.run s cs = .ok s') : Inv s' := by
  induction cs generalizing s with
  | nil =>
    cases hrun
    exact hinv
  | cons c cs ih =>
    obtain ⟨s₁, hc, hcs⟩ := run_cons hrun
    exact ih (h.call_inv hinv hl hc) (hl.step hc) hcs

/-- **A program that got through stayed within the capacity.** -/
theorem Safe.legal_of_run (h : Safe A Inv cap) (hinv : Inv s) (hl : Legal n s.live.length cs)
    (hrun : A.run s cs = .ok s') : Legal cap s.live.length cs := by
  induction cs generalizing s with
  | nil => trivial
  | cons c cs ih =>
    obtain ⟨s₁, hc, hcs⟩ := run_cons hrun
    have hrest := ih (h.call_inv hinv hl hc) (hl.step hc) hcs
    cases c with
    | allocate x =>
      obtain ⟨p, _, hlive⟩ := call_allocate hc
      rw [hlive, List.length_append] at hrest
      exact ⟨(h.allocate hinv hc).2, hrest⟩
    | deallocate i =>
      obtain ⟨_, hlive⟩ := call_deallocate hl.1 hc
      rw [hlive, List.length_eraseIdx_of_lt hl.1] at hrest
      exact ⟨hl.1, hrest⟩

theorem Serves.call_ok (h : Serves A Inv cap) {c : Call α} (hinv : Inv s)
    (hl : Legal cap s.live.length (c :: cs)) : ∃ s', A.call s c = .ok s' := by
  cases c with
  | allocate x => exact h.allocate_returns x hinv hl.1
  | deallocate i => exact h.deallocate_returns hinv hl.1

/-- **A program within the capacity gets through.** -/
theorem Serves.run_ok (h : Serves A Inv cap) (hinv : Inv s) (hl : Legal cap s.live.length cs) :
    ∃ s', A.run s cs = .ok s' := by
  induction cs generalizing s with
  | nil => exact ⟨s, rfl⟩
  | cons c cs ih =>
    obtain ⟨s₁, hc⟩ := h.call_ok hinv hl
    obtain ⟨s', hrun⟩ := ih (h.call_inv hinv hl hc) (hl.step hc)
    refine ⟨s', ?_⟩
    simp only [run, hc]
    exact hrun

theorem Serves.returns_iff (h : Serves A Inv cap) (hinv : Inv s) (hl : Legal n s.live.length cs) :
    (∃ s', A.run s cs = .ok s') ↔ Legal cap s.live.length cs := by
  constructor
  · rintro ⟨s', hrun⟩
    exact h.legal_of_run hinv hl hrun
  · exact h.run_ok hinv

end Allocator

end LowLatency.Lib
