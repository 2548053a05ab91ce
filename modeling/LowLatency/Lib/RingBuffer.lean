import Mathlib.Data.Nat.ModEq
import Mathlib.Data.List.Basic
import Mathlib.Logic.Function.Basic

/-!
# A log kept in a circular store

A growing list `W` is written into a store of `N` cells, element `k` into cell
`k % N`. `Window N store W lo` says that every element from position `lo` on is
still where it was written. The window may be narrowed at its old end at any
time (`Window.mono`) and extended at its new end as long as it stays at most
`N` wide (`Window.write`), because `N` consecutive positions have `N` different
cells (`mod_ne_of_lt`). Nothing is said about how the two ends are tracked.
-/

namespace LowLatency.Lib

variable {T : Type}

/-- Two different positions less than `N` apart have different cells. -/
theorem mod_ne_of_lt {a b N : Nat} (hab : a < b) (hb : b < a + N) : a % N ≠ b % N := by
  intro h
  have hdvd : N ∣ b - a := (Nat.modEq_iff_dvd' hab.le).mp h
  have hle : N ≤ b - a := Nat.le_of_dvd (by omega) hdvd
  omega

/-- The elements of `W` from position `lo` on are all in their cells. -/
def Window (N : Nat) (store : Nat → T) (W : List T) (lo : Nat) : Prop :=
  ∀ k x, lo ≤ k → W[k]? = some x → store (k % N) = x

theorem Window.nil (N : Nat) (store : Nat → T) (lo : Nat) : Window N store [] lo := by
  intro k x _ hk
  simp at hk

theorem Window.mono {N : Nat} {store : Nat → T} {W : List T} {lo lo' : Nat}
    (h : Window N store W lo) (hlo : lo ≤ lo') : Window N store W lo' :=
  fun k x hk => h k x (hlo.trans hk)

/-- **Writing the next element** keeps every element of a window that is not
yet `N` wide. -/
theorem Window.write {N : Nat} {store : Nat → T} {W : List T} {lo : Nat} (x : T)
    (h : Window N store W lo) (hroom : W.length < lo + N) :
    Window N (Function.update store (W.length % N) x) (W ++ [x]) lo := by
  intro k y hk hy
  rcases Nat.lt_trichotomy k W.length with hlt | rfl | hgt
  · -- an older element: its cell is another one
    rw [List.getElem?_append_left hlt] at hy
    have hne : k % N ≠ W.length % N := mod_ne_of_lt hlt (by omega)
    rw [Function.update_of_ne hne]
    exact h k y hk hy
  · simp only [List.getElem?_concat_length, Option.some.injEq] at hy
    rw [Function.update_self, hy]
  · rw [List.getElem?_eq_none (by simp; omega)] at hy
    exact absurd hy (by simp)

end LowLatency.Lib
