import Mathlib.Data.List.Basic

/-!
# Ranges of a buffer

A buffer is its contents by address. `slice buf i n` is the range of `n` entries
from address `i` on, and the lemmas say what `memcpy` and `memmove` make of a
range: written behind it, data is appended to it, and moved to the front it is
the same range.
-/

namespace LowLatency.Lib

variable {β : Type}

/-- The `n` entries from address `i` on. -/
def slice (buf : Nat → β) (i n : Nat) : List β := (List.range' i n).map buf

/-- Copy `data` to address `dst`. -/
def memcpy (buf : Nat → β) (dst : Nat) (data : List β) : Nat → β :=
  fun k => if k < dst then buf k else (data[k - dst]?).getD (buf k)

/-- Move the `n` entries from address `src` on to the front. -/
def memmove (buf : Nat → β) (src n : Nat) : Nat → β :=
  fun k => if k < n then buf (src + k) else buf k

/-- The `n` entries from `dst` on and those from `src` on have no address in
common. `memcpy` asks for that, `memmove` does not. -/
def Apart (dst src n : Nat) : Prop := ∀ k < n, ∀ l < n, dst + k ≠ src + l

@[simp] theorem length_slice (buf : Nat → β) (i n : Nat) : (slice buf i n).length = n := by
  simp [slice]

theorem getElem?_slice {buf : Nat → β} {i n k : Nat} (h : k < n) :
    (slice buf i n)[k]? = some (buf (i + k)) := by
  simp [slice, h]

theorem slice_add (buf : Nat → β) (i m n : Nat) :
    slice buf i (m + n) = slice buf i m ++ slice buf (i + m) n := by
  unfold slice
  rw [← List.map_append, List.range'_append_1]

theorem take_slice (buf : Nat → β) (i : Nat) {m n : Nat} (h : m ≤ n) :
    (slice buf i n).take m = slice buf i m := by
  obtain ⟨d, rfl⟩ := Nat.exists_eq_add_of_le h
  rw [slice_add, List.take_left' (length_slice ..)]

theorem drop_slice (buf : Nat → β) (i : Nat) {m n : Nat} (h : m ≤ n) :
    (slice buf i n).drop m = slice buf (i + m) (n - m) := by
  obtain ⟨d, rfl⟩ := Nat.exists_eq_add_of_le h
  rw [slice_add, List.drop_left' (length_slice ..), Nat.add_sub_cancel_left]

/-- Two buffers that agree on a range. -/
theorem slice_congr {buf buf' : Nat → β} {i i' n : Nat}
    (h : ∀ k < n, buf' (i' + k) = buf (i + k)) : slice buf' i' n = slice buf i n := by
  apply List.ext_getElem?
  intro k
  by_cases hk : k < n
  · rw [getElem?_slice hk, getElem?_slice hk, h k hk]
  · rw [List.getElem?_eq_none (by simp; omega), List.getElem?_eq_none (by simp; omega)]

/-- **Data copied behind a range is appended to it.** -/
theorem slice_memcpy (buf : Nat → β) (i n : Nat) (data : List β) :
    slice (memcpy buf (i + n) data) i (n + data.length) = slice buf i n ++ data := by
  rw [slice_add]
  congr 1
  · apply slice_congr
    intro k hk
    unfold memcpy
    rw [if_pos (by omega)]
  · apply List.ext_getElem?
    intro k
    by_cases hk : k < data.length
    · rw [getElem?_slice hk]
      unfold memcpy
      rw [if_neg (by omega), Nat.add_sub_cancel_left, List.getElem?_eq_getElem hk, Option.getD_some]
    · rw [List.getElem?_eq_none (by simp; omega), List.getElem?_eq_none (by omega)]

/-- **A range moved to the front is the same range.** -/
theorem slice_memmove (buf : Nat → β) (src n : Nat) :
    slice (memmove buf src n) 0 n = slice buf src n := by
  apply slice_congr
  intro k hk
  unfold memmove
  rw [Nat.zero_add, if_pos hk]

end LowLatency.Lib
