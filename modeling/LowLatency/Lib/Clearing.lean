import Mathlib.Algebra.BigOperators.Group.Finset.Piecewise

/-!
# Accounts with entries on their way

A fixed set of owners, each with a booked balance and a queue of entries that
are addressed to it and not booked yet. An entry has a value in a commutative
monoid.

Booking an entry moves its value from the queue to the balance, so it leaves the
total as it is (`total_book`); posting a batch of entries, each to its own
owner, adds the values of the batch (`total_post`). If every batch is worth
nothing, neither is the total, whatever has been booked in which order.
-/

namespace LowLatency.Lib

variable {ι α M : Type} [AddCommMonoid M] {S : Finset ι} {booked : ι → M}
  {pending : ι → List α} {value : α → M}

/-- What is booked and what is on its way, over all owners. -/
def total (S : Finset ι) (booked : ι → M) (pending : ι → List α) (value : α → M) : M :=
  ∑ i ∈ S, (booked i + ((pending i).map value).sum)

/-- With nothing on its way the balances are the total. -/
theorem total_settled (h : ∀ i ∈ S, pending i = []) :
    total S booked pending value = ∑ i ∈ S, booked i := by
  refine Finset.sum_congr rfl fun i hi => ?_
  rw [h i hi, List.map_nil, List.sum_nil, add_zero]

theorem total_congr {booked' : ι → M} (h : ∀ i ∈ S, booked' i = booked i) :
    total S booked' pending value = total S booked pending value :=
  Finset.sum_congr rfl fun i hi => by rw [h i hi]

variable [DecidableEq ι]

/-- **Booking** the next entry of one owner leaves the total as it is. -/
theorem total_book {booked' : ι → M} {i : ι} {x : α} {xs : List α} (hx : pending i = x :: xs)
    (hi : booked' i = booked i + value x) (ho : ∀ j, j ≠ i → booked' j = booked j) :
    total S booked' (Function.update pending i xs) value = total S booked pending value := by
  refine Finset.sum_congr rfl fun j _ => ?_
  by_cases hj : j = i
  · subst hj
    rw [Function.update_self, hi, hx, List.map_cons, List.sum_cons, add_assoc]
  · rw [Function.update_of_ne hj, ho j hj]

/-- What a batch is worth is what its owners get of it. -/
theorem sum_owners (owner : α → ι) {xs : List α} (h : ∀ x ∈ xs, owner x ∈ S) :
    ∑ i ∈ S, ((xs.filter fun x => decide (owner x = i)).map value).sum =
      (xs.map value).sum := by
  induction xs with
  | nil => simp
  | cons x xs ih =>
    have hx : owner x ∈ S := h x (List.mem_cons_self ..)
    have hsplit : ∀ i, (((x :: xs).filter fun y => decide (owner y = i)).map value).sum =
        (if owner x = i then value x else 0) +
          ((xs.filter fun y => decide (owner y = i)).map value).sum := by
      intro i
      rw [List.filter_cons]
      by_cases hi : owner x = i
      · rw [if_pos (decide_eq_true hi), if_pos hi, List.map_cons, List.sum_cons]
      · rw [if_neg (by simpa using hi), if_neg hi, zero_add]
    rw [Finset.sum_congr rfl fun i _ => hsplit i, Finset.sum_add_distrib,
      ih fun y hy => h y (List.mem_cons_of_mem x hy), Finset.sum_ite_eq, if_pos hx,
      List.map_cons, List.sum_cons]

/-- **Posting** a batch adds what the batch is worth. -/
theorem total_post (owner : α → ι) {xs : List α} (h : ∀ x ∈ xs, owner x ∈ S) :
    total S booked (fun i => pending i ++ xs.filter fun x => decide (owner x = i)) value =
      total S booked pending value + (xs.map value).sum := by
  rw [← sum_owners owner h, total, total, ← Finset.sum_add_distrib]
  refine Finset.sum_congr rfl fun i _ => ?_
  rw [List.map_append, List.sum_append, add_assoc]

end LowLatency.Lib
