import Mathlib.Data.List.Sort
import Mathlib.Order.Basic

/-!
# What a sorting routine promises

`SortedBy key l' l`: `l'` is an outcome a sort of `l` by `key` may have. That is
all an unstable sort promises: a permutation of the input in which no element
precedes one with a smaller key. Elements with equal keys may come out in any
order, and `exists_sortedBy_filter` says that each order really occurs among the
permitted outcomes; `SortedBy.filter_eq` gives the cases in which the contract
leaves no choice for a part of the input.
-/

namespace LowLatency.Lib

variable {α κ : Type} [LinearOrder κ] {key : α → κ} {l l' : List α}

structure SortedBy (key : α → κ) (l' l : List α) : Prop where
  perm : l'.Perm l
  sorted : l'.Pairwise fun a b => ¬ key b < key a

/-- The order a stable sort compares with. -/
def keyLe (key : α → κ) (a b : α) : Bool := decide (key a ≤ key b)

theorem keyLe_trans (a b c : α) : keyLe key a b → keyLe key b c → keyLe key a c := by
  simp only [keyLe, decide_eq_true_eq]
  exact le_trans

theorem keyLe_total (a b : α) : (keyLe key a b || keyLe key b a) = true := by
  simp only [keyLe, Bool.or_eq_true, decide_eq_true_eq]
  exact le_total _ _

/-- A stable sort of any rearrangement of `l` is a permitted outcome. -/
theorem sortedBy_mergeSort {m : List α} (h : m.Perm l) :
    SortedBy key (m.mergeSort (keyLe key)) l where
  perm := (List.mergeSort_perm m _).trans h
  sorted := by
    refine (List.pairwise_mergeSort keyLe_trans keyLe_total m).imp ?_
    intro a b hab
    exact not_lt.mpr (of_decide_eq_true hab)

theorem exists_sortedBy (key : α → κ) (l : List α) : ∃ l', SortedBy key l' l :=
  ⟨_, sortedBy_mergeSort (List.Perm.refl l)⟩

/-- **Every order of equivalent elements occurs.** If the elements of `l` that
satisfy `p` have one key, any rearrangement of them is what some permitted
outcome shows of them. -/
theorem exists_sortedBy_filter {p : α → Bool} {m : List α} (hm : m.Perm (l.filter p))
    (hkey : ∀ a ∈ l, ∀ b ∈ l, p a → p b → key a = key b) :
    ∃ l', SortedBy key l' l ∧ l'.filter p = m := by
  have hp : ∀ a ∈ m, p a = true := fun a ha => (List.mem_filter.mp (hm.subset ha)).2
  -- the rearranged part first, the rest behind it, sorted stably
  have hperm : (m ++ l.filter fun a => !p a).Perm l :=
    (hm.append_right _).trans (List.filter_append_perm p l)
  refine ⟨_, sortedBy_mergeSort hperm, ?_⟩
  have hsub : m.Sublist ((m ++ l.filter fun a => !p a).mergeSort (keyLe key)) := by
    refine List.sublist_mergeSort keyLe_trans keyLe_total ?_ (List.sublist_append_left m _)
    refine List.pairwise_of_forall_mem_list ?_
    intro a ha b hb
    have ha' := List.mem_filter.mp (hm.subset ha)
    have hb' := List.mem_filter.mp (hm.subset hb)
    simp only [keyLe, decide_eq_true_eq]
    exact (hkey a ha'.1 b hb'.1 ha'.2 hb'.2).le
  have hfilter := hsub.filter p
  rw [List.filter_eq_self.mpr hp] at hfilter
  refine (hfilter.eq_of_length ?_).symm
  have hcount := ((List.mergeSort_perm (m ++ l.filter fun a => !p a) (keyLe key)).trans hperm).filter p
  rw [hm.length_eq, hcount.length_eq]

/-- Two outcomes show the same keys in the same places. -/
theorem keys_eq {m m' : List α} (hperm : m.Perm m')
    (hm : m.Pairwise fun a b => ¬ key b < key a) (hm' : m'.Pairwise fun a b => ¬ key b < key a) :
    m.map key = m'.map key := by
  have hk : (m.map key).Pairwise (· ≤ ·) := List.pairwise_map.mpr (hm.imp fun h => not_lt.mp h)
  have hk' : (m'.map key).Pairwise (· ≤ ·) := List.pairwise_map.mpr (hm'.imp fun h => not_lt.mp h)
  exact (hperm.map key).eq_of_pairwise (fun a b _ _ hab hba => le_antisymm hab hba) hk hk'

/-- **No choice.** A part of the input that is in order already, and in which
equal keys mean equal elements, comes out as it is. -/
theorem SortedBy.filter_eq {p : α → Bool} (h : SortedBy key l' l)
    (hsorted : (l.filter p).Pairwise fun a b => ¬ key b < key a)
    (hties : ∀ a ∈ l, ∀ b ∈ l, p a → p b → key a = key b → a = b) :
    l'.filter p = l.filter p := by
  refine (h.perm.filter p).eq_of_pairwise ?_ (h.sorted.filter p) hsorted
  intro a b ha hb hab hba
  have ha' := List.mem_filter.mp ha
  have hb' := List.mem_filter.mp hb
  exact hties a (h.perm.subset ha'.1) b hb'.1 ha'.2 hb'.2
    (le_antisymm (not_lt.mp hab) (not_lt.mp hba))

/-- A list with two different elements has another order. -/
theorem exists_perm_ne [DecidableEq α] {a b : α} (ha : a ∈ l) (hb : b ∈ l) (hab : a ≠ b) :
    ∃ m, m.Perm l ∧ m ≠ l := by
  -- one of the two is not the first element: move it to the front
  have key : ∀ w ∈ l, l.head? ≠ some w → ∃ m, m.Perm l ∧ m ≠ l := by
    intro w hw hhead
    refine ⟨w :: l.erase w, (List.perm_cons_erase hw).symm, ?_⟩
    intro heq
    rw [← heq] at hhead
    exact hhead rfl
  by_cases h : l.head? = some a
  · refine key b hb ?_
    rw [h]
    intro heq
    exact hab (Option.some.inj heq)
  · exact key a ha h

end LowLatency.Lib
