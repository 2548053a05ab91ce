import Mathlib.Data.List.Sort
import Mathlib.Data.List.Nodup

/-!
# Queues in price-time order

One side of a limit order book, as a list: better prices first, and among equal
prices the earlier arrival first. On the buying side (`true`) the higher price
is the better one, on the selling side (`false`) the lower.

`queueInsert` puts a new entry behind every entry that is not worse, so it is
Mathlib's ordered insertion along "strictly better". The lemmas say where it
goes when the queue is given in pieces, that it keeps the queue sorted, and
that a queue sorted by price and then by an arrival number is determined by its
elements (`queue_ext`), in whatever order they were inserted.
-/

namespace LowLatency.Lib

/-- Price `p` is strictly better than `q` on side `b`. -/
def Better (b : Bool) (p q : Int) : Prop := if b then q < p else p < q

instance (b : Bool) (p q : Int) : Decidable (Better b p q) :=
  inferInstanceAs (Decidable (if b then q < p else p < q))

theorem Better.irrefl {b : Bool} {p : Int} : ¬ Better b p p := by
  cases b <;> simp [Better]

theorem Better.ne {b : Bool} {p q : Int} (h : Better b p q) : p ≠ q := by
  rintro rfl
  exact Better.irrefl h

theorem Better.asymm {b : Bool} {p q : Int} (h : Better b p q) : ¬ Better b q p := by
  cases b <;> simp [Better] at h ⊢ <;> omega

theorem Better.trans {b : Bool} {p q r : Int} (h₁ : Better b p q) (h₂ : Better b q r) :
    Better b p r := by
  cases b <;> simp [Better] at h₁ h₂ ⊢ <;> omega

theorem Better.of_ne {b : Bool} {p q : Int} (h : ¬ Better b p q) (hne : p ≠ q) : Better b q p := by
  cases b <;> simp [Better] at h ⊢ <;> omega

/-- If `q` is not better than `p`, nothing behind `q` is. -/
theorem Better.of_not {b : Bool} {p q r : Int} (h₁ : ¬ Better b q p) (h₂ : Better b q r) :
    Better b p r := by
  cases b <;> simp [Better] at h₁ h₂ ⊢ <;> omega

variable {α : Type}

/-- The queue with a new entry behind every entry that is not worse. -/
def queueInsert (b : Bool) (pr : α → Int) (x : α) (l : List α) : List α :=
  l.orderedInsert (fun a c => Better b (pr a) (pr c)) x

variable {b : Bool} {pr : α → Int} {x : α}

theorem queueInsert_cons (a : α) (l : List α) :
    queueInsert b pr x (a :: l)
      = if Better b (pr x) (pr a) then x :: a :: l else a :: queueInsert b pr x l := rfl

theorem mem_queueInsert {a : α} {l : List α} : a ∈ queueInsert b pr x l ↔ a = x ∨ a ∈ l :=
  List.mem_orderedInsert _

theorem perm_queueInsert (l : List α) : (queueInsert b pr x l).Perm (x :: l) :=
  List.perm_orderedInsert _ x l

/-- Entries that are not worse stay in front. -/
theorem queueInsert_append {A B : List α} (h : ∀ a ∈ A, ¬ Better b (pr x) (pr a)) :
    queueInsert b pr x (A ++ B) = A ++ queueInsert b pr x B := by
  induction A with
  | nil => rfl
  | cons a A ih =>
    rw [List.cons_append, queueInsert_cons, if_neg (h a (List.mem_cons_self ..)),
      ih fun c hc => h c (List.mem_cons_of_mem _ hc)]
    rfl

/-- In front of worse entries the new one comes first. -/
theorem queueInsert_of_better {l : List α} (h : ∀ a ∈ l, Better b (pr x) (pr a)) :
    queueInsert b pr x l = x :: l := by
  cases l with
  | nil => rfl
  | cons a l => rw [queueInsert_cons, if_pos (h a (List.mem_cons_self ..))]

/-- A selection that drops the new entry does not see it. -/
theorem filter_queueInsert {p : α → Bool} (hx : p x = false) (l : List α) :
    (queueInsert b pr x l).filter p = l.filter p := by
  induction l with
  | nil => exact List.filter_cons_of_neg (by rw [hx]; exact Bool.false_ne_true)
  | cons a l ih =>
    rw [queueInsert_cons]
    split
    · exact List.filter_cons_of_neg (by rw [hx]; exact Bool.false_ne_true)
    · rw [List.filter_cons, List.filter_cons, ih]

/-- A change of representation that keeps prices commutes with insertion. -/
theorem map_queueInsert {β : Type} {r : β → Int} {f : α → β} (hf : ∀ a, r (f a) = pr a)
    (l : List α) : (queueInsert b pr x l).map f = queueInsert b r (f x) (l.map f) := by
  induction l with
  | nil => rfl
  | cons a l ih =>
    rw [queueInsert_cons, List.map_cons, queueInsert_cons, hf, hf]
    split
    · rfl
    · rw [List.map_cons, ih]

/-- Prices never improve along the queue. -/
def QueueSorted (b : Bool) (pr : α → Int) (l : List α) : Prop :=
  l.Pairwise fun a c => ¬ Better b (pr c) (pr a)

theorem QueueSorted.sublist {l l' : List α} (h : QueueSorted b pr l) (hs : l'.Sublist l) :
    QueueSorted b pr l' :=
  List.Pairwise.sublist hs h

/-- Everything behind a queue's head is no better than it. -/
theorem QueueSorted.head_le {a c : α} {l : List α} (h : QueueSorted b pr (a :: l)) (hc : c ∈ l) :
    ¬ Better b (pr c) (pr a) :=
  (List.pairwise_cons.mp h).1 c hc

/-- **Where the new entry stands** in a sorted queue: behind everything that is
not worse, in front of everything that is. -/
theorem QueueSorted.split {l : List α} (h : QueueSorted b pr l) (x : α) :
    ∃ A B, l = A ++ B ∧ queueInsert b pr x l = A ++ x :: B ∧
      (∀ a ∈ A, ¬ Better b (pr x) (pr a)) ∧ (∀ a ∈ B, Better b (pr x) (pr a)) := by
  induction l with
  | nil => exact ⟨[], [], rfl, rfl, by simp, by simp⟩
  | cons a l ih =>
    by_cases hxa : Better b (pr x) (pr a)
    · have hall : ∀ c ∈ a :: l, Better b (pr x) (pr c) := by
        intro c hc
        rcases List.mem_cons.mp hc with rfl | hc
        · exact hxa
        · by_contra hn
          exact h.head_le hc (Better.of_not hn hxa)
      exact ⟨[], a :: l, rfl, queueInsert_of_better hall, by simp, hall⟩
    · obtain ⟨A, B, he, hi, hA, hB⟩ := ih (List.pairwise_cons.mp h).2
      refine ⟨a :: A, B, by rw [he]; rfl, ?_, ?_, hB⟩
      · rw [queueInsert_cons, if_neg hxa, hi]
        rfl
      · intro c hc
        rcases List.mem_cons.mp hc with rfl | hc
        · exact hxa
        · exact hA c hc

/-- A relation between earlier and later entries survives the insertion if the
new entry stands in it to those on either side. -/
theorem pairwise_queueInsert {R : α → α → Prop} {l : List α} (hs : QueueSorted b pr l)
    (h : l.Pairwise R) (hfront : ∀ a ∈ l, ¬ Better b (pr x) (pr a) → R a x)
    (hback : ∀ a ∈ l, Better b (pr x) (pr a) → R x a) :
    (queueInsert b pr x l).Pairwise R := by
  obtain ⟨A, B, rfl, hi, hA, hB⟩ := hs.split x
  have hR := List.pairwise_append.mp h
  rw [hi]
  refine List.pairwise_append.mpr ⟨hR.1, List.pairwise_cons.mpr ⟨?_, hR.2.1⟩, ?_⟩
  · exact fun c hc => hback c (by simp [hc]) (hB c hc)
  · intro a ha c hc
    rcases List.mem_cons.mp hc with rfl | hc
    · exact hfront a (by simp [ha]) (hA a ha)
    · exact hR.2.2 a ha c hc

/-- **A sorted queue stays sorted.** -/
theorem QueueSorted.insert {l : List α} (h : QueueSorted b pr l) :
    QueueSorted b pr (queueInsert b pr x l) :=
  pairwise_queueInsert h h (fun _ _ hn => hn) fun _ _ hb => hb.asymm

/-! ## Price, then arrival -/

/-- `a` stands before `c`: better price, or the same price and earlier. -/
def Before (b : Bool) (pr : α → Int) (seq : α → Nat) (a c : α) : Prop :=
  Better b (pr a) (pr c) ∨ (pr a = pr c ∧ seq a < seq c)

theorem Before.asymm {seq : α → Nat} {a c : α} (h : Before b pr seq a c) :
    ¬ Before b pr seq c a := by
  rintro (h' | ⟨he', hs'⟩)
  · rcases h with h | ⟨he, _⟩
    · exact h.asymm h'
    · rw [he] at h'
      exact Better.irrefl h'
  · rcases h with h | ⟨_, hs⟩
    · rw [he'] at h
      exact Better.irrefl h
    · omega

theorem queueSorted_of_before {seq : α → Nat} {l : List α} (h : l.Pairwise (Before b pr seq)) :
    QueueSorted b pr l := by
  refine h.imp ?_
  rintro a c (hac | ⟨he, _⟩)
  · exact hac.asymm
  · rw [he]
    exact Better.irrefl

/-- **Extensionality**: two queues in the same price-arrival order with the
same elements are equal. -/
theorem queue_ext {seq : α → Nat} {l l' : List α} (h : l.Pairwise (Before b pr seq))
    (h' : l'.Pairwise (Before b pr seq)) (hmem : ∀ a, a ∈ l ↔ a ∈ l') : l = l' := by
  have hnd : ∀ {k : List α}, k.Pairwise (Before b pr seq) → k.Nodup := by
    intro k hk
    refine hk.imp ?_
    rintro a c hac rfl
    exact hac.asymm hac
  have hanti : ∀ a c, a ∈ l → c ∈ l' → Before b pr seq a c → Before b pr seq c a → a = c :=
    fun a c _ _ hac hca => absurd hca hac.asymm
  exact List.Perm.eq_of_pairwise hanti h h'
    ((List.perm_ext_iff_of_nodup (hnd h) (hnd h')).mpr hmem)

end LowLatency.Lib
