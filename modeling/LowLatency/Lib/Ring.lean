import Mathlib.Data.List.Chain
import Mathlib.Data.List.Nodup
import Mathlib.Tactic.Tauto

/-!
# Circular doubly linked lists over arbitrary link functions

A ring is given by two functions `next` and `prev` from nodes to possibly null
nodes. `Ring next prev l` says that following `next` from the first element of
`l` visits exactly the elements of `l`, in order and without repetition, and
returns to the first, and that `prev` is its inverse there. Nothing is said
about nodes outside `l`.

The list is the ring read from one chosen node, so a ring can be read from any
of its nodes (`Ring.rotate`). With that, every insertion is an insertion at the
end of the list (`Ring.insertTail`) and every removal the removal of the first
element (`Ring.removeHead`): what a program writes near the seam is checked
once, and the position in the middle of a list is a rotation away
(`Ring.insertMid`, `Ring.remove`).

`ringWalk` is the traversal every reader of such a list performs: go on until
`next` gives the node started from.
-/

namespace LowLatency.Lib

variable {α : Type}

/-- `x` and `y` are neighbours: each points at the other. -/
def Link (next prev : α → Option α) (x y : α) : Prop :=
  next x = some y ∧ prev y = some x

/-- The elements of `l` form a ring, read from its first element. -/
structure Ring (next prev : α → Option α) (l : List α) : Prop where
  nodup : l.Nodup
  links : (l ++ l.head?.toList).IsChain (Link next prev)

variable {next prev next' prev' : α → Option α}

theorem Ring.nil : Ring next prev [] := ⟨List.nodup_nil, .nil⟩

/-- A node that points at itself both ways is a ring of its own. -/
theorem Ring.singleton {x : α} (hn : next x = some x) (hp : prev x = some x) :
    Ring next prev [x] :=
  ⟨List.nodup_singleton x, by
    show List.IsChain (Link next prev) [x, x]
    exact List.isChain_pair.mpr ⟨hn, hp⟩⟩

/-- A chain survives a change of the link functions that keeps `next` on all
but its last and `prev` on all but its first element. -/
theorem isChain_link_congr {l : List α} (h : l.IsChain (Link next prev))
    (hn : ∀ a ∈ l.dropLast, next' a = next a) (hp : ∀ a ∈ l.tail, prev' a = prev a) :
    l.IsChain (Link next' prev') := by
  induction l with
  | nil => exact .nil
  | cons x xs ih =>
    cases xs with
    | nil => exact .singleton x
    | cons y ys =>
      rw [List.isChain_cons_cons] at h ⊢
      have hx : x ∈ (x :: y :: ys).dropLast := by simp
      refine ⟨⟨(hn x hx).trans h.1.1, (hp y (by simp)).trans h.1.2⟩, ih h.2 ?_ ?_⟩
      · intro a ha
        exact hn a (by rw [List.dropLast_cons_cons]; exact List.mem_cons_of_mem _ ha)
      · intro a ha
        exact hp a (by simpa using Or.inr ha)

/-- Closing a list with its own head adds no element. -/
theorem mem_of_mem_append_head {l : List α} {a : α} (h : a ∈ l ++ l.head?.toList) : a ∈ l := by
  cases l with
  | nil => simp at h
  | cons x xs =>
    simp only [List.head?_cons, Option.toList_some, List.mem_append, List.mem_singleton] at h
    rcases h with h | rfl
    · exact h
    · exact List.mem_cons_self ..

/-- A ring is untouched by writes to nodes outside it. -/
theorem Ring.congr {l : List α} (h : Ring next prev l)
    (hn : ∀ a ∈ l, next' a = next a) (hp : ∀ a ∈ l, prev' a = prev a) :
    Ring next' prev' l := by
  refine ⟨h.nodup, isChain_link_congr h.links ?_ ?_⟩
  · intro a ha
    exact hn a (mem_of_mem_append_head (List.dropLast_subset _ ha))
  · intro a ha
    exact hp a (mem_of_mem_append_head (List.mem_of_mem_tail ha))

/-- A ring can be read from any of its nodes. -/
theorem Ring.rotate {A B : List α} (h : Ring next prev (A ++ B)) : Ring next prev (B ++ A) := by
  cases A with
  | nil => simpa using h
  | cons a A =>
    cases B with
    | nil => simpa using h
    | cons b B =>
      refine ⟨List.nodup_append_comm.mp h.nodup, ?_⟩
      have hl := h.links
      simp only [List.cons_append, List.head?_cons, Option.toList_some, List.append_assoc] at hl ⊢
      rw [← List.cons_append, List.isChain_split] at hl ⊢
      exact ⟨hl.2, hl.1⟩

/-- The links inside a ring. -/
theorem Ring.link {A B : List α} {x y : α} (h : Ring next prev (A ++ x :: y :: B)) :
    next x = some y ∧ prev y = some x := by
  have hl := h.links
  rw [List.append_assoc] at hl
  exact (List.isChain_append_cons_cons.mp hl).2.1

/-- The link that closes a ring: its last node and its first. -/
theorem Ring.seam {I : List α} {x y : α} {xs : List α} (h : Ring next prev (x :: xs))
    (hl : x :: xs = I ++ [y]) : next y = some x ∧ prev x = some y := by
  have hc := h.links
  simp only [List.head?_cons, Option.toList_some] at hc
  rw [hl, List.append_assoc] at hc
  exact (List.isChain_append_cons_cons.mp hc).2.1

/-- A node points at itself exactly when it is alone in its ring. -/
theorem Ring.next_self_iff {x : α} {xs : List α} (h : Ring next prev (x :: xs)) :
    next x = some x ↔ xs = [] := by
  cases xs with
  | nil => exact ⟨fun _ => rfl, fun _ => (h.seam (I := []) rfl).1⟩
  | cons y ys =>
    have hlink := (Ring.link (A := []) (B := ys) h).1
    have hne : x ≠ y := by
      have := h.nodup
      simp only [List.nodup_cons, List.mem_cons, not_or] at this
      exact this.1.1
    simp only [reduceCtorEq, iff_false]
    intro hx
    rw [hlink] at hx
    exact hne (Option.some.inj hx).symm

theorem Ring.prev_self_iff {x : α} {xs : List α} (h : Ring next prev (x :: xs)) :
    prev x = some x ↔ xs = [] := by
  rcases List.eq_nil_or_concat (x :: xs) with h0 | ⟨I, y, hI⟩
  · simp at h0
  · rw [List.concat_eq_append] at hI
    rw [(h.seam hI).2]
    have hnd := h.nodup
    cases I with
    | nil =>
      simp only [List.nil_append, List.cons.injEq] at hI
      simp [hI.1, hI.2]
    | cons z I =>
      simp only [List.cons_append, List.cons.injEq] at hI
      obtain ⟨rfl, rfl⟩ := hI
      have hne : x ≠ y := by
        simp only [List.nodup_cons, List.mem_append, List.mem_singleton, not_or] at hnd
        exact hnd.1.2
      simp [hne.symm]

/-- **Insertion at the end**: linking a new node between the last and the first
node of a ring gives the ring with the node appended. -/
theorem Ring.insertTail {x y z : α} {xs I : List α} (h : Ring next prev (x :: xs))
    (hl : x :: xs = I ++ [y]) (hz : z ∉ x :: xs)
    (hny : next' y = some z) (hpz : prev' z = some y)
    (hnz : next' z = some x) (hpx : prev' x = some z)
    (hn : ∀ a ∈ x :: xs, a ≠ y → next' a = next a)
    (hp : ∀ a ∈ x :: xs, a ≠ x → prev' a = prev a) :
    Ring next' prev' (x :: xs ++ [z]) := by
  have hnd := h.nodup
  have hc := h.links
  simp only [List.head?_cons, Option.toList_some] at hc
  refine ⟨?_, ?_⟩
  · rw [List.nodup_append]
    refine ⟨hnd, List.nodup_singleton z, ?_⟩
    intro a ha b hb hab
    rw [List.mem_singleton] at hb
    subst hb
    exact hz (hab ▸ ha)
  · -- the chain inside the old list survives; the two new links close it
    have hin : (x :: xs).IsChain (Link next' prev') := by
      refine isChain_link_congr hc.left_of_append ?_ ?_
      · intro a ha
        refine hn a (List.dropLast_subset _ ha) ?_
        rintro rfl
        rw [hl] at ha hnd
        rw [List.dropLast_concat] at ha
        exact (List.nodup_append.mp hnd).2.2 a ha a (by simp) rfl
      · intro a ha
        refine hp a (List.mem_of_mem_tail ha) ?_
        rintro rfl
        exact (List.nodup_cons.mp hnd).1 ha
    rw [hl] at hin
    have : ((I ++ [y]) ++ [z] ++ [x]).IsChain (Link next' prev') := by
      simp only [List.append_assoc, List.cons_append, List.nil_append]
      rw [List.isChain_append_cons_cons, List.isChain_pair]
      exact ⟨hin, ⟨hny, hpz⟩, hnz, hpx⟩
    rw [← hl] at this
    exact this

/-- **Removal of the first node**: closing the ring behind it leaves the rest. -/
theorem Ring.removeHead {x y w : α} {ys I : List α} (h : Ring next prev (x :: y :: ys))
    (hl : y :: ys = I ++ [w])
    (hnw : next' w = some y) (hpy : prev' y = some w)
    (hn : ∀ a ∈ y :: ys, a ≠ w → next' a = next a)
    (hp : ∀ a ∈ y :: ys, a ≠ y → prev' a = prev a) :
    Ring next' prev' (y :: ys) := by
  have hnd := (List.nodup_cons.mp h.nodup).2
  have hc := h.links
  simp only [List.head?_cons, Option.toList_some] at hc
  refine ⟨hnd, ?_⟩
  have hin : (y :: ys).IsChain (Link next' prev') := by
    refine isChain_link_congr (hc.tail.left_of_append) ?_ ?_
    · intro a ha
      refine hn a (List.dropLast_subset _ ha) ?_
      rintro rfl
      rw [hl] at ha hnd
      rw [List.dropLast_concat] at ha
      exact (List.nodup_append.mp hnd).2.2 a ha a (by simp) rfl
    · intro a ha
      refine hp a (List.mem_of_mem_tail ha) ?_
      rintro rfl
      exact (List.nodup_cons.mp hnd).1 ha
  simp only [List.head?_cons, Option.toList_some]
  rw [hl] at hin ⊢
  simp only [List.append_assoc, List.cons_append, List.nil_append]
  rw [List.isChain_append_cons_cons]
  exact ⟨hin, ⟨hnw, hpy⟩, .singleton y⟩

/-- Insertion of `z` right before `t`, after `t`'s predecessor `u`, in a ring
read from elsewhere. -/
theorem Ring.insertMid {t u z : α} {A B : List α} (h : Ring next prev (A ++ t :: B))
    (hu : prev t = some u) (hz : z ∉ A ++ t :: B)
    (hnu : next' u = some z) (hpz : prev' z = some u)
    (hnz : next' z = some t) (hpt : prev' t = some z)
    (hn : ∀ a ∈ A ++ t :: B, a ≠ u → next' a = next a)
    (hp : ∀ a ∈ A ++ t :: B, a ≠ t → prev' a = prev a) :
    Ring next' prev' (A ++ z :: t :: B) := by
  have hr : Ring next prev (t :: (B ++ A)) := h.rotate
  have hmem : ∀ a, a ∈ t :: (B ++ A) ↔ a ∈ A ++ t :: B := by
    intro a
    simp only [List.mem_cons, List.mem_append]
    tauto
  rcases List.eq_nil_or_concat (t :: (B ++ A)) with h0 | ⟨I, y, hI⟩
  · simp at h0
  · rw [List.concat_eq_append] at hI
    have hyu : y = u := Option.some.inj ((hr.seam hI).2.symm.trans hu)
    subst hyu
    have hins := hr.insertTail hI (fun hm => hz ((hmem z).mp hm)) hnu hpz hnz hpt
      (fun a ha => hn a ((hmem a).mp ha)) (fun a ha => hp a ((hmem a).mp ha))
    have : Ring next' prev' ((t :: B) ++ (A ++ [z])) := by simpa using hins
    simpa using this.rotate

/-- Removal of `x`, whose neighbours are `u` and `v`, from a ring read from
elsewhere. The removed node's own links are free to change. -/
theorem Ring.remove {x u v : α} {A B : List α} (h : Ring next prev (A ++ x :: B))
    (hAB : A ++ B ≠ []) (hu : prev x = some u) (hv : next x = some v)
    (hnu : next' u = some v) (hpv : prev' v = some u)
    (hn : ∀ a ∈ A ++ B, a ≠ u → next' a = next a)
    (hp : ∀ a ∈ A ++ B, a ≠ v → prev' a = prev a) :
    Ring next' prev' (A ++ B) := by
  have hr : Ring next prev (x :: (B ++ A)) := h.rotate
  obtain ⟨y, ys, hy⟩ : ∃ y ys, B ++ A = y :: ys := by
    cases hBA : B ++ A with
    | nil =>
      simp only [List.append_eq_nil_iff] at hBA
      exact absurd (by simp [hBA]) hAB
    | cons y ys => exact ⟨y, ys, rfl⟩
  have hmem : ∀ a, a ∈ y :: ys ↔ a ∈ A ++ B := by
    intro a
    rw [← hy, List.mem_append, List.mem_append]
    tauto
  rw [hy] at hr
  rcases List.eq_nil_or_concat (y :: ys) with h0 | ⟨I, w, hI⟩
  · simp at h0
  · rw [List.concat_eq_append] at hI
    have hyv : y = v := Option.some.inj ((Ring.link (A := []) hr).1.symm.trans hv)
    have hwu : w = u := by
      have := (hr.seam (I := x :: I) (y := w) (by rw [hI]; rfl)).2
      exact Option.some.inj (this.symm.trans hu)
    subst hyv hwu
    have hrem := hr.removeHead hI hnu hpv (fun a ha => hn a ((hmem a).mp ha))
      (fun a ha => hp a ((hmem a).mp ha))
    rw [← hy] at hrem
    exact hrem.rotate

/-! ## Neighbours of a node -/

/-- Every node of a ring has a predecessor and a successor in it. -/
theorem Ring.neighbours {x : α} {A B : List α} (h : Ring next prev (A ++ x :: B)) :
    ∃ u ∈ A ++ x :: B, ∃ v ∈ A ++ x :: B, prev x = some u ∧ next x = some v := by
  have hr : Ring next prev (x :: (B ++ A)) := h.rotate
  have hmem : ∀ a, a ∈ x :: (B ++ A) → a ∈ A ++ x :: B := by
    intro a
    simp only [List.mem_cons, List.mem_append]
    tauto
  rcases List.eq_nil_or_concat (x :: (B ++ A)) with h0 | ⟨I, y, hI⟩
  · simp at h0
  · rw [List.concat_eq_append] at hI
    refine ⟨y, hmem y (by rw [hI]; simp), ?_⟩
    cases hBA : B ++ A with
    | nil =>
      rw [hBA] at hr hI
      exact ⟨x, by simp, (hr.seam hI).2, (hr.seam (I := []) rfl).1⟩
    | cons v vs =>
      have hs := (hr.seam hI).2
      rw [hBA] at hr
      exact ⟨v, hmem v (by rw [hBA]; simp), hs, (Ring.link (A := []) hr).1⟩

/-- The list a ring is read as determines its links. -/
theorem Ring.links_eq {l : List α} (h : Ring next prev l) (h' : Ring next' prev' l) {x : α}
    (hx : x ∈ l) : next' x = next x ∧ prev' x = prev x := by
  obtain ⟨A, B, rfl⟩ := List.append_of_mem hx
  have hr : Ring next prev (x :: (B ++ A)) := h.rotate
  have hr' : Ring next' prev' (x :: (B ++ A)) := h'.rotate
  rcases List.eq_nil_or_concat (x :: (B ++ A)) with h0 | ⟨I, y, hI⟩
  · simp at h0
  · rw [List.concat_eq_append] at hI
    refine ⟨?_, (hr'.seam hI).2.trans (hr.seam hI).2.symm⟩
    cases hBA : B ++ A with
    | nil =>
      rw [hBA] at hr hr'
      exact (hr'.next_self_iff.mpr rfl).trans (hr.next_self_iff.mpr rfl).symm
    | cons v vs =>
      rw [hBA] at hr hr'
      exact (Ring.link (A := []) hr').1.trans (Ring.link (A := []) hr).1.symm

/-- A node that is its own successor is its own predecessor. -/
theorem Ring.prev_of_next_self {x u : α} {A B : List α} (h : Ring next prev (A ++ x :: B))
    (hu : prev x = some u) (hn : next x = some x) : u = x := by
  have hrot : Ring next prev (x :: (B ++ A)) := h.rotate
  have hp := hrot.prev_self_iff.mpr (hrot.next_self_iff.mp hn)
  exact Option.some.inj (hu.symm.trans hp)

/-! ## Taking a node out -/

theorem Ring.not_mem_rest {x : α} {A B : List α} (h : Ring next prev (A ++ x :: B)) :
    x ∉ A ++ B := by
  have hnd := h.nodup
  rw [List.nodup_middle, List.nodup_cons] at hnd
  exact hnd.1

/-- A node that is not alone stands between two others. -/
theorem Ring.neighbours_rest {x : α} {A B : List α} (h : Ring next prev (A ++ x :: B))
    (hAB : A ++ B ≠ []) :
    ∃ u ∈ A ++ B, ∃ v ∈ A ++ B, prev x = some u ∧ next x = some v := by
  have hrot : Ring next prev (x :: (B ++ A)) := h.rotate
  have hBA : B ++ A ≠ [] := by
    intro hnil
    obtain ⟨rfl, rfl⟩ := List.append_eq_nil_iff.mp hnil
    exact hAB rfl
  have hrest : ∀ a ∈ A ++ x :: B, a ≠ x → a ∈ A ++ B := by
    intro a ha hne
    simp only [List.mem_append, List.mem_cons] at ha ⊢
    tauto
  obtain ⟨u, hu, v, hv, hpu, hnv⟩ := h.neighbours
  refine ⟨u, hrest u hu ?_, v, hrest v hv ?_, hpu, hnv⟩
  · rintro rfl
    exact hBA (hrot.prev_self_iff.mp hpu)
  · rintro rfl
    exact hBA (hrot.next_self_iff.mp hnv)

/-- What a program writes to take `x` out: its neighbours `u` and `v` get each other,
and `x` gets nothing. -/
structure Unlinks [DecidableEq α] (next prev next' prev' : α → Option α) (x u v : α) : Prop where
  next : ∀ a, next' a = if a = x then none else if a = u then some v else next a
  prev : ∀ a, prev' a = if a = x then none else if a = v then some u else prev a

/-- **The ring without `x`**, and the nodes elsewhere. -/
theorem Ring.unlink [DecidableEq α] {x u v : α} {A B : List α} (h : Ring next prev (A ++ x :: B))
    (hu : u ∈ A ++ B) (hv : v ∈ A ++ B) (hpu : prev x = some u) (hnv : next x = some v)
    (hl : Unlinks next prev next' prev' x u v) :
    Ring next' prev' (A ++ B) ∧
      ∀ a, a ≠ x → a ∉ A ++ B → next' a = next a ∧ prev' a = prev a := by
  have hne : ∀ a ∈ A ++ B, a ≠ x := fun a ha he => h.not_mem_rest (he ▸ ha)
  constructor
  · refine h.remove (List.ne_nil_of_mem hu) hpu hnv ?_ ?_ ?_ ?_
    · rw [hl.next, if_neg (hne u hu), if_pos rfl]
    · rw [hl.prev, if_neg (hne v hv), if_pos rfl]
    · intro a ha hau
      rw [hl.next, if_neg (hne a ha), if_neg hau]
    · intro a ha hav
      rw [hl.prev, if_neg (hne a ha), if_neg hav]
  · intro a hax ha
    have hau : a ≠ u := fun he => ha (he ▸ hu)
    have hav : a ≠ v := fun he => ha (he ▸ hv)
    exact ⟨by rw [hl.next, if_neg hax, if_neg hau], by rw [hl.prev, if_neg hax, if_neg hav]⟩

/-- The first node is the old one, or the successor of `x` if that was `x`. -/
theorem Ring.head?_rest [DecidableEq α] {x v : α} {A B : List α}
    (h : Ring next prev (A ++ x :: B)) (hAB : A ++ B ≠ []) (hnv : next x = some v) :
    (A ++ B).head? =
      if (A ++ x :: B).head? = some x then some v else (A ++ x :: B).head? := by
  cases A with
  | nil =>
    simp only [List.nil_append, List.head?_cons, if_true]
    cases B with
    | nil => exact absurd rfl hAB
    | cons w B =>
      have hw := (Ring.link (A := []) h).1
      rw [hnv] at hw
      simp [Option.some.inj hw]
  | cons a A =>
    have hax : a ≠ x := fun he => h.not_mem_rest (by simp [he])
    simp [hax]

/-- The first node's predecessor is the last node. -/
theorem Ring.prev_head {x : α} {xs : List α} (h : Ring next prev (x :: xs)) :
    prev x = some ((x :: xs).getLast (by simp)) :=
  (h.seam (List.dropLast_append_getLast (by simp)).symm).2

/-- What holds of the first node and passes from each node to the next holds of
all. -/
theorem Ring.forall_of_next {P : α → Prop} {x : α} {xs : List α} (h : Ring next prev (x :: xs))
    (hx : P x) (hstep : ∀ a b, P a → next a = some b → P b) : ∀ a ∈ x :: xs, P a := by
  -- along the chain of links, from its first node on
  have hchain : ∀ (ys : List α) (y : α), P y → (y :: ys).IsChain (Link next prev) →
      ∀ a ∈ y :: ys, P a := by
    intro ys
    induction ys with
    | nil =>
      intro y hy _ a ha
      rw [List.mem_singleton.mp ha]
      exact hy
    | cons z zs ih =>
      intro y hy hc a ha
      rw [List.isChain_cons_cons] at hc
      rcases List.mem_cons.mp ha with rfl | ha
      · exact hy
      · exact ih z (hstep y z hy hc.1.1) hc.2 a ha
  intro a ha
  exact hchain _ x hx h.links a (List.mem_append_left _ ha)

/-! ## Every node between its neighbours -/

/-- The elements of a list, each between the one in front of it and the one behind;
`before` is in front of the first and `behind` is behind the last. -/
def aroundFrom (behind : α) : α → List α → List (α × α × α)
  | _, [] => []
  | before, [x] => [(before, x, behind)]
  | before, x :: y :: l => (before, x, y) :: aroundFrom behind x (y :: l)

/-- The nodes of a ring, each between its neighbours. -/
def around : List α → List (α × α × α)
  | [] => []
  | x :: l => aroundFrom x ((x :: l).getLast (List.cons_ne_nil x l)) (x :: l)

theorem aroundFrom_map {β : Type} (f : α → β) (behind : α) (l : List α) : ∀ before : α,
    aroundFrom (f behind) (f before) (l.map f) =
      (aroundFrom behind before l).map fun t => (f t.1, f t.2.1, f t.2.2) := by
  induction l with
  | nil => exact fun _ => rfl
  | cons x l ih =>
    intro before
    cases l with
    | nil => rfl
    | cons y l => exact congrArg _ (ih x)

theorem around_map {β : Type} (f : α → β) (l : List α) :
    around (l.map f) = (around l).map fun t => (f t.1, f t.2.1, f t.2.2) := by
  cases l with
  | nil => rfl
  | cons x l =>
    rw [around, ← aroundFrom_map, List.map_cons, around]
    congr 1
    rw [← List.getLast_map (f := f) (by simp)]
    rfl

/-- In the middle is the list. -/
theorem aroundFrom_middle (behind : α) (l : List α) : ∀ before : α,
    (aroundFrom behind before l).map (fun t => t.2.1) = l := by
  induction l with
  | nil => exact fun _ => rfl
  | cons x l ih =>
    intro before
    cases l with
    | nil => rfl
    | cons y l => exact congrArg _ (ih x)

theorem around_middle (l : List α) : (around l).map (fun t => t.2.1) = l := by
  cases l with
  | nil => rfl
  | cons x l => exact aroundFrom_middle ..

theorem mem_aroundFrom {behind : α} {l : List α} : ∀ {before : α} {t : α × α × α},
    t ∈ aroundFrom behind before l → t.1 ∈ before :: l ∧ t.2.1 ∈ l ∧ t.2.2 ∈ l ++ [behind] := by
  induction l with
  | nil => exact fun ht => absurd ht (by simp [aroundFrom])
  | cons x l ih =>
    intro before t ht
    cases l with
    | nil =>
      obtain rfl := List.mem_singleton.mp ht
      simp
    | cons y l =>
      rcases List.mem_cons.mp ht with rfl | ht
      · simp
      · obtain ⟨h₁, h₂, h₃⟩ := ih ht
        exact ⟨List.mem_cons_of_mem _ h₁, List.mem_cons_of_mem _ h₂, List.mem_cons_of_mem _ h₃⟩

/-- The neighbours are among the nodes. -/
theorem mem_around {l : List α} {t : α × α × α} (ht : t ∈ around l) :
    t.1 ∈ l ∧ t.2.1 ∈ l ∧ t.2.2 ∈ l := by
  cases l with
  | nil => exact absurd ht (by simp [around])
  | cons x l =>
    obtain ⟨h₁, h₂, h₃⟩ := mem_aroundFrom ht
    refine ⟨?_, h₂, ?_⟩
    · rcases List.mem_cons.mp h₁ with h₁ | h₁
      · exact h₁ ▸ List.getLast_mem _
      · exact h₁
    · rcases List.mem_append.mp h₃ with h₃ | h₃
      · exact h₃
      · exact List.mem_singleton.mp h₃ ▸ List.mem_cons_self ..

/-- Along a chain of links, what is in front is the predecessor and what is behind
the successor. -/
theorem aroundFrom_links {behind : α} {l : List α} : ∀ {before : α},
    (before :: l ++ [behind]).IsChain (Link next prev) →
    ∀ t ∈ aroundFrom behind before l, prev t.2.1 = some t.1 ∧ next t.2.1 = some t.2.2 := by
  induction l with
  | nil => exact fun _ _ ht => absurd ht (by simp [aroundFrom])
  | cons x l ih =>
    intro before hc t ht
    simp only [List.cons_append] at hc
    rw [List.isChain_cons_cons] at hc
    cases l with
    | nil =>
      obtain rfl := List.mem_singleton.mp ht
      exact ⟨hc.1.2, (List.isChain_pair.mp hc.2).1⟩
    | cons y l =>
      rcases List.mem_cons.mp ht with rfl | ht
      · exact ⟨hc.1.2, (List.isChain_cons_cons.mp hc.2).1.1⟩
      · exact ih hc.2 t ht

/-- **The links of a ring**: each node's are its neighbours. -/
theorem Ring.around_links {l : List α} (h : Ring next prev l) :
    ∀ t ∈ around l, prev t.2.1 = some t.1 ∧ next t.2.1 = some t.2.2 := by
  cases l with
  | nil => exact fun t ht => absurd ht (by simp [around])
  | cons x l =>
    refine aroundFrom_links (List.isChain_cons_cons.mpr ⟨?_, h.links⟩)
    exact h.seam (List.dropLast_append_getLast (by simp)).symm

/-! ## Traversal -/

/-- Collect the nodes from `cur` on until `next` returns to `stop`. -/
def ringWalk [DecidableEq α] (next : α → Option α) (stop : α) : Nat → α → Option (List α)
  | 0, _ => none
  | fuel + 1, cur =>
    match next cur with
    | none => none
    | some n => if n = stop then some [cur] else (ringWalk next stop fuel n).map (cur :: ·)

/-- Walking along a chain that ends in a node pointing at `stop`. -/
theorem ringWalk_chain [DecidableEq α] {stop : α} :
    ∀ (xs : List α) (x : α) (fuel : Nat), xs.length < fuel → stop ∉ xs →
      (x :: xs ++ [stop]).IsChain (Link next prev) →
      ringWalk next stop fuel x = some (x :: xs) := by
  intro xs
  induction xs with
  | nil =>
    intro x fuel hf _ hc
    cases fuel with
    | zero => exact absurd hf (by simp)
    | succ fuel =>
      have hx : next x = some stop := (List.isChain_pair.mp hc).1
      simp [ringWalk, hx]
  | cons y ys ih =>
    intro x fuel hf hs hc
    cases fuel with
    | zero => exact absurd hf (by simp)
    | succ fuel =>
      simp only [List.cons_append] at hc
      rw [List.isChain_cons_cons] at hc
      have hne : y ≠ stop := by
        rintro rfl
        simp at hs
      have hrec := ih y fuel (by simpa using hf) (fun hm => hs (List.mem_cons_of_mem _ hm)) hc.2
      rw [ringWalk, hc.1.1]
      simp [hne, hrec]

/-- **The traversal reads the ring**, given fuel for its length. -/
theorem Ring.walk [DecidableEq α] {x : α} {xs : List α} (h : Ring next prev (x :: xs))
    {fuel : Nat} (hf : xs.length < fuel) : ringWalk next x fuel x = some (x :: xs) := by
  have hc := h.links
  simp only [List.head?_cons, Option.toList_some] at hc
  exact ringWalk_chain xs x fuel hf (List.nodup_cons.mp h.nodup).1 hc

end LowLatency.Lib
