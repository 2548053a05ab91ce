import LowLatency.Book.HeapInsert

/-!
# Unlinking an order, and its level with it

`removeOrder` closes the list of the order's level behind it; when the order
was alone, `removeOrdersAtPrice` closes the list of the side behind the level
instead and returns the level to its pool. `removeOrder_spec` covers head,
tail, middle and only element alike: the ghost book loses the order
(`Ghost.remove`), and `Removed` lists what happened to tables and pools.
-/

namespace LowLatency

open Lib (Ring Unlinks)

variable {K I : Type}

section Remove

variable {s : Ladder K I} {G : Ghost K}

/-- What unlinking level `l` from a side leaves of the level pool. -/
structure Unlinked (m m' : MemPool OrdersAtPrice) (l : Nat) (rest : List Nat) : Prop where
  side : ∀ a, m'.levelSide a = m.levelSide a
  price : ∀ a, m'.levelPrice a = m.levelPrice a
  first : ∀ a, m'.firstOrder a = m.firstOrder a
  free : ∀ a, m'.isFree a = if a = l then true else m.isFree a
  size : m'.size = m.size
  valid : m.Valid → m'.Valid
  ring : Ring m'.nextEntry m'.prevEntry rest
  frame : ∀ a, a ≠ l → a ∉ rest → m'.nextEntry a = m.nextEntry a ∧ m'.prevEntry a = m.prevEntry a

/-- Marking a block free moves no link. -/
private theorem Unlinked.of_release {m m' : MemPool OrdersAtPrice} {l : Nat} {rest : List Nat}
    (hs : SameLevels m m') (hr : Ring m'.nextEntry m'.prevEntry rest)
    (hf : ∀ a, a ≠ l → a ∉ rest →
      m'.nextEntry a = m.nextEntry a ∧ m'.prevEntry a = m.prevEntry a) :
    Unlinked m (m'.release l) l rest where
  side := fun a => by
    rw [← hs.side a]; exact congrArg OrdersAtPrice.side_ (MemPool.get_release m' l a)
  price := fun a => by
    rw [← hs.price a]; exact congrArg OrdersAtPrice.price_ (MemPool.get_release m' l a)
  first := fun a => by
    rw [← hs.first a]; exact congrArg OrdersAtPrice.first_order_ (MemPool.get_release m' l a)
  free := fun a => by rw [MemPool.isFree_release, hs.free]
  size := hs.size
  valid := fun hv => (hs.valid hv).release l
  ring := hr.congr
    (fun a _ => congrArg OrdersAtPrice.next_entry_ (MemPool.get_release m' l a))
    (fun a _ => congrArg OrdersAtPrice.prev_entry_ (MemPool.get_release m' l a))
  frame := fun a hl hrest =>
    ⟨(congrArg OrdersAtPrice.next_entry_ (MemPool.get_release m' l a)).trans (hf a hl hrest).1,
      (congrArg OrdersAtPrice.prev_entry_ (MemPool.get_release m' l a)).trans (hf a hl hrest).2⟩

/-! ## The links a removal writes -/

/-- Level `l` leaves its place between `u` and `v`. -/
def MemPool.unlinkEntry (m : MemPool OrdersAtPrice) (l u v : Nat) : MemPool OrdersAtPrice :=
  (((m.setNextEntry u (some v)).setPrevEntry v (some u)).setNextEntry l none).setPrevEntry l none

theorem MemPool.unlinks_unlinkEntry (m : MemPool OrdersAtPrice) (l u v : Nat) :
    Unlinks m.nextEntry m.prevEntry (m.unlinkEntry l u v).nextEntry
      (m.unlinkEntry l u v).prevEntry l u v := by
  unfold unlinkEntry
  constructor
  · intro a
    simp [nextEntry_setNextEntry]
  · intro a
    simp [prevEntry_setPrevEntry]

theorem MemPool.sameLevels_unlinkEntry (m : MemPool OrdersAtPrice) (l u v : Nat) :
    SameLevels m (m.unlinkEntry l u v) :=
  ((((SameLevels.refl _).setNextEntry _ _).setPrevEntry _ _).setNextEntry _ _).setPrevEntry _ _

/-- Order `p` leaves its place between `u` and `v`. -/
def MemPool.unlinkOrder (m : MemPool (Order K)) (p u v : Nat) : MemPool (Order K) :=
  (((m.setNextOrder u (some v)).setPrevOrder v (some u)).setNextOrder p none).setPrevOrder p none

theorem MemPool.unlinks_unlinkOrder (m : MemPool (Order K)) (p u v : Nat) :
    Unlinks m.nextOrder m.prevOrder (m.unlinkOrder p u v).nextOrder
      (m.unlinkOrder p u v).prevOrder p u v := by
  unfold unlinkOrder
  constructor
  · intro a
    simp [nextOrder_setNextOrder]
  · intro a
    simp [prevOrder_setPrevOrder]

theorem MemPool.data_unlinkOrder (m : MemPool (Order K)) (p u v a : Nat) :
    (m.unlinkOrder p u v).data a = m.data a := by
  simp [unlinkOrder]

theorem MemPool.isFree_unlinkOrder (m : MemPool (Order K)) (p u v a : Nat) :
    (m.unlinkOrder p u v).isFree a = m.isFree a := by
  simp [unlinkOrder, setNextOrder, setPrevOrder]

theorem MemPool.Valid.unlinkOrder {m : MemPool (Order K)} (h : m.Valid) (p u v : Nat) :
    (m.unlinkOrder p u v).Valid :=
  (((h.set _ _).set _ _).set _ _).set _ _

/-- Level `l` starts at `v` now if it started at `p`. -/
def MemPool.passFirst (m : MemPool OrdersAtPrice) (l p v : Nat) : MemPool OrdersAtPrice :=
  if m.firstOrder l = some p then m.setFirstOrder l (some v) else m

theorem MemPool.level_passFirst (m : MemPool OrdersAtPrice) (l p v a : Nat) :
    (m.passFirst l p v).levelSide a = m.levelSide a ∧
    (m.passFirst l p v).levelPrice a = m.levelPrice a ∧
    (m.passFirst l p v).prevEntry a = m.prevEntry a ∧
    (m.passFirst l p v).nextEntry a = m.nextEntry a := by
  unfold passFirst
  split <;> simp

theorem MemPool.firstOrder_passFirst (m : MemPool OrdersAtPrice) (l p v a : Nat) :
    (m.passFirst l p v).firstOrder a =
      if a = l then if m.firstOrder l = some p then some v else m.firstOrder l
      else m.firstOrder a := by
  unfold passFirst
  by_cases hf : m.firstOrder l = some p
  · rw [if_pos hf, if_pos hf, firstOrder_setFirstOrder]
  · rw [if_neg hf, if_neg hf]
    split
    next he => rw [he]
    next => rfl

theorem MemPool.isFree_passFirst (m : MemPool OrdersAtPrice) (l p v : Nat) :
    (m.passFirst l p v).isFree = m.isFree := by
  unfold passFirst
  split
  · funext a
    exact MemPool.isFree_set ..
  · rfl

theorem MemPool.size_passFirst (m : MemPool OrdersAtPrice) (l p v : Nat) :
    (m.passFirst l p v).size = m.size := by
  unfold passFirst
  split <;> rfl

theorem MemPool.Valid.passFirst {m : MemPool OrdersAtPrice} (h : m.Valid) (l p v : Nat) :
    (m.passFirst l p v).Valid := by
  unfold MemPool.passFirst
  split
  · exact h.set _ _
  · exact h

/-! ## A level leaves its side -/

/-- **Unlinking a level**: its side is left with the others, and the best
pointer at the first of them. -/
theorem removeOrdersAtPrice_spec {side : Side} {price : Int} {l : Nat} {A B : List Nat}
    (hslot : s.getOrdersAtPrice price = some l)
    (hbest : s.best (Ladder.isBid side) = (A ++ l :: B).head?)
    (hring : Ring s.orders_at_price_pool_.nextEntry s.orders_at_price_pool_.prevEntry
      (A ++ l :: B))
    (hused : s.orders_at_price_pool_.Used l) :
    ∃ m', s.removeOrdersAtPrice side price = .ok (({ s with
        price_orders_at_price_ :=
          Function.update s.price_orders_at_price_ (priceToIndex price) none
        orders_at_price_pool_ := m' }).setBest (Ladder.isBid side) (A ++ B).head?) ∧
      Unlinked s.orders_at_price_pool_ m' l (A ++ B) := by
  have hrot : Ring s.orders_at_price_pool_.nextEntry s.orders_at_price_pool_.prevEntry
      (l :: (B ++ A)) := hring.rotate
  by_cases hself : s.orders_at_price_pool_.nextEntry l = some l
  · -- the only level of its side
    have hBA := hrot.next_self_iff.mp hself
    obtain ⟨rfl, rfl⟩ := List.append_eq_nil_iff.mp hBA
    refine ⟨s.orders_at_price_pool_.release l, ?_,
      Unlinked.of_release (SameLevels.refl _) Ring.nil (fun _ _ _ => ⟨rfl, rfl⟩)⟩
    simp only [Ladder.removeOrdersAtPrice, hslot, deref_some, exec_ok_bind, hself, if_true,
      setBest_orders_at_price_pool_, MemPool.deallocate_ok hused, exec_pure]
    cases Ladder.isBid side <;> rfl
  · have hAB : A ++ B ≠ [] := by
      intro hnil
      obtain ⟨rfl, rfl⟩ := List.append_eq_nil_iff.mp hnil
      exact hself (hrot.next_self_iff.mpr rfl)
    obtain ⟨u, hu, v, hv, hpu, hnv⟩ := hring.neighbours_rest hAB
    obtain ⟨hring', hframe⟩ := hring.unlink hu hv hpu hnv
      (s.orders_at_price_pool_.unlinks_unlinkEntry l u v)
    have hsame := s.orders_at_price_pool_.sameLevels_unlinkEntry l u v
    have hused' := (hsame.used l).mpr hused
    refine ⟨(s.orders_at_price_pool_.unlinkEntry l u v).release l, ?_,
      Unlinked.of_release hsame hring' hframe⟩
    -- the new best level is the successor when the removed one was best
    have hhead := hring.head?_rest hAB hnv
    have hlu : l ≠ u := fun he => hring.not_mem_rest (he ▸ hu)
    have hm : (((s.orders_at_price_pool_.setNextEntry u (some v)).setPrevEntry v
        (some u)).setNextEntry l none).setPrevEntry l none =
      s.orders_at_price_pool_.unlinkEntry l u v := rfl
    simp only [Ladder.removeOrdersAtPrice, hslot, deref_some, exec_ok_bind, if_neg hself]
    simp only [deref_some, exec_ok_bind, hpu, hnv, MemPool.nextEntry_setNextEntry, if_neg hlu,
      (MemPool.level_setNextEntry _ _ _ _).2.2.2, (MemPool.level_setPrevEntry _ _ _ _).2.2.2,
      hm, MemPool.deallocate_ok hused', exec_pure, hbest, hhead]
    split
    · cases Ladder.isBid side <;> rfl
    · rw [setBest_self]
      exact hbest

/-! ## The ghost book without an order -/

theorem removeFrom_append (p : Nat) (A B : List (LevelG K)) :
    removeFrom p (A ++ B) = removeFrom p A ++ removeFrom p B := by
  simp [removeFrom]

/-- The orders of a level without `p`, which is not among them. -/
theorem LevelG.filter_of_not_mem {g : LevelG K} {p : Nat} (hp : p ∉ g.ptrs) :
    (g.orders.filter fun o => decide (o.1 ≠ p)) = g.orders := by
  refine List.filter_eq_self.mpr fun o ho => decide_eq_true fun he => hp ?_
  exact he ▸ List.mem_map_of_mem ho

/-- The orders of a level without `p`, which stands between `C` and `D`. -/
theorem LevelG.filter_of_split {g : LevelG K} {p : Nat} {d : OrderData K}
    {C D : List (Nat × OrderData K)} (hg : g.orders = C ++ (p, d) :: D) (hnd : g.ptrs.Nodup) :
    (g.orders.filter fun o => decide (o.1 ≠ p)) = C ++ D := by
  have hnot : ∀ o ∈ C ++ D, o.1 ≠ p := by
    intro o ho e
    unfold LevelG.ptrs at hnd
    rw [hg, List.map_append, List.map_cons, List.nodup_middle, List.nodup_cons,
      ← List.map_append] at hnd
    have hmem : o.1 ∈ (C ++ D).map Prod.fst := List.mem_map_of_mem ho
    rw [e] at hmem
    exact hnd.1 hmem
  rw [hg, List.filter_append, List.filter_cons_of_neg (by simp), ← List.filter_append]
  exact List.filter_eq_self.mpr fun o ho => decide_eq_true (hnot o ho)

/-- Levels without order `p` stay as they are. -/
theorem removeFrom_of_not_mem {p : Nat} : ∀ {L : List (LevelG K)},
    (∀ g ∈ L, p ∉ g.ptrs ∧ g.orders ≠ []) → removeFrom p L = L
  | [], _ => rfl
  | g :: L, h => by
    have hg := h g (List.mem_cons_self ..)
    have hrest := removeFrom_of_not_mem fun g' hg' => h g' (List.mem_cons_of_mem _ hg')
    unfold removeFrom at hrest ⊢
    rw [List.map_cons, LevelG.filter_of_not_mem hg.1, List.filter_cons_of_pos, hrest]
    simp [LevelG.ptrs, hg.2]

theorem removeFrom_cons_last {p : Nat} {d : OrderData K} {g : LevelG K} {L : List (LevelG K)}
    (hg : g.orders = [(p, d)]) : removeFrom p (g :: L) = removeFrom p L := by
  simp [removeFrom, hg, LevelG.ptrs]

theorem removeFrom_cons_link {p : Nat} {d : OrderData K} {g : LevelG K} {L : List (LevelG K)}
    {C D : List (Nat × OrderData K)} (hg : g.orders = C ++ (p, d) :: D) (hnd : g.ptrs.Nodup)
    (hCD : C ++ D ≠ []) :
    removeFrom p (g :: L) = { g with orders := C ++ D } :: removeFrom p L := by
  unfold removeFrom
  rw [List.map_cons, LevelG.filter_of_split hg hnd, List.filter_cons_of_pos]
  refine decide_eq_true ?_
  show (C ++ D).map Prod.fst ≠ []
  simpa only [ne_eq, List.map_eq_nil_iff] using hCD

/-- Which levels are left, and what is left of them. -/
theorem mem_removeFrom {p : Nat} {L : List (LevelG K)} {g : LevelG K} :
    g ∈ removeFrom p L ↔ g.orders ≠ [] ∧
      ∃ g₀ ∈ L, g = { g₀ with orders := g₀.orders.filter fun o => decide (o.1 ≠ p) } := by
  unfold removeFrom
  rw [List.mem_filter, List.mem_map]
  have hne : decide (g.ptrs ≠ []) = true ↔ g.orders ≠ [] := by
    rw [decide_eq_true_iff]
    exact not_congr List.map_eq_nil_iff
  rw [hne]
  constructor
  · rintro ⟨⟨g₀, hg₀, rfl⟩, hn⟩
    exact ⟨hn, g₀, hg₀, rfl⟩
  · rintro ⟨hn, g₀, hg₀, rfl⟩
    exact ⟨⟨g₀, hg₀, rfl⟩, hn⟩

/-- Removing an order of level `g`, which stands between `A` and `B`, touches
no other level. -/
theorem Ghost.remove_eq (h : Core s G) {b : Bool} {g : LevelG K} {A B M : List (LevelG K)}
    {p : Nat} (hL : G b = A ++ g :: B) (hp : p ∈ g.ptrs)
    (hM : removeFrom p (g :: B) = M ++ removeFrom p B) :
    G.remove p = Function.update G b (A ++ M ++ B) := by
  have hother : ∀ b', ∀ g' ∈ G b', g' ≠ g → p ∉ g'.ptrs ∧ g'.orders ≠ [] := by
    intro b' g' hg' hne
    refine ⟨fun hp' => hne ?_, (h.level b' g' hg').ne⟩
    exact (h.own_eq hg' (by rw [hL]; simp : g ∈ G b) hp' hp).2
  have hnd := (h.ring b).nodup
  rw [hL, List.map_append, List.map_cons, List.nodup_middle, List.nodup_cons] at hnd
  have hne : ∀ g' ∈ A ++ B, g' ≠ g := by
    rintro g' hg' rfl
    exact hnd.1 (by rw [← List.map_append]; exact List.mem_map_of_mem hg')
  funext b'
  unfold Ghost.remove
  by_cases hb : b' = b
  · subst hb
    rw [Function.update_self, hL, removeFrom_append, hM]
    have hA : removeFrom p A = A := removeFrom_of_not_mem fun g' hg' =>
      hother b' g' (by rw [hL]; simp [hg']) (hne g' (by simp [hg']))
    have hB : removeFrom p B = B := removeFrom_of_not_mem fun g' hg' =>
      hother b' g' (by rw [hL]; simp [hg']) (hne g' (by simp [hg']))
    rw [hA, hB, List.append_assoc]
  · rw [Function.update_of_ne hb]
    refine removeFrom_of_not_mem fun g' hg' => hother b' g' hg' ?_
    rintro rfl
    exact hb (h.ptr_inj hg' (by rw [hL]; simp : g' ∈ G b) rfl).1

/-- Taking one order out of several leaves the level in its place. -/
theorem Ghost.remove_ptrs (h : Core s G) {b : Bool} {g : LevelG K} (hg : g ∈ G b) {p : Nat}
    {d : OrderData K} {C D : List (Nat × OrderData K)} (hgo : g.orders = C ++ (p, d) :: D)
    (hCD : C ++ D ≠ []) (b' : Bool) :
    ((G.remove p) b').map LevelG.ptr = (G b').map LevelG.ptr := by
  have hpg : p ∈ g.ptrs := by simp [LevelG.ptrs, hgo]
  obtain ⟨A, B, hL⟩ := List.append_of_mem hg
  have hG : G.remove p = Function.update G b (A ++ { g with orders := C ++ D } :: B) := by
    have := Ghost.remove_eq h hL hpg (M := [{ g with orders := C ++ D }])
      (removeFrom_cons_link hgo (h.level b g hg).ring.nodup hCD)
    simpa using this
  rw [hG]
  by_cases hb : b' = b
  · subst hb
    rw [Function.update_self, hL]
    simp
  · rw [Function.update_of_ne hb]

/-- What is left of the levels is part of what was there, without order `p`. -/
theorem Ghost.remove_part {p : Nat} {b : Bool} {g : LevelG K} (hg : g ∈ (G.remove p) b) :
    ∃ g₀ ∈ G b, g₀.ptr = g.ptr ∧ ∀ a ∈ g.ptrs, a ∈ g₀.ptrs ∧ a ≠ p := by
  obtain ⟨_, g₀, hg₀, rfl⟩ := mem_removeFrom.mp hg
  refine ⟨g₀, hg₀, rfl, fun a ha => ?_⟩
  obtain ⟨o, ho, rfl⟩ := List.mem_map.mp ha
  obtain ⟨ho, hne⟩ := List.mem_filter.mp ho
  exact ⟨List.mem_map_of_mem ho, of_decide_eq_true hne⟩

theorem Ghost.remove_within (G : Ghost K) (p : Nat) : (G.remove p).Within G := by
  intro b g hg
  obtain ⟨g₀, hg₀, he, hpart⟩ := Ghost.remove_part hg
  exact ⟨g₀, hg₀, he, fun a ha => (hpart a ha).1⟩

/-- A level is left as it was, unless it is the level of the order. -/
theorem Ghost.mem_remove_cases (h : Core s G) {b b' : Bool} {g g' : LevelG K} {p : Nat}
    (hg : g ∈ G b) (hp : p ∈ g.ptrs) (hg' : g' ∈ (G.remove p) b') :
    (g' ∈ G b' ∧ g'.ptr ≠ g.ptr) ∨
    (b' = b ∧ g' = { g with orders := g.orders.filter fun o => decide (o.1 ≠ p) } ∧
      g'.orders ≠ []) := by
  obtain ⟨hne, g₀, hg₀, rfl⟩ := mem_removeFrom.mp hg'
  by_cases hp₀ : p ∈ g₀.ptrs
  · obtain ⟨rfl, rfl⟩ := h.own_eq hg₀ hg hp₀ hp
    exact Or.inr ⟨rfl, rfl, hne⟩
  · rw [LevelG.filter_of_not_mem hp₀]
    refine Or.inl ⟨hg₀, fun he => hp₀ ?_⟩
    rw [(h.ptr_inj hg₀ hg he).2]
    exact hp

/-- Of the pointers of a book without `p` the lists are what has to be checked. -/
theorem Core.of_remove (h : Core s G) {s' : Ladder K I} {p : Nat}
    (hbest : ∀ b, s'.best b = (((G.remove p) b).map LevelG.ptr).head?)
    (hring : ∀ b, Ring s'.orders_at_price_pool_.nextEntry s'.orders_at_price_pool_.prevEntry
      (((G.remove p) b).map LevelG.ptr))
    (hlevel : ∀ b, ∀ g ∈ (G.remove p) b, LevelOk s'.orders_at_price_pool_ s'.order_pool_ g)
    (husedL : ∀ b, ∀ g ∈ (G.remove p) b, s'.orders_at_price_pool_.Used g.ptr)
    (hsizeO : s'.order_pool_.size = s.order_pool_.size)
    (hfreeO : ∀ q, s'.order_pool_.isFree q = if q = p then true else s.order_pool_.isFree q)
    (hvalidL : s'.orders_at_price_pool_.Valid) (hvalidO : s'.order_pool_.Valid) :
    Core s' (G.remove p) where
  best := hbest
  ring := hring
  level := hlevel
  cross := h.cross_within (G.remove_within p)
  own := h.own_within (G.remove_within p)
  usedL := husedL
  usedO := by
    intro b g hg a ha
    obtain ⟨g₀, hg₀, _, hpart⟩ := Ghost.remove_part hg
    obtain ⟨hlt, hfree⟩ := h.usedO b g₀ hg₀ a (hpart a ha).1
    exact ⟨hsizeO ▸ hlt, by rw [hfreeO, if_neg (hpart a ha).2]; exact hfree⟩
  validL := hvalidL
  validO := hvalidO

/-- The order pool after block `p` was released: links and data stay. -/
private theorem LevelOk.release {lp : MemPool OrdersAtPrice} {op : MemPool (Order K)}
    {g : LevelG K} (h : LevelOk lp op g) (p : Nat) : LevelOk lp (op.release p) g :=
  h.congr rfl rfl rfl
    (fun a _ => congrArg Order.next_order_ (MemPool.get_release op p a))
    (fun a _ => congrArg Order.prev_order_ (MemPool.get_release op p a))
    (fun a _ => congrArg Order.toOrderData (MemPool.get_release op p a))

variable [OrderKey K I] [DecidableEq I]

/-- What every removal does to the tables and pools; `last` says that the
order was alone in its level `l`. -/
structure Removed (s s' : Ladder K I) (p l : Nat) (d : OrderData K) (last : Bool) : Prop where
  ids : s'.id_to_order_ = Function.update s.id_to_order_ (idx d.id_) none
  slots : ∀ i, s'.price_orders_at_price_ i =
    if last = true ∧ i = priceToIndex d.price_ then none else s.price_orders_at_price_ i
  freeO : ∀ q, s'.order_pool_.isFree q = if q = p then true else s.order_pool_.isFree q
  freeL : ∀ q, s'.orders_at_price_pool_.isFree q =
    if last = true ∧ q = l then true else s.orders_at_price_pool_.isFree q
  sizeO : s'.order_pool_.size = s.order_pool_.size
  sizeL : s'.orders_at_price_pool_.size = s.orders_at_price_pool_.size

/-- The last order of a level takes the level with it. -/
private theorem removeOrder_last (h : Core s G) {b : Bool} {g : LevelG K} (hg : g ∈ G b) {p : Nat}
    {d : OrderData K} (hgo : g.orders = [(p, d)])
    (hslot : s.getOrdersAtPrice d.price_ = some g.ptr) (hside : Ladder.isBid d.side_ = b)
    (hin : inRange (K := K) (idx d.id_) = true) :
    ∃ s', s.removeOrder p = .ok s' ∧ Core s' (G.remove p) ∧ Removed s s' p g.ptr d true := by
  have hok := h.level b g hg
  have hptrs : g.ptrs = [p] := by simp [LevelG.ptrs, hgo]
  have hpg : p ∈ g.ptrs := by simp [hptrs]
  have hdata : s.order_pool_.data p = d := hok.data (p, d) (by simp [hgo])
  have hprev : s.order_pool_.prevOrder p = some p := by
    have hr := hok.ring
    rw [hptrs] at hr
    exact hr.prev_self_iff.mpr rfl
  obtain ⟨A, B, hL⟩ := List.append_of_mem hg
  have hbest : s.best (Ladder.isBid d.side_)
      = (A.map LevelG.ptr ++ g.ptr :: B.map LevelG.ptr).head? := by
    rw [hside, h.best b, hL, List.map_append, List.map_cons]
  have hring : Ring s.orders_at_price_pool_.nextEntry s.orders_at_price_pool_.prevEntry
      (A.map LevelG.ptr ++ g.ptr :: B.map LevelG.ptr) := by
    rw [← List.map_cons, ← List.map_append, ← hL]
    exact h.ring b
  obtain ⟨m', hrun, hun⟩ := removeOrdersAtPrice_spec hslot hbest hring (h.usedL b g hg)
  rw [hside, ← List.map_append] at hrun
  rw [← List.map_append] at hun
  have hG : G.remove p = Function.update G b (A ++ B) := by
    have := Ghost.remove_eq h hL hpg (M := []) (removeFrom_cons_last hgo)
    simpa using this
  -- nothing is left of `g`, so every level is an old one
  have hsub : ∀ b', ∀ g' ∈ (G.remove p) b', g' ∈ G b' ∧ g'.ptr ≠ g.ptr := by
    intro b' g' hg'
    rcases Ghost.mem_remove_cases h hg hpg hg' with hold | ⟨_, rfl, hne⟩
    · exact hold
    · exact absurd (by simp [hgo]) hne
  refine ⟨Ladder.setBest { s with
      price_orders_at_price_ :=
        Function.update s.price_orders_at_price_ (priceToIndex d.price_) none
      orders_at_price_pool_ := m'
      id_to_order_ := Function.update s.id_to_order_ (idx d.id_) none
      order_pool_ := s.order_pool_.release p } b ((A ++ B).map LevelG.ptr).head?, ?_, ?_, ?_⟩
  · have hused : s.order_pool_.Used p := h.usedO b g hg p hpg
    simp only [Ladder.removeOrder, hdata, hprev, if_true, hrun, exec_ok_bind, Ladder.setIdx, hin,
      setBest_order_pool_, setBest_id_to_order_, MemPool.deallocate_ok hused, exec_pure]
    cases b <;> rfl
  · refine h.of_remove ?_ ?_ ?_ ?_ ?_ ?_ ?_ ?_
    · intro b'
      rw [best_setBest, hG]
      by_cases hb : b' = b
      · rw [if_pos hb, hb, Function.update_self]
      · rw [if_neg hb, Function.update_of_ne hb]
        exact h.best b'
    · intro b'
      rw [setBest_orders_at_price_pool_]
      by_cases hb : b' = b
      · rw [hG, hb, Function.update_self]
        exact hun.ring
      · -- the other side has none of the levels that were touched
        have hfr : ∀ a ∈ (G b').map LevelG.ptr, a ≠ g.ptr ∧ a ∉ (A ++ B).map LevelG.ptr := by
          intro a ha
          obtain ⟨g', hg', rfl⟩ := List.mem_map.mp ha
          refine ⟨fun he => hb (h.ptr_inj hg' hg he).1, fun hm => ?_⟩
          obtain ⟨g'', hg'', he⟩ := List.mem_map.mp hm
          have : g'' ∈ G b := by rw [hL]; simp at hg'' ⊢; tauto
          exact hb (h.ptr_inj hg' this he.symm).1
        rw [hG, Function.update_of_ne hb]
        exact (h.ring b').congr (fun a ha => (hun.frame a (hfr a ha).1 (hfr a ha).2).1)
          (fun a ha => (hun.frame a (hfr a ha).1 (hfr a ha).2).2)
    · intro b' g' hg'
      rw [setBest_orders_at_price_pool_, setBest_order_pool_]
      refine LevelOk.release ?_ p
      exact (h.level b' g' (hsub b' g' hg').1).congr (hun.side _) (hun.price _) (hun.first _)
        (fun _ _ => rfl) (fun _ _ => rfl) (fun _ _ => rfl)
    · intro b' g' hg'
      rw [setBest_orders_at_price_pool_]
      have hu := h.usedL b' g' (hsub b' g' hg').1
      exact ⟨by show g'.ptr < m'.size; rw [hun.size]; exact hu.1,
        by show m'.isFree g'.ptr = false; rw [hun.free, if_neg (hsub b' g' hg').2]; exact hu.2⟩
    · rw [setBest_order_pool_]
      rfl
    · intro q
      rw [setBest_order_pool_]
      exact MemPool.isFree_release ..
    · rw [setBest_orders_at_price_pool_]
      exact hun.valid h.validL
    · rw [setBest_order_pool_]
      exact h.validO.release p
  · refine ⟨by simp, ?_, ?_, ?_, ?_, ?_⟩
    · intro i
      rw [setBest_price_orders_at_price_]
      by_cases hi : i = priceToIndex d.price_
      · simp [hi]
      · simp [hi]
    · intro q
      rw [setBest_order_pool_]
      exact MemPool.isFree_release ..
    · intro q
      rw [setBest_orders_at_price_pool_]
      simp [hun.free]
    · rw [setBest_order_pool_]
      rfl
    · rw [setBest_orders_at_price_pool_]
      exact hun.size

/-- Any other order is unlinked from the list of its level, which stays. -/
private theorem removeOrder_link (h : Core s G) {b : Bool} {g : LevelG K} (hg : g ∈ G b) {p : Nat}
    {d : OrderData K} {C D : List (Nat × OrderData K)} (hgo : g.orders = C ++ (p, d) :: D)
    (hCD : C ++ D ≠ []) (hslot : s.getOrdersAtPrice d.price_ = some g.ptr)
    (hin : inRange (K := K) (idx d.id_) = true) :
    ∃ s', s.removeOrder p = .ok s' ∧ Core s' (G.remove p) ∧ Removed s s' p g.ptr d false := by
  have hok := h.level b g hg
  have hptrs : g.ptrs = C.map Prod.fst ++ p :: D.map Prod.fst := by simp [LevelG.ptrs, hgo]
  have hpg : p ∈ g.ptrs := by simp [hptrs]
  have hdata : s.order_pool_.data p = d := hok.data (p, d) (by simp [hgo])
  have hring := hok.ring
  rw [hptrs] at hring
  have hCD' : C.map Prod.fst ++ D.map Prod.fst ≠ [] := by
    rw [← List.map_append]
    simpa only [ne_eq, List.map_eq_nil_iff] using hCD
  obtain ⟨u, hu, v, hv, hpu, hnv⟩ := hring.neighbours_rest hCD'
  obtain ⟨hring', hframe⟩ := hring.unlink hu hv hpu hnv (s.order_pool_.unlinks_unlinkOrder p u v)
  -- the head of the level moves on when it was the removed order
  have hfirst := hring.head?_rest hCD' hnv
  rw [← hptrs, ← hok.first] at hfirst
  have hused : (s.order_pool_.unlinkOrder p u v).Used p := by
    refine ⟨(h.usedO b g hg p hpg).1, ?_⟩
    rw [MemPool.isFree_unlinkOrder]
    exact (h.usedO b g hg p hpg).2
  have hfree : ∀ q, ((s.order_pool_.unlinkOrder p u v).release p).isFree q =
      if q = p then true else s.order_pool_.isFree q := by
    intro q
    rw [MemPool.isFree_release, MemPool.isFree_unlinkOrder]
  refine ⟨{ s with
      orders_at_price_pool_ := s.orders_at_price_pool_.passFirst g.ptr p v
      id_to_order_ := Function.update s.id_to_order_ (idx d.id_) none
      order_pool_ := (s.order_pool_.unlinkOrder p u v).release p }, ?_, ?_, ?_⟩
  · have hnself : s.order_pool_.prevOrder p ≠ some p := by
      rw [hpu]
      exact fun he => hring.not_mem_rest (Option.some.inj he ▸ hu)
    have hm : (((s.order_pool_.setNextOrder u (some v)).setPrevOrder v (some u)).setNextOrder p
        none).setPrevOrder p none = s.order_pool_.unlinkOrder p u v := rfl
    simp only [Ladder.removeOrder, hdata, if_neg hnself]
    simp only [hpu, hnv, deref_some, exec_ok_bind, hslot, hm]
    unfold MemPool.passFirst
    split
    · simp only [exec_ok_bind, Ladder.setIdx, hin, if_true, MemPool.deallocate_ok hused, exec_pure]
    · simp only [exec_ok_bind, Ladder.setIdx, hin, if_true, MemPool.deallocate_ok hused, exec_pure]
  · refine h.of_remove ?_ ?_ ?_ ?_ rfl hfree (h.validL.passFirst _ _ _)
      ((h.validO.unlinkOrder p u v).release p)
    · intro b'
      rw [Ghost.remove_ptrs h hg hgo hCD]
      exact h.best b'
    · intro b'
      rw [Ghost.remove_ptrs h hg hgo hCD]
      exact (h.ring b').congr (fun a _ => (MemPool.level_passFirst _ _ _ _ a).2.2.2)
        (fun a _ => (MemPool.level_passFirst _ _ _ _ a).2.2.1)
    · intro b' g' hg'
      refine LevelOk.release ?_ p
      obtain ⟨hside', hprice', _, _⟩ :=
        s.orders_at_price_pool_.level_passFirst g.ptr p v g'.ptr
      have hfirst' := s.orders_at_price_pool_.firstOrder_passFirst g.ptr p v g'.ptr
      rcases Ghost.mem_remove_cases h hg hpg hg' with ⟨hold, hne⟩ | ⟨rfl, rfl, _⟩
      · -- another level, none of whose orders was touched
        have hfar : ∀ a ∈ g'.ptrs, a ∉ g.ptrs := fun a ha ha' =>
          hne (h.own b' g' hold b g hg a ha ha')
        have hkept : ∀ a ∈ g'.ptrs, _ := fun a ha => hframe a
          (fun he => hfar a ha (he ▸ hpg)) (fun hm => hfar a ha (by
            rw [hptrs]
            simp only [List.mem_append, List.mem_cons] at hm ⊢
            tauto))
        rw [if_neg hne] at hfirst'
        exact (h.level b' g' hold).congr hside' hprice' hfirst' (fun a ha => (hkept a ha).1)
          (fun a ha => (hkept a ha).2) (fun a _ => MemPool.data_unlinkOrder ..)
      · rw [if_pos rfl, ← hfirst] at hfirst'
        rw [LevelG.filter_of_split hgo hok.ring.nodup]
        have hptrs' : LevelG.ptrs { g with orders := C ++ D }
            = C.map Prod.fst ++ D.map Prod.fst := by simp [LevelG.ptrs]
        refine ⟨hside'.trans hok.side, hprice'.trans hok.price, ?_, hCD, ?_, ?_⟩
        · rw [hptrs']
          exact hfirst'
        · rw [hptrs']
          exact hring'
        · intro o ho
          rw [MemPool.data_unlinkOrder]
          refine hok.data o ?_
          rw [hgo]
          simp only [List.mem_append, List.mem_cons] at ho ⊢
          tauto
    · intro b' g' hg'
      obtain ⟨g₀, hg₀, he, _⟩ := Ghost.remove_part hg'
      obtain ⟨hlt, hnot⟩ := h.usedL b' g₀ hg₀
      rw [he] at hlt hnot
      exact ⟨by rw [MemPool.size_passFirst]; exact hlt, by rw [MemPool.isFree_passFirst]; exact hnot⟩
  · refine ⟨rfl, fun i => by simp, hfree, fun q => ?_, rfl, MemPool.size_passFirst ..⟩
    rw [MemPool.isFree_passFirst]
    simp

/-- **Removing an order**: it leaves its level, and the level leaves its side
when it was alone there. -/
theorem removeOrder_spec (h : Core s G) {b : Bool} {g : LevelG K} (hg : g ∈ G b) {p : Nat}
    {d : OrderData K} (hpd : (p, d) ∈ g.orders)
    (hslot : s.getOrdersAtPrice d.price_ = some g.ptr) (hside : Ladder.isBid d.side_ = b)
    (hin : inRange (K := K) (idx d.id_) = true) :
    ∃ s', s.removeOrder p = .ok s' ∧ Core s' (G.remove p) ∧
      Removed s s' p g.ptr d (decide (g.ptrs = [p])) := by
  obtain ⟨C, D, hgo⟩ := List.append_of_mem hpd
  by_cases hCD : C ++ D = []
  · obtain ⟨rfl, rfl⟩ := List.append_eq_nil_iff.mp hCD
    have hptrs : g.ptrs = [p] := by simp [LevelG.ptrs, hgo]
    rw [decide_eq_true hptrs]
    exact removeOrder_last h hg hgo hslot hside hin
  · have hptrs : g.ptrs ≠ [p] := by
      intro he
      have hlen : g.ptrs.length = 1 := by rw [he]; rfl
      simp only [LevelG.ptrs, hgo, List.length_map, List.length_append, List.length_cons] at hlen
      refine hCD (List.length_eq_zero_iff.mp ?_)
      rw [List.length_append]
      omega
    rw [decide_eq_false hptrs]
    exact removeOrder_link h hg hgo hCD hslot hin

end Remove

end LowLatency
