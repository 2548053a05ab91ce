import LowLatency.Matcher.Feed

/-!
# The life of an order

What a client learns of one of its orders, over a whole run. `Life q rs leaves
canceled` says that the responses `rs` are a history of the order of request
`q`: accepted, then filled bit by bit, then cancelled or not; nothing follows a
cancel or the last bit.

Which responses are about an order is a predicate on the client's index and the
market order id (`about`). The exchange's own view takes the market order id, a
client's view takes its order id; the step lemmas are proved for both at once,
for any predicate that singles out at most one live order (`Singles`).

A request can touch an order in three ways: it brings it (`life_accept`), it
fills it from the other side or cancels it (`life_step`), or it leaves it alone
(`step_absent` if there is nothing to touch).
-/

namespace LowLatency

@[simp] theorem responses_nil : responses [] = [] := rfl

@[simp] theorem responses_append (es fs : List Event) :
    responses (es ++ fs) = responses es ++ responses fs := List.filterMap_append

@[simp] theorem responses_response (r : MEClientResponse) (es : List Event) :
    responses (.response r :: es) = r :: responses es := rfl

@[simp] theorem responses_update (u : MEMarketUpdate) (es : List Event) :
    responses (.update u :: es) = responses es := rfl

/-! ## Histories -/

/-- The response is about the order of request `q`. -/
structure Concerns (q : MEClientRequest) (r : MEClientResponse) : Prop where
  client : r.client_id_ = q.client_id_
  order : r.client_order_id_ = q.order_id_
  side : r.side_ = q.side_

/-- A history of the order of `q`, what it has left, and whether it ended with a
cancel. -/
inductive Life (q : MEClientRequest) : List MEClientResponse → Nat → Bool → Prop
  | accepted {r : MEClientResponse} (hr : Concerns q r) (ht : r.type_ = .ACCEPTED)
      (he : r.exec_qty_ = 0) (hl : r.leaves_qty_ = q.qty_) : Life q [r] q.qty_ false
  | filled {rs : List MEClientResponse} {leaves : Nat} {r : MEClientResponse}
      (h : Life q rs leaves false) (hr : Concerns q r) (ht : r.type_ = .FILLED)
      (he : 0 < r.exec_qty_) (hl : r.leaves_qty_ + r.exec_qty_ = leaves) :
      Life q (rs ++ [r]) r.leaves_qty_ false
  | canceled {rs : List MEClientResponse} {leaves : Nat} {r : MEClientResponse}
      (h : Life q rs leaves false) (hr : Concerns q r) (ht : r.type_ = .CANCELED)
      (hpos : 0 < leaves) (hl : r.leaves_qty_ = leaves) : Life q (rs ++ [r]) leaves true

/-- What an order's responses report as executed. -/
def executed (rs : List MEClientResponse) : Nat :=
  ((rs.filter fun r => decide (r.type_ = .FILLED)).map MEClientResponse.exec_qty_).sum

theorem executed_append (rs rs' : List MEClientResponse) :
    executed (rs ++ rs') = executed rs + executed rs' := by
  unfold executed
  rw [List.filter_append, List.map_append, List.sum_append]

theorem executed_filled {r : MEClientResponse} (h : r.type_ = .FILLED) :
    executed [r] = r.exec_qty_ := by
  simp [executed, h]

theorem executed_other {r : MEClientResponse} (h : r.type_ ≠ .FILLED) : executed [r] = 0 := by
  simp [executed, h]

/-- **Conservation**: what was ordered is executed or left. -/
theorem Life.conserved {q : MEClientRequest} {rs : List MEClientResponse} {leaves : Nat}
    {canceled : Bool} (h : Life q rs leaves canceled) : q.qty_ = executed rs + leaves := by
  induction h with
  | accepted _ ht => rw [executed_other (by simp [ht]), Nat.zero_add]
  | filled _ _ ht _ hl ih =>
    rw [executed_append, executed_filled ht, ih]
    omega
  | canceled _ _ ht _ _ ih => rw [executed_append, executed_other (by simp [ht]), ih, Nat.add_zero]

/-- Every response of a history is about its order. -/
theorem Life.concerns {q : MEClientRequest} {rs : List MEClientResponse} {leaves : Nat}
    {canceled : Bool} (h : Life q rs leaves canceled) : ∀ r ∈ rs, Concerns q r := by
  induction h with
  | accepted hr => exact fun r h => List.mem_singleton.mp h ▸ hr
  | filled _ hr _ _ _ ih | canceled _ hr _ _ _ ih =>
    intro r h
    rcases List.mem_append.mp h with h | h
    · exact ih r h
    · exact List.mem_singleton.mp h ▸ hr

theorem Life.ne_nil {q : MEClientRequest} {rs : List MEClientResponse} {leaves : Nat}
    {canceled : Bool} (h : Life q rs leaves canceled) : rs ≠ [] := by
  cases h <;> simp

/-- A rejected cancel is no part of a history. -/
theorem Life.not_rejected {q : MEClientRequest} {rs : List MEClientResponse} {leaves : Nat}
    {canceled : Bool} (h : Life q rs leaves canceled) : ∀ r ∈ rs, r.type_ ≠ .CANCEL_REJECTED := by
  induction h with
  | accepted _ ht =>
    intro r h
    rw [List.mem_singleton.mp h, ht]
    decide
  | filled _ _ ht _ _ ih | canceled _ _ ht _ _ ih =>
    intro r h
    rcases List.mem_append.mp h with h | h
    · exact ih r h
    · rw [List.mem_singleton.mp h, ht]
      decide

/-- **A history is a history from the start**: so is every part of it that has
begun, and it goes on only while something is left and it is not cancelled. -/
theorem Life.of_append {q : MEClientRequest} {rs rs' : List MEClientResponse} {leaves : Nat}
    {canceled : Bool} (h : Life q (rs ++ rs') leaves canceled) (hrs : rs ≠ []) :
    ∃ leaves' canceled', Life q rs leaves' canceled' ∧
      (rs' = [] → leaves' = leaves ∧ canceled' = canceled) ∧
      (rs' ≠ [] → canceled' = false ∧ 0 < leaves') := by
  induction rs' using List.reverseRecOn generalizing leaves canceled with
  | nil => exact ⟨leaves, canceled, by simpa using h, fun _ => ⟨rfl, rfl⟩, fun hne => absurd rfl hne⟩
  | append_singleton rs' r ih =>
    rw [← List.append_assoc] at h
    -- whatever comes last, what stands before it was open, with something left
    have hopen : ∃ leaves₀, Life q (rs ++ rs') leaves₀ false ∧ 0 < leaves₀ := by
      generalize hl : rs ++ rs' ++ [r] = l at h
      cases h with
      | accepted =>
        have hlen := congrArg List.length hl
        have hpos := List.length_pos_iff.mpr hrs
        simp only [List.length_append, List.length_singleton] at hlen
        omega
      | filled h₀ _ _ he hlv =>
        obtain ⟨hrs₀, _⟩ := List.append_inj' hl rfl
        rw [hrs₀]
        exact ⟨_, h₀, by omega⟩
      | canceled h₀ _ _ hpos =>
        obtain ⟨hrs₀, _⟩ := List.append_inj' hl rfl
        rw [hrs₀]
        exact ⟨_, h₀, hpos⟩
    obtain ⟨leaves₀, h₀, hpos₀⟩ := hopen
    obtain ⟨leaves', canceled', h', hnil, hcons⟩ := ih h₀
    refine ⟨leaves', canceled', h', fun hne => absurd hne (by simp), fun _ => ?_⟩
    by_cases hrs' : rs' = []
    · obtain ⟨h₁, h₂⟩ := hnil hrs'
      rw [h₁, h₂]
      exact ⟨rfl, hpos₀⟩
    · exact hcons hrs'

/-- What is left of an order is read off its history. -/
theorem Life.leaves_unique {q : MEClientRequest} {rs : List MEClientResponse} {leaves leaves' : Nat}
    {canceled canceled' : Bool} (h : Life q rs leaves canceled) (h' : Life q rs leaves' canceled') :
    leaves = leaves' := by
  have h₁ := h.conserved
  have h₂ := h'.conserved
  omega

/-- A history shows whether it was ended by a cancel. -/
theorem Life.canceled_unique {q : MEClientRequest} {rs : List MEClientResponse}
    {leaves leaves' : Nat} {canceled canceled' : Bool} (h : Life q rs leaves canceled)
    (h' : Life q rs leaves' canceled') : canceled = canceled' := by
  have hiff : ∀ {rs leaves canceled}, Life q rs leaves canceled →
      (canceled = true ↔ ∃ r ∈ rs, r.type_ = .CANCELED) := by
    intro rs leaves canceled h
    induction h with
    | accepted _ ht => simp [ht]
    | filled _ _ ht _ _ ih =>
      simp only [List.mem_append, List.mem_singleton, or_and_right, exists_or, exists_eq_left, ht]
      simpa using ih
    | @canceled _ _ r _ _ ht =>
      exact ⟨fun _ => ⟨r, by simp, ht⟩, fun _ => rfl⟩
  exact Bool.eq_iff_iff.mpr ((hiff h).trans (hiff h').symm)

/-- The last response of a history, by what it says. -/
theorem Life.snoc_cases {q : MEClientRequest} {rs : List MEClientResponse} {r : MEClientResponse}
    {leaves : Nat} {canceled : Bool} (h : Life q (rs ++ [r]) leaves canceled) :
    (rs = [] ∧ r.type_ = .ACCEPTED ∧ leaves = q.qty_ ∧ canceled = false) ∨
    (∃ leaves₀, Life q rs leaves₀ false ∧ r.type_ = .FILLED ∧ 0 < r.exec_qty_ ∧
      r.leaves_qty_ + r.exec_qty_ = leaves₀ ∧ leaves = r.leaves_qty_ ∧ canceled = false) ∨
    (Life q rs leaves false ∧ r.type_ = .CANCELED ∧ canceled = true) := by
  generalize hl : rs ++ [r] = l at h
  cases h with
  | @accepted r' _ ht =>
    have hl' : rs ++ [r] = [] ++ [r'] := hl
    obtain ⟨hrs, hr⟩ := List.append_inj' hl' rfl
    obtain rfl := List.singleton_injective hr
    exact Or.inl ⟨hrs, ht, rfl, rfl⟩
  | filled h₀ _ ht he hlv =>
    obtain ⟨rfl, hr⟩ := List.append_inj' hl rfl
    obtain rfl := List.singleton_injective hr
    exact Or.inr (Or.inl ⟨_, h₀, ht, he, hlv, rfl, rfl⟩)
  | canceled h₀ _ ht =>
    obtain ⟨rfl, hr⟩ := List.append_inj' hl rfl
    obtain rfl := List.singleton_injective hr
    exact Or.inr (Or.inr ⟨h₀, ht, rfl⟩)

/-! ## Responses about one order -/

/-- Which orders: a predicate on the client's index and the market order id. -/
abbrev OrderPred := Nat × Nat → Nat → Bool

/-- The responses about an order. A rejected cancel is about none. -/
def about (P : OrderPred) (rs : List MEClientResponse) : List MEClientResponse :=
  rs.filter fun r => decide (r.type_ ≠ .CANCEL_REJECTED) &&
    P (r.client_id_, r.client_order_id_) r.market_order_id_

/-- The order is one of `P`. -/
def Is (P : OrderPred) (o : OrderData MEOrderId) : Prop :=
  P (idx o.id_) o.id_.market_order_id_ = true

/-- No order of `P` is in the queue. -/
def Absent (P : OrderPred) (l : List (OrderData MEOrderId)) : Prop := ∀ o ∈ l, ¬ Is P o

/-- At most one live order is one of `P`. -/
structure Singles (P : OrderPred) (B : Book MEOrderId) : Prop where
  pairwise : ∀ b, (B b).Pairwise fun o o' => ¬ (Is P o ∧ Is P o')
  apart : ∀ o ∈ B true, ∀ o' ∈ B false, ¬ (Is P o ∧ Is P o')

section About

variable {P : OrderPred}

theorem about_append (rs rs' : List MEClientResponse) :
    about P (rs ++ rs') = about P rs ++ about P rs' := List.filter_append ..

theorem about_cons_of {r : MEClientResponse} (ht : r.type_ ≠ .CANCEL_REJECTED)
    (h : P (r.client_id_, r.client_order_id_) r.market_order_id_ = true)
    (rs : List MEClientResponse) : about P (r :: rs) = r :: about P rs :=
  List.filter_cons_of_pos (by simp [ht, h])

theorem about_cons_of_not {r : MEClientResponse}
    (h : ¬ P (r.client_id_, r.client_order_id_) r.market_order_id_ = true)
    (rs : List MEClientResponse) : about P (r :: rs) = about P rs :=
  List.filter_cons_of_neg (by simp [h])

theorem is_strip {o o' : OrderData MEOrderId} (h : o.strip = o'.strip) : Is P o ↔ Is P o' := by
  unfold Is
  rw [RefBook.strip_id h]

theorem Singles.opposite {B : Book MEOrderId} (h : Singles P B) {b : Bool}
    {o : OrderData MEOrderId} (ho : o ∈ B b) (hP : Is P o) : Absent P (B !b) := by
  intro o' ho' hP'
  cases b with
  | true => exact h.apart o ho o' ho' ⟨hP, hP'⟩
  | false => exact h.apart o' ho' o ho ⟨hP', hP⟩

/-- The one live order of `P`. -/
theorem Singles.eq {B : Book MEOrderId} (h : Singles P B) {b b' : Bool} {o o' : OrderData MEOrderId}
    (ho : o ∈ B b) (ho' : o' ∈ B b') (hP : Is P o) (hP' : Is P o') : o = o' := by
  have hb : b' = b := by
    by_contra hb
    rw [Bool.eq_not.mpr hb] at ho'
    exact h.opposite ho hP o' ho' hP'
  subst hb
  by_contra hne
  have : Std.Symm fun o o' : OrderData MEOrderId => ¬ (Is P o ∧ Is P o') :=
    ⟨fun _ _ hn hh => hn ⟨hh.2, hh.1⟩⟩
  exact (h.pairwise b').forall ho ho' hne ⟨hP, hP'⟩

end About

/-! ## Sweeps -/

/-- The aggressor is one of `P`. -/
def Aggressor.Is (P : OrderPred) (a : Aggressor) : Prop :=
  P (a.client_id_, a.client_order_id_) a.new_market_order_id_ = true

/-- The order of `q`, at rest with `leaves` left. -/
structure RestsAs (P : OrderPred) (q : MEClientRequest) (leaves : Nat) (o : OrderData MEOrderId) :
    Prop where
  is : Is P o
  client : o.id_.client_id_ = q.client_id_
  order : o.id_.client_order_id_ = q.order_id_
  side : o.side_ = q.side_
  qty : o.qty_ = leaves

section Sweep

variable {P : OrderPred} {b : Bool} {a : Aggressor}

/-- The aggressor's response to a fill. -/
def aggressorFill (a : Aggressor) (o : OrderData MEOrderId) (fill leaves : Nat) :
    MEClientResponse where
  type_ := .FILLED
  client_id_ := a.client_id_
  ticker_id_ := a.ticker_id_
  client_order_id_ := a.client_order_id_
  market_order_id_ := a.new_market_order_id_
  side_ := a.side_
  price_ := o.price_
  exec_qty_ := fill
  leaves_qty_ := leaves

/-- The passive order's response to a fill. -/
def passiveFill (a : Aggressor) (o : OrderData MEOrderId) (fill qty : Nat) :
    MEClientResponse where
  type_ := .FILLED
  client_id_ := o.id_.client_id_
  ticker_id_ := a.ticker_id_
  client_order_id_ := o.id_.client_order_id_
  market_order_id_ := o.id_.market_order_id_
  side_ := o.side_
  price_ := o.price_
  exec_qty_ := fill
  leaves_qty_ := qty

theorem responses_fillEvents (a : Aggressor) (o : OrderData MEOrderId) (fill leaves qty : Nat) :
    responses (fillEvents a o fill leaves qty)
      = [aggressorFill a o fill leaves, passiveFill a o fill qty] := rfl

/-- The responses of a fill about the order it fills, the aggressor not being
one of `P`. -/
theorem about_fillEvents (ha : ¬ a.Is P) (o : OrderData MEOrderId) (fill leaves qty : Nat) :
    (Is P o → about P (responses (fillEvents a o fill leaves qty)) = [passiveFill a o fill qty]) ∧
    (¬ Is P o → about P (responses (fillEvents a o fill leaves qty)) = []) := by
  rw [responses_fillEvents, about_cons_of_not (r := aggressorFill a o fill leaves) ha]
  constructor
  · intro h
    exact about_cons_of (r := passiveFill a o fill qty) (by simp [passiveFill]) h _
  · intro h
    exact about_cons_of_not (r := passiveFill a o fill qty) h _

/-- A sweep of a queue without orders of `P`. -/
theorem sweep_absent (ha : ¬ a.Is P) {l : List (OrderData MEOrderId)} (hl : Absent P l)
    (leaves : Nat) : about P (responses (sweep b a leaves l).events) = [] := by
  induction l generalizing leaves with
  | nil => rfl
  | cons o os ih =>
    have ho : ¬ Is P o := hl o (List.mem_cons_self ..)
    simp only [sweep]
    split
    · rfl
    · split
      · simp only [responses_append, about_append, (about_fillEvents ha o _ _ _).2 ho,
          exhaustedEvent, responses_update, responses_nil]
        rw [ih fun o' ho' => hl o' (List.mem_cons_of_mem _ ho')]
        rfl
      · simp only [responses_append, about_append, (about_fillEvents ha o _ _ _).2 ho,
          modifiedEvent, responses_update, responses_nil]
        rfl

theorem absent_sweep {l : List (OrderData MEOrderId)} (hl : Absent P l) (leaves : Nat) :
    Absent P (sweep b a leaves l).queue := by
  intro o ho hP
  obtain ⟨o', ho', he⟩ := mem_sweep ho
  exact hl o' ho' ((is_strip he).mpr hP)

/-- **A sweep of a queue with one order of `P`**: it is filled at most once, and
leaves the queue when nothing is left of it. -/
theorem sweep_passive (ha : ¬ a.Is P) {q : MEClientRequest} {l : List (OrderData MEOrderId)}
    (hl : l.Pairwise fun o o' => ¬ (Is P o ∧ Is P o'))
    {o : OrderData MEOrderId} (ho : o ∈ l) {rs : List MEClientResponse} {qty : Nat}
    (hpos : 0 < qty) (hr : RestsAs P q qty o) (h : Life q rs qty false) (leaves : Nat) :
    ∃ qty', Life q (rs ++ about P (responses (sweep b a leaves l).events)) qty' false ∧
      ((0 < qty' ∧ ∃ o ∈ (sweep b a leaves l).queue, RestsAs P q qty' o) ∨
        (qty' = 0 ∧ Absent P (sweep b a leaves l).queue)) := by
  induction l generalizing leaves with
  | nil => exact absurd ho (by simp)
  | cons x os ih =>
    obtain ⟨hx, hos⟩ := List.pairwise_cons.mp hl
    simp only [sweep]
    split
    · exact ⟨qty, by simpa [about] using h, Or.inl ⟨hpos, o, ho, hr⟩⟩
    next hgo =>
      rcases List.mem_cons.mp ho with he | ho'
      · -- the head is the order: filled here, and nothing behind it is one of `P`
        subst he
        have habs : Absent P os := fun o' ho' hP => hx o' ho' ⟨hr.is, hP⟩
        have hab := (about_fillEvents ha o (min leaves o.qty_) (leaves - min leaves o.qty_)
          (o.qty_ - min leaves o.qty_)).1 hr.is
        have hlife : Life q (rs ++ [passiveFill a o (min leaves o.qty_)
            (o.qty_ - min leaves o.qty_)]) (o.qty_ - min leaves o.qty_) false := by
          have hqty := hr.qty
          refine h.filled (r := passiveFill a o (min leaves o.qty_) (o.qty_ - min leaves o.qty_))
            ⟨hr.client, hr.order, hr.side⟩ rfl ?_ ?_
          · show 0 < min leaves o.qty_
            omega
          · show o.qty_ - min leaves o.qty_ + min leaves o.qty_ = qty
            omega
        split
        -- used up: it leaves, and the sweep goes on among others
        next hz =>
          refine ⟨0, ?_, Or.inr ⟨rfl, absent_sweep habs _⟩⟩
          rw [hz] at hab hlife
          simp only [responses_append, about_append, hz, hab, exhaustedEvent, responses_update,
            responses_nil]
          rw [sweep_absent ha habs]
          simpa [about] using hlife
        -- it stays at the head with what is left of it
        next hz =>
          refine ⟨_, ?_, Or.inl ⟨Nat.pos_of_ne_zero hz, _, List.mem_cons_self ..,
            hr.is, hr.client, hr.order, hr.side, rfl⟩⟩
          simp only [responses_append, about_append, hab, modifiedEvent, responses_update,
            responses_nil]
          simpa [about] using hlife
      · -- the head is another order: if it goes, the sweep goes on behind it
        have hnx : ¬ Is P x := fun hP => hx o ho' ⟨hP, hr.is⟩
        split
        · obtain ⟨qty', hlife, hrest⟩ := ih hos ho' (leaves - min leaves x.qty_)
          refine ⟨qty', ?_, hrest⟩
          simp only [responses_append, about_append, (about_fillEvents ha x _ _ _).2 hnx,
            exhaustedEvent, responses_update, responses_nil]
          exact hlife
        · refine ⟨qty, ?_, Or.inl ⟨hpos, o, List.mem_cons_of_mem _ ho', hr⟩⟩
          simp only [responses_append, about_append, (about_fillEvents ha x _ _ _).2 hnx,
            modifiedEvent, responses_update, responses_nil]
          simpa [about] using h

/-- **The aggressor's side of a sweep**: filled bit by bit. -/
theorem sweep_aggressor (ha : a.Is P) {q : MEClientRequest} (hc : a.client_id_ = q.client_id_)
    (hk : a.client_order_id_ = q.order_id_) (hs : a.side_ = q.side_)
    {l : List (OrderData MEOrderId)} (hl : Absent P l)
    (hpos : ∀ o ∈ l, 0 < o.qty_) {rs : List MEClientResponse} {leaves : Nat}
    (h : Life q rs leaves false) :
    Life q (rs ++ about P (responses (sweep b a leaves l).events))
      (sweep b a leaves l).leaves false := by
  induction l generalizing leaves rs with
  | nil => simpa [sweep, about] using h
  | cons o os ih =>
    simp only [sweep]
    split
    · simpa [about] using h
    next hgo =>
      have hopos := hpos o (List.mem_cons_self ..)
      -- of the two fills of a match only the aggressor's is about `P`
      have hab : about P (responses (fillEvents a o (min leaves o.qty_)
          (leaves - min leaves o.qty_) (o.qty_ - min leaves o.qty_)))
            = [aggressorFill a o (min leaves o.qty_) (leaves - min leaves o.qty_)] := by
        rw [responses_fillEvents, about_cons_of (r := aggressorFill a o _ _)
          (by simp [aggressorFill]) ha, about_cons_of_not (r := passiveFill a o _ _)
          (hl o (List.mem_cons_self ..))]
        rfl
      have hlife : Life q (rs ++ [aggressorFill a o (min leaves o.qty_)
          (leaves - min leaves o.qty_)]) (leaves - min leaves o.qty_) false := by
        refine h.filled (r := aggressorFill a o (min leaves o.qty_) (leaves - min leaves o.qty_))
          ⟨hc, hk, hs⟩ rfl ?_ ?_
        · show 0 < min leaves o.qty_
          omega
        · show leaves - min leaves o.qty_ + min leaves o.qty_ = leaves
          omega
      -- either way the sweep ends or goes on with `leaves` less the fill
      split
      · simp only [responses_append, about_append, hab, exhaustedEvent, responses_update,
          responses_nil]
        have := ih (fun o' ho' => hl o' (List.mem_cons_of_mem _ ho'))
          (fun o' ho' => hpos o' (List.mem_cons_of_mem _ ho')) hlife
        simpa [about] using this
      · simp only [responses_append, about_append, hab, modifiedEvent, responses_update,
          responses_nil]
        simpa [about] using hlife

end Sweep

/-! ## Requests -/

/-- Where the order of `q` is, with `leaves` left: at rest, or gone. -/
def Standing (P : OrderPred) (q : MEClientRequest) (B : Book MEOrderId) (leaves : Nat)
    (canceled : Bool) : Prop :=
  (canceled = false ∧ 0 < leaves ∧ ∃ b, ∃ o ∈ B b, RestsAs P q leaves o) ∨
    ((canceled = true ∨ leaves = 0) ∧ ∀ b, Absent P (B b))

/-- The request does not bring an order of `P`, whatever id fills report. -/
def Brings (P : OrderPred) (fillId : Nat → Nat) (r : RefBook) (p : MEClientRequest) : Prop :=
  P (p.client_id_, p.order_id_) r.next_market_order_id_ = true ∨
    P (p.client_id_, p.order_id_) (fillId r.next_market_order_id_) = true

section Step

variable {P : OrderPred} {f : Nat → Nat} {r : RefBook} {p q : MEClientRequest}

theorem responses_addEvents : responses (r.addEvents f p) =
    { type_ := .ACCEPTED, client_id_ := p.client_id_, ticker_id_ := p.ticker_id_,
      client_order_id_ := p.order_id_, market_order_id_ := r.next_market_order_id_,
      side_ := p.side_, price_ := p.price_, exec_qty_ := 0, leaves_qty_ := p.qty_ } ::
      responses (r.swept f p).events := by
  unfold RefBook.addEvents acceptedEvent
  rw [responses_response, responses_append]
  split
  · rw [responses_nil, List.append_nil]
  · rw [addedEvent, responses_update, responses_nil, List.append_nil]

/-- The book after a new order that is not one of `P`. -/
theorem mem_add_of_is (hp : ¬ Brings P f r p) {b : Bool} {o : OrderData MEOrderId}
    (hP : Is P o) : o ∈ (r.add p).book b ↔ o ∈ r.matched p b := by
  unfold RefBook.add
  split
  · exact Iff.rfl
  · rw [Book.mem_rest]
    constructor
    · intro hor
      rcases hor with ⟨_, he⟩ | ho
      · rw [he] at hP
        exact absurd (Or.inl hP) hp
      · exact ho
    · exact Or.inr

theorem absent_matched (h : ∀ b, Absent P (r.book b)) (b : Bool) : Absent P (r.matched p b) := by
  intro o ho hP
  obtain ⟨o', ho', he⟩ := RefBook.mem_matched ho
  exact h b o' ho' ((is_strip he).mpr hP)

theorem mem_matched_own {b : Bool} (hb : b ≠ !Ladder.isBid p.side_) :
    r.matched p b = r.book b := by
  unfold RefBook.matched
  rw [Function.update_of_ne hb]

theorem matched_opposite : r.matched p (!Ladder.isBid p.side_) = (r.swept f p).queue := by
  unfold RefBook.matched
  rw [Function.update_self, (RefBook.swept_congr f r p).2]

/-- A cancel that does not find an order of `P`. -/
theorem about_cancelEvents (h : ∀ o, r.find? (p.client_id_, p.order_id_) = some o → ¬ Is P o) :
    about P (responses (r.cancelEvents p)) = [] := by
  unfold RefBook.cancelEvents
  cases hf : r.find? (p.client_id_, p.order_id_) with
  | none => rfl
  | some o =>
    refine about_cons_of_not (fun hP => h o hf ?_) _
    unfold Is
    rw [(RefBook.find?_some hf).2]
    exact hP

/-- **Nothing to touch**: no response, and nothing appears. -/
theorem step_absent (h : ∀ b, Absent P (r.book b))
    (hp : p.type_ = .NEW → ¬ Brings P f r p) :
    about P (responses (r.stepEvents f p)) = [] ∧ ∀ b, Absent P ((r.step p).book b) := by
  unfold RefBook.stepEvents RefBook.step
  cases ht : p.type_ with
  | INVALID => exact ⟨rfl, h⟩
  | NEW =>
    have hp' := hp ht
    refine ⟨?_, fun b o ho hP => absent_matched h b o ((mem_add_of_is hp' hP).mp ho) hP⟩
    rw [responses_addEvents, about_cons_of_not fun he => hp' (Or.inl he)]
    exact sweep_absent (a := r.aggressor f p) (fun he => hp' (Or.inr he)) (h _) _
  | CANCEL =>
    refine ⟨about_cancelEvents fun o hf => ?_, fun b o ho => h b o (List.mem_of_mem_filter ho)⟩
    obtain ⟨⟨b, ho⟩, _⟩ := RefBook.find?_some hf
    exact h b o ho

/-- **A new order and the order of `q`**: the other side's sweep may fill it. -/
theorem life_add (hs : Singles P r.book) (hp : ¬ Brings P f r p)
    {rs : List MEClientResponse} {leaves : Nat}
    (h : Life q rs leaves false) (hpos : 0 < leaves) {b : Bool} {o : OrderData MEOrderId}
    (ho : o ∈ r.book b) (hr : RestsAs P q leaves o) :
    ∃ leaves', Life q (rs ++ about P (responses (r.addEvents f p))) leaves' false ∧
      Standing P q (r.add p).book leaves' false := by
  rw [responses_addEvents, about_cons_of_not fun he => hp (Or.inl he)]
  have ha : ¬ (r.aggressor f p).Is P := fun he => hp (Or.inr he)
  -- the other side holds no order of `P`, and matching adds none
  have hother : Absent P (r.matched p !b) := fun o' ho' hP' => by
    obtain ⟨o₀, ho₀, he⟩ := RefBook.mem_matched ho'
    exact hs.opposite ho hr.is o₀ ho₀ ((is_strip he).mpr hP')
  by_cases hb : b = !Ladder.isBid p.side_
  · -- the order is on the side that is swept
    subst hb
    obtain ⟨leaves', hlife, hrest⟩ := sweep_passive (b := !Ladder.isBid p.side_) ha
      (hs.pairwise _) ho hpos hr h p.qty_
    refine ⟨leaves', hlife, ?_⟩
    rcases hrest with ⟨hpos', o', ho', hr'⟩ | ⟨hz, habs⟩
    · refine Or.inl ⟨rfl, hpos', !Ladder.isBid p.side_, o', (mem_add_of_is hp hr'.is).mpr ?_, hr'⟩
      rw [matched_opposite (f := f)]
      exact ho'
    · refine Or.inr ⟨Or.inr hz, fun b' o' ho' hP' => ?_⟩
      have hm := (mem_add_of_is hp hP').mp ho'
      by_cases hb' : b' = !Ladder.isBid p.side_
      · subst hb'
        rw [matched_opposite (f := f)] at hm
        exact habs o' hm hP'
      · rw [Bool.eq_not.mpr hb'] at hm
        exact hother o' hm hP'
  · -- it is on the side of the new order, which the sweep leaves alone
    have hown : b = Ladder.isBid p.side_ := by rw [Bool.eq_not.mpr hb, Bool.not_not]
    have hnone : about P (responses (r.swept f p).events) = [] := by
      refine sweep_absent ha ?_ _
      rw [← hown]
      exact hs.opposite ho hr.is
    rw [hnone, List.append_nil]
    refine ⟨leaves, h, Or.inl ⟨rfl, hpos, b, o, (mem_add_of_is hp hr.is).mpr ?_, hr⟩⟩
    rw [mem_matched_own hb]
    exact ho

/-- **A cancel and the order of `q`**: its own cancel ends it. -/
theorem life_cancel (hinv : r.Inv) (hs : Singles P r.book)
    {rs : List MEClientResponse} {leaves : Nat} (h : Life q rs leaves false) (hpos : 0 < leaves)
    {b : Bool} {o : OrderData MEOrderId} (ho : o ∈ r.book b) (hr : RestsAs P q leaves o) :
    ∃ canceled, Life q (rs ++ about P (responses (r.cancelEvents p))) leaves canceled ∧
      Standing P q (r.cancel p).book leaves canceled := by
  by_cases hi : idx o.id_ = (p.client_id_, p.order_id_)
  · -- the order found is the order of `q`
    unfold RefBook.cancelEvents
    cases hf : r.find? (p.client_id_, p.order_id_) with
    | none => exact absurd hi (RefBook.find?_none hf ho)
    | some o' =>
      obtain ⟨⟨b', ho'⟩, hi'⟩ := RefBook.find?_some hf
      have he : o' = o := hinv.idx_inj ho' ho (hi'.trans hi.symm)
      subst he
      have hkey : P (p.client_id_, p.order_id_) o'.id_.market_order_id_ = true := by
        rw [← hi]
        exact hr.is
      refine ⟨true, ?_, Or.inr ⟨Or.inl rfl, fun b₁ o₁ ho₁ hP₁ => ?_⟩⟩
      · simp only [canceledEvents, responses_update, responses_response, responses_nil]
        rw [about_cons_of (by simp) hkey]
        obtain ⟨hc, hk⟩ := Prod.mk.inj hi
        exact h.canceled ⟨hc.symm.trans hr.client, hk.symm.trans hr.order, hr.side⟩ rfl hpos hr.qty
      · obtain ⟨ho₁, hne⟩ := List.mem_filter.mp ho₁
        rw [hs.eq ho₁ ho hP₁ hr.is] at hne
        exact of_decide_eq_true hne hi
  · -- another order's cancel says nothing about it and leaves it in place
    refine ⟨false, ?_, Or.inl ⟨rfl, hpos, b, o, List.mem_filter.mpr ⟨ho, decide_eq_true hi⟩, hr⟩⟩
    rw [about_cancelEvents, List.append_nil]
    · exact h
    · intro o' hf hP
      obtain ⟨⟨b', ho'⟩, hi'⟩ := RefBook.find?_some hf
      rw [hs.eq ho' ho hP hr.is] at hi'
      exact hi hi'

/-- **One request in the life of an order.** -/
theorem life_step (hinv : r.Inv) (hs : Singles P r.book)
    (hp : p.type_ = .NEW → ¬ Brings P f r p) {rs : List MEClientResponse} {leaves : Nat}
    {canceled : Bool} (h : Life q rs leaves canceled)
    (hst : Standing P q r.book leaves canceled) :
    ∃ leaves' canceled', Life q (rs ++ about P (responses (r.stepEvents f p))) leaves' canceled' ∧
      Standing P q (r.step p).book leaves' canceled' := by
  rcases hst with ⟨hc, hpos, b, o, ho, hr⟩ | ⟨hgone, habs⟩
  · subst hc
    unfold RefBook.stepEvents RefBook.step
    cases ht : p.type_ with
    | INVALID => exact ⟨leaves, false, by simpa [about] using h, Or.inl ⟨rfl, hpos, b, o, ho, hr⟩⟩
    | NEW =>
      obtain ⟨leaves', hlife, hst'⟩ := life_add hs (hp ht) h hpos ho hr
      exact ⟨leaves', false, hlife, hst'⟩
    | CANCEL =>
      obtain ⟨canceled', hlife, hst'⟩ := life_cancel hinv hs h hpos ho hr
      exact ⟨leaves, canceled', hlife, hst'⟩
  · obtain ⟨hnone, habs'⟩ := step_absent habs hp
    rw [hnone, List.append_nil]
    exact ⟨leaves, canceled, h, Or.inr ⟨hgone, habs'⟩⟩

/-- **The request that brings the order.** -/
theorem life_accept (hinv : r.Inv) (ht : q.type_ = .NEW) (habs : ∀ b, Absent P (r.book b))
    (h₁ : P (q.client_id_, q.order_id_) r.next_market_order_id_ = true)
    (h₂ : P (q.client_id_, q.order_id_) (f r.next_market_order_id_) = true) :
    ∃ leaves, Life q (about P (responses (r.stepEvents f q))) leaves false ∧
      Standing P q (r.step q).book leaves false := by
  unfold RefBook.stepEvents RefBook.step
  simp only [ht]
  have hlife := sweep_aggressor (b := !Ladder.isBid q.side_) (a := r.aggressor f q) h₂ rfl rfl
    rfl (l := r.book !Ladder.isBid q.side_) (habs _) (hinv.pos _) (Life.accepted (q := q) (r :=
      { type_ := .ACCEPTED, client_id_ := q.client_id_, ticker_id_ := q.ticker_id_,
        client_order_id_ := q.order_id_, market_order_id_ := r.next_market_order_id_,
        side_ := q.side_, price_ := q.price_, exec_qty_ := 0, leaves_qty_ := q.qty_ })
      ⟨rfl, rfl, rfl⟩ rfl rfl rfl)
  rw [responses_addEvents, about_cons_of (by simp) h₁]
  refine ⟨(r.swept f q).leaves, hlife, ?_⟩
  rw [(RefBook.swept_congr f r q).1]
  unfold RefBook.add
  by_cases hl : (r.swept id q).leaves = 0
  · rw [if_pos hl]
    exact Or.inr ⟨Or.inr hl, absent_matched habs⟩
  · rw [if_neg hl]
    exact Or.inl ⟨rfl, Nat.pos_of_ne_zero hl, _, r.resting q, Book.mem_rest.mpr (Or.inl ⟨rfl, rfl⟩),
      h₁, rfl, rfl, rfl, rfl⟩

/-! ## Every response of a request -/

/-- The responses of a sweep are fills, of the aggressor or of an order of the
queue. -/
theorem mem_responses_sweep {b : Bool} {a : Aggressor} {leaves : Nat}
    {l : List (OrderData MEOrderId)} {x : MEClientResponse}
    (hx : x ∈ responses (sweep b a leaves l).events) :
    x.type_ = .FILLED ∧ x.ticker_id_ = a.ticker_id_ ∧
      ((x.client_id_ = a.client_id_ ∧ x.client_order_id_ = a.client_order_id_ ∧ x.side_ = a.side_) ∨
        ∃ o ∈ l, x.client_id_ = o.id_.client_id_ ∧ x.client_order_id_ = o.id_.client_order_id_ ∧
          x.side_ = o.side_) := by
  induction l generalizing leaves with
  | nil => exact absurd hx (by simp [sweep])
  | cons o os ih =>
    simp only [sweep] at hx
    split at hx
    · exact absurd hx (by simp)
    · split at hx
      · simp only [responses_append, responses_fillEvents, exhaustedEvent, responses_update,
          responses_nil, List.append_nil, List.cons_append, List.nil_append, List.mem_cons] at hx
        rcases hx with rfl | rfl | hx
        · exact ⟨rfl, rfl, Or.inl ⟨rfl, rfl, rfl⟩⟩
        · exact ⟨rfl, rfl, Or.inr ⟨o, List.mem_cons_self .., rfl, rfl, rfl⟩⟩
        · obtain ⟨h₁, h₂, h₃⟩ := ih hx
          refine ⟨h₁, h₂, h₃.imp_right ?_⟩
          rintro ⟨o', ho', h⟩
          exact ⟨o', List.mem_cons_of_mem _ ho', h⟩
      · simp only [responses_append, responses_fillEvents, modifiedEvent, responses_update,
          responses_nil, List.append_nil, List.mem_cons, List.not_mem_nil, or_false] at hx
        rcases hx with rfl | rfl
        · exact ⟨rfl, rfl, Or.inl ⟨rfl, rfl, rfl⟩⟩
        · exact ⟨rfl, rfl, Or.inr ⟨o, List.mem_cons_self .., rfl, rfl, rfl⟩⟩

/-- **What a response can be**: about the new order, about an order that was
resting, or a rejected cancel, which is about none. -/
theorem mem_responses_step {x : MEClientResponse} (hx : x ∈ responses (r.stepEvents f p)) :
    x.ticker_id_ = p.ticker_id_ ∧
      ((p.type_ = .NEW ∧ (x.type_ = .ACCEPTED ∨ x.type_ = .FILLED) ∧ x.client_id_ = p.client_id_ ∧
          x.client_order_id_ = p.order_id_ ∧ x.side_ = p.side_) ∨
        ((x.type_ = .FILLED ∨ x.type_ = .CANCELED) ∧ ∃ b, ∃ o ∈ r.book b,
          x.client_id_ = o.id_.client_id_ ∧ x.client_order_id_ = o.id_.client_order_id_ ∧
          x.side_ = o.side_) ∨
        (x.type_ = .CANCEL_REJECTED ∧ x.side_ = .INVALID ∧
          x.market_order_id_ = OrderId_INVALID)) := by
  unfold RefBook.stepEvents at hx
  split at hx
  next ht =>
    rw [responses_addEvents] at hx
    rcases List.mem_cons.mp hx with rfl | hx
    · exact ⟨rfl, Or.inl ⟨ht, Or.inl rfl, rfl, rfl, rfl⟩⟩
    · obtain ⟨h₁, h₂, h₃⟩ := mem_responses_sweep hx
      refine ⟨h₂, ?_⟩
      rcases h₃ with ⟨hc, hk, hs⟩ | ⟨o, ho, h⟩
      · exact Or.inl ⟨ht, Or.inr h₁, hc, hk, hs⟩
      · exact Or.inr (Or.inl ⟨Or.inl h₁, _, o, ho, h⟩)
  next =>
    -- a cancel: rejected, or about the order found
    unfold RefBook.cancelEvents at hx
    split at hx
    · rw [rejectedEvent, responses_response, responses_nil, List.mem_singleton] at hx
      subst hx
      exact ⟨rfl, Or.inr (Or.inr ⟨rfl, rfl, rfl⟩)⟩
    next o hf =>
      obtain ⟨⟨b, ho⟩, hi⟩ := RefBook.find?_some hf
      simp only [canceledEvents, responses_update, responses_response, responses_nil,
        List.mem_singleton] at hx
      subst hx
      obtain ⟨hc, hk⟩ := Prod.mk.inj hi
      exact ⟨rfl, Or.inr (Or.inl ⟨Or.inr rfl, b, o, ho, hc.symm, hk.symm, rfl⟩)⟩
  next => exact absurd hx (by simp)

/-- **What an order of the next book can be**: the new order, or one from before
but for its quantity. -/
theorem mem_step {b : Bool} {o : OrderData MEOrderId} (ho : o ∈ (r.step p).book b) :
    (p.type_ = .NEW ∧ b = Ladder.isBid p.side_ ∧ o = r.resting p) ∨
      ∃ o' ∈ r.book b, o'.strip = o.strip := by
  unfold RefBook.step at ho
  split at ho
  next ht =>
    unfold RefBook.add at ho
    simp only at ho
    split at ho
    · exact Or.inr (RefBook.mem_matched ho)
    · rcases Book.mem_rest.mp ho with ⟨hb, he⟩ | ho
      · exact Or.inl ⟨ht, hb, he⟩
      · exact Or.inr (RefBook.mem_matched ho)
  next => exact Or.inr ⟨o, List.mem_of_mem_filter ho, rfl⟩
  next => exact Or.inr ⟨o, ho, rfl⟩

end Step

end LowLatency
