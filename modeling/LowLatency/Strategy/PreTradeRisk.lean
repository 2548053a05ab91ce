import LowLatency.Strategy.OrderManager

/-!
# `RiskInfo::checkPreTradeRisk` near the ends of 32 bits

`src/trading/strategy/risk_manager.h`. The check casts the quantity and the
position limit, both `uint32_t`, to `int32_t` and adds before it takes the
absolute value. Everything that can go wrong is in one number, the exact
position `target` that the order would lead to:

* a limit below `2 ^ 31` is read as it is, but a position whose distance from 0
  is within the limit of `2 ^ 32` wraps around to an allowed one, and so does
  `2 ^ 31`, whose absolute value is negative;
* a limit from `2 ^ 31` on is read as a negative number, which every absolute
  value exceeds but the one of `2 ^ 31`.

The comparison of the doubles has three outcomes and a fourth: with a NaN on
either side `total_pnl_ < max_loss_` is as false as `total_pnl_ >= max_loss_`,
and the check, which tests the first, lets the order pass.

`checkPreTradeRisk_exact_iff` has the exact set of arguments for which the check
answers as the integers and the limits say.
-/

namespace LowLatency

/-- How `total_pnl_` compares to `max_loss_`: unordered if one of them is a NaN. -/
inductive LossCompare
  | less
  | equal
  | greater
  | unordered
deriving DecidableEq, Repr

namespace LossCompare

/-- `total_pnl_ < max_loss_`. -/
def lt (c : LossCompare) : Bool := decide (c = .less)

/-- `total_pnl_ >= max_loss_`. -/
def ge (c : LossCompare) : Bool := decide (c = .equal ∨ c = .greater)

end LossCompare

namespace RiskInfo

/-- The position that the order would lead to if all of it were filled. -/
def target (i : RiskInfo) (side : Side) (qty : Nat) : Int :=
  i.position_info_.position_ + sideToValue side * qty

/-- The limits allow the order. -/
def Permits (i : RiskInfo) (pnl : LossCompare) (side : Side) (qty : Nat) : Prop :=
  qty ≤ i.risk_cfg_.max_order_size_ ∧
    (i.target side qty).natAbs ≤ i.risk_cfg_.max_position_ ∧ pnl.ge = true

instance (i : RiskInfo) (pnl : LossCompare) (side : Side) (qty : Nat) :
    Decidable (i.Permits pnl side qty) :=
  inferInstanceAs (Decidable (_ ∧ _ ∧ _))

/-- The values have the widths of their types, and the position is within the
limit. -/
structure WellTyped (i : RiskInfo) (qty : Nat) : Prop where
  qty : qty < 2 ^ 32
  max_position : i.risk_cfg_.max_position_ < 2 ^ 32
  lower : -(2 ^ 31) ≤ i.position_info_.position_
  upper : i.position_info_.position_ < 2 ^ 31
  within : i.position_info_.position_.natAbs ≤ i.risk_cfg_.max_position_

/-- The arguments for which the wrapped arithmetic makes no difference: the check
has rejected the order for its size or rejects it for the loss, or the limit is
an `int32_t` and the position does not wrap into it, or it is none and the
position exceeds it as well. -/
def Unwrapped (i : RiskInfo) (pnl : LossCompare) (side : Side) (qty : Nat) : Prop :=
  let a := (i.target side qty).natAbs
  let limit := i.risk_cfg_.max_position_
  i.risk_cfg_.max_order_size_ < qty ∨ pnl.lt = true ∨
    (limit < 2 ^ 31 ∧ a ≠ 2 ^ 31 ∧ a + limit < 2 ^ 32 ∧ (pnl.ge = true ∨ limit < a)) ∨
    (2 ^ 31 ≤ limit ∧ (if pnl.ge then a = 2 ^ 31 ∨ limit < a else a ≠ 2 ^ 31))

instance (i : RiskInfo) (pnl : LossCompare) (side : Side) (qty : Nat) :
    Decidable (i.Unwrapped pnl side qty) :=
  inferInstanceAs (Decidable (_ ∨ _ ∨ (_ ∧ _ ∧ _ ∧ _) ∨ (_ ∧ if pnl.ge then _ else _)))

theorem int32_eq_ite (x : Int) : int32 x =
    if x % 2 ^ 32 < 2 ^ 31 then x % 2 ^ 32 else x % 2 ^ 32 - 2 ^ 32 := rfl

/-- The position of the check, for positions that can arise. -/
theorem abs32_int32 {x : Int} (h : x.natAbs < 2 ^ 32 + 2 ^ 31) : abs32 (int32 x) =
    if x.natAbs < 2 ^ 31 then (x.natAbs : Int) else if x.natAbs = 2 ^ 31 then -(2 ^ 31)
    else if x.natAbs ≤ 2 ^ 32 then 2 ^ 32 - (x.natAbs : Int) else (x.natAbs : Int) - 2 ^ 32 := by
  unfold abs32
  rw [int32_eq_ite, int32_eq_ite]
  split_ifs <;> omega

/-- The cast of the limit. -/
theorem int32_limit {n : Nat} (h : n < 2 ^ 32) :
    int32 n = if n < 2 ^ 31 then (n : Int) else (n : Int) - 2 ^ 32 := by
  rw [int32_eq_ite]
  split_ifs <;> omega

/-- The casts inside the sum do not matter. -/
theorem int32_target (i : RiskInfo) {side : Side} (hside : side = .BUY ∨ side = .SELL) (qty : Nat) :
    int32 (i.position_info_.position_ + sideToValue side * int32 qty) = int32 (i.target side qty) := by
  unfold target int32
  rcases hside with rfl | rfl
  · show Int.bmod (_ + 1 * Int.bmod _ _) _ = Int.bmod (_ + 1 * _) _
    rw [one_mul, one_mul, Int.add_bmod_bmod]
  · show Int.bmod (_ + -1 * Int.bmod _ _) _ = Int.bmod (_ + -1 * _) _
    rw [neg_one_mul, neg_one_mul, ← sub_eq_add_neg, ← sub_eq_add_neg, Int.sub_bmod_bmod]

theorem WellTyped.target_lt {i : RiskInfo} {qty : Nat} (h : i.WellTyped qty) {side : Side}
    (hside : side = .BUY ∨ side = .SELL) :
    (i.target side qty).natAbs < 2 ^ 32 + 2 ^ 31 ∧
      (i.target side qty).natAbs < 2 ^ 32 + i.risk_cfg_.max_position_ := by
  obtain ⟨h₁, h₂, h₃, h₄, h₅⟩ := h
  unfold target
  rcases hside with rfl | rfl
  · show (_ + 1 * (qty : Int)).natAbs < _ ∧ (_ + 1 * (qty : Int)).natAbs < _
    omega
  · show (_ + -1 * (qty : Int)).natAbs < _ ∧ (_ + -1 * (qty : Int)).natAbs < _
    omega

/-- What the check allows. -/
theorem checkPreTradeRisk_allowed_iff (i : RiskInfo) (loss : Bool) (side : Side) (qty : Nat) :
    i.checkPreTradeRisk loss side qty = .ALLOWED ↔ qty ≤ i.risk_cfg_.max_order_size_ ∧
      abs32 (int32 (i.position_info_.position_ + sideToValue side * int32 qty)) ≤
        int32 i.risk_cfg_.max_position_ ∧ loss = false := by
  unfold checkPreTradeRisk
  split
  next h => simp; omega
  next h =>
    split
    next h' => simp; omega
    next h' =>
      cases loss
      · simp; omega
      · simp

/-- The position check in terms of the exact position. -/
theorem WellTyped.position_check {i : RiskInfo} {qty : Nat} (h : i.WellTyped qty) {side : Side}
    (hside : side = .BUY ∨ side = .SELL) :
    abs32 (int32 (i.position_info_.position_ + sideToValue side * int32 qty)) ≤
        int32 i.risk_cfg_.max_position_ ↔
      if i.risk_cfg_.max_position_ < 2 ^ 31 then
        (i.target side qty).natAbs ≤ i.risk_cfg_.max_position_ ∨
          (i.target side qty).natAbs = 2 ^ 31 ∨
          2 ^ 32 ≤ (i.target side qty).natAbs + i.risk_cfg_.max_position_
      else (i.target side qty).natAbs = 2 ^ 31 := by
  obtain ⟨ha, ha'⟩ := h.target_lt hside
  have hlimit := h.max_position
  rw [int32_target i hside, abs32_int32 ha, int32_limit hlimit]
  generalize (i.target side qty).natAbs = a at ha ha'
  generalize i.risk_cfg_.max_position_ = limit at ha' hlimit
  split_ifs <;> omega

/-- **When the check is exact.** For an order of either side, a position within
the limit and any configuration, the check allows the order exactly when the
integers do, if and only if the arguments are `Unwrapped`. -/
theorem checkPreTradeRisk_exact_iff {i : RiskInfo} {side : Side} {qty : Nat} (pnl : LossCompare)
    (h : i.WellTyped qty) (hside : side = .BUY ∨ side = .SELL) :
    (i.checkPreTradeRisk pnl.lt side qty = .ALLOWED ↔ i.Permits pnl side qty) ↔
      i.Unwrapped pnl side qty := by
  have hlimit := h.max_position
  rw [checkPreTradeRisk_allowed_iff, h.position_check hside]
  unfold Permits Unwrapped
  generalize (i.target side qty).natAbs = a
  generalize i.risk_cfg_.max_position_ = limit at hlimit
  generalize i.risk_cfg_.max_order_size_ = size
  have hpnl : pnl.lt = true → pnl.ge = false := by
    unfold LossCompare.lt LossCompare.ge
    intro hlt
    rw [of_decide_eq_true hlt]
    rfl
  dsimp only
  rcases Nat.lt_or_ge size qty with hsize | hsize
  · -- too large an order, for both
    have hnot : ¬ qty ≤ size := by omega
    simp [hsize, hnot]
  have hnot : ¬ size < qty := by omega
  cases hlt : pnl.lt with
  | true => simp [hpnl hlt]
  | false =>
    cases pnl.ge with
    | true =>
      simp only [hsize, hnot, true_and, and_true, false_or, true_or, if_true, Bool.false_eq_true]
      split_ifs <;> omega
    | false =>
      simp only [hsize, hnot, true_and, and_true, and_false, false_or, Bool.false_eq_true, if_false,
        iff_false]
      split_ifs <;> omega

/-- A quote for 7 with the limits of the benchmarks. -/
theorem checkPreTradeRisk_exact_iff_small :
    (⟨⟨-3, 3⟩, ⟨100, 1000000⟩⟩ : RiskInfo).checkPreTradeRisk LossCompare.greater.lt .BUY 7
        = .ALLOWED ∧
      RiskInfo.Permits ⟨⟨-3, 3⟩, ⟨100, 1000000⟩⟩ .greater .BUY 7 := by
  have htyped : RiskInfo.WellTyped ⟨⟨-3, 3⟩, ⟨100, 1000000⟩⟩ 7 :=
    ⟨by decide, by decide, by decide, by decide, by decide⟩
  have hside : Side.BUY = .BUY ∨ Side.BUY = .SELL := Or.inl rfl
  have h := (checkPreTradeRisk_exact_iff .greater htyped hside).mpr (by decide)
  exact ⟨by decide, h.mp (by decide)⟩

/-- An order for 2 ^ 32 - 5 passes a position limit of 10. -/
theorem checkPreTradeRisk_wraps :
    RiskInfo.WellTyped ⟨⟨0, 0⟩, ⟨4294967295, 10⟩⟩ 4294967291 ∧
      (⟨⟨0, 0⟩, ⟨4294967295, 10⟩⟩ : RiskInfo).checkPreTradeRisk LossCompare.greater.lt .BUY
        4294967291 = .ALLOWED ∧
      ¬ RiskInfo.Permits ⟨⟨0, 0⟩, ⟨4294967295, 10⟩⟩ .greater .BUY 4294967291 :=
  ⟨⟨by decide, by decide, by decide, by decide, by decide⟩, by decide, by decide⟩

end RiskInfo

end LowLatency
