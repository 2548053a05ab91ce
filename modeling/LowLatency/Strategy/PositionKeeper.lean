import LowLatency.Strategy.StrategyEngine
import Mathlib.Algebra.Order.Field.Rat
import Mathlib.Tactic.FieldSimp
import Mathlib.Tactic.Linarith
import Mathlib.Tactic.Ring

/-!
# `PositionInfo`: the sign test and the accounts

`src/trading/strategy/position_keeper.h`. A fill that reduces a position is
told from one that flips it by the sign of the product of the positions before
and after, an `int32_t`. `flip_test_exact_iff`: with positions up to
`max_position_` the product has the right sign exactly as long as
`max_position_` is at most 46340, whose square is the last one below `2 ^ 31`.

The second part reads the doubles as rationals. `open_vwap_` keeps what the open
position has cost, per side: `basis` is that cost with the sign of the position.
Every fill, opening, increasing, reducing, closing or flipping, changes
`real_pnl_ - basis` by the money that it moved (`Balanced.fillVwap`), and the
unrealised profit at a price is `price * position_ - basis`. So `total_pnl_` is
the cash of all fills plus the position at that price (`pnl_accounts`).
-/

namespace LowLatency

/-- The side that `addFill` takes for the other one. -/
def oppSide (side : Side) : Side := if side = .BUY then .SELL else .BUY

/-! ## The sign test -/

namespace PositionInfo

/-- The fill goes against the position, so that `addFill` gets to the test. -/
def Decreases (p : PositionInfo) (r : MEClientResponse) : Prop :=
  int32 (p.position_ * sideToValue r.side_) < 0

/-- `position_ * old_position < 0`. -/
def FlipTest (p : PositionInfo) (r : MEClientResponse) : Prop :=
  int32 ((p.addFill r).position_ * p.position_) < 0

/-- The position changed its sign. -/
def Flips (p : PositionInfo) (r : MEClientResponse) : Prop :=
  (0 < p.position_ ∧ (p.addFill r).position_ < 0) ∨ (p.position_ < 0 ∧ 0 < (p.addFill r).position_)

instance (p : PositionInfo) (r : MEClientResponse) : Decidable (p.Decreases r) :=
  inferInstanceAs (Decidable (_ < _))

instance (p : PositionInfo) (r : MEClientResponse) : Decidable (p.FlipTest r) :=
  inferInstanceAs (Decidable (_ < _))

instance (p : PositionInfo) (r : MEClientResponse) : Decidable (p.Flips r) :=
  inferInstanceAs (Decidable (_ ∨ _))

/-- The test, where it is evaluated, says whether the position flipped. -/
def TestExact (p : PositionInfo) (r : MEClientResponse) : Prop :=
  p.Decreases r → (p.FlipTest r ↔ p.Flips r)

instance (p : PositionInfo) (r : MEClientResponse) : Decidable (p.TestExact r) :=
  inferInstanceAs (Decidable (_ → _))

/-- These are the conditions of the two branches in `addFill`. -/
theorem fillVwap_branches {F : Type} [Double F] (v : PositionPnL F) (p : PositionInfo)
    (r : MEClientResponse) :
    v.fillVwap p.position_ (p.addFill r).position_ r =
      if ¬ p.Decreases r then
        (Function.update v.open_vwap_ (sideToIndex r.side_)
          (v.open_vwap_ (sideToIndex r.side_) + Double.ofInt (int64 (r.price_ * r.exec_qty_))),
          v.real_pnl_)
      else
        let opp_side_index := sideToIndex (oppSide r.side_)
        let opp_side_vwap := v.open_vwap_ opp_side_index / Double.ofInt p.position_.natAbs
        let open_vwap := Function.update v.open_vwap_ opp_side_index
          (opp_side_vwap * Double.ofInt (p.addFill r).position_.natAbs)
        (if p.FlipTest r then
          Function.update (Function.update open_vwap (sideToIndex r.side_)
            (Double.ofInt (int64 (r.price_ * (p.addFill r).position_.natAbs)))) opp_side_index
            (Double.ofInt 0)
        else open_vwap,
          v.real_pnl_ + Double.ofInt (min (int32 r.exec_qty_) p.position_.natAbs) *
            (opp_side_vwap - Double.ofInt r.price_) * Double.ofInt (sideToValue r.side_)) := by
  unfold PositionPnL.fillVwap oppSide
  dsimp only
  by_cases hdec : p.Decreases r
  · rw [if_neg (by unfold Decreases at hdec; omega), if_neg (not_not.mpr hdec)]
    by_cases hflip : int32 ((p.addFill r).position_ * p.position_) < 0
    · rw [if_pos hflip, if_pos (show p.FlipTest r from hflip)]
    · rw [if_neg hflip, if_neg (show ¬ p.FlipTest r from hflip)]
  · rw [if_pos (by unfold Decreases at hdec; omega), if_pos hdec]

/-- A fill is a `FILLED` quantity on one of the two sides. -/
def IsFill (r : MEClientResponse) : Prop :=
  (r.side_ = .BUY ∨ r.side_ = .SELL) ∧ 0 < r.exec_qty_ ∧ r.exec_qty_ < 2 ^ 32

instance (r : MEClientResponse) : Decidable (IsFill r) := inferInstanceAs (Decidable (_ ∧ _))

/-- The fills keep the position within the limit. -/
def KeepsWithin (max_position : Nat) : PositionInfo → List MEClientResponse → Prop
  | _, [] => True
  | p, r :: rs => (p.addFill r).position_.natAbs ≤ max_position ∧
      KeepsWithin max_position (p.addFill r) rs

/-- The test is exact at every fill. -/
def ExactAlong : PositionInfo → List MEClientResponse → Prop
  | _, [] => True
  | p, r :: rs => p.TestExact r ∧ ExactAlong (p.addFill r) rs

/-- A product of two positions below 46341 is an `int32_t`. -/
theorem int32_mul {a b : Int} (ha : a.natAbs ≤ 46340) (hb : b.natAbs ≤ 46340) :
    int32 (a * b) = a * b := by
  have hmul : (a * b).natAbs ≤ 46340 * 46340 := by
    rw [Int.natAbs_mul]
    exact Nat.mul_le_mul ha hb
  exact int32_eq (by omega) (by omega)

/-- **One fill** between small positions. -/
theorem testExact_of_le {p : PositionInfo} {r : MEClientResponse}
    (h : p.position_.natAbs ≤ 46340) (h' : (p.addFill r).position_.natAbs ≤ 46340) :
    p.TestExact r := by
  intro _
  unfold FlipTest Flips
  rw [int32_mul h' h, mul_neg_iff]
  constructor
  · rintro (⟨h₁, h₂⟩ | ⟨h₁, h₂⟩)
    · exact Or.inr ⟨h₂, h₁⟩
    · exact Or.inl ⟨h₂, h₁⟩
  · rintro (⟨h₁, h₂⟩ | ⟨h₁, h₂⟩)
    · exact Or.inr ⟨h₂, h₁⟩
    · exact Or.inl ⟨h₂, h₁⟩

/-- **All fills** of a run. -/
theorem exactAlong_of_le {max_position : Nat} (hmax : max_position ≤ 46340) :
    ∀ (rs : List MEClientResponse) (p : PositionInfo), p.position_.natAbs ≤ max_position →
      KeepsWithin max_position p rs → ExactAlong p rs := by
  intro rs
  induction rs with
  | nil => exact fun _ _ _ => trivial
  | cons r rs ih =>
    intro p hp hkeeps
    obtain ⟨hr, hrest⟩ := hkeeps
    exact ⟨testExact_of_le (hp.trans hmax) (hr.trans hmax), ih _ hr hrest⟩

/-- From 46341 long to 46341 short. -/
def flipFills : List MEClientResponse :=
  [{ type_ := .FILLED, side_ := .BUY, price_ := 100, exec_qty_ := 46341 },
    { type_ := .FILLED, side_ := .SELL, price_ := 100, exec_qty_ := 92682 }]

/-- **Where the flip test is exact.** For every limit, the test is exact at every
fill of every run that keeps the position within the limit, if and only if the
limit is at most 46340. -/
theorem flip_test_exact_iff (max_position : Nat) :
    (∀ rs, (∀ r ∈ rs, IsFill r) → KeepsWithin max_position {} rs → ExactAlong {} rs) ↔
      max_position ≤ 46340 := by
  constructor
  · intro hall
    by_contra hlarge
    have hle : 46341 ≤ max_position := by omega
    have hexact := hall flipFills (by decide) ⟨hle, hle, trivial⟩
    exact absurd hexact.2.1 (by decide)
  · intro hmax rs _ hkeeps
    exact exactAlong_of_le hmax rs {} (Nat.zero_le _) hkeeps

/-- With the limit of the benchmarks, 1000000: 65536 long, and 32768 of it sold.
The product `2 ^ 31` counts as negative, and the cost basis of the long position
is thrown away. -/
theorem flip_test_inexact : ¬ ∀ rs, (∀ r ∈ rs, IsFill r) → KeepsWithin 1000000 {} rs →
    ExactAlong {} rs := by
  intro hall
  have hexact := hall
    [{ type_ := .FILLED, side_ := .BUY, price_ := 100, exec_qty_ := 65536 },
      { type_ := .FILLED, side_ := .SELL, price_ := 100, exec_qty_ := 32768 }]
    (by decide) ⟨by decide, by decide, trivial⟩
  exact absurd hexact.2.1 (by decide)

end PositionInfo

/-! ## The doubles as rationals -/

/-- All of `PositionInfo`. -/
structure Position (F : Type) where
  info : PositionInfo
  pnl : PositionPnL F

def Fits32 (x : Int) : Prop := -(2 ^ 31) ≤ x ∧ x < 2 ^ 31

def Fits64 (x : Int) : Prop := -(2 ^ 63) ≤ x ∧ x < 2 ^ 63

theorem int64_eq {x : Int} (h : Fits64 x) : int64 x = x := by
  obtain ⟨h₁, h₂⟩ := h
  exact Int.bmod_eq_of_le (by omega) (by omega)

namespace Position

/-- What changes a position or its worth. -/
inductive Call
  | addFill (r : MEClientResponse)
  | updateBBO (bbo : BBO)

section

variable {F : Type} [Double F]

def init : Position F := ⟨{}, PositionPnL.init⟩

def addFill (p : Position F) (r : MEClientResponse) : Position F :=
  ⟨p.info.addFill r, p.pnl.addFill p.info.position_ (p.info.addFill r).position_ r⟩

def updateBBO (p : Position F) (bbo : BBO) : Position F :=
  ⟨p.info, p.pnl.updateBBO p.info.position_ bbo⟩

def call (p : Position F) : Call → Position F
  | .addFill r => p.addFill r
  | .updateBBO bbo => p.updateBBO bbo

def run (p : Position F) (cs : List Call) : Position F := cs.foldl call p

/-- No integer of a fill leaves its type. What a branch computes counts only if
the branch is taken. -/
structure FillInRange (position : Int) (r : MEClientResponse) : Prop where
  exec_qty : r.exec_qty_ < 2 ^ 31
  /-- so that its absolute value is an `int32_t` too -/
  sum : (position + sideToValue r.side_ * r.exec_qty_).natAbs < 2 ^ 31
  opened : 0 ≤ position * sideToValue r.side_ → Fits64 (r.price_ * r.exec_qty_)
  test : position * sideToValue r.side_ < 0 →
    Fits32 ((position + sideToValue r.side_ * r.exec_qty_) * position)
  flipped : (position + sideToValue r.side_ * r.exec_qty_) * position < 0 →
    Fits64 (r.price_ * (position + sideToValue r.side_ * r.exec_qty_).natAbs)

/-- A call as it may be made: a fill has a side and a quantity, and no integer
overflows. -/
def Admits (p : Position F) : Call → Prop
  | .addFill r => (r.side_ = .BUY ∨ r.side_ = .SELL) ∧ 0 < r.exec_qty_ ∧
      FillInRange p.info.position_ r
  | .updateBBO bbo => p.info.position_ ≠ 0 → bbo.Valid → Fits64 (bbo.bid_price_ + bbo.ask_price_)

def AdmitsAll : Position F → List Call → Prop
  | _, [] => True
  | p, c :: cs => p.Admits c ∧ AdmitsAll (p.call c) cs

end

/-- The sum of the signed quantities. -/
def net : List Call → Int
  | [] => 0
  | .addFill r :: cs => sideToValue r.side_ * r.exec_qty_ + net cs
  | .updateBBO _ :: cs => net cs

/-- The money received less the money paid. -/
def cash : List Call → ℚ
  | [] => 0
  | .addFill r :: cs => -(sideToValue r.side_ : ℚ) * r.price_ * r.exec_qty_ + cash cs
  | .updateBBO _ :: cs => cash cs

/-! ## The cost of the open position -/

/-- What the open position has cost, with its sign. -/
def basis (open_vwap : Nat → ℚ) (position : Int) : ℚ :=
  if 0 < position then open_vwap (sideToIndex .BUY)
  else if position < 0 then -open_vwap (sideToIndex .SELL) else 0

theorem basis_long {v : Nat → ℚ} {n : Int} (h : 0 < n) : basis v n = v (sideToIndex .BUY) :=
  if_pos h

theorem basis_short {v : Nat → ℚ} {n : Int} (h : n < 0) : basis v n = -v (sideToIndex .SELL) := by
  unfold basis
  rw [if_neg (by omega), if_pos h]

theorem basis_flat (v : Nat → ℚ) : basis v 0 = 0 := rfl

theorem natAbs_cast_pos {n : Int} (h : 0 < n) : ((n.natAbs : Int) : ℚ) = n := by
  rw [Int.natAbs_of_nonneg h.le]

theorem natAbs_cast_neg {n : Int} (h : n < 0) : ((n.natAbs : Int) : ℚ) = -n := by
  rw [Int.ofNat_natAbs_of_nonpos h.le, Int.cast_neg]

/-- What an open position is worth at a price. -/
theorem unrealPnl_eq (v : Nat → ℚ) {n : Int} (h : n ≠ 0) (price : ℚ) :
    PositionPnL.unrealPnl v n price = price * n - basis v n := by
  unfold PositionPnL.unrealPnl
  rcases lt_or_gt_of_ne h with hn | hn
  · have hq : (n : ℚ) ≠ 0 := Int.cast_ne_zero.mpr h
    rw [if_neg (by omega), basis_short hn]
    show (v _ / ((n.natAbs : Int) : ℚ) - price) * ((n.natAbs : Int) : ℚ) = _
    rw [natAbs_cast_neg hn]
    field_simp
    ring
  · have hq : (n : ℚ) ≠ 0 := Int.cast_ne_zero.mpr h
    rw [if_pos hn, basis_long hn]
    show (price - v _ / ((n.natAbs : Int) : ℚ)) * ((n.natAbs : Int) : ℚ) = _
    rw [natAbs_cast_pos hn]
    field_simp

/-- The cost of a position on the side `side`. -/
theorem basis_of_side (v : Nat → ℚ) {n : Int} {side : Side} (hside : side = .BUY ∨ side = .SELL)
    (h : 0 < n * sideToValue side) :
    basis v n = sideToValue side * v (sideToIndex side) := by
  rcases hside with rfl | rfl
  · rw [basis_long (by simpa [sideToValue] using h)]
    simp [sideToValue]
  · rw [basis_short (by simpa [sideToValue] using h)]
    simp [sideToValue]

section Fill

variable {v : PositionPnL ℚ} {p : PositionInfo} {r : MEClientResponse}

/-- The position after a fill that stays in range. -/
theorem addFill_position
    (hsum : (p.position_ + sideToValue r.side_ * r.exec_qty_).natAbs < 2 ^ 31) :
    (p.addFill r).position_ = p.position_ + sideToValue r.side_ * r.exec_qty_ := by
  show int32 (p.position_ + r.exec_qty_ * sideToValue r.side_) = _
  rw [mul_comm (r.exec_qty_ : Int)]
  exact int32_eq (by omega) (by omega)

theorem sideToValue_opp {side : Side} (hside : side = .BUY ∨ side = .SELL) :
    sideToValue (oppSide side) = -sideToValue side ∧ (oppSide side = .BUY ∨ oppSide side = .SELL) ∧
      sideToIndex side ≠ sideToIndex (oppSide side) ∧
      (sideToValue side = 1 ∨ sideToValue side = -1) := by
  rcases hside with rfl | rfl <;> decide

/-- In range, the test for a smaller position is what it says. -/
theorem decreases_iff (hside : r.side_ = .BUY ∨ r.side_ = .SELL)
    (hp : p.position_.natAbs < 2 ^ 31) :
    p.Decreases r ↔ p.position_ * sideToValue r.side_ < 0 := by
  obtain ⟨-, -, -, hs⟩ := sideToValue_opp hside
  unfold PositionInfo.Decreases
  rw [int32_eq (by rcases hs with hs | hs <;> rw [hs] <;> omega)
    (by rcases hs with hs | hs <;> rw [hs] <;> omega)]

/-- The size of a position on the side `side`. -/
theorem cast_natAbs_of_side {n : Int} {side : Side} (hside : side = .BUY ∨ side = .SELL)
    (h : 0 ≤ n * sideToValue side) : ((n.natAbs : Int) : ℚ) = n * sideToValue side := by
  obtain ⟨-, -, -, hs⟩ := sideToValue_opp hside
  have habs : (n.natAbs : Int) = n * sideToValue side := by
    rcases hs with hs | hs <;> rw [hs] at h ⊢ <;> omega
  rw [habs, Int.cast_mul]

/-- And of one on the other side. -/
theorem cast_natAbs_of_opp {n : Int} {side : Side} (hside : side = .BUY ∨ side = .SELL)
    (h : n * sideToValue side ≤ 0) : ((n.natAbs : Int) : ℚ) = -(n : ℚ) * sideToValue side := by
  obtain ⟨hopp, hoside, -, -⟩ := sideToValue_opp hside
  rw [cast_natAbs_of_side hoside (by rw [hopp, mul_neg]; omega), hopp]
  push_cast
  ring

/-- A fill that opens or increases a position adds to its cost. -/
theorem fillVwap_opened (hside : r.side_ = .BUY ∨ r.side_ = .SELL) (hqty : 0 < r.exec_qty_)
    (hr : FillInRange p.position_ r) (hp : p.position_.natAbs < 2 ^ 31)
    (hflat : p.position_ = 0 → v.open_vwap_ (sideToIndex r.side_) = 0)
    (hdir : 0 ≤ p.position_ * sideToValue r.side_) :
    (v.fillVwap p.position_ (p.addFill r).position_ r).2 -
        basis (v.fillVwap p.position_ (p.addFill r).position_ r).1 (p.addFill r).position_ =
      v.real_pnl_ - basis v.open_vwap_ p.position_ -
        sideToValue r.side_ * r.price_ * r.exec_qty_ := by
  obtain ⟨-, -, -, hs⟩ := sideToValue_opp hside
  have hnot : ¬ p.Decreases r := by
    rw [decreases_iff hside hp]
    omega
  have hnew : 0 < (p.addFill r).position_ * sideToValue r.side_ := by
    rw [addFill_position hr.sum]
    rcases hs with hs | hs <;> rw [hs] at hdir ⊢ <;> omega
  -- the cost is on the fill's side; a flat position has none
  have hold : basis v.open_vwap_ p.position_ =
      sideToValue r.side_ * v.open_vwap_ (sideToIndex r.side_) := by
    rcases eq_or_lt_of_le hdir with h0 | h0
    · have hzero : p.position_ = 0 := by rcases hs with hs | hs <;> rw [hs] at h0 <;> omega
      rw [hzero, basis_flat, hflat hzero, mul_zero]
    · exact basis_of_side _ hside h0
  rw [PositionInfo.fillVwap_branches, if_pos hnot, basis_of_side _ hside hnew, hold]
  show v.real_pnl_ - sideToValue r.side_ * (Function.update v.open_vwap_ (sideToIndex r.side_)
    (v.open_vwap_ (sideToIndex r.side_) + ((int64 (r.price_ * r.exec_qty_) : Int) : ℚ))
    (sideToIndex r.side_)) = _
  rw [Function.update_self, int64_eq (hr.opened hdir)]
  push_cast
  ring

/-- The test does not overflow, so it is the sign of the exact product. -/
theorem flipTest_iff (hside : r.side_ = .BUY ∨ r.side_ = .SELL) (hr : FillInRange p.position_ r)
    (hdir : p.position_ * sideToValue r.side_ < 0) :
    p.FlipTest r ↔ 0 < (p.addFill r).position_ * sideToValue r.side_ := by
  obtain ⟨-, -, -, hs⟩ := sideToValue_opp hside
  have hfit := hr.test hdir
  unfold PositionInfo.FlipTest
  rw [addFill_position hr.sum, int32_eq hfit.1 hfit.2, mul_neg_iff]
  rcases hs with hs | hs <;> rw [hs] at hdir ⊢ <;> omega

/-- All of the cost `S` of a position `n` is realised at `x`, and the rest of the
fill opens a new one. -/
theorem realised_flipped {R S n s x q : ℚ} (hn : n ≠ 0) (hs : s = 1 ∨ s = -1) :
    R + -n * s * (S / (-n * s) - x) * s - s * (x * ((n + s * q) * s)) = R - -s * S - s * x * q := by
  rcases hs with rfl | rfl
  · field_simp
    ring
  · field_simp
    ring

/-- The share of `q` of the cost is realised. -/
theorem realised_reduced {R S n s x q : ℚ} (hn : n ≠ 0) (hs : s = 1 ∨ s = -1) :
    R + q * (S / (-n * s) - x) * s - -s * (S / (-n * s) * (-(n + s * q) * s)) =
      R - -s * S - s * x * q := by
  rcases hs with rfl | rfl
  · field_simp
    ring
  · field_simp
    ring

theorem cast_sideToValue {side : Side} (hside : side = .BUY ∨ side = .SELL) :
    (sideToValue side : ℚ) = 1 ∨ (sideToValue side : ℚ) = -1 := by
  rcases hside with rfl | rfl
  · exact Or.inl (by simp [sideToValue])
  · exact Or.inr (by simp [sideToValue])

theorem cast_position_ne_zero {n m : Int} (h : n * m < 0) : (n : ℚ) ≠ 0 := by
  intro h0
  rw [Int.cast_eq_zero.mp h0] at h
  omega

/-- The position after a fill, as a rational. -/
theorem cast_addFill_position (hr : FillInRange p.position_ r) :
    ((p.addFill r).position_ : ℚ) = p.position_ + sideToValue r.side_ * r.exec_qty_ := by
  rw [addFill_position hr.sum]
  push_cast
  ring

/-- A fill that goes against the position and beyond it: all of the cost is
realised, and the rest opens a position on the other side. -/
theorem fillVwap_flipped (hside : r.side_ = .BUY ∨ r.side_ = .SELL)
    (hr : FillInRange p.position_ r) (hp : p.position_.natAbs < 2 ^ 31)
    (hdir : p.position_ * sideToValue r.side_ < 0)
    (hflip : 0 < (p.addFill r).position_ * sideToValue r.side_) :
    (v.fillVwap p.position_ (p.addFill r).position_ r).2 -
        basis (v.fillVwap p.position_ (p.addFill r).position_ r).1 (p.addFill r).position_ =
      v.real_pnl_ - -(sideToValue r.side_ : ℚ) * v.open_vwap_ (sideToIndex (oppSide r.side_)) -
        sideToValue r.side_ * r.price_ * r.exec_qty_ := by
  obtain ⟨-, -, hne, hs⟩ := sideToValue_opp hside
  have hsum := addFill_position hr.sum
  -- the whole position is closed, and `min` picks it
  have hmin : min (int32 r.exec_qty_) p.position_.natAbs = p.position_.natAbs := by
    have := hr.exec_qty
    rw [int32_eq (by omega) (by omega)]
    rcases hs with hs | hs <;> rw [hs] at hdir hflip hsum <;> omega
  have hneg : (p.position_ + sideToValue r.side_ * r.exec_qty_) * p.position_ < 0 := by
    rw [← hsum]
    exact mul_neg_iff.mpr (by rcases hs with hs | hs <;> rw [hs] at hdir hflip <;> omega)
  -- what opens on the other side is in range
  have hfit := hr.flipped hneg
  rw [← hsum] at hfit
  rw [PositionInfo.fillVwap_branches, if_neg (not_not.mpr ((decreases_iff hside hp).mpr hdir))]
  dsimp only
  rw [if_pos ((flipTest_iff hside hr hdir).mpr hflip), basis_of_side _ hside hflip, hmin,
    Function.update_of_ne hne, Function.update_self]
  show (v.real_pnl_ + ((p.position_.natAbs : Int) : ℚ) *
      (v.open_vwap_ (sideToIndex (oppSide r.side_)) / ((p.position_.natAbs : Int) : ℚ) - r.price_) *
      (sideToValue r.side_ : ℚ)) -
    sideToValue r.side_ * ((int64 (r.price_ * (p.addFill r).position_.natAbs) : Int) : ℚ) = _
  rw [int64_eq hfit, Int.cast_mul, cast_natAbs_of_side hside hflip.le,
    cast_natAbs_of_opp hside hdir.le, cast_addFill_position hr]
  exact realised_flipped (cast_position_ne_zero hdir) (cast_sideToValue hside)

/-- A fill that goes against the position and not beyond it: its share of the cost is
realised, and the rest stays. -/
theorem fillVwap_reduced (hside : r.side_ = .BUY ∨ r.side_ = .SELL)
    (hr : FillInRange p.position_ r) (hp : p.position_.natAbs < 2 ^ 31)
    (hdir : p.position_ * sideToValue r.side_ < 0)
    (hflip : ¬ 0 < (p.addFill r).position_ * sideToValue r.side_) :
    (v.fillVwap p.position_ (p.addFill r).position_ r).2 -
        basis (v.fillVwap p.position_ (p.addFill r).position_ r).1 (p.addFill r).position_ =
      v.real_pnl_ - -(sideToValue r.side_ : ℚ) * v.open_vwap_ (sideToIndex (oppSide r.side_)) -
        sideToValue r.side_ * r.price_ * r.exec_qty_ := by
  obtain ⟨hopp, hoside, -, hs⟩ := sideToValue_opp hside
  have hsum := addFill_position hr.sum
  -- the whole fill closes, and `min` picks it
  have hmin : min (int32 r.exec_qty_) p.position_.natAbs = r.exec_qty_ := by
    have := hr.exec_qty
    rw [int32_eq (by omega) (by omega)]
    rcases hs with hs | hs <;> rw [hs] at hdir hflip hsum <;> omega
  -- what is left is worth its share of the average, also if nothing is left
  have hbasis : ∀ w : ℚ, basis (Function.update v.open_vwap_ (sideToIndex (oppSide r.side_))
        (w * (((p.addFill r).position_.natAbs : Int) : ℚ))) (p.addFill r).position_ =
      -(sideToValue r.side_ : ℚ) * (w * (((p.addFill r).position_.natAbs : Int) : ℚ)) := by
    intro w
    rcases eq_or_ne (p.addFill r).position_ 0 with h0 | h0
    · rw [h0, basis_flat]
      simp
    · have hpos : 0 < (p.addFill r).position_ * sideToValue (oppSide r.side_) := by
        rw [hopp, mul_neg]
        rcases hs with hs | hs <;> rw [hs] at hflip ⊢ <;> omega
      rw [basis_of_side _ hoside hpos, Function.update_self, hopp, Int.cast_neg]
  rw [PositionInfo.fillVwap_branches, if_neg (not_not.mpr ((decreases_iff hside hp).mpr hdir))]
  dsimp only
  rw [if_neg (mt (flipTest_iff hside hr hdir).mp hflip), hmin]
  show (v.real_pnl_ + ((r.exec_qty_ : Int) : ℚ) *
      (v.open_vwap_ (sideToIndex (oppSide r.side_)) / ((p.position_.natAbs : Int) : ℚ) - r.price_) *
      (sideToValue r.side_ : ℚ)) - basis (Function.update v.open_vwap_ _
        (_ / ((p.position_.natAbs : Int) : ℚ) * (((p.addFill r).position_.natAbs : Int) : ℚ))) _ = _
  rw [hbasis, cast_natAbs_of_opp hside hdir.le, cast_natAbs_of_opp hside (not_lt.mp hflip),
    cast_addFill_position hr]
  exact realised_reduced (cast_position_ne_zero hdir) (cast_sideToValue hside)

/-- A fill that goes against the position: what it takes out of the cost, and
what it realises. -/
theorem fillVwap_decreased (hside : r.side_ = .BUY ∨ r.side_ = .SELL)
    (hr : FillInRange p.position_ r) (hp : p.position_.natAbs < 2 ^ 31)
    (hdir : p.position_ * sideToValue r.side_ < 0) :
    (v.fillVwap p.position_ (p.addFill r).position_ r).2 -
        basis (v.fillVwap p.position_ (p.addFill r).position_ r).1 (p.addFill r).position_ =
      v.real_pnl_ - basis v.open_vwap_ p.position_ -
        sideToValue r.side_ * r.price_ * r.exec_qty_ := by
  obtain ⟨hopp, hoside, -, -⟩ := sideToValue_opp hside
  rw [basis_of_side v.open_vwap_ (n := p.position_) hoside (by rw [hopp, mul_neg]; omega), hopp,
    Int.cast_neg]
  by_cases hflip : 0 < (p.addFill r).position_ * sideToValue r.side_
  · exact fillVwap_flipped hside hr hp hdir hflip
  · exact fillVwap_reduced hside hr hp hdir hflip

end Fill

/-! ## Runs -/

/-- The accounts of a position after fills with this cash and this sum of signed
quantities. -/
structure Balanced (p : Position ℚ) (money : ℚ) (shares : Int) : Prop where
  position : p.info.position_ = shares
  bound : p.info.position_.natAbs < 2 ^ 31
  cost : p.pnl.real_pnl_ - basis p.pnl.open_vwap_ p.info.position_ = money
  flat : p.info.position_ = 0 → p.pnl.unreal_pnl_ = 0 ∧
    ∀ side, side = .BUY ∨ side = .SELL → p.pnl.open_vwap_ (sideToIndex side) = 0

theorem balanced_init : Balanced init 0 0 where
  position := rfl
  bound := by decide
  cost := by
    show (0 : ℚ) - basis _ 0 = 0
    rw [basis_flat, sub_zero]
  flat := fun _ => ⟨rfl, fun _ _ => rfl⟩

variable {p : Position ℚ} {money : ℚ} {shares : Int}

/-- **A fill** moves its money, and the rest is bookkeeping. -/
theorem Balanced.fillVwap (h : Balanced p money shares) {r : MEClientResponse}
    (hr : p.Admits (.addFill r)) :
    (p.pnl.fillVwap p.info.position_ (p.info.addFill r).position_ r).2 -
        basis (p.pnl.fillVwap p.info.position_ (p.info.addFill r).position_ r).1
          (p.info.addFill r).position_ =
      money - sideToValue r.side_ * r.price_ * r.exec_qty_ := by
  obtain ⟨hside, hqty, hrange⟩ := hr
  rw [← h.cost]
  rcases Int.lt_or_le (p.info.position_ * sideToValue r.side_) 0 with hdir | hdir
  · exact fillVwap_decreased hside hrange h.bound hdir
  · exact fillVwap_opened hside hqty hrange h.bound (fun h0 => (h.flat h0).2 _ hside) hdir

theorem Balanced.addFill (h : Balanced p money shares) {r : MEClientResponse}
    (hr : p.Admits (.addFill r)) :
    Balanced (p.addFill r) (money - sideToValue r.side_ * r.price_ * r.exec_qty_)
        (shares + sideToValue r.side_ * r.exec_qty_) ∧
      (p.addFill r).pnl.total_pnl_ = money - sideToValue r.side_ * r.price_ * r.exec_qty_ +
        (p.addFill r).info.position_ * r.price_ := by
  have hcost := h.fillVwap hr
  obtain ⟨-, -, hrange⟩ := hr
  have hpos := addFill_position hrange.sum
  have hbound : (p.info.addFill r).position_.natAbs < 2 ^ 31 := by
    rw [hpos]
    exact hrange.sum
  have hshares : (p.info.addFill r).position_ = shares + sideToValue r.side_ * r.exec_qty_ := by
    rw [hpos, h.position]
  by_cases h0 : (p.info.addFill r).position_ = 0
  · -- flat: everything is realised
    have hpnl : (p.addFill r).pnl = {
        real_pnl_ := (p.pnl.fillVwap p.info.position_ (p.info.addFill r).position_ r).2
        unreal_pnl_ := 0
        total_pnl_ := 0 + (p.pnl.fillVwap p.info.position_ (p.info.addFill r).position_ r).2
        open_vwap_ := Function.update (Function.update
          (p.pnl.fillVwap p.info.position_ (p.info.addFill r).position_ r).1 (sideToIndex .SELL) 0)
          (sideToIndex .BUY) 0 } := if_pos h0
    rw [h0, basis_flat, sub_zero] at hcost
    refine ⟨⟨hshares, hbound, ?_, fun _ => ⟨by rw [hpnl], ?_⟩⟩, ?_⟩
    · show _ - basis _ (p.info.addFill r).position_ = _
      rw [h0, basis_flat, sub_zero, hpnl]
      rw [h0]
      exact hcost
    · rintro side (rfl | rfl)
      · rw [hpnl]
        dsimp only
        rw [Function.update_self]
      · rw [hpnl]
        dsimp only
        rw [Function.update_of_ne (by decide), Function.update_self]
    · show _ = _ + ((p.info.addFill r).position_ : ℚ) * r.price_
      rw [hpnl, h0, Int.cast_zero, zero_mul, add_zero, zero_add]
      exact hcost
  · -- open: the rest is valued at the price of the fill
    have hpnl : (p.addFill r).pnl = {
        real_pnl_ := (p.pnl.fillVwap p.info.position_ (p.info.addFill r).position_ r).2
        unreal_pnl_ := PositionPnL.unrealPnl
          (p.pnl.fillVwap p.info.position_ (p.info.addFill r).position_ r).1
          (p.info.addFill r).position_ (r.price_ : ℚ)
        total_pnl_ := PositionPnL.unrealPnl
            (p.pnl.fillVwap p.info.position_ (p.info.addFill r).position_ r).1
            (p.info.addFill r).position_ (r.price_ : ℚ) +
          (p.pnl.fillVwap p.info.position_ (p.info.addFill r).position_ r).2
        open_vwap_ := (p.pnl.fillVwap p.info.position_ (p.info.addFill r).position_ r).1 } :=
      if_neg h0
    refine ⟨⟨hshares, hbound, ?_, fun h0' => absurd h0' h0⟩, ?_⟩
    · show _ - basis _ (p.info.addFill r).position_ = _
      rw [hpnl]
      exact hcost
    · show _ = _ + ((p.info.addFill r).position_ : ℚ) * r.price_
      rw [hpnl, ← hcost]
      show PositionPnL.unrealPnl _ _ _ + _ = _
      rw [unrealPnl_eq _ h0]
      ring

/-- **A new top of book** changes the worth of an open position only. -/
theorem Balanced.updateBBO (h : Balanced p money shares) {bbo : BBO}
    (hr : p.Admits (.updateBBO bbo)) :
    Balanced (p.updateBBO bbo) money shares ∧ (bbo.Valid → p.info.position_ ≠ 0 →
      (p.updateBBO bbo).pnl.total_pnl_ =
        money + p.info.position_ * ((bbo.bid_price_ + bbo.ask_price_) / 2)) := by
  by_cases hopen : p.info.position_ ≠ 0 ∧ bbo.Valid
  · have hpnl : (p.updateBBO bbo).pnl = { p.pnl with
        unreal_pnl_ := PositionPnL.unrealPnl p.pnl.open_vwap_ p.info.position_
          (((int64 (bbo.bid_price_ + bbo.ask_price_) : Int) : ℚ) * (1 / 2))
        total_pnl_ := PositionPnL.unrealPnl p.pnl.open_vwap_ p.info.position_
          (((int64 (bbo.bid_price_ + bbo.ask_price_) : Int) : ℚ) * (1 / 2)) + p.pnl.real_pnl_ } :=
      if_pos hopen
    refine ⟨⟨h.position, h.bound, ?_, fun h0 => absurd h0 hopen.1⟩, fun _ _ => ?_⟩
    · rw [hpnl]
      exact h.cost
    · rw [hpnl, ← h.cost, int64_eq (hr hopen.1 hopen.2)]
      show PositionPnL.unrealPnl _ _ _ + _ = _
      rw [unrealPnl_eq _ hopen.1]
      push_cast
      ring
  · -- a flat position or an invalid quote changes nothing
    have hpnl : (p.updateBBO bbo).pnl = p.pnl := if_neg hopen
    refine ⟨⟨h.position, h.bound, ?_, ?_⟩, fun hv hne => absurd ⟨hne, hv⟩ hopen⟩
    · rw [hpnl]
      exact h.cost
    · rw [hpnl]
      exact h.flat

theorem run_append (p : Position ℚ) (cs : List Call) (c : Call) :
    p.run (cs ++ [c]) = (p.run cs).call c :=
  List.foldl_append

theorem admitsAll_append {p : Position ℚ} {cs : List Call} {c : Call} :
    p.AdmitsAll (cs ++ [c]) ↔ p.AdmitsAll cs ∧ (p.run cs).Admits c := by
  induction cs generalizing p with
  | nil => exact ⟨fun h => ⟨trivial, h.1⟩, fun h => ⟨h.2, trivial⟩⟩
  | cons x cs ih =>
    show p.Admits x ∧ (p.call x).AdmitsAll (cs ++ [c]) ↔ (p.Admits x ∧ (p.call x).AdmitsAll cs) ∧ _
    rw [ih, and_assoc]
    rfl

theorem net_append (cs : List Call) (c : Call) : net (cs ++ [c]) = net cs + net [c] := by
  induction cs with
  | nil => exact (Int.zero_add _).symm
  | cons x cs ih =>
    cases x with
    | addFill r =>
      show _ + net (cs ++ [c]) = _ + net cs + _
      rw [ih, Int.add_assoc]
    | updateBBO bbo => exact ih

theorem cash_append (cs : List Call) (c : Call) : cash (cs ++ [c]) = cash cs + cash [c] := by
  induction cs with
  | nil => exact (zero_add _).symm
  | cons x cs ih =>
    cases x with
    | addFill r =>
      show _ + cash (cs ++ [c]) = _ + cash cs + _
      rw [ih, add_assoc]
    | updateBBO bbo => exact ih

theorem net_addFill (cs : List Call) (r : MEClientResponse) :
    net (cs ++ [.addFill r]) = net cs + sideToValue r.side_ * r.exec_qty_ := by
  rw [net_append]
  show _ + (_ + 0) = _
  rw [Int.add_zero]

theorem cash_addFill (cs : List Call) (r : MEClientResponse) :
    cash (cs ++ [.addFill r]) = cash cs - sideToValue r.side_ * r.price_ * r.exec_qty_ := by
  rw [cash_append]
  show _ + (_ + 0) = _
  ring

/-- The accounts are kept over every run. -/
theorem balanced_run {cs : List Call} (h : (init : Position ℚ).AdmitsAll cs) :
    Balanced (init.run cs) (cash cs) (net cs) := by
  induction cs using List.reverseRecOn with
  | nil => exact balanced_init
  | append_singleton cs c ih =>
    obtain ⟨hcs, hc⟩ := admitsAll_append.mp h
    rw [run_append]
    cases c with
    | addFill r =>
      rw [cash_addFill, net_addFill]
      exact ((ih hcs).addFill hc).1
    | updateBBO bbo =>
      rw [cash_append, net_append]
      show Balanced _ (cash cs + 0) (net cs + 0)
      rw [add_zero, Int.add_zero]
      exact ((ih hcs).updateBBO hc).1

/-- **The accounts of a position.** After every run of fills and quotes in which
no integer overflows: the position is the sum of the signed fills; a flat
position has realised all its cash; a fill leaves `total_pnl_` at the cash plus
the position at the price of the fill, and a quote for an open position at the
cash plus the position at the mid price. -/
theorem pnl_accounts {cs : List Call} (h : (init : Position ℚ).AdmitsAll cs) :
    ((init : Position ℚ).run cs).info.position_ = net cs ∧
    (((init : Position ℚ).run cs).info.position_ = 0 →
      ((init : Position ℚ).run cs).pnl.real_pnl_ = cash cs ∧
        ((init : Position ℚ).run cs).pnl.unreal_pnl_ = 0) ∧
    (∀ cs' r, cs = cs' ++ [.addFill r] → ((init : Position ℚ).run cs).pnl.total_pnl_ =
      cash cs + ((init : Position ℚ).run cs).info.position_ * r.price_) ∧
    (∀ cs' bbo, cs = cs' ++ [.updateBBO bbo] → bbo.Valid →
      ((init : Position ℚ).run cs).info.position_ ≠ 0 →
      ((init : Position ℚ).run cs).pnl.total_pnl_ = cash cs +
        ((init : Position ℚ).run cs).info.position_ *
          ((bbo.bid_price_ + bbo.ask_price_) / 2)) := by
  have hb := balanced_run h
  refine ⟨hb.position, fun h0 => ⟨?_, (hb.flat h0).1⟩, ?_, ?_⟩
  · rw [← hb.cost, h0, basis_flat, sub_zero]
  · rintro cs' r rfl
    obtain ⟨hcs, hc⟩ := admitsAll_append.mp h
    rw [run_append, cash_addFill]
    exact ((balanced_run hcs).addFill hc).2
  · rintro cs' bbo rfl hv hne
    obtain ⟨hcs, hc⟩ := admitsAll_append.mp h
    rw [run_append] at hne ⊢
    rw [cash_append]
    show _ = cash cs' + 0 + _
    rw [add_zero]
    exact ((balanced_run hcs).updateBBO hc).2 hv hne

/-- 16 sold at 90. -/
def soldFill : MEClientResponse :=
  { type_ := .FILLED, side_ := .SELL, price_ := 90, exec_qty_ := 16 }

/-- That after 10 bought at 100. -/
def flipCalls : List Call :=
  [.addFill { type_ := .FILLED, side_ := .BUY, price_ := 100, exec_qty_ := 10 },
    .addFill soldFill]

theorem flipCalls_admits : (init : Position ℚ).AdmitsAll flipCalls := by
  refine ⟨⟨Or.inl rfl, by decide, ⟨by decide, by decide, fun _ => ?_, fun h => ?_, fun h => ?_⟩⟩,
    ⟨Or.inr rfl, by decide, ⟨by decide, by decide, fun h => ?_, fun _ => ?_, fun _ => ?_⟩⟩, trivial⟩
  · exact ⟨by decide, by decide⟩
  · exact absurd h (by decide)
  · exact absurd h (by decide)
  · exact absurd h (by decide)
  · exact ⟨by decide, by decide⟩
  · exact ⟨by decide, by decide⟩

/-- The flip has lost 100. -/
theorem pnl_accounts_flip : ((init : Position ℚ).run flipCalls).info.position_ = -6 ∧
    ((init : Position ℚ).run flipCalls).pnl.total_pnl_ = -100 := by
  obtain ⟨hpos, -, hfill, -⟩ := pnl_accounts flipCalls_admits
  have hnet : net flipCalls = -6 := by decide
  have hcash : cash flipCalls = 440 := by norm_num [flipCalls, soldFill, cash, sideToValue]
  rw [hnet] at hpos
  refine ⟨hpos, ?_⟩
  rw [hfill (flipCalls.take 1) soldFill rfl, hpos, hcash]
  norm_num [soldFill]

end Position

/-! ## All tickers -/

/-- `ticker_position_`. -/
abbrev PositionKeeper (F : Type) := Nat → Position F

namespace PositionKeeper

variable {F : Type} [Double F]

def init : PositionKeeper F := fun _ => Position.init

/-- The `std::array` has `ME_MAX_TICKERS` elements, and `at` throws past them. -/
def addFill (k : PositionKeeper F) (r : MEClientResponse) : Exec (PositionKeeper F) :=
  if r.ticker_id_ < ME_MAX_TICKERS then
    .ok (Function.update k r.ticker_id_ ((k r.ticker_id_).addFill r))
  else .error .outOfRange

def updateBBO (k : PositionKeeper F) (ticker_id : Nat) (bbo : BBO) : Exec (PositionKeeper F) :=
  if ticker_id < ME_MAX_TICKERS then
    .ok (Function.update k ticker_id ((k ticker_id).updateBBO bbo))
  else .error .outOfRange

/-- The total that `toString` prints. -/
def total_pnl (k : PositionKeeper F) : F :=
  (List.range ME_MAX_TICKERS).foldl (fun total i => total + (k i).pnl.total_pnl_) (Double.ofInt 0)

end PositionKeeper

end LowLatency
