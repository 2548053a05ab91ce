import LowLatency.Strategy.BestPrices
import LowLatency.Strategy.PositionKeeper

/-!
# The fair price and the spread

`FeatureEngine::onOrderBookUpdate` weighs the best bid with the quantity on the
ask side and the best ask with the quantity on the bid side. The weights are
`uint32_t` and are added as such before the division, while the products are
`int64_t`. So the result is a weighted mean of the two prices, and lies between
them, as long as the two level totals do not carry out of 32 bits together. When
they do, the mean is divided by too little, and it is never inside the spread
again (**`mkt_price_inside_iff`**): a denominator that is too small by `2 ^ 32`
puts the quotient above the ask, and a numerator large enough to wrap as well
puts it below zero.

The division is read over the rationals.
-/

namespace LowLatency

/-- The quantity of a level in `Qty`: the sum of its orders' modulo `2 ^ 32`. -/
def LevelG.total (g : LevelG Nat) : Nat := (g.orders.map fun o => o.2.qty_).sum % 2 ^ 32

theorem LevelG.total_lt (g : LevelG Nat) : g.total < 2 ^ 32 := Nat.mod_lt _ (by decide)

/-- The dividend of the fair price, in `int64_t`. -/
def mktNumerator (bbo : BBO) : Int :=
  int64 (bbo.bid_price_ * bbo.ask_qty_ + bbo.ask_price_ * bbo.bid_qty_)

/-- The divisor of the fair price, added in `uint32_t`. -/
def mktDenominator (bbo : BBO) : Nat := wrap32 (bbo.bid_qty_ + bbo.ask_qty_)

theorem onOrderBookUpdate_mkt_price (f : FeatureEngine ℚ) {bbo : BBO} (h : bbo.Valid) :
    (f.onOrderBookUpdate bbo).mkt_price_ = (mktNumerator bbo : ℚ) / (mktDenominator bbo : ℚ) := by
  unfold FeatureEngine.onOrderBookUpdate
  rw [if_pos h]
  rfl

/-! ## In integers -/

section

variable {bid ask : Int} {bq aq : Nat}

/-- A numerator of 64 bits that has carried into its sign. -/
theorem int64_of_ge {x : Int} (h : 2 ^ 63 ≤ x) (h' : x < 2 ^ 64) : int64 x = x - 2 ^ 64 := by
  unfold int64 Int.bmod
  have hx : x % (2 ^ 64 : Nat) = x := Int.emod_eq_of_lt (by omega) (by omega)
  rw [hx, if_neg (by omega)]
  rfl

/-- The exact numerator lies between its weights times either price. -/
theorem numerator_between (bq aq : Nat) (hlt : bid < ask) :
    bid * (bq + aq) ≤ bid * aq + ask * bq ∧ bid * aq + ask * bq ≤ ask * (bq + aq) := by
  constructor <;> nlinarith

/-- **Without a carry** the quotient is a weighted mean. -/
theorem inside_of_fits (h0 : 0 ≤ bid) (hlt : bid < ask) (hmax : ask < 2 ^ 31)
    (hsum : bq + aq < 2 ^ 32) :
    bid * wrap32 (bq + aq) ≤ int64 (bid * aq + ask * bq) ∧
      int64 (bid * aq + ask * bq) ≤ ask * wrap32 (bq + aq) := by
  obtain ⟨hlo, hhi⟩ := numerator_between bq aq hlt
  have hfit : Fits64 (bid * aq + ask * bq) := by
    unfold Fits64
    constructor
    · nlinarith
    · nlinarith
  rw [int64_eq hfit, wrap32_eq hsum]
  push_cast
  exact ⟨hlo, hhi⟩

/-- **With a carry** it leaves the spread: above the ask, or below zero. -/
theorem outside_of_carry (h0 : 0 ≤ bid) (hlt : bid < ask) (hmax : ask < 2 ^ 31)
    (hbq : bq < 2 ^ 32) (haq : aq < 2 ^ 32) (hsum : 2 ^ 32 ≤ bq + aq) :
    ¬ (bid * wrap32 (bq + aq) ≤ int64 (bid * aq + ask * bq) ∧
      int64 (bid * aq + ask * bq) ≤ ask * wrap32 (bq + aq)) := by
  rintro ⟨hlo, hhi⟩
  have hw : ((wrap32 (bq + aq) : Nat) : Int) = bq + aq - 2 ^ 32 := by
    unfold wrap32
    omega
  obtain ⟨hlo', hhi'⟩ := numerator_between bq aq hlt
  by_cases hN : bid * aq + ask * bq < 2 ^ 63
  · have hfit : Fits64 (bid * aq + ask * bq) := ⟨by nlinarith, hN⟩
    rw [int64_eq hfit, hw] at hhi
    -- the missing `2 ^ 32` asks weigh more than all the asks there are
    have hmissing : ask * 2 ^ 32 ≤ (ask - bid) * aq := by linarith
    have hfew : (ask - bid) * aq ≤ ask * aq := by nlinarith
    have hless : ask * aq < ask * 2 ^ 32 := by nlinarith
    linarith
  · have hN' : bid * aq + ask * bq < 2 ^ 64 := by nlinarith
    rw [int64_of_ge (by linarith) hN'] at hlo
    have hpos : 0 ≤ bid * (wrap32 (bq + aq) : Nat) := by positivity
    linarith

end

/-! ## The quotient -/

/-- The market price is a number, and lies between the best prices. -/
def MktPriceInside (f : FeatureEngine ℚ) (bbo : BBO) : Prop :=
  mktDenominator bbo ≠ 0 ∧ (bbo.bid_price_ : ℚ) ≤ (f.onOrderBookUpdate bbo).mkt_price_ ∧
    (f.onOrderBookUpdate bbo).mkt_price_ ≤ (bbo.ask_price_ : ℚ)

/-- The quotient against the spread, multiplied out. -/
theorem mktPriceInside_iff_mul (f : FeatureEngine ℚ) {bbo : BBO} (h : bbo.Valid) :
    MktPriceInside f bbo ↔ mktDenominator bbo ≠ 0 ∧
      bbo.bid_price_ * mktDenominator bbo ≤ mktNumerator bbo ∧
      mktNumerator bbo ≤ bbo.ask_price_ * mktDenominator bbo := by
  unfold MktPriceInside
  refine and_congr_right fun hne => ?_
  have hpos : (0 : ℚ) < (mktDenominator bbo : ℚ) := by exact_mod_cast Nat.pos_of_ne_zero hne
  rw [onOrderBookUpdate_mkt_price f h, le_div_iff₀ hpos, div_le_iff₀ hpos]
  constructor
  · rintro ⟨hlo, hhi⟩
    exact ⟨by exact_mod_cast hlo, by exact_mod_cast hhi⟩
  · rintro ⟨hlo, hhi⟩
    exact ⟨by exact_mod_cast hlo, by exact_mod_cast hhi⟩

/-- The fair price of a BBO whose fields are of their types. -/
theorem mktPriceInside_iff (f : FeatureEngine ℚ) {bbo : BBO} (h0 : 0 ≤ bbo.bid_price_)
    (hlt : bbo.bid_price_ < bbo.ask_price_) (hmax : bbo.ask_price_ < 2 ^ 31)
    (hbq : bbo.bid_qty_ < 2 ^ 32) (haq : bbo.ask_qty_ < 2 ^ 32) :
    MktPriceInside f bbo ↔ 0 < bbo.bid_qty_ + bbo.ask_qty_ ∧
      bbo.bid_qty_ + bbo.ask_qty_ < 2 ^ 32 := by
  have hvalid : bbo.Valid := by
    unfold BBO.Valid Price_INVALID
    omega
  rw [mktPriceInside_iff_mul f hvalid]
  unfold mktDenominator mktNumerator
  constructor
  · rintro ⟨hne, hin⟩
    refine ⟨Nat.pos_of_ne_zero fun he => hne (by rw [he]; rfl), ?_⟩
    by_contra hcarry
    exact outside_of_carry h0 hlt hmax hbq haq (by omega) hin
  · rintro ⟨hpos, hsum⟩
    refine ⟨?_, inside_of_fits h0 hlt hmax hsum⟩
    rw [wrap32_eq hsum]
    omega

/-- What `updateBBO` writes when both sides have orders. -/
theorem updateBBO_both {s : MarketOrderBook} {G : Ghost Nat} (h : Core s.ladder G)
    (hqty : ∀ b, ∀ o ∈ bookOf G b, o.qty_ < 2 ^ 32) {bid ask : LevelG Nat}
    {bids asks : List (LevelG Nat)} (hbid : G true = bid :: bids) (hask : G false = ask :: asks) :
    s.updateBBO true true
      = .ok { s with bbo_ := ⟨bid.price, ask.price, bid.total, ask.total⟩ } := by
  have htop : ∀ b g L, G b = g :: L → topOf (G b) = (g.price, g.total) := by
    intro b g L hL
    rw [hL]
    show (g.price, levelQty _) = _
    rw [levelQty_eq]
    · rfl
    · intro q hq
      obtain ⟨o, ho, rfl⟩ := List.mem_map.mp hq
      have hg : g ∈ G b := by rw [hL]; exact List.mem_cons_self ..
      exact hqty b o.2 (mem_bookOf.mpr ⟨g, hg, o.1, ho⟩)
  rw [updateBBO_spec h true true]
  unfold nextBBO
  rw [htop true bid bids hbid, htop false ask asks hask]
  rfl

/-- **The fair price lies inside the spread** exactly when the totals of the two
best levels are not both zero and add up without a carry. -/
theorem mkt_price_inside_iff {s : MarketOrderBook} {G : Ghost Nat} (h : Core s.ladder G)
    (hqty : ∀ b, ∀ o ∈ bookOf G b, o.qty_ < 2 ^ 32) {bid ask : LevelG Nat}
    {bids asks : List (LevelG Nat)} (hbid : G true = bid :: bids) (hask : G false = ask :: asks)
    (h0 : 0 ≤ bid.price) (hlt : bid.price < ask.price) (hmax : ask.price < 2 ^ 31)
    (f : FeatureEngine ℚ) :
    ∃ s', s.updateBBO true true = .ok s' ∧
      s'.bbo_.bid_price_ = bid.price ∧ s'.bbo_.ask_price_ = ask.price ∧
      (MktPriceInside f s'.bbo_ ↔
        0 < bid.total + ask.total ∧ bid.total + ask.total < 2 ^ 32) :=
  ⟨_, updateBBO_both h hqty hbid hask, rfl, rfl,
    mktPriceInside_iff f h0 hlt hmax bid.total_lt ask.total_lt⟩

/-! ## Books of one order a side -/

/-- A side with one order has one level, of that order. -/
theorem Represents.single {s : MarketLadder} {G : Ghost Nat} (h : Represents s G) {b : Bool}
    {d : OrderData Nat} (hb : bookOf G b = [d]) :
    ∃ g, G b = [g] ∧ g.price = d.price_ ∧ g.total = d.qty_ % 2 ^ 32 := by
  have hview : (G b).map LevelG.view = levelsOf (bookOf G b) := by
    have he := (h.core.view b).symm.trans (h.view b)
    exact Option.some.inj he
  rw [hb] at hview
  obtain ⟨g, hg, hgv⟩ := List.map_eq_singleton_iff.mp
    (show (G b).map LevelG.view = [⟨d.side_, d.price_, [d]⟩] from hview)
  refine ⟨g, hg, congrArg Ladder.LevelView.price_ hgv, ?_⟩
  have horders : g.orders.map Prod.snd = [d] := congrArg Ladder.LevelView.orders hgv
  have hqtys : (g.orders.map fun o => o.2.qty_) = [d.qty_] := by
    have he := congrArg (List.map OrderData.qty_) horders
    rwa [List.map_map] at he
  unfold LevelG.total
  rw [hqtys, List.sum_singleton]

/-- A replica that has followed a well-formed run of the exchange. -/
theorem replica_of_run (qs : List MEClientRequest) (ha : RefBook.init.AdmitsAll qs)
    (hf : RefBook.init.FitsAll qs) (hid : RefBook.IdsBelow ME_MAX_ORDER_IDS RefBook.init qs) :
    ∃ m G, MarketOrderBook.init.onMarketUpdates
        (updates (RefBook.init.runEvents wrap32 qs).flatten) = .ok m ∧
      Represents m.ladder G ∧ bookOf G = feedOf (RefBook.init.run qs).book := by
  obtain ⟨hok, hfold⟩ := run_feed RefBook.inv_init RefBook.numbered_init ha hf hid wrap32
  obtain ⟨m, G, hrun, hr, hb⟩ := onMarketUpdates_sim
    (updates (RefBook.init.runEvents wrap32 qs).flatten) (s := MarketOrderBook.init)
    Represents.init hok
  exact ⟨m, G, hrun, hr, hb.trans hfold⟩

/-- Ten to sell at 102, thirty to buy at 100: a fair price of 101.5. -/
theorem mkt_price_inside_small : ∃ s s' : MarketOrderBook, s.updateBBO true true = .ok s' ∧
    s'.bbo_.bid_price_ = 100 ∧ s'.bbo_.ask_price_ = 102 ∧
    MktPriceInside FeatureEngine.init s'.bbo_ := by
  obtain ⟨s, G, _, hr, hb⟩ := replica_of_run
    [⟨.NEW, 1, 0, 7, .SELL, 102, 10⟩, ⟨.NEW, 2, 0, 8, .BUY, 100, 30⟩] (by decide) (by decide)
    (by decide)
  have hbid : bookOf G true = [⟨2, .BUY, 100, 30, 1⟩] := by rw [hb]; decide
  have hask : bookOf G false = [⟨1, .SELL, 102, 10, 1⟩] := by rw [hb]; decide
  obtain ⟨bid, hG, hp, ht⟩ := hr.single hbid
  obtain ⟨ask, hG', hp', ht'⟩ := hr.single hask
  have hqty : ∀ b, ∀ o ∈ bookOf G b, o.qty_ < 2 ^ 32 := by rw [hb]; decide
  obtain ⟨s', hrun, h₁, h₂, hiff⟩ := mkt_price_inside_iff hr.core hqty hG hG' (by rw [hp]; decide)
    (by rw [hp, hp']; decide) (by rw [hp']; decide) FeatureEngine.init
  refine ⟨s, s', hrun, h₁.trans hp, h₂.trans hp', hiff.mpr ?_⟩
  rw [ht, ht']
  decide

/-- Three thousand million on either side: the fair price is above the ask. -/
theorem mkt_price_outside : ∃ s s' : MarketOrderBook, ∃ G bid ask, Core s.ladder G ∧
    G true = [bid] ∧ G false = [ask] ∧ s.updateBBO true true = .ok s' ∧
    s'.bbo_ = ⟨100, 102, 3000000000, 3000000000⟩ ∧
    ¬ MktPriceInside FeatureEngine.init s'.bbo_ := by
  obtain ⟨s, G, _, hr, hb⟩ := replica_of_run
    [⟨.NEW, 1, 0, 7, .SELL, 102, 3000000000⟩, ⟨.NEW, 2, 0, 8, .BUY, 100, 3000000000⟩] (by decide)
    (by decide) (by decide)
  have hbid : bookOf G true = [⟨2, .BUY, 100, 3000000000, 1⟩] := by rw [hb]; decide
  have hask : bookOf G false = [⟨1, .SELL, 102, 3000000000, 1⟩] := by rw [hb]; decide
  obtain ⟨bid, hG, hp, ht⟩ := hr.single hbid
  obtain ⟨ask, hG', hp', ht'⟩ := hr.single hask
  have hqty : ∀ b, ∀ o ∈ bookOf G b, o.qty_ < 2 ^ 32 := by rw [hb]; decide
  have hrun := updateBBO_both hr.core hqty hG hG'
  rw [hp, hp', ht, ht'] at hrun
  refine ⟨s, _, G, bid, ask, hr.core, hG, hG', hrun, rfl, fun hin => ?_⟩
  have hiff : MktPriceInside FeatureEngine.init ⟨100, 102, 3000000000, 3000000000⟩ ↔ _ :=
    mktPriceInside_iff FeatureEngine.init (by decide) (by decide) (by decide) (by decide)
      (by decide)
  have hsum := hiff.mp hin
  exact absurd hsum.2 (by decide)

end LowLatency
