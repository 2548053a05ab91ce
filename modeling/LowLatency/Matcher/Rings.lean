import LowLatency.Matcher.MatchingEngine
import LowLatency.Matcher.Resting
import LowLatency.Matcher.Sweep

/-!
# Runs that keep the rings

An order leaves by the ring that its side names and by the level in the slot of its
price. Both are right for every order of the book as long as none comes to rest in a
level of the other ring, and the levels stay sorted as long as every order finds its
place. `MEOrderBook.KeepsRings` says this of a request and the resting orders it
finds; a run of such requests leads to books whose rings are in order
(`MatchingEngine.run_ordered`), whatever else is wrong with the requests.
-/

namespace LowLatency

/-- Every order is on the ring it will leave from, and the rings are sorted. -/
def Ordered (s : MELadder) : Prop := ∃ G, Shelved s G

/-- A book that stands for the reference's is in order. -/
theorem Sim.ordered {s : MEOrderBook} {r : RefBook} (h : Sim s r) : Ordered s.ladder := by
  obtain ⟨G, hG, -⟩ := h
  exact ⟨G, hG.shelved⟩

namespace MEOrderBook

variable {s s' : MEOrderBook} {q : MEClientRequest}

/-- A new order that comes to rest finds its place, and none that stays on the other
ring is in the slot of its price. -/
def KeepsRings (s : MEOrderBook) (q : MEClientRequest) : Prop :=
  q.type_ = .NEW → s.LeavesOver q → s.ladder.FindsPlace q.side_ q.price_ ∧
    ∀ o ∈ s.unreached q, priceToIndex o.price_ ≠ priceToIndex q.price_

/-- Without a side there is no matching. -/
theorem findsPlace_matched {leaves : Nat} {l : MELadder} {evs : List Event}
    (h : MELadder.checkForMatch s.ladder (s.aggressor q) q.qty_ = .ok (leaves, l, evs)) :
    l.FindsPlace q.side_ q.price_ ↔ s.ladder.FindsPlace q.side_ q.price_ := by
  by_cases hbuy : q.side_ = .BUY
  · exact iff_of_true (Or.inl hbuy) (Or.inl hbuy)
  by_cases hsell : q.side_ = .SELL
  · exact iff_of_true (Or.inr (Or.inl hsell)) (Or.inr (Or.inl hsell))
  have hl : l = s.ladder := by
    unfold MELadder.checkForMatch at h
    split at h
    next he => exact absurd he hbuy
    next he => exact absurd he hsell
    next =>
      obtain ⟨_, rfl, _⟩ : q.qty_ = leaves ∧ s.ladder = l ∧ [] = evs := by simpa using h
      rfl
  rw [hl]

/-- An order of its own ring leaves the book as it was found. -/
theorem KeepsRings.ordered {evs : List Event} (hq : s.KeepsRings q) (h : Ordered s.ladder)
    (hrun : s.processClientRequest q = .ok (s', evs)) : Ordered s'.ladder := by
  obtain ⟨G, hG⟩ := h
  unfold processClientRequest at hrun
  split at hrun
  next htype =>
    obtain ⟨leaves, l, evs₁, hmatch, _, hend⟩ := add_inv hrun
    obtain ⟨hover, G₁, hG₁, htaken⟩ := shelved_matchRule.checkForMatch_inv hG hmatch
    rcases hend with ⟨_, hs', _⟩ | ⟨hleaves, o, _, hside, hprice, _, halloc, _⟩
    · rw [hs']
      exact ⟨G₁, hG₁⟩
    · obtain ⟨hfinds, hslot⟩ := hq htype (hover.mp hleaves)
      refine hG₁.place halloc ?_ fun lv hlv => ?_
      · rw [hside, hprice]
        exact (findsPlace_matched hmatch).mpr hfinds
      · rw [hprice] at hlv
        obtain ⟨g, hg, rfl⟩ := (htaken (hover.mp hleaves)).slot_own hG.core hG₁.core hG₁.prices
          (fun b g hg o ho => (hG₁.home b g hg o ho).2) hslot hlv
        rw [hside, (hG₁.core.level _ g hg).side, hG₁.side _ g hg]
  next =>
    rcases cancel_inv hrun with ⟨rfl, _⟩ | ⟨p, hp, hremove, _, _⟩
    · exact ⟨G, hG⟩
    · obtain ⟨b', o, ho, rfl, _⟩ := hG.ids _ _ hp
      obtain ⟨l, hok, hG'⟩ := hG.remove ho
      rw [← Except.ok.inj (hok.symm.trans hremove)]
      exact ⟨_, hG'⟩
  next => exact absurd hrun (by simp)

end MEOrderBook

/-! ## The engine -/

namespace MatchingEngine

variable {e e' : MatchingEngine}

/-- The books after one request. -/
theorem step_ordered {q : MEClientRequest} {evs : List Event} (h : ∀ t, Ordered (e t).ladder)
    (hq : (e q.ticker_id_).KeepsRings q) (hstep : e.processClientRequest q = .ok (e', evs)) :
    ∀ t, Ordered (e' t).ladder := by
  obtain ⟨_, s, hbook, rfl⟩ := processClientRequest_inv hstep
  intro t
  by_cases ht : t = q.ticker_id_
  · rw [ht, Function.update_self]
    exact hq.ordered (h _) hbook
  · rw [Function.update_of_ne ht]
    exact h t

/-- The books of a run in which every order came to rest in its own ring. -/
theorem run_ordered {qs : List MEClientRequest} {evss : List (List Event)}
    (h : ∀ t, Ordered (e t).ladder) (hq : AllAlong MEOrderBook.KeepsRings e qs)
    (hrun : e.run qs = .ok (e', evss)) : ∀ t, Ordered (e' t).ladder := by
  induction qs generalizing e evss with
  | nil =>
    obtain ⟨rfl, _⟩ : e = e' ∧ [] = evss := by simpa [run] using hrun
    exact h
  | cons q qs ih =>
    obtain ⟨e₁, evs, evss₁, hstep, hrest, _⟩ := run_cons_inv hrun
    exact ih (step_ordered h hq.1 hstep) (hq.2 _ _ hstep) hrest

end MatchingEngine

end LowLatency
