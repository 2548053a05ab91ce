import Mathlib.Data.List.Shortlex
import Mathlib.Logic.Function.Iterate

/-!
# Work that drains through stages

Where work passes from stage to stage, a step takes something away from one stage, leaves
the stages before it as they are, and adds to the stages behind it whatever it likes: one
request may be turned into any number of responses. Of what waits at each stage, the
first stage first, this is a descent in the lexicographic order (`Descends`), and so it
does not go on for ever.

A run takes steps, or rests. It is `Fair` if the whole of it does not rest for ever while
some step could descend. Nothing is asked for a single stage: that one stage waits for
ever is ruled out by the descent. **`Fair.ends`**: if every state that is not done has a
step that descends, and no step ascends, then every fair run is done from some point on.
Every state has a fair run (`exists_fair`).
-/

namespace LowLatency.Lib

/-! ## Descents -/

/-- What waits `after` a step that takes something from one stage. -/
def Descends (after before : List Nat) : Prop := List.Shortlex (· < ·) after before

namespace Descends

variable {m n : Nat} {after before : List Nat}

/-- Something leaves this stage. -/
theorem here (h : m < n) (hlen : after.length = before.length) :
    Descends (m :: after) (n :: before) :=
  .of_lex (by rw [List.length_cons, List.length_cons, hlen]) (.rel h)

/-- Nothing happens here, and something leaves a later stage. -/
theorem later (h : m = n) (hd : Descends after before) : Descends (m :: after) (n :: before) := by
  subst h
  exact hd.cons

theorem wf : WellFounded Descends := List.Shortlex.wf wellFounded_lt

theorem irrefl (l : List Nat) : ¬ Descends l l := wf.irrefl.irrefl l

end Descends

/-! ## Runs -/

section Runs

variable {S : Type} {Step : S → S → Prop} {load : S → List Nat} {run : Nat → S}

/-- Steps, and moments of rest. -/
def IsRun (Step : S → S → Prop) (run : Nat → S) : Prop :=
  ∀ n, Step (run n) (run (n + 1)) ∨ run (n + 1) = run n

/-- What a step preserves holds all along a run. -/
theorem IsRun.preserves (h : IsRun Step run) {P : S → Prop} (h₀ : P (run 0))
    (hstep : ∀ s s', P s → Step s s' → P s') (n : Nat) : P (run n) := by
  induction n with
  | zero => exact h₀
  | succ n ih =>
    rcases h n with hs | hrest
    · exact hstep _ _ ih hs
    · rwa [hrest]

/-- While some step could descend, the load does not stay as it is. -/
def Fair (Step : S → S → Prop) (load : S → List Nat) (run : Nat → S) : Prop :=
  ∀ n, (∃ s', Step (run n) s' ∧ Descends (load s') (load (run n))) →
    ∃ m, n ≤ m ∧ load (run (m + 1)) ≠ load (run m)

/-- **A load that never ascends settles.** -/
theorem settles (hdown : ∀ n, load (run (n + 1)) = load (run n) ∨
    Descends (load (run (n + 1))) (load (run n))) :
    ∃ N, ∀ n, N ≤ n → load (run n) = load (run N) := by
  obtain ⟨_, ⟨N, rfl⟩, hleast⟩ :=
    Descends.wf.has_min (Set.range fun n => load (run n)) ⟨_, 0, rfl⟩
  refine ⟨N, fun n hn => ?_⟩
  induction n, hn using Nat.le_induction with
  | base => rfl
  | succ n _ ih =>
    rcases hdown n with heq | hlt
    · rw [heq, ih]
    · rw [ih] at hlt
      exact absurd hlt (hleast _ ⟨n + 1, rfl⟩)

/-- **A fair run comes to its end.** -/
theorem Fair.ends (h : Fair Step load run) {Done : S → Prop}
    (hdown : ∀ n, load (run (n + 1)) = load (run n) ∨
      Descends (load (run (n + 1))) (load (run n)))
    (hprogress : ∀ n, ¬ Done (run n) →
      ∃ s', Step (run n) s' ∧ Descends (load s') (load (run n))) :
    ∃ N, ∀ n, N ≤ n → Done (run n) := by
  obtain ⟨N, hN⟩ := settles hdown
  refine ⟨N, fun n hn => ?_⟩
  by_contra hnot
  obtain ⟨m, hm, hmoved⟩ := h n (hprogress n hnot)
  have hle : N ≤ m := hn.trans hm
  exact hmoved ((hN (m + 1) (Nat.le_succ_of_le hle)).trans (hN m hle).symm)

/-- **There are fair runs**: take a step that descends as long as there is one. -/
theorem exists_fair (Step : S → S → Prop) (load : S → List Nat) (s : S) :
    ∃ run, run 0 = s ∧ IsRun Step run ∧ Fair Step load run := by
  classical
  let next : S → S := fun x =>
    if h : ∃ x', Step x x' ∧ Descends (load x') (load x) then h.choose else x
  have hrun : ∀ n, next^[n + 1] s = next (next^[n] s) := fun n =>
    Function.iterate_succ_apply' next n s
  refine ⟨fun n => next^[n] s, rfl, fun n => ?_, fun n hbusy => ⟨n, Nat.le_refl n, ?_⟩⟩
  · dsimp only
    rw [hrun]
    by_cases h : ∃ x', Step (next^[n] s) x' ∧ Descends (load x') (load (next^[n] s))
    · exact .inl (by rw [show next _ = h.choose from dif_pos h]; exact h.choose_spec.1)
    · exact .inr (dif_neg h)
  · dsimp only at hbusy ⊢
    rw [hrun, show next _ = hbusy.choose from dif_pos hbusy]
    intro heq
    have hlt := hbusy.choose_spec.2
    rw [heq] at hlt
    exact Descends.irrefl _ hlt

end Runs

end LowLatency.Lib
