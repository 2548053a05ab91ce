import Mathlib.Data.List.Basic

/-!
# Unwinding: what one observer sees of a machine

A machine answers every input with a list of outputs, or stops at an input it
cannot handle (`run`). An observer calls some of the inputs its own (`mine`),
knows them up to `norm`, and sees of an output its `view`, or nothing.

`Unwinds` collects the conditions on single steps under which no other input
matters: one that is not the observer's own shows it nothing and leaves the
state as it was in the observer's eyes (`skip`), and own inputs that look the
same do the same to states that look the same (`both`). From these,
`Unwinds.noninterference` compares two whole runs that have the observer's
inputs in common, whatever else was interleaved with them.

A stop is the one way in which another's input can be felt, since the machine
then answers nobody any more. It cannot change what was shown before, so the
observer is left with a prefix (`Unwinds.purge`).
-/

namespace LowLatency.Lib

variable {S I J O V E : Type}

/-- All outputs, and the input the run stopped at, if it did. -/
def run (step : S → I → Except E (S × List O)) (s : S) : List I → List O × Option (I × E)
  | [] => ([], none)
  | i :: is =>
    match step s i with
    | .error e => ([], some (i, e))
    | .ok (s', os) => (os ++ (run step s' is).1, (run step s' is).2)

variable {step : S → I → Except E (S × List O)}

theorem run_error {s : S} {i : I} {e : E} (h : step s i = .error e) (is : List I) :
    run step s (i :: is) = ([], some (i, e)) := by
  simp only [run, h]

theorem run_ok {s s' : S} {i : I} {os : List O} (h : step s i = .ok (s', os)) (is : List I) :
    run step s (i :: is) = (os ++ (run step s' is).1, (run step s' is).2) := by
  simp only [run, h]

/-- Two outcomes of a step between which the observer cannot tell. -/
inductive Alike (rel : S → S → Prop) (view : O → Option V) :
    Except E (S × List O) → Except E (S × List O) → Prop
  | stop (e : E) : Alike rel view (.error e) (.error e)
  | go {s₁ s₂ : S} {os₁ os₂ : List O} (hrel : rel s₁ s₂)
      (hview : os₁.filterMap view = os₂.filterMap view) :
      Alike rel view (.ok (s₁, os₁)) (.ok (s₂, os₂))

/-- The conditions on single steps. `rel` says which states look the same. -/
structure Unwinds (step : S → I → Except E (S × List O)) (Inv : S → Prop) (rel : S → S → Prop)
    (mine : I → Bool) (norm : I → J) (view : O → Option V) : Prop where
  inv : ∀ {s i s' os}, Inv s → step s i = .ok (s', os) → Inv s'
  skip : ∀ {s s' s₂ i os}, Inv s → rel s s₂ → mine i = false → step s i = .ok (s', os) →
    rel s' s₂ ∧ os.filterMap view = []
  both : ∀ {s₁ s₂ i₁ i₂}, rel s₁ s₂ → mine i₁ = true → mine i₂ = true → norm i₁ = norm i₂ →
    Alike rel view (step s₁ i₁) (step s₂ i₂)

namespace Unwinds

variable {Inv : S → Prop} {rel : S → S → Prop} {mine : I → Bool} {norm : I → J}
  {view : O → Option V}

/-- The run was not ended by somebody else's input. -/
def NotCut (mine : I → Bool) (r : List O × Option (I × E)) : Prop :=
  ∀ i e, r.2 = some (i, e) → mine i = true

/-- **A run shows a prefix of what the own inputs alone would show**, and all of
it unless somebody else's input ended it. -/
theorem purge (hu : Unwinds step Inv rel mine norm view) (is : List I) :
    ∀ {s s₂ : S}, Inv s → rel s s₂ →
      (run step s is).1.filterMap view <+:
          (run step s₂ (is.filter mine)).1.filterMap view ∧
        (NotCut mine (run step s is) →
          (run step s is).1.filterMap view =
            (run step s₂ (is.filter mine)).1.filterMap view) := by
  induction is with
  | nil =>
    intro s s₂ _ _
    exact ⟨List.prefix_rfl, fun _ => rfl⟩
  | cons i is ih =>
    intro s s₂ hinv hrel
    cases hmine : mine i with
    | false =>
      rw [List.filter_cons_of_neg (by simp [hmine])]
      cases hs : step s i with
      | error e =>
        -- somebody else's input ends the run: nothing more is shown
        rw [run_error hs]
        refine ⟨List.nil_prefix, fun hcut => ?_⟩
        have := hcut i e rfl
        rw [hmine] at this
        exact absurd this (by decide)
      | ok r =>
        obtain ⟨s', os⟩ := r
        obtain ⟨hrel', hos⟩ := hu.skip hinv hrel hmine hs
        rw [run_ok hs, List.filterMap_append, hos, List.nil_append]
        exact ih (hu.inv hinv hs) hrel'
    | true =>
      rw [List.filter_cons_of_pos hmine]
      have halike := hu.both hrel hmine hmine rfl
      cases hs : step s i with
      | error e =>
        rw [hs] at halike
        generalize hs₂ : step s₂ i = r₂ at halike
        cases halike with
        | stop =>
          rw [run_error hs, run_error hs₂]
          exact ⟨List.prefix_rfl, fun _ => rfl⟩
      | ok r =>
        rw [hs] at halike
        generalize hs₂ : step s₂ i = r₂ at halike
        cases halike with
        | go hrel' hview =>
          rw [run_ok hs, run_ok hs₂, List.filterMap_append, List.filterMap_append, hview]
          obtain ⟨hpre, heq⟩ := ih (hu.inv hinv hs) hrel'
          refine ⟨(List.prefix_append_right_inj _).mpr hpre, fun hcut => ?_⟩
          rw [heq hcut]

/-- Runs on own inputs that look the same show the same. -/
theorem run_own (hu : Unwinds step Inv rel mine norm view) :
    ∀ {is₁ is₂ : List I} {s₁ s₂ : S}, (∀ i ∈ is₁, mine i = true) → (∀ i ∈ is₂, mine i = true) →
      is₁.map norm = is₂.map norm → rel s₁ s₂ →
      (run step s₁ is₁).1.filterMap view = (run step s₂ is₂).1.filterMap view := by
  intro is₁
  induction is₁ with
  | nil =>
    intro is₂ s₁ s₂ _ _ heq _
    have hnil : is₂ = [] := by simpa using heq.symm
    rw [hnil]
    rfl
  | cons i₁ is₁ ih =>
    intro is₂ s₁ s₂ hm₁ hm₂ heq hrel
    obtain ⟨i₂, is₂', rfl, hi, his⟩ := List.map_eq_cons_iff.mp heq.symm
    have halike := hu.both hrel (hm₁ i₁ (List.mem_cons_self ..)) (hm₂ i₂ (List.mem_cons_self ..))
      hi.symm
    generalize hs₁ : step s₁ i₁ = r₁ at halike
    generalize hs₂ : step s₂ i₂ = r₂ at halike
    cases halike with
    | stop =>
      rw [run_error hs₁, run_error hs₂]
    | go hrel' hview =>
      rw [run_ok hs₁, run_ok hs₂, List.filterMap_append, List.filterMap_append, hview]
      rw [ih (fun i hi => hm₁ i (List.mem_cons_of_mem _ hi))
        (fun i hi => hm₂ i (List.mem_cons_of_mem _ hi)) his.symm hrel']

/-- **Noninterference.** Two runs with the same own inputs show the same, or,
where another's input ended one of them early, one shows a prefix of the
other. -/
theorem noninterference (hu : Unwinds step Inv rel mine norm view) {s₁ s₂ : S} {is₁ is₂ : List I}
    (hinv₁ : Inv s₁) (hinv₂ : Inv s₂) (hrel₁ : rel s₁ s₁) (hrel₂ : rel s₂ s₂) (hrel : rel s₁ s₂)
    (hown : (is₁.filter mine).map norm = (is₂.filter mine).map norm) :
    ((run step s₁ is₁).1.filterMap view <+: (run step s₂ is₂).1.filterMap view ∨
        (run step s₂ is₂).1.filterMap view <+: (run step s₁ is₁).1.filterMap view) ∧
      (NotCut mine (run step s₁ is₁) → NotCut mine (run step s₂ is₂) →
        (run step s₁ is₁).1.filterMap view = (run step s₂ is₂).1.filterMap view) := by
  obtain ⟨hpre₁, heq₁⟩ := hu.purge is₁ hinv₁ hrel₁
  obtain ⟨hpre₂, heq₂⟩ := hu.purge is₂ hinv₂ hrel₂
  have halone : (run step s₁ (is₁.filter mine)).1.filterMap view =
      (run step s₂ (is₂.filter mine)).1.filterMap view :=
    hu.run_own (fun i hi => (List.mem_filter.mp hi).2) (fun i hi => (List.mem_filter.mp hi).2)
      hown hrel
  rw [halone] at hpre₁ heq₁
  refine ⟨List.prefix_or_prefix_of_prefix hpre₁ hpre₂, fun hcut₁ hcut₂ => ?_⟩
  rw [heq₁ hcut₁, heq₂ hcut₂]

end Unwinds

end LowLatency.Lib
