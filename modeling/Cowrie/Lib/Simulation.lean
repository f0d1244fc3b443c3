import Cowrie.Lib.Run

/-!
# Simulations between systems

`Simulates step step' as_ R` says that a step of the first system is no step of the second one, or the one that
`as_` names, and that it keeps the relation `R`. The steps need only do so where they meet `P` and the state
before them satisfies `Inv`.

* `project`: the events of the second system that the events of a run stand for.
* **`Simulates.run`**: a run of the first system is one of the second, up to `R`.
* **`Simulates.stepsMeet`**: a condition that every step passes on holds throughout the run of the second system.
-/

namespace Cowrie.Lib

variable {σ ε τ ε' : Type*} {step : σ → ε → Option σ} {step' : τ → ε' → Option τ}
  {as_ : σ → ε → Option ε'} {R : σ → τ → Prop} {Inv : σ → Prop} {P : σ → ε → Prop}

/-- The events of the other system that the events of a run stand for. -/
def project (step : σ → ε → Option σ) (as_ : σ → ε → Option ε') : σ → List ε → List ε'
  | _, [] => []
  | s, e :: es => (as_ s e).toList ++ ((step s e).map fun t => project step as_ t es).getD []

theorem project_eq_filterMap {f : ε → Option ε'} {s t : σ} {es : List ε} (hrun : run step s es = some t) :
    project step (fun _ => f) s es = es.filterMap f := by
  induction es generalizing s with
  | nil => rfl
  | cons e es ih =>
    obtain ⟨u, hu, hrest⟩ := run_cons.mp hrun
    rw [project, hu, Option.map_some, Option.getD_some, ih hrest, List.filterMap_cons]
    cases f e <;> rfl

/-- A step is none of the other system, or the one that it stands for. -/
def Follows (step' : τ → ε' → Option τ) (R : σ → τ → Prop) (t : σ) (a : τ) : Option ε' → Prop
  | none => R t a
  | some e => ∃ b, step' a e = some b ∧ R t b

/-- Related states stay related under the steps that meet `P`, and `Inv` is kept. -/
structure Simulates (step : σ → ε → Option σ) (step' : τ → ε' → Option τ) (as_ : σ → ε → Option ε')
    (R : σ → τ → Prop) (Inv : σ → Prop) (P : σ → ε → Prop) : Prop where
  kept : ∀ s e t, Inv s → P s e → step s e = some t → Inv t
  follows : ∀ s a e t, R s a → Inv s → P s e → step s e = some t → Follows step' R t a (as_ s e)

namespace Simulates

variable (h : Simulates step step' as_ R Inv P)
include h

/-- **A run of the one system is a run of the other.** -/
theorem run {s t : σ} {a : τ} {es : List ε} (hR : R s a) (hinv : Inv s) (hmeet : StepsMeet step P s es)
    (hrun : Lib.run step s es = some t) :
    ∃ b, Lib.run step' a (project step as_ s es) = some b ∧ R t b := by
  induction es generalizing s a with
  | nil =>
    obtain rfl : s = t := by simpa using hrun
    exact ⟨a, rfl, hR⟩
  | cons e es ih =>
    obtain ⟨u, hu, hrest⟩ := run_cons.mp hrun
    have hfollows := h.follows s a e u hR hinv hmeet.1 hu
    have hkept := h.kept s e u hinv hmeet.1 hu
    have hlater := hmeet.2 u hu
    simp only [project, hu, Option.map_some, Option.getD_some]
    cases hevent : as_ s e with
    | none =>
      rw [hevent] at hfollows
      exact ih hfollows hkept hlater hrest
    | some e' =>
      rw [hevent] at hfollows
      obtain ⟨b, hb, hRb⟩ := hfollows
      obtain ⟨c, hc, hRc⟩ := ih hRb hkept hlater hrest
      exact ⟨c, run_cons.mpr ⟨b, hb, hc⟩, hRc⟩

/-- **Steps with a property** that is passed on are steps of the other system with a property. -/
theorem stepsMeet {Q : τ → ε' → Prop}
    (hpass : ∀ s a e e', R s a → Inv s → P s e → as_ s e = some e' → Q a e')
    {s t : σ} {a : τ} {es : List ε} (hR : R s a) (hinv : Inv s) (hmeet : StepsMeet step P s es)
    (hrun : Lib.run step s es = some t) : StepsMeet step' Q a (project step as_ s es) := by
  induction es generalizing s a with
  | nil => trivial
  | cons e es ih =>
    obtain ⟨u, hu, hrest⟩ := run_cons.mp hrun
    have hfollows := h.follows s a e u hR hinv hmeet.1 hu
    have hkept := h.kept s e u hinv hmeet.1 hu
    have hlater := hmeet.2 u hu
    simp only [project, hu, Option.map_some, Option.getD_some]
    cases hevent : as_ s e with
    | none =>
      rw [hevent] at hfollows
      exact ih hfollows hkept hlater hrest
    | some e' =>
      rw [hevent] at hfollows
      obtain ⟨b, hb, hRb⟩ := hfollows
      refine ⟨hpass s a e e' hR hinv hmeet.1 hevent, fun b' hb' => ?_⟩
      obtain rfl : b = b' := Option.some.inj (hb.symm.trans hb')
      exact ih hRb hkept hlater hrest

end Simulates

end Cowrie.Lib
