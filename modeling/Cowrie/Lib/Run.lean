import Mathlib.Data.List.Basic

/-!
# Runs of a partial step function

A system is a state type, an event type and `step : σ → ε → Option σ`; `none` means that the
event is refused in that state. `run` folds a list of events, `StepsMeet P` says that every step
of the run satisfies `P` in the state before it, and `StatesMeet Q` that every state the run
goes through satisfies `Q`.

* `run_append`, `stepsMeet_append`: a run splits wherever its event list does.
* **`run_inv`**: what holds initially and is kept by every step that meets `P` holds in every
  state reached by steps that meet `P`.
* **`stepsMeet_of_inv`**, `stepsMeet_iff_of_inv`: a property of single steps that the invariant
  gives (is equivalent to `P` under the invariant) holds throughout a run (iff the run meets `P`).
* **`statesMeet_iff_of_inv`**: the same for a property of states.
-/

namespace Cowrie.Lib

variable {σ ε : Type*} {step : σ → ε → Option σ}

/-- Fold the events; `none` as soon as one is refused. -/
def run (step : σ → ε → Option σ) : σ → List ε → Option σ
  | s, [] => some s
  | s, e :: es => (step s e).bind fun t => run step t es

/-- Every step of the run satisfies `P`, read in the state before the step. -/
def StepsMeet (step : σ → ε → Option σ) (P : σ → ε → Prop) : σ → List ε → Prop
  | _, [] => True
  | s, e :: es => P s e ∧ ∀ t, step s e = some t → StepsMeet step P t es

/-- Decidable conditions on single steps can be checked along a run. -/
instance StepsMeet.decidable (step : σ → ε → Option σ) (P : σ → ε → Prop)
    [∀ s e, Decidable (P s e)] : ∀ (s : σ) (es : List ε), Decidable (StepsMeet step P s es)
  | _, [] => isTrue trivial
  | s, e :: es =>
    match h : step s e with
    | none => decidable_of_iff (P s e) (by simp [StepsMeet, h])
    | some t =>
      have := StepsMeet.decidable step P t es
      decidable_of_iff (P s e ∧ StepsMeet step P t es) (by simp [StepsMeet, h])

/-- A condition on the value of an option, if it has one. -/
def optionDecidable {α : Type*} {p : α → Prop} [∀ a, Decidable (p a)] :
    ∀ o : Option α, Decidable (∀ a, o = some a → p a)
  | none => isTrue (by simp)
  | some a => decidable_of_iff (p a) (by simp)

@[simp] theorem run_nil (s : σ) : run step s [] = some s := rfl

theorem run_cons {s t : σ} {e : ε} {es : List ε} :
    run step s (e :: es) = some t ↔ ∃ u, step s e = some u ∧ run step u es = some t := by
  simp only [run, Option.bind_eq_some_iff]

theorem run_append {s t : σ} {as bs : List ε} :
    run step s (as ++ bs) = some t ↔ ∃ u, run step s as = some u ∧ run step u bs = some t := by
  induction as generalizing s with
  | nil => simp
  | cons a as ih =>
    simp only [List.cons_append, run_cons, ih]
    constructor
    · rintro ⟨u, hu, v, hv, ht⟩
      exact ⟨v, ⟨u, hu, hv⟩, ht⟩
    · rintro ⟨v, ⟨u, hu, hv⟩, ht⟩
      exact ⟨u, hu, v, hv, ht⟩

theorem stepsMeet_append {P : σ → ε → Prop} {s t : σ} {as bs : List ε}
    (hrun : run step s as = some t) :
    StepsMeet step P s (as ++ bs) ↔ StepsMeet step P s as ∧ StepsMeet step P t bs := by
  induction as generalizing s with
  | nil =>
    obtain rfl : s = t := by simpa using hrun
    simp [StepsMeet]
  | cons a as ih =>
    obtain ⟨u, hu, hrest⟩ := run_cons.mp hrun
    simp only [List.cons_append, StepsMeet, hu, Option.some.injEq, forall_eq', ih hrest, and_assoc]

/-- `StepsMeet`, split at an arbitrary step of the run. -/
theorem stepsMeet_iff {P : σ → ε → Prop} {s : σ} {es : List ε} :
    StepsMeet step P s es ↔
      ∀ as e bs t, es = as ++ e :: bs → run step s as = some t → P t e := by
  constructor
  · rintro h as e bs t rfl hrun
    exact ((stepsMeet_append hrun).mp h).2.1
  · intro h
    induction es generalizing s with
    | nil => trivial
    | cons e es ih =>
      refine ⟨h [] e es s rfl rfl, fun t ht => ih fun as e' bs u hes hrun => ?_⟩
      refine h (e :: as) e' bs u (by rw [hes]; rfl) ?_
      exact run_cons.mpr ⟨t, ht, hrun⟩

theorem stepsMeet_and {P Q : σ → ε → Prop} {s : σ} {es : List ε} :
    StepsMeet step (fun s e => P s e ∧ Q s e) s es ↔
      StepsMeet step P s es ∧ StepsMeet step Q s es := by
  induction es generalizing s with
  | nil => simp [StepsMeet]
  | cons e es ih =>
    simp only [StepsMeet, ih]
    constructor
    · rintro ⟨⟨hp, hq⟩, h⟩
      exact ⟨⟨hp, fun t ht => (h t ht).1⟩, hq, fun t ht => (h t ht).2⟩
    · rintro ⟨⟨hp, h⟩, hq, h'⟩
      exact ⟨⟨hp, hq⟩, fun t ht => ⟨h t ht, h' t ht⟩⟩

/-- **The run rule.** What every step meeting `P` keeps holds after every run meeting `P`. -/
theorem run_inv {Inv : σ → Prop} {P : σ → ε → Prop}
    (hstep : ∀ s e t, Inv s → P s e → step s e = some t → Inv t) {s t : σ} {es : List ε}
    (h0 : Inv s) (hmeet : StepsMeet step P s es) (hrun : run step s es = some t) : Inv t := by
  induction es generalizing s with
  | nil =>
    obtain rfl : s = t := by simpa using hrun
    exact h0
  | cons e es ih =>
    obtain ⟨u, hu, hrest⟩ := run_cons.mp hrun
    exact ih (hstep s e u h0 hmeet.1 hu) (hmeet.2 u hu) hrest

/-- Every step meets `True`. -/
theorem stepsMeet_true (s : σ) (es : List ε) : StepsMeet step (fun _ _ => True) s es := by
  induction es generalizing s with
  | nil => trivial
  | cons e es ih => exact ⟨trivial, fun t _ => ih t⟩

/-- Steps that meet `P` meet what `P` implies. -/
theorem stepsMeet_mono {P Q : σ → ε → Prop} (hQ : ∀ s e, P s e → Q s e) {s : σ} {es : List ε}
    (hmeet : StepsMeet step P s es) : StepsMeet step Q s es := by
  induction es generalizing s with
  | nil => trivial
  | cons e es ih => exact ⟨hQ s e hmeet.1, fun t ht => ih (hmeet.2 t ht)⟩

/-- The run rule without a side condition on the steps. -/
theorem run_inv' {Inv : σ → Prop} (hstep : ∀ s e t, Inv s → step s e = some t → Inv t)
    {s t : σ} {es : List ε} (h0 : Inv s) (hrun : run step s es = some t) : Inv t :=
  run_inv (P := fun _ _ => True) (fun s e t h _ ht => hstep s e t h ht) h0
    (stepsMeet_true s es) hrun

/-- A counter of the events with `p`. -/
theorem run_count {f : σ → Nat} {p : ε → Bool}
    (hstep : ∀ s e t, step s e = some t → f t = f s + if p e then 1 else 0)
    {s t : σ} {es : List ε} (hrun : run step s es = some t) : f t = f s + es.countP p := by
  induction es generalizing s with
  | nil =>
    obtain rfl : s = t := by simpa using hrun
    rfl
  | cons e es ih =>
    obtain ⟨u, hu, hrest⟩ := run_cons.mp hrun
    rw [ih hrest, hstep s e u hu, List.countP_cons, Nat.add_assoc, Nat.add_comm (es.countP p)]

/-- **Steps with a property, throughout a run**: under an invariant that steps meeting `P` keep
and in which `P` implies `Q`, a run meeting `P` meets `Q`. -/
theorem stepsMeet_of_inv {Inv : σ → Prop} {P Q : σ → ε → Prop}
    (hstep : ∀ s e t, Inv s → P s e → step s e = some t → Inv t)
    (hQ : ∀ s e, Inv s → P s e → Q s e) {s : σ} {es : List ε}
    (h0 : Inv s) (hmeet : StepsMeet step P s es) : StepsMeet step Q s es := by
  induction es generalizing s with
  | nil => trivial
  | cons e es ih =>
    exact ⟨hQ s e h0 hmeet.1, fun t ht => ih (hstep s e t h0 hmeet.1 ht) (hmeet.2 t ht)⟩

/-- **Exactness, throughout a run**: where `P` and `Q` are equivalent under the invariant, a run
meets the one iff it meets the other. -/
theorem stepsMeet_iff_of_inv {Inv : σ → Prop} {P Q : σ → ε → Prop}
    (hstep : ∀ s e t, Inv s → P s e → step s e = some t → Inv t)
    (hPQ : ∀ s e, Inv s → (P s e ↔ Q s e)) {s : σ} {es : List ε} (h0 : Inv s) :
    StepsMeet step P s es ↔ StepsMeet step Q s es := by
  constructor
  · exact stepsMeet_of_inv hstep (fun s e h => (hPQ s e h).mp) h0
  · exact stepsMeet_of_inv (fun s e t h hq => hstep s e t h ((hPQ s e h).mpr hq))
      (fun s e h => (hPQ s e h).mpr) h0

/-! ## The states of a run -/

/-- Every state of the run, the first one included, satisfies `Q`. -/
def StatesMeet (step : σ → ε → Option σ) (Q : σ → Prop) : σ → List ε → Prop
  | s, [] => Q s
  | s, e :: es => Q s ∧ ∀ t, step s e = some t → StatesMeet step Q t es

instance StatesMeet.decidable (step : σ → ε → Option σ) (Q : σ → Prop) [DecidablePred Q] :
    ∀ (s : σ) (es : List ε), Decidable (StatesMeet step Q s es)
  | s, [] => inferInstanceAs (Decidable (Q s))
  | s, e :: es =>
    match h : step s e with
    | none => decidable_of_iff (Q s) (by simp [StatesMeet, h])
    | some t =>
      have := StatesMeet.decidable step Q t es
      decidable_of_iff (Q s ∧ StatesMeet step Q t es) (by simp [StatesMeet, h])

theorem StatesMeet.head {Q : σ → Prop} {s : σ} {es : List ε} (h : StatesMeet step Q s es) : Q s := by
  cases es with
  | nil => exact h
  | cons e es => exact h.1

theorem statesMeet_mono {Q R : σ → Prop} (hR : ∀ s, Q s → R s) {s : σ} {es : List ε}
    (h : StatesMeet step Q s es) : StatesMeet step R s es := by
  induction es generalizing s with
  | nil => exact hR s h
  | cons e es ih => exact ⟨hR s h.1, fun t ht => ih (h.2 t ht)⟩

/-- `StatesMeet`, at an arbitrary state of the run. -/
theorem statesMeet_iff {Q : σ → Prop} {s : σ} {es : List ε} :
    StatesMeet step Q s es ↔ ∀ as bs t, es = as ++ bs → run step s as = some t → Q t := by
  induction es generalizing s with
  | nil =>
    constructor
    · intro h as bs t hes hrun
      obtain ⟨rfl, -⟩ := List.append_eq_nil_iff.mp hes.symm
      obtain rfl : s = t := by simpa using hrun
      exact h
    · intro h
      exact h [] [] s rfl rfl
  | cons e es ih =>
    constructor
    · intro h as bs t hes hrun
      cases as with
      | nil =>
        obtain rfl : s = t := by simpa using hrun
        exact h.1
      | cons a as =>
        obtain ⟨rfl, hrest⟩ := List.cons.inj hes
        obtain ⟨u, hu, hrun⟩ := run_cons.mp hrun
        exact ih.mp (h.2 u hu) as bs t hrest hrun
    · intro h
      refine ⟨h [] _ s rfl rfl, fun t ht => ih.mpr fun as bs u hes hrun => ?_⟩
      exact h (e :: as) bs u (by rw [hes]; rfl) (run_cons.mpr ⟨t, ht, hrun⟩)

/-- An invariant that steps meeting `P` keep holds in every state of a run meeting `P`. -/
theorem statesMeet_of_inv {Inv : σ → Prop} {P : σ → ε → Prop}
    (hstep : ∀ s e t, Inv s → P s e → step s e = some t → Inv t) {s : σ} {es : List ε}
    (h0 : Inv s) (hmeet : StepsMeet step P s es) : StatesMeet step Inv s es := by
  induction es generalizing s with
  | nil => exact h0
  | cons e es ih => exact ⟨h0, fun t ht => ih (hstep s e t h0 hmeet.1 ht) (hmeet.2 t ht)⟩

/-- **Exactness for states, under an assumption on the steps**: if the steps meeting `A` and `P` keep
the invariant, the invariant gives `Q`, and a step meeting `A` that leads to a state with `Q` met
`P`, then in a run that meets `A` every state satisfies `Q` iff every step meets `P`. -/
theorem statesMeet_iff_of_assumed {Inv Q : σ → Prop} {A P : σ → ε → Prop}
    (hstep : ∀ s e t, Inv s → A s e → P s e → step s e = some t → Inv t) (hQ : ∀ s, Inv s → Q s)
    (hP : ∀ s e t, Inv s → A s e → step s e = some t → Q t → P s e) {s u : σ} {es : List ε}
    (h0 : Inv s) (hassumed : StepsMeet step A s es) (hrun : run step s es = some u) :
    StatesMeet step Q s es ↔ StepsMeet step P s es := by
  induction es generalizing s with
  | nil => exact iff_of_true (hQ s h0) trivial
  | cons e es ih =>
    obtain ⟨t, ht, hrest⟩ := run_cons.mp hrun
    obtain ⟨ha, has⟩ := hassumed
    have hone : ∀ v, step s e = some v → v = t := fun v hv => Option.some.inj (hv.symm.trans ht)
    constructor
    · intro h
      have hp := hP s e t h0 ha ht (h.2 t ht).head
      refine ⟨hp, fun v hv => ?_⟩
      obtain rfl := hone v hv
      exact (ih (hstep s e v h0 ha hp hv) (has v hv) hrest).mp (h.2 v hv)
    · intro h
      refine ⟨hQ s h0, fun v hv => ?_⟩
      obtain rfl := hone v hv
      exact (ih (hstep s e v h0 ha h.1 hv) (has v hv) hrest).mpr (h.2 v hv)

/-- **Exactness for states**, with no assumption. -/
theorem statesMeet_iff_of_inv {Inv Q : σ → Prop} {P : σ → ε → Prop}
    (hstep : ∀ s e t, Inv s → P s e → step s e = some t → Inv t) (hQ : ∀ s, Inv s → Q s)
    (hP : ∀ s e t, Inv s → step s e = some t → Q t → P s e) {s u : σ} {es : List ε}
    (h0 : Inv s) (hrun : run step s es = some u) :
    StatesMeet step Q s es ↔ StepsMeet step P s es :=
  statesMeet_iff_of_assumed (A := fun _ _ => True) (fun s e t h _ hp ht => hstep s e t h hp ht) hQ
    (fun s e t h _ ht hq => hP s e t h ht hq) h0 (stepsMeet_true s es) hrun

end Cowrie.Lib
