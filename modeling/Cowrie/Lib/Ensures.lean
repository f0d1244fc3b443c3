import Cowrie.Lib.Program

/-!
# What a computation ensures

`Ensures E m Q s`: from the state `s`, `m` either returns some `a` in a state that satisfies `Q a`, or
raises in a state that satisfies `E`.

* `ensures_bind` composes; `Ensures.final` reads off the final state of a run.
* `query q` asks the state, and may raise; `forEach body xs` runs a loop that `body` may leave.
* **`ensures_forEach`**: a loop keeps an invariant that its body keeps in every turn that meets a
  condition, if every turn does (`LoopMeets`). The condition is read in the state in which the turn
  begins.
* `zoom get put m` runs `m` on a part of the state.
* `Returns A m Q s`: from `s`, `m` returns if and only if `A`, and then into `Q`. The rules for
  sequences, questions and branches collect `A`; **`Returns.iff`** reads it off.
* `Spares e m`: `m` never raises `e`.
-/

namespace Cowrie.Lib

variable {ε σ τ α β : Type}

/-- `m` returns into `Q` or raises into `E`. -/
def Ensures (E : σ → Prop) (m : Prog ε σ α) (Q : α → σ → Prop) (s : σ) : Prop :=
  match exec m s with
  | (.ok a, t) => Q a t
  | (.error _, t) => E t

/-- Ask the state. -/
def query (q : σ → Except ε α) : Prog ε σ α := do
  match q (← get) with
  | .ok a => pure a
  | .error e => throw e

/-- `for x in xs: body(x)`; the loop is left as soon as `body` returns `false`. -/
def forEach (body : β → Prog ε σ Bool) : List β → Prog ε σ PUnit
  | [] => pure ⟨⟩
  | x :: xs => do
    let again ← body x
    if again then forEach body xs else pure ⟨⟩

/-- Every turn of the loop satisfies `C` when it begins. -/
def LoopMeets (body : β → Prog ε σ Bool) (C : β → σ → Prop) : List β → σ → Prop
  | [], _ => True
  | x :: xs, s => C x s ∧ ∀ t, exec (body x) s = (.ok true, t) → LoopMeets body C xs t

/-- `m`, on a part of the state. -/
def zoom (part : τ → σ) (put : τ → σ → τ) (m : Prog ε σ α) : Prog ε τ α := do
  let s ← get
  match exec m (part s) with
  | (r, u) => do
    modify (fun s => put s u)
    query fun _ => r

variable {E : σ → Prop} {s : σ}

theorem exec_query (q : σ → Except ε α) (s : σ) : exec (query q) s = (q s, s) := by
  unfold query
  rw [exec_get_bind]
  cases q s <;> rfl

theorem exec_zoom (part : τ → σ) (put : τ → σ → τ) (m : Prog ε σ α) (s : τ) :
    exec (zoom part put m) s = ((exec m (part s)).1, put s (exec m (part s)).2) := by
  unfold zoom
  rw [exec_get_bind, exec_modify_bind, exec_query]

theorem ensures_pure {a : α} {Q : α → σ → Prop} (h : Q a s) : Ensures E (pure a : Prog ε σ α) Q s := h

theorem ensures_throw {e : ε} {Q : α → σ → Prop} (h : E s) :
    Ensures E (throw e : Prog ε σ α) Q s := h

theorem ensures_get {Q : σ → σ → Prop} (h : Q s s) : Ensures E (get : Prog ε σ σ) Q s := h

theorem ensures_modify {f : σ → σ} {Q : PUnit → σ → Prop} (h : Q ⟨⟩ (f s)) :
    Ensures E (modify f : Prog ε σ PUnit) Q s := h

theorem ensures_query {q : σ → Except ε α} {Q : α → σ → Prop} (hE : E s)
    (h : ∀ a, q s = .ok a → Q a s) : Ensures E (query q) Q s := by
  unfold Ensures
  rw [exec_query]
  cases hq : q s with
  | ok a => exact h a hq
  | error e => exact hE

/-- A question whose answer is known. -/
theorem ensures_query_of {q : σ → Except ε α} {Q : α → σ → Prop} {a : α} (hq : q s = .ok a)
    (h : Q a s) : Ensures E (query q) Q s := by
  unfold Ensures
  rw [exec_query, hq]
  exact h

theorem ensures_bind {m : Prog ε σ α} {k : α → Prog ε σ β} {Q : β → σ → Prop} :
    Ensures E (m >>= k) Q s ↔ Ensures E m (fun a t => Ensures E (k a) Q t) s := by
  unfold Ensures
  rw [exec_bind]
  cases exec m s with
  | mk r t => cases r <;> rfl

theorem ensures_ite {c : Prop} [Decidable c] {m m' : Prog ε σ α} {Q : α → σ → Prop}
    (hc : c → Ensures E m Q s) (hn : ¬ c → Ensures E m' Q s) :
    Ensures E (if c then m else m') Q s := by
  by_cases h : c
  · rw [if_pos h]
    exact hc h
  · rw [if_neg h]
    exact hn h

theorem ensures_when {c : Prop} [Decidable c] {m : Prog ε σ Unit} {Q : Unit → σ → Prop}
    (hc : c → Ensures E m Q s) (hn : ¬ c → Q () s) : Ensures E (when c m) Q s :=
  ensures_ite hc hn

/-- The state that a run leaves. -/
theorem Ensures.final {m : Prog ε σ α} (h : Ensures E m (fun _ t => E t) s) : E (exec m s).2 := by
  unfold Ensures at h
  cases hexec : exec m s with
  | mk r t =>
    rw [hexec] at h
    cases r <;> exact h

instance Ensures.decidable {m : Prog ε σ α} {Q : α → σ → Prop} [∀ t, Decidable (E t)]
    [∀ a t, Decidable (Q a t)] : Decidable (Ensures E m Q s) :=
  match hexec : exec m s with
  | (.ok a, t) => decidable_of_iff (Q a t) (by
      unfold Ensures
      rw [hexec])
  | (.error _, t) => decidable_of_iff (E t) (by
      unfold Ensures
      rw [hexec])

/-- What is ensured of a run that returned. -/
theorem Ensures.ok {m : Prog ε σ α} {Q : α → σ → Prop} (h : Ensures E m Q s) {a : α} {t : σ}
    (hexec : exec m s = (.ok a, t)) : Q a t := by
  unfold Ensures at h
  rwa [hexec] at h

theorem Ensures.mono {E' : σ → Prop} {m : Prog ε σ α} {Q Q' : α → σ → Prop}
    (h : Ensures E m Q s) (hE : ∀ t, E t → E' t)
    (hQ : ∀ a t, exec m s = (.ok a, t) → Q a t → Q' a t) : Ensures E' m Q' s := by
  unfold Ensures at h ⊢
  cases hexec : exec m s with
  | mk r t =>
    rw [hexec] at h
    cases r with
    | ok a => exact hQ a t hexec h
    | error e => exact hE t h

/-- **Loops.** -/
theorem ensures_forEach {body : β → Prog ε σ Bool} {C : β → σ → Prop}
    (hbody : ∀ x s, E s → C x s → Ensures E (body x) (fun _ t => E t) s) {xs : List β} {s : σ}
    (h : E s) (hmeet : LoopMeets body C xs s) : Ensures E (forEach body xs) (fun _ t => E t) s := by
  induction xs generalizing s with
  | nil => exact h
  | cons x xs ih =>
    unfold forEach
    rw [ensures_bind]
    refine (hbody x s h hmeet.1).mono (fun _ ht => ht) fun again t hexec ht => ?_
    cases again with
    | false => exact ht
    | true => exact ih ht (hmeet.2 t hexec)

theorem ensures_tryCatch {E' : σ → Prop} {m : Prog ε σ α} {handle : ε → Prog ε σ α}
    {Q : α → σ → Prop} (h : Ensures E m Q s) (hh : ∀ e t, E t → Ensures E' (handle e) Q t) :
    Ensures E' (tryCatch m handle) Q s := by
  unfold Ensures at h ⊢
  rw [exec_tryCatch]
  cases hexec : exec m s with
  | mk r t =>
    rw [hexec] at h
    cases r with
    | ok a => exact h
    | error e => exact hh e t h

theorem loopMeets_true {body : β → Prog ε σ Bool} (xs : List β) (s : σ) :
    LoopMeets body (fun _ _ => True) xs s := by
  induction xs generalizing s with
  | nil => trivial
  | cons x xs ih => exact ⟨trivial, fun t _ => ih t⟩

theorem ensures_zoom {part : τ → σ} {put : τ → σ → τ} {m : Prog ε σ α} {E : τ → Prop}
    {Q : α → τ → Prop} {s : τ}
    (h : Ensures (fun u => E (put s u)) m (fun a u => Q a (put s u)) (part s)) :
    Ensures E (zoom part put m) Q s := by
  unfold Ensures at h ⊢
  rw [exec_zoom]
  cases hexec : exec m (part s) with
  | mk r u =>
    rw [hexec] at h
    cases r <;> exact h

/-! ## Exactly when a computation returns -/

/-- `m` returns iff `A`, and then into `Q`. -/
def Returns (A : Prop) (m : Prog ε σ α) (Q : α → σ → Prop) (s : σ) : Prop :=
  Ensures (fun _ => ¬ A) m (fun a t => A ∧ Q a t) s

variable {A B : Prop}

theorem Returns.iff {m : Prog ε σ α} {Q : α → σ → Prop} (h : Returns A m Q s) :
    (∃ a t, exec m s = (.ok a, t)) ↔ A := by
  constructor
  · rintro ⟨a, t, hexec⟩
    exact (h.ok hexec).1
  · intro hA
    unfold Returns Ensures at h
    cases hexec : exec m s with
    | mk r t =>
      rw [hexec] at h
      cases r with
      | ok a => exact ⟨a, t, rfl⟩
      | error e => exact absurd hA h

theorem Returns.post {m : Prog ε σ α} {Q : α → σ → Prop} (h : Returns A m Q s) {a : α} {t : σ}
    (hexec : exec m s = (.ok a, t)) : Q a t := (Ensures.ok h hexec).2

theorem Returns.congr {m : Prog ε σ α} {Q : α → σ → Prop} (h : Returns A m Q s) (hAB : A ↔ B) :
    Returns B m Q s := by
  rwa [propext hAB] at h

theorem Returns.weaken {m : Prog ε σ α} {Q Q' : α → σ → Prop} (h : Returns A m Q s)
    (hQ : ∀ a t, Q a t → Q' a t) : Returns A m Q' s :=
  Ensures.mono h (fun _ hn => hn) fun a t _ ht => ⟨ht.1, hQ a t ht.2⟩

theorem returns_pure {a : α} {Q : α → σ → Prop} (h : Q a s) :
    Returns True (pure a : Prog ε σ α) Q s := ⟨trivial, h⟩

theorem returns_modify {f : σ → σ} {Q : PUnit → σ → Prop} (h : Q ⟨⟩ (f s)) :
    Returns True (modify f : Prog ε σ PUnit) Q s := ⟨trivial, h⟩

/-- A first part that returns. -/
theorem returns_step {m : Prog ε σ α} {k : α → Prog ε σ β} {Q : β → σ → Prop} {a : α} {t : σ}
    (hm : exec m s = (.ok a, t)) (h : Returns A (k a) Q t) : Returns A (m >>= k) Q s := by
  unfold Returns Ensures at h ⊢
  rwa [exec_bind_ok hm]

/-- A first part that raises. -/
theorem returns_fail {m : Prog ε σ α} {k : α → Prog ε σ β} {Q : β → σ → Prop} {e : ε} {t : σ}
    (hm : exec m s = (.error e, t)) (h : ¬ A) : Returns A (m >>= k) Q s := by
  unfold Returns Ensures
  rw [exec_bind_error hm]
  exact h

theorem returns_bind {m : Prog ε σ α} {k : α → Prog ε σ β} {Q : β → σ → Prop}
    (h : Returns A m (fun a t => Returns B (k a) Q t) s) : Returns (A ∧ B) (m >>= k) Q s := by
  unfold Returns at h ⊢
  rw [ensures_bind]
  refine h.mono (fun _ hA hAB => hA hAB.1) fun a t _ ht => ?_
  exact Ensures.mono ht.2 (fun _ hB hAB => hB hAB.2) fun b u _ hu => ⟨⟨ht.1, hu.1⟩, hu.2⟩

/-- A first part that always returns. -/
theorem returns_then {m : Prog ε σ α} {k : α → Prog ε σ β} {Q : β → σ → Prop}
    (h : Returns True m (fun a t => Returns B (k a) Q t) s) : Returns B (m >>= k) Q s :=
  (returns_bind h).congr (by simp)

/-- A last part that always returns. -/
theorem returns_before {m : Prog ε σ α} {k : α → Prog ε σ β} {Q : β → σ → Prop}
    (h : Returns A m (fun a t => Returns True (k a) Q t) s) : Returns A (m >>= k) Q s :=
  (returns_bind h).congr (by simp)

theorem returns_query {q : σ → Except ε α} {Q : α → σ → Prop} (h : ∀ a, q s = .ok a → Q a s) :
    Returns (∃ a, q s = .ok a) (query q) Q s := by
  unfold Returns Ensures
  rw [exec_query]
  cases hq : q s with
  | ok a => exact ⟨⟨a, rfl⟩, h a hq⟩
  | error e => simp

theorem returns_ite {c : Prop} [Decidable c] {m m' : Prog ε σ α} {Q : α → σ → Prop}
    (hc : c → Returns A m Q s) (hn : ¬ c → Returns B m' Q s) :
    Returns (if c then A else B) (if c then m else m') Q s := by
  by_cases h : c
  · rw [if_pos h, if_pos h]
    exact hc h
  · rw [if_neg h, if_neg h]
    exact hn h

/-- The other branch always returns. -/
theorem returns_ite_true {c : Prop} [Decidable c] {m m' : Prog ε σ α} {Q : α → σ → Prop}
    (hc : c → Returns A m Q s) (hn : ¬ c → Returns True m' Q s) :
    Returns (c → A) (if c then m else m') Q s := by
  by_cases h : c
  · rw [if_pos h]
    exact (hc h).congr ⟨fun hA _ => hA, fun hA => hA h⟩
  · rw [if_neg h]
    exact (hn h).congr ⟨fun _ hc => absurd hc h, fun _ => trivial⟩

theorem returns_when {c : Prop} [Decidable c] {m : Prog ε σ Unit} {Q : Unit → σ → Prop}
    (hc : c → Returns A m Q s) (hn : ¬ c → Q () s) : Returns (c → A) (when c m) Q s :=
  returns_ite_true hc fun h => returns_pure (hn h)

/-- A branch that always returns. -/
theorem returns_when_true {c : Prop} [Decidable c] {m : Prog ε σ Unit} {Q : Unit → σ → Prop}
    (hc : c → Returns True m Q s) (hn : ¬ c → Q () s) : Returns True (when c m) Q s :=
  (returns_when hc hn).congr (by simp)

/-- A question that is answered under a condition, with nothing to be learnt. -/
theorem returns_assert {q : σ → Except ε Unit} {Q : Unit → σ → Prop} {c : Prop} [Decidable c] {e : ε}
    (hq : q s = if c then .ok () else .error e) (h : Q () s) : Returns c (query q) Q s := by
  unfold Returns Ensures
  rw [exec_query, hq]
  by_cases hc : c
  · rw [if_pos hc]
    exact ⟨hc, h⟩
  · rw [if_neg hc]
    exact hc

/-! ## Exceptions that a computation does not raise -/

/-- `m` never raises `e`. -/
def Spares (e : ε) (m : Prog ε σ α) : Prop := ∀ s, (exec m s).1 ≠ .error e

section Spares

variable {e : ε}

theorem spares_pure (a : α) : Spares e (pure a : Prog ε σ α) := fun s h => by cases h

theorem spares_throw {e' : ε} (h : e' ≠ e) : Spares e (throw e' : Prog ε σ α) := fun _ heq =>
  h (Except.error.inj heq)

theorem spares_get : Spares e (get : Prog ε σ σ) := fun s h => by cases h

theorem spares_modify (f : σ → σ) : Spares e (modify f : Prog ε σ PUnit) := fun s h => by cases h

theorem spares_query {q : σ → Except ε α} (h : ∀ s, q s ≠ .error e) : Spares e (query q) := fun s => by
  rw [exec_query]
  exact h s

theorem spares_bind {m : Prog ε σ α} {k : α → Prog ε σ β} (hm : Spares e m) (hk : ∀ a, Spares e (k a)) :
    Spares e (m >>= k) := fun s => by
  rw [exec_bind]
  cases hexec : exec m s with
  | mk r t =>
    have hm := hm s
    rw [hexec] at hm
    cases r with
    | ok a => exact hk a t
    | error e' => exact fun heq => hm (congrArg _ (Except.error.inj heq))

end Spares

end Cowrie.Lib
