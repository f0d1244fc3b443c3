import Mathlib.Logic.Basic

/-!
# Computations with state and exceptions

`Prog ε σ α` may raise an `ε` and keeps the state it has when it does; `exec m s` is its result and
its final state.

* `exec_bind` and the other `exec` lemmas run a computation step by step.
* `Ends obs m s r x`: the result is `r`, and the final state looks like `x` to an observer
  `obs : σ → ω`. `ends_bind` composes.
* `Along R m`: every run of `m` moves the state along the relation `R`, raising or not.
* `Agree obs Q m m' s t`: run side by side, `m` from `s` and `m'` from `t` end in states that the
  observer cannot tell apart, with results related by `Q`. With `m = m'` and `Q`
  equality this is noninterference: what the observer sees does not depend on the rest of the state.
* **`agree_bind`**: sequential composition; the observer of the whole may see less than the one
  of the first part.
-/

namespace Cowrie.Lib

variable {ε σ α β : Type} {ω ω' : Type*}

/-- A computation that may raise, and keeps its state when it does. -/
abbrev Prog (ε σ α : Type) := ExceptT ε (StateM σ) α

/-- The result and the final state. -/
def exec (m : Prog ε σ α) (s : σ) : Except ε α × σ := m.run.run s

/-- `if c: m`. -/
def when (c : Prop) [Decidable c] (m : Prog ε σ Unit) : Prog ε σ Unit := if c then m else pure ()

/-! ## Running a computation -/

@[simp] theorem exec_pure (a : α) (s : σ) : exec (pure a : Prog ε σ α) s = (.ok a, s) := rfl

@[simp] theorem exec_throw (e : ε) (s : σ) :
    exec (throw e : Prog ε σ α) s = (.error e, s) := rfl

@[simp] theorem exec_get (s : σ) : exec (get : Prog ε σ σ) s = (.ok s, s) := rfl

@[simp] theorem exec_modify (f : σ → σ) (s : σ) :
    exec (modify f : Prog ε σ PUnit) s = (.ok ⟨⟩, f s) := rfl

theorem exec_bind (m : Prog ε σ α) (k : α → Prog ε σ β) (s : σ) :
    exec (m >>= k) s =
      match exec m s with
      | (.ok a, u) => exec (k a) u
      | (.error e, u) => (.error e, u) := by
  unfold exec
  change (m.run >>= ExceptT.bindCont k).run s = _
  rw [StateT.run_bind]
  change (ExceptT.bindCont k (m.run.run s).1).run (m.run.run s).2 = _
  cases h : m.run.run s with
  | mk r u =>
    cases r with
    | ok a => rfl
    | error e => rfl

theorem exec_bind_ok {m : Prog ε σ α} {k : α → Prog ε σ β} {s u : σ} {a : α}
    (h : exec m s = (.ok a, u)) : exec (m >>= k) s = exec (k a) u := by
  rw [exec_bind, h]

theorem exec_bind_error {m : Prog ε σ α} {k : α → Prog ε σ β} {s u : σ} {e : ε}
    (h : exec m s = (.error e, u)) : exec (m >>= k) s = (.error e, u) := by
  rw [exec_bind, h]

theorem exec_bind_inv {m : Prog ε σ α} {k : α → Prog ε σ β} {s u : σ} {b : β}
    (h : exec (m >>= k) s = (.ok b, u)) :
    ∃ a v, exec m s = (.ok a, v) ∧ exec (k a) v = (.ok b, u) := by
  rw [exec_bind] at h
  cases hm : exec m s with
  | mk r v =>
    rw [hm] at h
    cases r with
    | ok a => exact ⟨a, v, rfl, h⟩
    | error e => cases h

@[simp] theorem exec_modify_bind (f : σ → σ) (k : PUnit → Prog ε σ β) (s : σ) :
    exec (modify f >>= k) s = exec (k ⟨⟩) (f s) := exec_bind_ok rfl

@[simp] theorem exec_get_bind (k : σ → Prog ε σ β) (s : σ) :
    exec (get >>= k) s = exec (k s) s := exec_bind_ok rfl

@[simp] theorem when_true {c : Prop} [Decidable c] (h : c) (m : Prog ε σ Unit) : when c m = m :=
  if_pos h

@[simp] theorem when_false {c : Prop} [Decidable c] (h : ¬ c) (m : Prog ε σ Unit) :
    when c m = pure () := if_neg h

theorem exec_tryCatch (m : Prog ε σ α) (h : ε → Prog ε σ α) (s : σ) :
    exec (tryCatch m h) s =
      match exec m s with
      | (.ok a, u) => (.ok a, u)
      | (.error e, u) => exec (h e) u := by
  unfold exec
  change ((m.run >>= fun r => match r with
    | .ok a => pure (.ok a)
    | .error e => (h e).run : StateM σ (Except ε α))).run s = _
  rw [StateT.run_bind]
  change (match (m.run.run s).1 with
    | .ok a => pure (.ok a)
    | .error e => (h e).run : StateM σ (Except ε α)).run (m.run.run s).2 = _
  cases m.run.run s with
  | mk r u =>
    cases r with
    | ok a => rfl
    | error e => rfl

theorem exec_tryCatch_ok {m : Prog ε σ α} {h : ε → Prog ε σ α} {s u : σ} {a : α}
    (hm : exec m s = (.ok a, u)) : exec (tryCatch m h) s = (.ok a, u) := by
  rw [exec_tryCatch, hm]

theorem exec_tryCatch_error {m : Prog ε σ α} {h : ε → Prog ε σ α} {s u : σ} {e : ε}
    (hm : exec m s = (.error e, u)) : exec (tryCatch m h) s = exec (h e) u := by
  rw [exec_tryCatch, hm]

/-! ## The end of a computation, to an observer -/

/-- `m` from `s` has the result `r` and ends in a state that looks like `x`. -/
def Ends (obs : σ → ω) (m : Prog ε σ α) (s : σ) (r : Except ε α) (x : ω) : Prop :=
  (exec m s).1 = r ∧ obs (exec m s).2 = x

variable {obs : σ → ω} {obs' : σ → ω'}

theorem Ends.exec {m : Prog ε σ α} {s : σ} {r : Except ε α} {x : ω} (h : Ends obs m s r x) :
    ∃ u, exec m s = (r, u) ∧ obs u = x := ⟨(Lib.exec m s).2, Prod.ext h.1 rfl, h.2⟩

theorem ends_modify {f : σ → σ} {s : σ} {x : ω} (h : obs (f s) = x) :
    Ends obs (modify f : Prog ε σ PUnit) s (.ok ⟨⟩) x := ⟨rfl, h⟩

theorem ends_modify_bind {f : σ → σ} {k : PUnit → Prog ε σ β} {s : σ} {r : Except ε β} {x : ω}
    (h : Ends obs (k ⟨⟩) (f s) r x) : Ends obs (modify f >>= k) s r x := by
  unfold Ends
  rw [exec_modify_bind]
  exact h

theorem ends_get {k : σ → Prog ε σ β} {s : σ} {r : Except ε β} {x : ω}
    (h : Ends obs (k s) s r x) : Ends obs (get >>= k) s r x := by
  unfold Ends
  rw [exec_get_bind]
  exact h

theorem ends_bind {m : Prog ε σ α} {k : α → Prog ε σ β} {s : σ} {a : α} {r : Except ε β} {x : ω}
    {y : ω'} (hm : Ends obs m s (.ok a) x)
    (hk : ∀ u, obs u = x → Ends obs' (k a) u r y) : Ends obs' (m >>= k) s r y := by
  obtain ⟨hres, hobs⟩ := hm
  unfold Ends
  cases h : exec m s with
  | mk r' u =>
    rw [h] at hres hobs
    obtain rfl : r' = .ok a := hres
    rw [exec_bind_ok h]
    exact hk u hobs

theorem ends_bind_ok {m : Prog ε σ α} {k : α → Prog ε σ β} {s u : σ} {a : α} {r : Except ε β}
    {x : ω} (hm : exec m s = (.ok a, u)) (hk : Ends obs (k a) u r x) :
    Ends obs (m >>= k) s r x := by
  unfold Ends
  rw [exec_bind_ok hm]
  exact hk

theorem ends_bind_error {m : Prog ε σ α} {k : α → Prog ε σ β} {s : σ} {e : ε} {x : ω}
    (hm : Ends obs m s (.error e) x) : Ends obs (m >>= k) s (.error e) x := by
  obtain ⟨hres, hobs⟩ := hm
  unfold Ends
  cases h : exec m s with
  | mk r' u =>
    rw [h] at hres hobs
    obtain rfl : r' = .error e := hres
    rw [exec_bind_error h]
    exact ⟨rfl, hobs⟩

theorem ends_when {c : Prop} [Decidable c] {m : Prog ε σ Unit} {s : σ} {x : ω}
    (hc : c → Ends obs m s (.ok ()) x) (hn : ¬ c → obs s = x) : Ends obs (when c m) s (.ok ()) x := by
  by_cases h : c
  · rw [when_true h]
    exact hc h
  · rw [when_false h]
    exact ⟨rfl, hn h⟩

/-! ## Every run of a computation -/

/-- Every run of `m` moves the state along `R`. -/
def Along (R : σ → σ → Prop) (m : Prog ε σ α) : Prop := ∀ s, R s (exec m s).2

variable {R : σ → σ → Prop}

theorem Along.mono {R' : σ → σ → Prop} {m : Prog ε σ α} (h : Along R m)
    (hR : ∀ s t, R s t → R' s t) : Along R' m := fun s => hR s _ (h s)

theorem along_pure (hrefl : ∀ s, R s s) (a : α) : Along R (pure a : Prog ε σ α) := hrefl

theorem along_throw (hrefl : ∀ s, R s s) (e : ε) : Along R (throw e : Prog ε σ α) := hrefl

theorem along_modify {f : σ → σ} (h : ∀ s, R s (f s)) :
    Along R (modify f : Prog ε σ PUnit) := h

theorem along_get {k : σ → Prog ε σ β} (h : ∀ a, Along R (k a)) : Along R (get >>= k) := fun s => by
  rw [exec_get_bind]
  exact h s s

theorem along_bind (htrans : ∀ s t u, R s t → R t u → R s u) {m : Prog ε σ α}
    {k : α → Prog ε σ β} (hm : Along R m) (hk : ∀ a, Along R (k a)) : Along R (m >>= k) := fun s => by
  have hs := hm s
  cases h : exec m s with
  | mk r u =>
    rw [h] at hs
    cases r with
    | ok a =>
      rw [exec_bind_ok h]
      exact htrans s u _ hs (hk a u)
    | error e =>
      rw [exec_bind_error h]
      exact hs

theorem along_tryCatch (htrans : ∀ s t u, R s t → R t u → R s u) {m : Prog ε σ α}
    {h : ε → Prog ε σ α} (hm : Along R m) (hh : ∀ e, Along R (h e)) :
    Along R (tryCatch m h) := fun s => by
  have hs := hm s
  cases hexec : exec m s with
  | mk r u =>
    rw [hexec] at hs
    cases r with
    | ok a =>
      rw [exec_tryCatch_ok hexec]
      exact hs
    | error e =>
      rw [exec_tryCatch_error hexec]
      exact htrans s u _ hs (hh e u)

/-- What one run of `m` and the run of `k` after it do. -/
theorem rel_bind (htrans : ∀ s t u, R s t → R t u → R s u) {m : Prog ε σ α} {k : α → Prog ε σ β}
    {s : σ} (hm : R s (exec m s).2) (hk : ∀ a u, exec m s = (.ok a, u) → R u (exec (k a) u).2) :
    R s (exec (m >>= k) s).2 := by
  cases h : exec m s with
  | mk r u =>
    rw [h] at hm
    cases r with
    | ok a =>
      rw [exec_bind_ok h]
      exact htrans s u _ hm (hk a u h)
    | error e =>
      rw [exec_bind_error h]
      exact hm

theorem along_when (hrefl : ∀ s, R s s) {c : Prop} [Decidable c] {m : Prog ε σ Unit}
    (h : Along R m) : Along R (when c m) := by
  by_cases hc : c
  · rw [when_true hc]
    exact h
  · rw [when_false hc]
    exact along_pure hrefl ()

/-- What follows `m` does not change what the observer sees. -/
theorem obs_bind (obs : σ → ω) {m : Prog ε σ α} {k : α → Prog ε σ β}
    (hk : ∀ a, Along (fun u v => obs u = obs v) (k a)) (s : σ) :
    obs (exec (m >>= k) s).2 = obs (exec m s).2 := by
  cases h : exec m s with
  | mk r u =>
    cases r with
    | ok a =>
      rw [exec_bind_ok h]
      exact (hk a u).symm
    | error e => rw [exec_bind_error h]

/-! ## Two computations side by side -/

/-- What is known of what the observer sees is known of a part of it. -/
theorem obs_field {obs : σ → σ} {s x : σ} (h : obs s = x) (f : σ → α)
    (hf : ∀ u, f (obs u) = f u) : f s = f x := by
  rw [← hf s, h]

/-- A part of the state that the observer sees. -/
theorem obs_congr {obs : σ → σ} {s t : σ} (h : obs s = obs t) (f : σ → α)
    (hf : ∀ u, f (obs u) = f u) : f s = f t := (obs_field h f hf).trans (hf t)

/-- `m` from `s` and `m'` from `t` end alike for the observer, with results related by `Q`. -/
def Agree (obs : σ → ω) (Q : Except ε α → Except ε α → Prop) (m m' : Prog ε σ α) (s t : σ) : Prop :=
  obs (exec m s).2 = obs (exec m' t).2 ∧ Q (exec m s).1 (exec m' t).1

theorem agree_pure {Q : Except ε α → Except ε α → Prop} {a a' : α} {s t : σ}
    (h : obs s = obs t) (hQ : Q (.ok a) (.ok a')) :
    Agree obs Q (pure a) (pure a') s t := ⟨h, hQ⟩

theorem agree_throw {Q : Except ε α → Except ε α → Prop} {e : ε} {s t : σ} (h : obs s = obs t)
    (hQ : Q (.error e) (.error e)) : Agree obs Q (throw e) (throw e) s t := ⟨h, hQ⟩

/-- A modification that acts on what the observer sees alone. -/
theorem agree_modify (obs : σ → ω) {f f' : σ → σ} {s t : σ} (h : obs (f s) = obs (f' t)) :
    Agree obs Eq (modify f : Prog ε σ PUnit) (modify f') s t := ⟨h, rfl⟩

theorem agree_get {Q : Except ε α → Except ε α → Prop} {k k' : σ → Prog ε σ α} {s t : σ}
    (h : Agree obs Q (k s) (k' t) s t) : Agree obs Q (get >>= k) (get >>= k') s t := by
  unfold Agree
  rw [exec_get_bind, exec_get_bind]
  exact h

theorem agree_when {c : Prop} [Decidable c] {m m' : Prog ε σ Unit} {s t : σ}
    (h : obs s = obs t) (hm : c → Agree obs Eq m m' s t) :
    Agree obs Eq (when c m) (when c m') s t := by
  by_cases hc : c
  · rw [when_true hc, when_true hc]
    exact hm hc
  · rw [when_false hc, when_false hc]
    exact agree_pure h rfl

/-- Ends that are the same for the observer. -/
theorem agree_of_ends {m m' : Prog ε σ α} {s t : σ} {r : Except ε α} {x y : ω}
    (h : Ends obs m s r x) (h' : Ends obs m' t r y) (hxy : x = y) : Agree obs Eq m m' s t :=
  ⟨by rw [h.2, h'.2, hxy], by rw [h.1, h'.1]⟩

/-- **Sequential composition.** The parts agree, the first on its results too. -/
theorem agree_bind (obs : σ → ω) {Q : Except ε β → Except ε β → Prop} {m m' : Prog ε σ α}
    {k k' : α → Prog ε σ β} {s t : σ} (hm : Agree obs Eq m m' s t)
    (hQ : ∀ e, Q (.error e) (.error e)) (hobs : ∀ u v, obs u = obs v → obs' u = obs' v)
    (hk : ∀ a u v, exec m s = (.ok a, u) → exec m' t = (.ok a, v) → obs u = obs v →
      Agree obs' Q (k a) (k' a) u v) :
    Agree obs' Q (m >>= k) (m' >>= k') s t := by
  obtain ⟨hstate, hres⟩ := hm
  unfold Agree
  rw [exec_bind, exec_bind]
  cases hs : exec m s with
  | mk r u =>
    cases ht : exec m' t with
    | mk r' v =>
      rw [hs, ht] at hstate hres
      simp only at hstate hres
      subst hres
      cases r with
      | error e => exact ⟨hobs u v hstate, hQ e⟩
      | ok a => exact hk a u v hs ht hstate

theorem Agree.mono {Q Q' : Except ε α → Except ε α → Prop} {m m' : Prog ε σ α} {s t : σ}
    (h : Agree obs Q m m' s t) (hQ : ∀ r r', Q r r' → Q' r r')
    (hobs : ∀ u v, obs u = obs v → obs' u = obs' v) : Agree obs' Q' m m' s t :=
  ⟨hobs _ _ h.1, hQ _ _ h.2⟩

end Cowrie.Lib
