import Mathlib.Data.Set.Finite.Basic
import Mathlib.Logic.Relation
import Mathlib.Order.WellFounded

/-!
# Recursion by questions

A recursive function is a `body : Q → Ask Q A ε`: what it does with an argument is a computation that
asks for its own value at other arguments and goes on with the answers. `answerAt out body n` is the
function in `n` nested calls; the exception `out` is raised below them.

* `Returns body m a`, `Calls body m q`, `Fails body m e`: the computation `m` has the value `a`, asks
  `q`, raises `e`, however many calls that takes. No function is run in these definitions.
* `Reaches body m q`: `m` asks `q`, or asks what asks `q`, and so on.
* **`Reaches.of_all`**: a property of questions and answers that every body keeps.
* **`ends_iff`**: if `m` reaches finitely many questions, some number of calls is enough for it iff no
  question that it reaches leads back to itself and nothing on the way fails.
-/

namespace Cowrie.Lib

open Relation

variable {Q A ε : Type*}

/-- A computation that is done or asks `q` and goes on with the answer. -/
inductive Ask (Q A ε : Type*)
  | done (r : Except ε A)
  | ask (q : Q) (next : A → Ask Q A ε)

namespace Ask

/-- With the answers that `look` gives. -/
def run (look : Q → Except ε A) : Ask Q A ε → Except ε A
  | done r => r
  | ask q next =>
    match look q with
    | .error e => .error e
    | .ok a => run look (next a)

/-- The function in `depth` nested calls. -/
def answerAt (out : ε) (body : Q → Ask Q A ε) : Nat → Q → Except ε A
  | 0, _ => .error out
  | depth + 1, q => (body q).run (answerAt out body depth)

/-- What is asked meets `T`, what is returned `P` and what is raised `E`, if every answer meets `P`. -/
def All (T : Q → Prop) (P : A → Prop) (E : ε → Prop) : Ask Q A ε → Prop
  | done (.ok a) => P a
  | done (.error e) => E e
  | ask q next => T q ∧ ∀ a, P a → All T P E (next a)

variable (body : Q → Ask Q A ε)

/-- The computation has the value `a`. -/
inductive Returns : Ask Q A ε → A → Prop
  | done (a : A) : Returns (.done (.ok a)) a
  | ask {q : Q} {next : A → Ask Q A ε} {a b : A} (hq : Returns (body q) a)
      (hnext : Returns (next a) b) : Returns (.ask q next) b

/-- The computation asks `q`. -/
inductive Calls : Ask Q A ε → Q → Prop
  | now (q : Q) (next : A → Ask Q A ε) : Calls (.ask q next) q
  | later {q q' : Q} {next : A → Ask Q A ε} {a : A} (hq : Returns body (body q) a)
      (hnext : Calls (next a) q') : Calls (.ask q next) q'

/-- The computation raises `e` itself. -/
inductive Fails : Ask Q A ε → ε → Prop
  | done (e : ε) : Fails (.done (.error e)) e
  | later {q : Q} {next : A → Ask Q A ε} {a : A} {e : ε} (hq : Returns body (body q) a)
      (hnext : Fails (next a) e) : Fails (.ask q next) e

/-- The function at `q` asks for its value at `q'`. -/
def Call (q q' : Q) : Prop := Calls body (body q) q'

/-- `m` asks `q`, or asks what asks `q`, and so on. -/
def Reaches (m : Ask Q A ε) (q : Q) : Prop := ∃ q₀, Calls body m q₀ ∧ ReflTransGen (Call body) q₀ q

variable {body} {out : ε} {m : Ask Q A ε} {q : Q} {a b : A} {e : ε} {n n' : Nat}

/-! ## Invariants -/

section Invariants

variable {T : Q → Prop} {P : A → Prop} {E : ε → Prop} (hbody : ∀ q, (body q).All T P E)
include hbody

theorem Returns.of_all (hm : m.All T P E) (h : Returns body m a) : P a := by
  induction h with
  | done a => exact hm
  | ask _ _ ihq ihnext => exact ihnext (hm.2 _ (ihq (hbody _)))

theorem Calls.of_all (hm : m.All T P E) (h : Calls body m q) : T q := by
  induction h with
  | now q next => exact hm.1
  | later hq _ ih => exact ih (hm.2 _ (hq.of_all hbody (hbody _)))

theorem Fails.of_all (hm : m.All T P E) (h : Fails body m e) : E e := by
  induction h with
  | done e => exact hm
  | later hq _ ih => exact ih (hm.2 _ (hq.of_all hbody (hbody _)))

/-- **What every body keeps** holds of all questions that are reached. -/
theorem Reaches.of_all (hm : m.All T P E) (h : Reaches body m q) : T q := by
  obtain ⟨q₀, hcalls, hstar⟩ := h
  cases hstar with
  | refl => exact hcalls.of_all hbody hm
  | tail _ hlast => exact Calls.of_all hbody (hbody _) hlast

end Invariants

theorem Reaches.tail {q' : Q} (h : Reaches body m q) (hcall : Call body q q') :
    Reaches body m q' := by
  obtain ⟨q₀, hcalls, hstar⟩ := h
  exact ⟨q₀, hcalls, hstar.tail hcall⟩

theorem Calls.reaches (h : Calls body m q) : Reaches body m q := ⟨q, h, .refl⟩

/-- What is reached after an answer. -/
theorem Reaches.later {q' : Q} {next : A → Ask Q A ε} (hq : Returns body (body q) a)
    (h : Reaches body (next a) q') : Reaches body (.ask q next) q' := by
  obtain ⟨q₀, hcalls, hstar⟩ := h
  exact ⟨q₀, .later hq hcalls, hstar⟩

/-- What is reached in an answer. -/
theorem Reaches.inside {q' : Q} (hq : Reaches body m q) (h : Reaches body (body q) q') :
    Reaches body m q' := by
  obtain ⟨q₀, hcalls, hstar⟩ := h
  obtain ⟨q₁, hfirst, hrest⟩ := hq
  exact ⟨q₁, hfirst, hrest.trans (.head hcalls hstar)⟩

/-! ## Values in a number of calls -/

theorem run_mono {look look' : Q → Except ε A} (hlook : ∀ q a, look q = .ok a → look' q = .ok a)
    (h : m.run look = .ok a) : m.run look' = .ok a := by
  induction m with
  | done r => exact h
  | ask q next ih =>
    unfold run at h ⊢
    cases hq : look q with
    | error e =>
      rw [hq] at h
      cases h
    | ok b =>
      rw [hq] at h
      rw [hlook q b hq]
      exact ih b h

/-- **More calls** give the same value. -/
theorem answerAt_mono (hle : n ≤ n') (h : answerAt out body n q = .ok a) :
    answerAt out body n' q = .ok a := by
  induction n generalizing n' q a with
  | zero => cases h
  | succ n ih =>
    obtain ⟨n', rfl⟩ : ∃ k, n' = k + 1 := ⟨n' - 1, by omega⟩
    exact run_mono (fun q a hq => ih (by omega) hq) h

theorem returns_of_run (hlook : ∀ q a, answerAt out body n q = .ok a → Returns body (body q) a)
    (h : m.run (answerAt out body n) = .ok a) : Returns body m a := by
  induction m with
  | done r =>
    obtain rfl : r = .ok a := h
    exact .done a
  | ask q next ih =>
    unfold run at h
    cases hq : answerAt out body n q with
    | error e =>
      rw [hq] at h
      cases h
    | ok b =>
      rw [hq] at h
      exact .ask (hlook q b hq) (ih b h)

theorem returns_of_answerAt (h : answerAt out body n q = .ok a) : Returns body (body q) a := by
  induction n generalizing q a with
  | zero => cases h
  | succ n ih => exact returns_of_run (fun q a hq => ih hq) h

/-- What is raised is the end of the calls or an exception that a body raises. -/
theorem run_error_of_all {T : Q → Prop} {P : A → Prop} {E : ε → Prop}
    (hbody : ∀ q, (body q).All T P E) (hm : m.All T P E)
    (h : m.run (answerAt out body n) = .error e) : e = out ∨ E e := by
  induction n generalizing m e with
  | zero =>
    cases m with
    | done r =>
      obtain rfl : r = .error e := h
      exact .inr hm
    | ask q next => exact .inl (Except.error.inj h).symm
  | succ n ih =>
    induction m with
    | done r =>
      obtain rfl : r = .error e := h
      exact .inr hm
    | ask q next ihnext =>
      unfold run at h
      cases hq : answerAt out body (n + 1) q with
      | error e' =>
        rw [hq] at h
        obtain rfl := Except.error.inj h
        exact ih (hbody q) hq
      | ok b =>
        rw [hq] at h
        exact ihnext b (hm.2 b ((returns_of_answerAt hq).of_all hbody (hbody q))) h

theorem answerAt_error_of_all {T : Q → Prop} {P : A → Prop} {E : ε → Prop}
    (hbody : ∀ q, (body q).All T P E) (h : answerAt out body n q = .error e) : e = out ∨ E e := by
  cases n with
  | zero => exact .inl (Except.error.inj h).symm
  | succ n => exact run_error_of_all hbody (hbody q) h

theorem Returns.unique (ha : Returns body m a) (hb : Returns body m b) : a = b := by
  induction ha generalizing b with
  | done a =>
    cases hb
    rfl
  | ask _ _ ihq ihnext =>
    cases hb with
    | ask hq hnext =>
      obtain rfl := ihq hq
      exact ihnext hnext

/-- What a computation with a value asks has a value in as many calls. -/
theorem Calls.answered (hcalls : Calls body m q) (h : m.run (answerAt out body n) = .ok a) :
    ∃ b, answerAt out body n q = .ok b := by
  induction hcalls with
  | now q next =>
    unfold run at h
    cases hq : answerAt out body n q with
    | error e =>
      rw [hq] at h
      cases h
    | ok b => exact ⟨b, rfl⟩
  | @later q _ next c hc _ ih =>
    unfold run at h
    cases hq : answerAt out body n q with
    | error e =>
      rw [hq] at h
      cases h
    | ok b =>
      rw [hq] at h
      obtain rfl := (returns_of_answerAt hq).unique hc
      exact ih h

theorem Fails.not_run (hfails : Fails body m e) : m.run (answerAt out body n) ≠ .ok a := by
  intro h
  induction hfails with
  | done e => cases h
  | @later q next c e hc _ ih =>
    unfold run at h
    cases hq : answerAt out body n q with
    | error e =>
      rw [hq] at h
      cases h
    | ok b =>
      rw [hq] at h
      obtain rfl := (returns_of_answerAt hq).unique hc
      exact ih h

/-! ## When a number of calls is enough -/

theorem run_of_answered (hcalls : ∀ q, Calls body m q → ∃ n b, answerAt out body n q = .ok b)
    (hfails : ∀ e, ¬ Fails body m e) : ∃ n a, m.run (answerAt out body n) = .ok a := by
  induction m with
  | done r =>
    cases r with
    | error e => exact absurd (.done e) (hfails e)
    | ok a => exact ⟨0, a, rfl⟩
  | ask q next ih =>
    obtain ⟨k, b, hb⟩ := hcalls q (.now q next)
    have hreturns := returns_of_answerAt hb
    obtain ⟨l, a, ha⟩ := ih b (fun q' h => hcalls q' (.later hreturns h))
      fun e h => hfails e (.later hreturns h)
    refine ⟨max k l, a, ?_⟩
    unfold run
    rw [answerAt_mono (le_max_left k l) hb]
    exact run_mono (fun q a hq => answerAt_mono (le_max_right k l) hq) ha

theorem answered_of_acc (hacc : Acc (fun q' q => Call body q q') q)
    (hfails : ∀ q', ReflTransGen (Call body) q q' → ∀ e, ¬ Fails body (body q') e) :
    ∃ n a, answerAt out body n q = .ok a := by
  induction hacc with
  | intro q _ ih =>
    obtain ⟨n, a, h⟩ : ∃ n a, (body q).run (answerAt out body n) = .ok a := run_of_answered
      (fun q' hcall => ih q' hcall fun q'' hstar => hfails q'' (.head hcall hstar))
      (hfails q .refl)
    exact ⟨n + 1, a, h⟩

theorem acc_of_answered (h : answerAt out body n q = .ok a) :
    Acc (fun q' q => Call body q q') q := by
  induction n generalizing q a with
  | zero => cases h
  | succ n ih =>
    refine .intro q fun q' hcall => ?_
    obtain ⟨b, hb⟩ := Calls.answered hcall h
    exact ih hb

theorem answered_of_star {q' : Q} (hstar : ReflTransGen (Call body) q q')
    (h : answerAt out body n q = .ok a) : ∃ b, answerAt out body n q' = .ok b := by
  induction hstar with
  | refl => exact ⟨a, h⟩
  | tail _ hcall ih =>
    obtain ⟨b, hb⟩ := ih
    cases n with
    | zero => cases hb
    | succ n =>
      obtain ⟨c, hc⟩ := Calls.answered hcall hb
      exact ⟨c, answerAt_mono (by omega) hc⟩

/-- Among finitely many questions, those that do not lead back to themselves are well-founded. -/
theorem acc_of_acyclic (hfinite : {q' | ReflTransGen (Call body) q q'}.Finite)
    (hcycle : ∀ q', ReflTransGen (Call body) q q' → ¬ TransGen (Call body) q' q') :
    Acc (fun q' q => Call body q q') q := by
  let S := {q' | ReflTransGen (Call body) q q'}
  have : Finite S := hfinite
  let r : S → S → Prop := fun x y => TransGen (Call body) y.1 x.1
  have : IsTrans S r := ⟨fun _ _ _ hxy hyz => hyz.trans hxy⟩
  have : Std.Irrefl r := ⟨fun x => hcycle x.1 x.2⟩
  have hacc : ∀ x : S, Acc (fun q' q => Call body q q') x.1 := fun x => by
    induction x using (Finite.wellFounded_of_trans_of_irrefl r).induction with
    | _ x ih =>
      refine .intro x.1 fun q' hcall => ?_
      exact ih ⟨q', ReflTransGen.tail x.2 hcall⟩ (.single hcall)
  exact hacc ⟨q, .refl⟩

theorem not_cycle_of_acc (hacc : Acc (fun q' q => Call body q q') q) :
    ¬ TransGen (Call body) q q := by
  induction hacc with
  | intro q _ ih =>
    intro hcycle
    -- the cycle also goes through the first question after `q`
    obtain ⟨q', hcall, hrest⟩ := TransGen.head'_iff.mp hcycle
    exact ih q' hcall (TransGen.tail' hrest hcall)

/-- **Some number of calls is enough** for `m` iff no question that it reaches leads back to itself and
nothing on the way fails. -/
theorem ends_iff (hfinite : {q | Reaches body m q}.Finite) :
    (∃ d, ∀ n, d ≤ n → ∃ a, m.run (answerAt out body n) = .ok a) ↔
      (∀ q, Reaches body m q → ¬ TransGen (Call body) q q) ∧ (∀ e, ¬ Fails body m e) ∧
        ∀ q, Reaches body m q → ∀ e, ¬ Fails body (body q) e := by
  constructor
  · rintro ⟨n, hn⟩
    obtain ⟨a, h⟩ := hn n le_rfl
    have hreached : ∀ q, Reaches body m q → ∃ b, answerAt out body n q = .ok b := by
      rintro q ⟨q₀, hcalls, hstar⟩
      obtain ⟨b, hb⟩ := hcalls.answered h
      exact answered_of_star hstar hb
    refine ⟨fun q hq => ?_, fun e hfails => hfails.not_run h, fun q hq e hfails => ?_⟩
    · obtain ⟨b, hb⟩ := hreached q hq
      exact not_cycle_of_acc (acc_of_answered hb)
    · obtain ⟨b, hb⟩ := hreached q hq
      cases n with
      | zero => cases hb
      | succ n => exact hfails.not_run hb
  · rintro ⟨hcycle, hself, hfails⟩
    have hanswered : ∀ q, Calls body m q → ∃ n b, answerAt out body n q = .ok b := by
      intro q hcalls
      have hreach : ∀ q', ReflTransGen (Call body) q q' → Reaches body m q' := fun q' hstar =>
        ⟨q, hcalls, hstar⟩
      exact answered_of_acc
        (acc_of_acyclic (hfinite.subset hreach) fun q' hstar => hcycle q' (hreach q' hstar))
        fun q' hstar => hfails q' (hreach q' hstar)
    obtain ⟨n, a, h⟩ := run_of_answered hanswered hself
    exact ⟨n, fun n' hle => ⟨a, run_mono (fun q b hq => answerAt_mono hle hq) h⟩⟩

/-- The same for the function itself. -/
theorem answered_iff (hfinite : {q' | Reaches body (body q) q'}.Finite) :
    (∃ d, ∀ n, d ≤ n → ∃ a, answerAt out body n q = .ok a) ↔
      (∀ q', Reaches body (body q) q' → ¬ TransGen (Call body) q' q') ∧
        (∀ e, ¬ Fails body (body q) e) ∧
        ∀ q', Reaches body (body q) q' → ∀ e, ¬ Fails body (body q') e := by
  have hends : (∃ d, ∀ n, d ≤ n → ∃ a, (body q).run (answerAt out body n) = .ok a) ↔ _ :=
    ends_iff hfinite
  rw [← hends]
  constructor
  · rintro ⟨d, hd⟩
    exact ⟨d, fun n hn => hd (n + 1) (by omega)⟩
  · rintro ⟨d, hd⟩
    refine ⟨d + 1, fun n hn => ?_⟩
    obtain ⟨k, rfl⟩ : ∃ k, n = k + 1 := ⟨n - 1, by omega⟩
    exact hd k (by omega)

end Ask

end Cowrie.Lib
