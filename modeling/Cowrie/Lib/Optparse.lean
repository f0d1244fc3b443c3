import Mathlib.Data.List.Basic

/-!
# Options of a command line (`optparse` of the standard library)

Options and operands stand in any order, until `--`. A long option may be cut short where one name only begins so,
and its argument may follow an `=`; short ones may stand behind one dash. What an option sets is a `Value`.

* The actions are `store_true`, `store`, and a callback that takes the next argument unless that begins with a
  dash (`optional`). For `optparse` the last takes no value.
* `parseArgs` is `parse_args`: what is set, in order; none if the parser calls its `error`. Operands are left out.
* `getLast` is the attribute of the values, where the default is none.
* `parseArgs_cons`: the loop, argument by argument. Every turn takes at least one (`length_processOpt`).
-/

namespace Cowrie.Lib.Optparse

inductive Action
  | storeTrue
  | store
  | optional
  deriving DecidableEq, Repr

/-- What an option sets: `True`, or a text. -/
inductive Value
  | flag
  | text (value : List Char)
  deriving DecidableEq, Repr

/-- An option; its names are without their dashes. -/
structure Opt (δ : Type) where
  shorts : List Char
  longs : List (List Char)
  dest : δ
  action : Action

variable {δ : Type} (options : List (Opt δ))

/-- `_short_opt.get(opt)`. -/
def shortOpt (opt : Char) : Option (Opt δ) := options.find? fun o => o.shorts.contains opt

/-- `_long_opt`. -/
def longOpts : List (List Char × Opt δ) := options.flatMap fun o => o.longs.map fun name => (name, o)

/-- `_match_abbrev`; none if there is no such option, or more than one. -/
def matchAbbrev (opt : List Char) : Option (Opt δ) :=
  match (longOpts options).lookup opt with
  | some o => some o
  | none =>
    match (longOpts options).filter fun e => opt.isPrefixOf e.1 with
    | [(_, o)] => some o
    | _ => none

/-- What is set, and the arguments that are left. -/
abbrev Step (δ : Type) := Option (List (δ × Value) × List (List Char))

/-- The callback. -/
def takeOptional : List (List Char) → Value × List (List Char)
  | [] => (.flag, [])
  | arg :: rargs => if arg.head? = some '-' then (.flag, arg :: rargs) else (.text arg, rargs)

/-- An option that stores the next argument. -/
def takeValue (dest : δ) : List (List Char) → Step δ
  | [] => none
  | value :: rargs => some ([(dest, .text value)], rargs)

/-- What follows the `=` of a long option. -/
def explicitValue (arg : List Char) : List (List Char) :=
  if arg.contains '=' then [(arg.dropWhile (· ≠ '=')).tail] else []

/-- `_process_long_opt`. -/
def processLongOpt (arg : List Char) (rargs : List (List Char)) : Step δ :=
  match matchAbbrev options (arg.takeWhile (· ≠ '=')) with
  | none => none
  | some o =>
    match o.action with
    | .store => takeValue o.dest (explicitValue arg ++ rargs)
    | .storeTrue => if explicitValue arg = [] then some ([(o.dest, .flag)], rargs) else none
    | .optional =>
      if explicitValue arg = [] then some ([(o.dest, (takeOptional rargs).1)], (takeOptional rargs).2) else none

/-- `_process_short_opts`. -/
def processShortOpts : List Char → List (List Char) → Step δ
  | [], rargs => some ([], rargs)
  | opt :: rest, rargs =>
    match shortOpt options opt with
    | none => none
    | some o =>
      match o.action with
      | .store => takeValue o.dest (if rest = [] then rargs else rest :: rargs)
      | .storeTrue => (processShortOpts rest rargs).map fun (sets, rargs) => ((o.dest, .flag) :: sets, rargs)
      | .optional =>
        (processShortOpts rest (takeOptional rargs).2).map fun (sets, left) =>
          ((o.dest, (takeOptional rargs).1) :: sets, left)

/-- An argument that is not `--`. -/
def processOpt (arg : List Char) (rargs : List (List Char)) : Step δ :=
  if ['-', '-'].isPrefixOf arg then processLongOpt options (arg.drop 2) rargs
  else if arg.head? = some '-' ∧ arg ≠ ['-'] then processShortOpts options arg.tail rargs
  else some ([], rargs)

/-- `_process_args`; every turn takes an argument, so that `fuel` need not be more than their number. -/
def processArgs : Nat → List (List Char) → Option (List (δ × Value))
  | _, [] => some []
  | 0, _ :: _ => none
  | fuel + 1, arg :: rargs =>
    if arg = ['-', '-'] then some []
    else
      match processOpt options arg rargs with
      | none => none
      | some (sets, rargs) => (processArgs fuel rargs).map (sets ++ ·)

def parseArgs (args : List (List Char)) : Option (List (δ × Value)) := processArgs options args.length args

/-- The value that is set last. -/
def getLast [DecidableEq δ] (sets : List (δ × Value)) (dest : δ) : Option Value := sets.reverse.lookup dest

variable {options} {o : Opt δ} {arg : List Char} {rargs left : List (List Char)} {sets : List (δ × Value)}

theorem length_takeOptional (rargs : List (List Char)) : (takeOptional rargs).2.length ≤ rargs.length := by
  unfold takeOptional
  cases rargs with
  | nil => exact Nat.le_refl _
  | cons arg rargs =>
    simp only
    split_ifs
    · exact Nat.le_refl _
    · exact Nat.le_succ _

theorem length_takeValue {dest : δ} (h : takeValue dest rargs = some (sets, left)) :
    left.length + 1 = rargs.length := by
  cases rargs with
  | nil => cases h
  | cons value rargs =>
    obtain ⟨-, rfl⟩ := Prod.mk.inj (Option.some.inj h)
    rfl

theorem length_processLongOpt (h : processLongOpt options arg rargs = some (sets, left)) :
    left.length ≤ rargs.length := by
  unfold processLongOpt at h
  cases ho : matchAbbrev options (arg.takeWhile (· ≠ '=')) with
  | none =>
    simp only [ho] at h
    cases h
  | some o =>
    simp only [ho] at h
    cases haction : o.action with
    | store =>
      simp only [haction] at h
      have hlength := length_takeValue h
      have hone : (explicitValue arg).length ≤ 1 := by
        unfold explicitValue
        split_ifs <;> simp
      rw [List.length_append] at hlength
      omega
    | storeTrue =>
      simp only [haction] at h
      split_ifs at h
      obtain ⟨-, rfl⟩ := Prod.mk.inj (Option.some.inj h)
      exact Nat.le_refl _
    | optional =>
      simp only [haction] at h
      split_ifs at h
      obtain ⟨-, rfl⟩ := Prod.mk.inj (Option.some.inj h)
      exact length_takeOptional rargs

theorem length_processShortOpts {opts : List Char} (h : processShortOpts options opts rargs = some (sets, left)) :
    left.length ≤ rargs.length := by
  induction opts generalizing rargs sets with
  | nil =>
    obtain ⟨-, rfl⟩ := Prod.mk.inj (Option.some.inj h)
    exact Nat.le_refl _
  | cons opt rest ih =>
    unfold processShortOpts at h
    cases ho : shortOpt options opt with
    | none =>
      simp only [ho] at h
      cases h
    | some o =>
      simp only [ho] at h
      cases haction : o.action with
      | store =>
        simp only [haction] at h
        have hlength := length_takeValue h
        split_ifs at hlength
        · omega
        · rw [List.length_cons] at hlength
          omega
      | storeTrue =>
        simp only [haction] at h
        obtain ⟨⟨sets', left'⟩, hrest, heq⟩ := Option.map_eq_some_iff.mp h
        obtain ⟨-, rfl⟩ := Prod.mk.inj heq
        exact ih hrest
      | optional =>
        simp only [haction] at h
        obtain ⟨⟨sets', left'⟩, hrest, heq⟩ := Option.map_eq_some_iff.mp h
        obtain ⟨-, rfl⟩ := Prod.mk.inj heq
        exact Nat.le_trans (ih hrest) (length_takeOptional rargs)

/-- What is left behind an argument is no more than what follows it. -/
theorem length_processOpt (h : processOpt options arg rargs = some (sets, left)) : left.length ≤ rargs.length := by
  unfold processOpt at h
  split_ifs at h
  · exact length_processLongOpt h
  · exact length_processShortOpts h
  · obtain ⟨-, rfl⟩ := Prod.mk.inj (Option.some.inj h)
    exact Nat.le_refl _

/-- More fuel changes nothing. -/
theorem processArgs_eq {fuel : Nat} (h : rargs.length ≤ fuel) :
    processArgs options fuel rargs = parseArgs options rargs := by
  unfold parseArgs
  induction fuel using Nat.strongRecOn generalizing rargs with
  | _ fuel ih =>
    cases rargs with
    | nil =>
      unfold processArgs
      rfl
    | cons arg rargs =>
      cases fuel with
      | zero => exact absurd h (Nat.not_succ_le_zero _)
      | succ fuel =>
        have hle : rargs.length ≤ fuel := Nat.le_of_succ_le_succ h
        rw [List.length_cons]
        unfold processArgs
        cases hone : processOpt options arg rargs with
        | none => rfl
        | some step =>
          obtain ⟨sets, left⟩ := step
          have hleft := length_processOpt hone
          simp only
          rw [ih fuel (Nat.lt_succ_self fuel) (Nat.le_trans hleft hle)]
          by_cases hrargs : rargs.length = fuel
          · subst hrargs
            rw [ih rargs.length (Nat.lt_succ_self _) hleft]
          · rw [ih rargs.length (by omega) hleft]

/-- One argument, and then the others. -/
theorem parseArgs_cons (arg : List Char) (rargs : List (List Char)) :
    parseArgs options (arg :: rargs) =
      if arg = ['-', '-'] then some []
      else (processOpt options arg rargs).bind fun step => (parseArgs options step.2).map (step.1 ++ ·) := by
  change processArgs options (rargs.length + 1) (arg :: rargs) = _
  unfold processArgs
  split_ifs
  · rfl
  · cases hone : processOpt options arg rargs with
    | none => rfl
    | some step =>
      obtain ⟨sets, left⟩ := step
      simp only [Option.bind_some]
      rw [processArgs_eq (length_processOpt hone)]

end Cowrie.Lib.Optparse
