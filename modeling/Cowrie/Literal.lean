import Mathlib.Data.Nat.ModEq
import Mathlib.Data.List.Basic
import Mathlib.Tactic.Ring

/-!
# String literals of Python

`reprOf printable s` is `repr(s)`, where `printable` is `str.isprintable` for characters beyond ASCII.
`Denotes names raw s` says that the text `raw`, between quotes, is a literal for `s`; `names` is the table
behind `\N{…}`.

* `Closed q raw`: nothing in `raw` ends a literal that begins with the quote `q`.
* `closed_reprBody`, **`denotes_reprBody`**: between the quotes of `repr(s)` is a literal for `s`.
* `reprBody_eq_of_length`: it is `s` itself if it is not longer.

A literal with a surrogate stands for no `Char`, and so denotes nothing here.
-/

namespace Cowrie

/-! ## Hexadecimal digits -/

def hexChar (n : Nat) : Char := Char.ofNat (if n < 10 then 48 + n else 87 + n)

def hexDigits : Nat → Nat → List Char
  | 0, _ => []
  | w + 1, n => hexChar (n / 16 ^ w % 16) :: hexDigits w n

def hexValue (c : Char) : Option Nat :=
  if '0' ≤ c ∧ c ≤ '9' then some (c.toNat - 48)
  else if 'a' ≤ c ∧ c ≤ 'f' then some (c.toNat - 87)
  else if 'A' ≤ c ∧ c ≤ 'F' then some (c.toNat - 55)
  else none

/-- `w` digits behind those of `n`. -/
def readHex : Nat → Nat → List Char → Option (Nat × List Char)
  | 0, n, s => some (n, s)
  | _ + 1, _, [] => none
  | w + 1, n, c :: s => (hexValue c).bind fun d => readHex w (16 * n + d) s

theorem hexValue_hexChar : ∀ d < 16, hexValue (hexChar d) = some d := by decide

theorem readHex_hexDigits (w a n : Nat) (s : List Char) :
    readHex w a (hexDigits w n ++ s) = some (a * 16 ^ w + n % 16 ^ w, s) := by
  induction w generalizing a with
  | zero => simp [hexDigits, readHex, Nat.mod_one]
  | succ w ih =>
    rw [hexDigits, List.cons_append, readHex, hexValue_hexChar _ (Nat.mod_lt _ (by decide)),
      Option.bind_some, ih, Nat.mod_pow_succ, Nat.pow_succ]
    congr 2
    ring

/-! ## Reading a literal -/

/-- `\a`, `\b` and the like. -/
def simpleEscape : Char → Option Char
  | '\\' => some '\\'
  | '\'' => some '\''
  | '"' => some '"'
  | 'a' => some '\x07'
  | 'b' => some '\x08'
  | 'f' => some '\x0c'
  | 'n' => some '\n'
  | 'r' => some '\r'
  | 't' => some '\t'
  | 'v' => some '\x0b'
  | _ => none

def isOctalDigit (c : Char) : Bool := '0' ≤ c && c ≤ '7'

/-- The character of a code point, unless that is a surrogate or too large. -/
def codePoint (n : Nat) : Option (List Char) := if n.isValidChar then some [Char.ofNat n] else none

/-- What a backslash before the text stands for, and what follows; `none` is a `SyntaxError`. -/
def escaped (names : List Char → Option Char) : List Char → Option (List Char × List Char)
  | [] => none
  | c :: s =>
    let hex (w : Nat) := (readHex w 0 s).bind fun (n, rest) => (codePoint n).map (·, rest)
    match simpleEscape c with
    | some d => some ([d], s)
    | none =>
      if c = '\n' then some ([], s)
      else if c = 'x' then hex 2
      else if c = 'u' then hex 4
      else if c = 'U' then hex 8
      else if c = 'N' then
        match s with
        | '\x7b' :: s =>
          if '\x7d' ∈ s then
            (names (s.takeWhile (· ≠ '\x7d'))).map ([·], (s.dropWhile (· ≠ '\x7d')).tail)
          else none
        | _ => none
      else if isOctalDigit c then
        let digits := ((c :: s).take 3).takeWhile isOctalDigit
        (codePoint (digits.foldl (fun n d => 8 * n + (d.toNat - 48)) 0)).map
          (·, (c :: s).drop digits.length)
      else some (['\\', c], s)

/-- Between quotes, `raw` is a literal for a text. -/
inductive Denotes (names : List Char → Option Char) : List Char → List Char → Prop
  | nil : Denotes names [] []
  | plain {c : Char} {raw s : List Char} (hc : c ≠ '\\') (h : Denotes names raw s) :
      Denotes names (c :: raw) (c :: s)
  | escape {raw rest u s : List Char} (hu : escaped names raw = some (u, rest))
      (h : Denotes names rest s) : Denotes names ('\\' :: raw) (u ++ s)

/-- The literal goes on: no quote `q` but behind a backslash, and no end of line. -/
inductive Closed (q : Char) : List Char → Prop
  | nil : Closed q []
  | plain {c : Char} {raw : List Char} (hq : c ≠ q) (hback : c ≠ '\\') (hline : c ≠ '\n')
      (h : Closed q raw) : Closed q (c :: raw)
  | escape {c : Char} {raw : List Char} (hline : c ≠ '\n') (h : Closed q raw) :
      Closed q ('\\' :: c :: raw)

theorem Closed.append {q : Char} {u v : List Char} (hu : Closed q u) (hv : Closed q v) :
    Closed q (u ++ v) := by
  induction hu with
  | nil => exact hv
  | plain hq hback hline _ ih => exact .plain hq hback hline ih
  | escape hline _ ih => exact .escape hline ih

theorem Closed.newline_notMem {q : Char} {raw : List Char} (h : Closed q raw) : '\n' ∉ raw := by
  induction h with
  | nil => exact List.not_mem_nil
  | plain hq hback hline _ ih =>
    rw [List.mem_cons, not_or]
    exact ⟨hline.symm, ih⟩
  | escape hline _ ih =>
    rw [List.mem_cons, List.mem_cons, not_or, not_or]
    exact ⟨by decide, hline.symm, ih⟩

/-! ## `repr` -/

/-- The quote that `repr` takes. -/
def reprQuote (s : List Char) : Char := if '\'' ∈ s ∧ '"' ∉ s then '"' else '\''

def reprChar (printable : Char → Bool) (q c : Char) : List Char :=
  if c = q ∨ c = '\\' then ['\\', c]
  else if c = '\t' then ['\\', 't']
  else if c = '\n' then ['\\', 'n']
  else if c = '\r' then ['\\', 'r']
  else if c.toNat < 0x20 ∨ c.toNat = 0x7f then '\\' :: 'x' :: hexDigits 2 c.toNat
  else if c.toNat < 0x7f ∨ printable c then [c]
  else if c.toNat < 0x100 then '\\' :: 'x' :: hexDigits 2 c.toNat
  else if c.toNat < 0x10000 then '\\' :: 'u' :: hexDigits 4 c.toNat
  else '\\' :: 'U' :: hexDigits 8 c.toNat

/-- What `repr` writes between the quotes. -/
def reprBody (printable : Char → Bool) (s : List Char) : List Char :=
  s.flatMap (reprChar printable (reprQuote s))

/-- `repr(s)`. -/
def reprOf (printable : Char → Bool) (s : List Char) : List Char :=
  reprQuote s :: reprBody printable s ++ [reprQuote s]

section Repr

variable {printable : Char → Bool} {names : List Char → Option Char} {q c : Char}

theorem reprQuote_eq (s : List Char) : reprQuote s = '\'' ∨ reprQuote s = '"' := by
  unfold reprQuote
  split_ifs <;> simp

theorem hexChar_plain : ∀ d < 16, hexChar d ≠ '\'' ∧ hexChar d ≠ '"' ∧ hexChar d ≠ '\\' ∧
    hexChar d ≠ '\n' ∧ hexChar d ≠ '\r' := by decide

theorem closed_hexDigits (hq : q = '\'' ∨ q = '"') (w n : Nat) : Closed q (hexDigits w n) := by
  induction w with
  | zero => exact .nil
  | succ w ih =>
    obtain ⟨hsingle, hdouble, hback, hline, -⟩ := hexChar_plain (n / 16 ^ w % 16) (Nat.mod_lt _ (by decide))
    refine .plain ?_ hback hline ih
    rcases hq with rfl | rfl
    · exact hsingle
    · exact hdouble

theorem closed_reprChar (hq : q = '\'' ∨ q = '"') (c : Char) : Closed q (reprChar printable q c) := by
  unfold reprChar
  split_ifs with hc htab hline hreturn hcontrol hplain hbyte hword
  · refine .escape ?_ .nil
    rintro rfl
    rcases hc with rfl | hc
    · rcases hq with hq | hq <;> cases hq
    · cases hc
  · exact .escape (by decide) .nil
  · exact .escape (by decide) .nil
  · exact .escape (by decide) .nil
  · exact .escape (by decide) (closed_hexDigits hq _ _)
  · rw [not_or] at hc
    exact .plain hc.1 hc.2 hline .nil
  · exact .escape (by decide) (closed_hexDigits hq _ _)
  · exact .escape (by decide) (closed_hexDigits hq _ _)
  · exact .escape (by decide) (closed_hexDigits hq _ _)

theorem closed_reprBody (s : List Char) : Closed (reprQuote s) (reprBody printable s) := by
  unfold reprBody
  have hq := reprQuote_eq s
  generalize reprQuote s = q at hq
  induction s with
  | nil => exact .nil
  | cons c s ih => exact (closed_reprChar hq c).append ih

/-! ### Its meaning -/

theorem codePoint_toNat (c : Char) : codePoint c.toNat = some [c] := by
  unfold codePoint
  have hvalid : c.toNat.isValidChar := c.valid
  rw [if_pos hvalid, Char.ofNat_toNat]

/-- Hexadecimal digits behind a backslash and `e`, which says that there are `w`. -/
theorem denotes_hex {e : Char} {w : Nat} {raw s : List Char} (hlt : c.toNat < 16 ^ w)
    (he : ∀ t, escaped names (e :: t) =
      (readHex w 0 t).bind fun (n, rest) => (codePoint n).map (·, rest))
    (h : Denotes names raw s) : Denotes names ('\\' :: e :: hexDigits w c.toNat ++ raw) (c :: s) := by
  refine .escape (u := [c]) ?_ h
  change escaped names (e :: (hexDigits w c.toNat ++ raw)) = _
  rw [he, readHex_hexDigits, Nat.zero_mul, Nat.zero_add, Nat.mod_eq_of_lt hlt,
    Option.bind_some]
  dsimp only
  rw [codePoint_toNat]
  rfl

theorem denotes_reprChar {raw s : List Char} (hq : q = '\'' ∨ q = '"') (c : Char)
    (h : Denotes names raw s) : Denotes names (reprChar printable q c ++ raw) (c :: s) := by
  unfold reprChar
  split_ifs with hc htab hline hreturn hcontrol hplain hbyte hword
  · refine .escape (u := [c]) ?_ h
    have hsimple : simpleEscape c = some c := by
      rcases hc with rfl | rfl
      · rcases hq with rfl | rfl <;> rfl
      · rfl
    change escaped names (c :: raw) = _
    simp only [escaped, hsimple]
  · subst htab
    exact .escape (u := ['\t']) rfl h
  · subst hline
    exact .escape (u := ['\n']) rfl h
  · subst hreturn
    exact .escape (u := ['\r']) rfl h
  · refine denotes_hex ?_ (fun t => rfl) h
    omega
  · rw [not_or] at hc
    exact .plain hc.2 h
  · exact denotes_hex hbyte (fun t => rfl) h
  · exact denotes_hex hword (fun t => rfl) h
  · refine denotes_hex ?_ (fun t => rfl) h
    have hvalid : c.toNat.isValidChar := c.valid
    unfold Nat.isValidChar at hvalid
    omega

theorem denotes_flatMap (hq : q = '\'' ∨ q = '"') (s : List Char) :
    Denotes names (s.flatMap (reprChar printable q)) s := by
  induction s with
  | nil => exact .nil
  | cons c s ih => exact denotes_reprChar hq c ih

/-- **`repr(s)` is a literal for `s`.** -/
theorem denotes_reprBody (s : List Char) : Denotes names (reprBody printable s) s :=
  denotes_flatMap (reprQuote_eq s) s

/-! ### Its length -/

theorem length_hexDigits (w n : Nat) : (hexDigits w n).length = w := by
  induction w with
  | zero => rfl
  | succ w ih => rw [hexDigits, List.length_cons, ih]

/-- A character is written as it is, or becomes longer. -/
theorem reprChar_eq_or (printable : Char → Bool) (q c : Char) :
    reprChar printable q c = [c] ∨ 1 < (reprChar printable q c).length := by
  unfold reprChar
  split_ifs <;> simp [length_hexDigits]

theorem length_flatMap_repr (printable : Char → Bool) (q : Char) (s : List Char) :
    s.length ≤ (s.flatMap (reprChar printable q)).length ∧
      ((s.flatMap (reprChar printable q)).length = s.length → s.flatMap (reprChar printable q) = s) := by
  induction s with
  | nil => exact ⟨Nat.le_refl 0, fun _ => rfl⟩
  | cons c s ih =>
    obtain ⟨hle, heq⟩ := ih
    rw [List.flatMap_cons, List.length_append, List.length_cons]
    rcases reprChar_eq_or printable q c with hsame | hlonger
    · rw [hsame, List.length_singleton]
      exact ⟨by omega, fun h => congrArg (c :: ·) (heq (by omega))⟩
    · exact ⟨by omega, fun h => by omega⟩

theorem length_reprBody (s : List Char) : s.length ≤ (reprBody printable s).length :=
  (length_flatMap_repr printable (reprQuote s) s).1

/-- What has not become longer is as it was. -/
theorem reprBody_eq_of_length {s : List Char} (h : (reprBody printable s).length = s.length) :
    reprBody printable s = s := (length_flatMap_repr printable (reprQuote s) s).2 h

/-- A carriage return is escaped. -/
theorem return_notMem_reprBody (s : List Char) : '\r' ∉ reprBody printable s := by
  unfold reprBody
  rw [List.mem_flatMap]
  rintro ⟨c, -, hmem⟩
  have hhex : ∀ w n, '\r' ∉ hexDigits w n := by
    intro w n
    induction w with
    | zero => exact List.not_mem_nil
    | succ w ih =>
      rw [hexDigits, List.mem_cons, not_or]
      exact ⟨((hexChar_plain _ (Nat.mod_lt _ (by decide))).2.2.2.2).symm, ih⟩
  have hq := reprQuote_eq s
  generalize reprQuote s = q at hq hmem
  unfold reprChar at hmem
  split_ifs at hmem with hc htab hline hreturn
  · rcases hc with rfl | rfl
    · rcases hq with rfl | rfl <;> simp at hmem
    · simp at hmem
  · simp at hmem
  · simp at hmem
  · simp at hmem
  · simp [hhex] at hmem
  · exact hreturn (List.mem_singleton.mp hmem).symm
  · simp [hhex] at hmem
  · simp [hhex] at hmem
  · simp [hhex] at hmem

end Repr

end Cowrie
