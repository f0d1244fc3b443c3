import Cowrie.TelnetProxy.Handler
import Mathlib.Data.List.Infix
import Mathlib.Tactic.Ring

/-!
# What a backspace removes (`process_backspaces` in `src/cowrie/telnet_proxy/handler.py`)

`stackReading` is what the docstring promises: `0x7F` takes the most recent remaining byte away,
any other byte stays as it is. The code passes every byte through `chr(x).encode()`, and a byte from
128 on becomes two, of which a backspace takes one.

Beside the stack of the reading, the stack of the code is at least as long. It is longer as soon as
it holds a byte from 128 on, and it stays so until it is empty: `Erased` says on the input when that
happens.

* `processBackspaces_length_le`: how long the result is, by the suffixes of the input.
* `processBackspaces_eq_stackReading_iff`: the code meets the reading iff all bytes from 128 on stand
  in a part of the input that is erased.
-/

namespace Cowrie.TelnetProxy

/-- One byte of the stack reading. -/
def readKey (stack : Bytes) (x : UInt8) : Bytes :=
  if x = 0x7f then stack.dropLast else stack ++ [x]

/-- The backspace operation: `0x7F` removes the most recent remaining byte, if any. -/
def stackReading (s : Bytes) : Bytes := s.foldl readKey []

/-- The bytes that the code pushes for `s`. -/
def pushed (s : Bytes) : Bytes := (s.filter (· ≠ 0x7f)).flatMap encodeChr

/-- Every suffix has a backspace for each byte that the code pushes for it. -/
def Erased (s : Bytes) : Prop := ∀ w, w <:+ s → (pushed w).length ≤ w.count 0x7f

theorem encodeChr_eq_backspace_iff (x : UInt8) : encodeChr x = [0x7f] ↔ x = 0x7f := by
  unfold encodeChr
  constructor
  · intro h
    split at h
    · simpa using h
    · simp at h
  · rintro rfl
    rfl

theorem encodeChr_length_pos (x : UInt8) : 0 < (encodeChr x).length := by
  unfold encodeChr
  split <;> simp

theorem encodeChr_ascii {x : UInt8} (hx : x < 128) : encodeChr x = [x] := if_pos hx

theorem encodeChr_length_of_not_ascii {x : UInt8} (hx : ¬ x < 128) :
    (encodeChr x).length = 2 := by
  simp [encodeChr, hx]

/-! ## One byte more -/

@[simp] theorem processBackspaces_nil : processBackspaces [] = [] := rfl

@[simp] theorem stackReading_nil : stackReading [] = [] := rfl

theorem processBackspaces_backspace (s : Bytes) :
    processBackspaces (s ++ [0x7f]) = (processBackspaces s).dropLast := by
  simp [processBackspaces, encodeChr_eq_backspace_iff]

theorem processBackspaces_push (s : Bytes) {x : UInt8} (hx : x ≠ 0x7f) :
    processBackspaces (s ++ [x]) = processBackspaces s ++ encodeChr x := by
  simp [processBackspaces, encodeChr_eq_backspace_iff, hx]

theorem stackReading_backspace (s : Bytes) :
    stackReading (s ++ [0x7f]) = (stackReading s).dropLast := by
  simp [stackReading, readKey]

theorem stackReading_push (s : Bytes) {x : UInt8} (hx : x ≠ 0x7f) :
    stackReading (s ++ [x]) = stackReading s ++ [x] := by
  simp [stackReading, readKey, hx]

@[simp] theorem pushed_nil : pushed [] = [] := rfl

theorem pushed_backspace (s : Bytes) : pushed (s ++ [0x7f]) = pushed s := by
  simp [pushed, List.filter_append]

theorem pushed_push (s : Bytes) {x : UInt8} (hx : x ≠ 0x7f) :
    pushed (s ++ [x]) = pushed s ++ encodeChr x := by
  simp [pushed, List.filter_append, hx]

/-- The suffixes of a list that has an element more. -/
theorem forall_suffix_concat {α : Type*} {p : List α → Prop} (s : List α) (x : α) :
    (∀ w, w <:+ s ++ [x] → p w) ↔ p [] ∧ ∀ w, w <:+ s → p (w ++ [x]) := by
  constructor
  · intro h
    refine ⟨h [] (List.nil_suffix), fun w hw => h _ ?_⟩
    obtain ⟨t, rfl⟩ := hw
    exact ⟨t, by simp⟩
  · rintro ⟨hnil, hcons⟩ w hw
    rcases List.eq_nil_or_concat w with rfl | ⟨w, y, rfl⟩
    · exact hnil
    · obtain ⟨t, ht⟩ := hw
      rw [List.concat_eq_append, ← List.append_assoc] at ht
      obtain ⟨rfl, hxy⟩ := List.append_inj' ht rfl
      rw [List.concat_eq_append, hxy]
      exact hcons w ⟨t, rfl⟩

/-! ## How much is left -/

theorem processBackspaces_length_le (s : Bytes) (k : Nat) :
    (processBackspaces s).length ≤ k ↔
      ∀ w, w <:+ s → (pushed w).length ≤ w.count 0x7f + k := by
  induction s using List.reverseRecOn generalizing k with
  | nil => simp
  | append_singleton s x ih =>
    rw [forall_suffix_concat]
    by_cases hx : x = 0x7f
    · subst hx
      rw [processBackspaces_backspace, List.length_dropLast, Nat.sub_le_iff_le_add, ih]
      simp only [pushed_backspace, List.count_append, List.count_singleton_self]
      constructor
      · intro h
        exact ⟨by simp, fun w hw => by have := h w hw; omega⟩
      · rintro ⟨-, h⟩ w hw
        have := h w hw
        omega
    · have hpos := encodeChr_length_pos x
      have hcount (w : Bytes) : (w ++ [x]).count 0x7f = w.count 0x7f := by
        simp [List.count_append, hx]
      simp only [processBackspaces_push s hx, pushed_push _ hx, List.length_append, hcount]
      by_cases hk : (encodeChr x).length ≤ k
      · have hs := ih (k - (encodeChr x).length)
        constructor
        · intro h
          exact ⟨by simp, fun w hw => by
            have := hs.mp (by omega) w hw
            omega⟩
        · rintro ⟨-, h⟩
          have : (processBackspaces s).length ≤ k - (encodeChr x).length :=
            hs.mpr fun w hw => by
              have := h w hw
              omega
          omega
      · -- the byte alone is a suffix that is too long
        constructor
        · intro h
          omega
        · rintro ⟨-, h⟩
          have := h [] (List.nil_suffix)
          simp only [pushed_nil, List.length_nil, List.count_nil] at this
          omega

theorem processBackspaces_eq_nil_iff (s : Bytes) : processBackspaces s = [] ↔ Erased s := by
  rw [← List.length_eq_zero_iff, ← Nat.le_zero, processBackspaces_length_le]
  rfl

/-! ## The two stacks -/

/-- The stack of the code is never shorter. -/
theorem stackReading_length_le (s : Bytes) :
    (stackReading s).length ≤ (processBackspaces s).length := by
  induction s using List.reverseRecOn with
  | nil => simp
  | append_singleton s x ih =>
    by_cases hx : x = 0x7f
    · subst hx
      rw [stackReading_backspace, processBackspaces_backspace, List.length_dropLast,
        List.length_dropLast]
      omega
    · have hpos := encodeChr_length_pos x
      rw [stackReading_push s hx, processBackspaces_push s hx, List.length_append,
        List.length_append, List.length_singleton]
      omega

/-- After an erased part, ASCII is read as it should be. -/
theorem processBackspaces_append_ascii {u : Bytes} (hu : Erased u) (v : Bytes)
    (hv : ∀ x ∈ v, x < 128) : processBackspaces (u ++ v) = stackReading (u ++ v) := by
  induction v using List.reverseRecOn with
  | nil =>
    have hcode := (processBackspaces_eq_nil_iff u).mpr hu
    have hreading := stackReading_length_le u
    rw [hcode, List.length_nil, Nat.le_zero, List.length_eq_zero_iff] at hreading
    rw [List.append_nil, hcode, hreading]
  | append_singleton v x ih =>
    have ih := ih fun y hy => hv y (List.mem_append_left _ hy)
    have hascii : x < 128 := hv x (by simp)
    rw [← List.append_assoc]
    by_cases hx : x = 0x7f
    · rw [hx, processBackspaces_backspace, stackReading_backspace, ih]
    · rw [processBackspaces_push _ hx, stackReading_push _ hx, ih, encodeChr_ascii hascii]

/-- Where the input is more than an erased part and ASCII, the stack of the code is too long. -/
theorem lt_or_split (s : Bytes) :
    (∃ u v, s = u ++ v ∧ Erased u ∧ ∀ x ∈ v, x < 128) ∨
      (stackReading s).length < (processBackspaces s).length := by
  induction s using List.reverseRecOn with
  | nil =>
    exact .inl ⟨[], [], rfl, (processBackspaces_eq_nil_iff []).mp rfl, by simp⟩
  | append_singleton s x ih =>
    by_cases hempty : processBackspaces (s ++ [x]) = []
    · exact .inl ⟨s ++ [x], [], by simp, (processBackspaces_eq_nil_iff _).mp hempty, by simp⟩
    rcases ih with ⟨u, v, rfl, hu, hv⟩ | hlt
    · by_cases hascii : x < 128
      · refine .inl ⟨u, v ++ [x], by simp, hu, fun y hy => ?_⟩
        rcases List.mem_append.mp hy with hy | hy
        · exact hv y hy
        · rwa [List.mem_singleton.mp hy]
      · -- two bytes for one
        have hx : x ≠ 0x7f := by
          rintro rfl
          exact hascii (by decide)
        rw [processBackspaces_push _ hx, stackReading_push _ hx, List.length_append,
          List.length_append, encodeChr_length_of_not_ascii hascii,
          processBackspaces_append_ascii hu v hv, List.length_singleton]
        right
        omega
    · right
      by_cases hx : x = 0x7f
      · subst hx
        rw [processBackspaces_backspace] at hempty ⊢
        have hpos := List.length_pos_of_ne_nil hempty
        rw [List.length_dropLast] at hpos
        rw [stackReading_backspace, List.length_dropLast, List.length_dropLast]
        omega
      · have hpos := encodeChr_length_pos x
        rw [stackReading_push s hx, processBackspaces_push s hx, List.length_append,
          List.length_append, List.length_singleton]
        omega

/-- **When a backspace removes a byte.** The code gives the stack reading iff every byte from 128 on
stands in a first part of the input of which nothing is left. -/
theorem processBackspaces_eq_stackReading_iff (s : Bytes) :
    processBackspaces s = stackReading s ↔
      ∃ u v, s = u ++ v ∧ Erased u ∧ ∀ x ∈ v, x < 128 := by
  constructor
  · intro h
    rcases lt_or_split s with hsplit | hlt
    · exact hsplit
    · rw [h] at hlt
      exact absurd hlt (lt_irrefl _)
  · rintro ⟨u, v, rfl, hu, hv⟩
    exact processBackspaces_append_ascii hu v hv

/-- `é` in Latin-1, and a backspace behind it: a stray byte of its UTF-8 form is left. -/
theorem backspace_leaves_half :
    processBackspaces [0xe9] ≠ stackReading [0xe9] ∧
      processBackspaces [0xe9, 0x7f] = [0xc3] ∧ stackReading [0xe9, 0x7f] = [] := by
  decide

end Cowrie.TelnetProxy
