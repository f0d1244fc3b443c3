import Cowrie.Bytes

/-!
# Text with errors and blanks

Python's lenient reading of UTF-8 and its notion of white space. `decodeReplace` is
`b.decode("utf-8", errors="replace")`, where U+FFFD takes the place of every maximal part of the bytes
that begins like a character and is none. `splitBlanks` is `s.split()` and `stripBlanks` is `s.strip()`.

* `newline_not_mem_encode`: lines of a text are lines of its bytes.
-/

namespace Cowrie

/-! ## Decoding -/

/-- The bytes that may follow the first byte of a character, as bounds; none is a byte that begins none. -/
def followers (x : UInt8) : Option (List (UInt8 × UInt8)) :=
  if x < 0x80 then some []
  else if x < 0xc2 then none
  else if x < 0xe0 then some [(0x80, 0xbf)]
  else if x = 0xe0 then some [(0xa0, 0xbf), (0x80, 0xbf)]
  else if x = 0xed then some [(0x80, 0x9f), (0x80, 0xbf)]
  else if x < 0xf0 then some [(0x80, 0xbf), (0x80, 0xbf)]
  else if x = 0xf0 then some [(0x90, 0xbf), (0x80, 0xbf), (0x80, 0xbf)]
  else if x < 0xf4 then some [(0x80, 0xbf), (0x80, 0xbf), (0x80, 0xbf)]
  else if x = 0xf4 then some [(0x80, 0x8f), (0x80, 0xbf), (0x80, 0xbf)]
  else none

/-- How many of the bytes are within the bounds, from the first on. -/
def followed : List (UInt8 × UInt8) → Bytes → Nat
  | (low, high) :: bounds, x :: b => if low ≤ x ∧ x ≤ high then followed bounds b + 1 else 0
  | _, _ => 0

/-- The characters of at most `fuel` pieces of the bytes. -/
def replaceInvalid : Nat → Bytes → List Char
  | 0, _ => []
  | _, [] => []
  | fuel + 1, x :: b =>
    match followers x with
    | none => '\ufffd' :: replaceInvalid fuel b
    | some bounds =>
      let count := followed bounds b
      let rest := replaceInvalid fuel (b.drop count)
      if count = bounds.length then ((decode (x :: b.take count)).getD "\ufffd").toList ++ rest
      else '\ufffd' :: rest

/-- `b.decode("utf-8", errors="replace")`; valid text is read as it is. -/
def decodeReplace (b : Bytes) : String := (decode b).getD (String.ofList (replaceInvalid b.length b))

@[simp] theorem decodeReplace_encode (s : String) : decodeReplace (encode s) = s := by
  unfold decodeReplace
  rw [decode_encode]
  rfl

example : decodeReplace [0x61, 0xe2, 0x82, 0x62, 0xff, 0xe2, 0x82, 0xac] = "a\ufffdb\ufffd€" := by decide +kernel

/-! ## Line feeds -/

theorem or_ne_newline (x : UInt8) {y : UInt8} (hy : y.toNat.testBit 7 = true) : x ||| y ≠ 10 := by
  intro h
  have hbit := congrArg (fun z : UInt8 => z.toNat.testBit 7) h
  simp only [UInt8.toNat_or, Nat.testBit_or, hy, Bool.or_true] at hbit
  exact absurd hbit (by decide)

/-- All bytes of a character but an ASCII one have their first bit set. -/
theorem newline_of_mem_utf8EncodeChar {c : Char} (h : 10 ∈ String.utf8EncodeChar c) : c = '\n' := by
  have hpos := c.utf8Size_pos
  have hle := c.utf8Size_le_four
  have hsize : c.utf8Size = 1 ∨ c.utf8Size = 2 ∨ c.utf8Size = 3 ∨ c.utf8Size = 4 := by omega
  rcases hsize with hsize | hsize | hsize | hsize
  · rw [String.utf8EncodeChar_eq_singleton hsize, List.mem_singleton] at h
    have hascii : c.val.toNat ≤ 127 := Char.utf8Size_eq_one_iff.mp hsize
    have hbyte : c.val.toNat % 2 ^ 8 = 10 := by
      rw [← UInt32.toNat_toUInt8, ← h]
      rfl
    have hval : c.val.toNat = 10 := by omega
    exact Char.ext (UInt32.toNat.inj hval)
  · rw [String.utf8EncodeChar_eq_cons_cons hsize] at h
    simp only [List.mem_cons, List.not_mem_nil, or_false] at h
    rcases h with h | h <;> exact absurd h.symm (or_ne_newline _ (by decide))
  · rw [String.utf8EncodeChar_eq_cons_cons_cons hsize] at h
    simp only [List.mem_cons, List.not_mem_nil, or_false] at h
    rcases h with h | h | h <;> exact absurd h.symm (or_ne_newline _ (by decide))
  · rw [String.utf8EncodeChar_eq_cons_cons_cons_cons hsize] at h
    simp only [List.mem_cons, List.not_mem_nil, or_false] at h
    rcases h with h | h | h | h <;> exact absurd h.symm (or_ne_newline _ (by decide))

/-- A text without a line feed has none in its bytes. -/
theorem newline_not_mem_encode {s : String} (h : '\n' ∉ s.toList) : 10 ∉ encode s := by
  rw [encode_eq_flatMap]
  intro hmem
  obtain ⟨c, hc, hbyte⟩ := List.mem_flatMap.mp hmem
  exact h (newline_of_mem_utf8EncodeChar hbyte ▸ hc)

/-! ## Blanks -/

/-- `c.isspace()`. -/
def isBlank (c : Char) : Bool :=
  (0x09 ≤ c.toNat && c.toNat ≤ 0x0d) || (0x1c ≤ c.toNat && c.toNat ≤ 0x20) ||
    (0x2000 ≤ c.toNat && c.toNat ≤ 0x200a) ||
    c.toNat ∈ [0x85, 0xa0, 0x1680, 0x2028, 0x2029, 0x202f, 0x205f, 0x3000]

/-- `s.split()`: the words between blanks. -/
def splitBlanks (s : String) : List String :=
  ((s.toList.splitOnP isBlank).filter (· ≠ [])).map String.ofList

/-- `s.strip()`. -/
def stripBlanks (s : String) : String :=
  String.ofList ((s.toList.dropWhile isBlank).reverse.dropWhile isBlank).reverse

end Cowrie
