import Cowrie.Struct

/-!
# Reading at an offset

A parser that walks through `data` with an offset. `At data offset rest` says what is left there; `At.advance` moves
past a field, the other lemmas read one: a byte, a number of two bytes, a string whose length is known.
-/

namespace Cowrie.Lib

/-- `data[offset : offset + n]`. -/
def slice (data : Bytes) (offset n : Nat) : Bytes := (data.drop offset).take n

/-- `struct.unpack("!H", data[offset : offset + 2])[0]`. -/
def uint16At (data : Bytes) (offset : Nat) : Option Nat := unpackUInt 2 (slice data offset 2)

/-- `data` goes on with `rest` at `offset`. -/
structure At (data : Bytes) (offset : Nat) (rest : Bytes) : Prop where
  drop : data.drop offset = rest
  le : offset ≤ data.length

variable {data rest a b : Bytes} {offset : Nat}

theorem At.start (data : Bytes) : At data 0 data := ⟨rfl, Nat.zero_le _⟩

theorem At.length (h : At data offset rest) : data.length = offset + rest.length := by
  have hlen := congrArg List.length h.drop
  have hle := h.le
  rw [List.length_drop] at hlen
  omega

theorem At.advance (h : At data offset (a ++ b)) : At data (offset + a.length) b := by
  refine ⟨?_, ?_⟩
  · rw [← List.drop_drop, h.drop, List.drop_left]
  · have hlen := h.length
    rw [List.length_append] at hlen
    omega

theorem At.advance_of_length {n : Nat} (h : At data offset (a ++ b)) (hn : a.length = n) :
    At data (offset + n) b := hn ▸ h.advance

theorem At.slice (h : At data offset (a ++ b)) : slice data offset a.length = a := by
  unfold Lib.slice
  rw [h.drop, List.take_left]

theorem At.slice_of_length {n : Nat} (h : At data offset (a ++ b)) (hn : a.length = n) :
    Lib.slice data offset n = a := hn ▸ h.slice

theorem At.byte {x : UInt8} (h : At data offset (x :: rest)) : data[offset]? = some x := by
  have hhead := congrArg List.head? h.drop
  rwa [List.head?_drop] at hhead

/-- **A number of two bytes.** -/
theorem At.uint16 {n : Nat} (h : At data offset (intToBytes 2 n ++ rest)) (hn : n < 256 ^ 2) :
    uint16At data offset = some n := by
  unfold uint16At
  rw [h.slice_of_length (intToBytes_length 2 n), unpackUInt_intToBytes hn]

/-- **A list of such numbers.** -/
theorem At.uint16s {l : List Nat} (h : At data offset (l.flatMap (intToBytes 2) ++ rest))
    (hl : ∀ n ∈ l, n < 256 ^ 2) :
    (List.range l.length).mapM (fun i => uint16At data (offset + 2 * i)) = some l := by
  induction l generalizing offset with
  | nil => rfl
  | cons n l ih =>
    rw [List.flatMap_cons, List.append_assoc] at h
    have hnext : (List.range l.length).mapM (fun i => uint16At data (offset + 2 + 2 * i)) = some l :=
      ih (h.advance_of_length (intToBytes_length 2 n)) fun m hm => hl m (List.mem_cons_of_mem n hm)
    rw [List.length_cons, List.range_succ_eq_map, List.mapM_cons, List.mapM_map]
    simp only [Nat.mul_zero, Nat.add_zero, h.uint16 (hl n List.mem_cons_self), Function.comp_def]
    have hshift : ∀ i, offset + 2 * Nat.succ i = offset + 2 + 2 * i := fun i => by omega
    simp only [hshift, hnext]
    rfl

/-- What is left where the data ends. -/
theorem At.nil_iff : At data offset [] ↔ offset = data.length := by
  constructor
  · intro h
    exact h.length.symm
  · rintro rfl
    exact ⟨List.drop_length, le_rfl⟩

end Cowrie.Lib
