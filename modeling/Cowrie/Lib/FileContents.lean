import Mathlib.Data.List.GetD
import Mathlib.Data.List.Induction
import Mathlib.Order.Nat

/-!
# The contents of a file under writes at offsets

`overwrite zero file offset data` is what `pwrite(2)` makes of a file (`getD_overwrite`): exactly the
positions `offset, …, offset + data.length - 1` are written, and a gap after the end is filled with
`zero`. Writing nothing changes nothing. `writeAll` is a sequence of writes.

`cutWrite` cuts the file off at the offset and appends the data instead; `cutAll` does so for every
write of a sequence.

* **`cutWrite_eq_overwrite_iff`**: the two are the same on one file iff the write `Fits`: it starts
  within the file and reaches its end.
* **`cutAll_eq_writeAll_iff`**: on an empty file the two are the same for a sequence of offsets and
  lengths, whatever the data, iff the sequence is `Intact`: the last write that starts before the end
  of the file reaches it, the last write before that one that starts before its offset reaches that,
  and so on, down to 0.
-/

namespace Cowrie.Lib

variable {α : Type*} (zero : α)

/-- `pwrite(2)`. -/
def overwrite (file : List α) (offset : Nat) (data : List α) : List α :=
  if data = [] then file
  else file.take offset ++ List.replicate (offset - file.length) zero ++ data ++
    file.drop (offset + data.length)

/-- A sequence of writes. -/
def writeAll (file : List α) (ws : List (Nat × List α)) : List α :=
  ws.foldl (fun f w => overwrite zero f w.1 w.2) file

/-- The file is cut off at the offset, and the data appended. -/
def cutWrite (file : List α) (offset : Nat) (data : List α) : List α := file.take offset ++ data

def cutAll (file : List α) (ws : List (Nat × List α)) : List α :=
  ws.foldl (fun f w => cutWrite f w.1 w.2) file

/-- The write starts within the file and reaches its end. -/
def Fits (file : List α) (w : Nat × List α) : Prop :=
  if w.2 = [] then file.length ≤ w.1
  else w.1 ≤ file.length ∧ file.length ≤ w.1 + w.2.length

instance (file : List α) (w : Nat × List α) : Decidable (Fits file w) :=
  inferInstanceAs (Decidable (if w.2 = [] then file.length ≤ w.1
    else w.1 ≤ file.length ∧ file.length ≤ w.1 + w.2.length))

/-- The offset and the length of a write. -/
def shape (w : Nat × List α) : Nat × Nat := (w.1, w.2.length)

/-- The size of a file after writes of these shapes to an empty one. -/
def extent : List (Nat × Nat) → Nat
  | [] => 0
  | w :: ws => if w.2 = 0 then extent ws else max (w.1 + w.2) (extent ws)

/-- Of the writes, the latest first: the first that starts before byte `n` reaches it, and the same
holds of its offset and the writes after it. -/
def Covers : Nat → List (Nat × Nat) → Prop
  | n, [] => n = 0
  | n, w :: earlier =>
    if n ≤ w.1 then Covers n earlier else n ≤ w.1 + w.2 ∧ Covers w.1 earlier

instance Covers.decidable : ∀ (n : Nat) (ws : List (Nat × Nat)), Decidable (Covers n ws)
  | n, [] => inferInstanceAs (Decidable (n = 0))
  | n, w :: earlier =>
    have := Covers.decidable n earlier
    have := Covers.decidable w.1 earlier
    inferInstanceAs (Decidable (if n ≤ w.1 then Covers n earlier else _ ∧ Covers w.1 earlier))

/-- Every byte of the file is still there when the last write is done. -/
def Intact (shapes : List (Nat × Nat)) : Prop := Covers (extent shapes) shapes.reverse

instance (shapes : List (Nat × Nat)) : Decidable (Intact shapes) :=
  inferInstanceAs (Decidable (Covers _ _))

variable {zero}

/-! ## One write -/

theorem getD_overwrite (file : List α) (offset : Nat) (data : List α) (i : Nat) :
    (overwrite zero file offset data).getD i zero =
      if offset ≤ i ∧ i < offset + data.length then data.getD (i - offset) zero
      else file.getD i zero := by
  unfold overwrite
  by_cases hdata : data = []
  · rw [if_pos hdata, hdata, List.length_nil, if_neg (by omega)]
  · rw [if_neg hdata]
    simp only [List.getD_eq_getElem?_getD, List.getElem?_append, List.getElem?_drop,
      List.getElem?_take, List.getElem?_replicate, List.length_append, List.length_take,
      List.length_replicate]
    grind

theorem length_overwrite (file : List α) (offset : Nat) (data : List α) :
    (overwrite zero file offset data).length =
      if data.length = 0 then file.length else max file.length (offset + data.length) := by
  unfold overwrite
  by_cases hdata : data = []
  · rw [if_pos hdata, if_pos (by rw [hdata, List.length_nil])]
  · have hpos : data.length ≠ 0 := fun h => hdata (List.eq_nil_of_length_eq_zero h)
    rw [if_neg hdata, if_neg hpos]
    simp only [List.length_append, List.length_take, List.length_replicate, List.length_drop]
    omega

theorem getD_cutWrite (file : List α) (offset : Nat) (data : List α) (i : Nat) :
    (cutWrite file offset data).getD i zero =
      if i < min offset file.length then file.getD i zero
      else data.getD (i - min offset file.length) zero := by
  unfold cutWrite
  simp only [List.getD_eq_getElem?_getD, List.getElem?_append, List.getElem?_take,
    List.length_take]
  grind

theorem length_cutWrite (file : List α) (offset : Nat) (data : List α) :
    (cutWrite file offset data).length = min offset file.length + data.length := by
  unfold cutWrite
  rw [List.length_append, List.length_take]

/-- **Cutting off instead of overwriting**, for one write. -/
theorem cutWrite_eq_overwrite_iff {file : List α} {offset : Nat} {data : List α} :
    cutWrite file offset data = overwrite zero file offset data ↔ Fits file (offset, data) := by
  unfold cutWrite overwrite Fits
  by_cases hdata : data = []
  · rw [if_pos hdata, if_pos hdata, hdata, List.append_nil]
    constructor
    · intro h
      have hlen := congrArg List.length h
      rw [List.length_take] at hlen
      omega
    · intro h
      exact List.take_of_length_le h
  · rw [if_neg hdata, if_neg hdata, List.append_assoc, List.append_assoc, List.append_cancel_left_eq]
    simp only
    constructor
    · intro h
      have hlen := congrArg List.length h
      simp only [List.length_append, List.length_replicate, List.length_drop] at hlen
      omega
    · rintro ⟨hstart, hend⟩
      rw [Nat.sub_eq_zero_of_le hstart, List.drop_eq_nil_of_le hend, List.append_nil]
      rfl

/-! ## Sequences of writes -/

theorem extent_cons (w : Nat × Nat) (ws : List (Nat × Nat)) :
    extent (w :: ws) = if w.2 = 0 then extent ws else max (w.1 + w.2) (extent ws) := rfl

theorem writeAll_concat (file : List α) (ws : List (Nat × List α)) (w : Nat × List α) :
    writeAll zero file (ws ++ [w]) = overwrite zero (writeAll zero file ws) w.1 w.2 := by
  unfold writeAll
  rw [List.foldl_append, List.foldl_cons, List.foldl_nil]

theorem cutAll_concat (file : List α) (ws : List (Nat × List α)) (w : Nat × List α) :
    cutAll file (ws ++ [w]) = cutWrite (cutAll file ws) w.1 w.2 := by
  unfold cutAll
  rw [List.foldl_append, List.foldl_cons, List.foldl_nil]

theorem length_writeAll (file : List α) (ws : List (Nat × List α)) :
    (writeAll zero file ws).length = max file.length (extent (ws.map shape)) := by
  induction ws generalizing file with
  | nil => simp [writeAll, extent]
  | cons w ws ih =>
    have hrest := ih (overwrite zero file w.1 w.2)
    rw [length_overwrite] at hrest
    refine hrest.trans ?_
    rw [List.map_cons, extent_cons]
    by_cases hlen : w.2.length = 0
    · rw [if_pos hlen, if_pos (show (shape w).2 = 0 from hlen)]
    · rw [if_neg hlen, if_neg (show ¬ (shape w).2 = 0 from hlen), max_assoc]
      rfl

/-- The buffer never outgrows the file. -/
theorem length_cutAll_le (ws : List (Nat × List α)) :
    (cutAll [] ws).length ≤ (writeAll zero [] ws).length := by
  induction ws using List.reverseRecOn with
  | nil => exact le_rfl
  | append_singleton ws w ih =>
    rw [cutAll_concat, writeAll_concat, length_cutWrite, length_overwrite]
    split <;> omega

/-- The first `n` bytes of `file` are there, and are those of `g`. -/
def SameUpTo (zero : α) (n : Nat) (f g : List α) : Prop :=
  n ≤ f.length ∧ ∀ i < n, f.getD i zero = g.getD i zero

theorem eq_iff_sameUpTo {f g : List α} (h : f.length ≤ g.length) :
    f = g ↔ SameUpTo zero g.length f g := by
  constructor
  · rintro rfl
    exact ⟨le_rfl, fun _ _ => rfl⟩
  · rintro ⟨hlen, hsame⟩
    have heq : f.length = g.length := h.antisymm hlen
    refine List.ext_getElem heq fun i hf hg => ?_
    have hi := hsame i hg
    rw [List.getD_eq_getElem f zero hf, List.getD_eq_getElem g zero hg] at hi
    exact hi

/-- What one write keeps of an intact beginning, and what it adds. -/
theorem SameUpTo.write {m n : Nat} {f g : List α} {offset : Nat} {data : List α}
    (h : SameUpTo zero m f g)
    (hn : if n ≤ offset then n ≤ m else n ≤ offset + data.length ∧ offset ≤ m) :
    SameUpTo zero n (cutWrite f offset data) (overwrite zero g offset data) := by
  obtain ⟨hlen, hsame⟩ := h
  constructor
  · rw [length_cutWrite]
    split at hn <;> omega
  · intro i hi
    rw [getD_cutWrite, getD_overwrite]
    split at hn
    · rw [if_pos (by omega), if_neg (by omega)]
      exact hsame i (by omega)
    · by_cases hoff : i < offset
      · rw [if_pos (by omega), if_neg (by omega)]
        exact hsame i (by omega)
      · have hmin : min offset f.length = offset := by omega
        rw [hmin, if_neg hoff, if_pos (by omega)]

/-- **Damage stays**: with the right data, a write that starts behind it does not repair it. -/
theorem exists_write_of_not_sameUpTo [Nontrivial α] {m n : Nat} {f g : List α}
    (h : ¬ SameUpTo zero m f g) {offset : Nat} (hm : m ≤ offset) (hn : m ≤ n) (length : Nat) :
    ∃ data : List α, data.length = length ∧
      ¬ SameUpTo zero n (cutWrite f offset data) (overwrite zero g offset data) := by
  obtain ⟨x, hx⟩ := exists_ne (g.getD f.length zero)
  refine ⟨List.replicate length x, List.length_replicate, fun ⟨hlen, hsame⟩ => h ?_⟩
  rw [length_cutWrite, List.length_replicate] at hlen
  have hfull : m ≤ f.length := by
    by_contra hshort
    have hi := hsame f.length (by omega)
    rw [getD_cutWrite, getD_overwrite, if_neg (by omega), if_neg (by omega),
      List.getD_replicate _ (by omega)] at hi
    exact hx hi
  refine ⟨hfull, fun i hi => ?_⟩
  have hboth := hsame i (by omega)
  rw [getD_cutWrite, getD_overwrite, if_pos (by omega), if_neg (by omega)] at hboth
  exact hboth

theorem sameUpTo_of_covers {n : Nat} {ws : List (Nat × List α)}
    (h : Covers n (ws.map shape).reverse) :
    SameUpTo zero n (cutAll [] ws) (writeAll zero [] ws) := by
  induction ws using List.reverseRecOn generalizing n with
  | nil =>
    obtain rfl : n = 0 := h
    exact ⟨le_rfl, fun i hi => absurd hi (by omega)⟩
  | append_singleton ws w ih =>
    rw [List.map_append, List.map_singleton, List.reverse_concat] at h
    rw [cutAll_concat, writeAll_concat]
    unfold Covers at h
    by_cases hn : n ≤ w.1
    · rw [if_pos (show n ≤ (shape w).1 from hn)] at h
      exact (ih h).write (by rw [if_pos hn])
    · rw [if_neg (show ¬ n ≤ (shape w).1 from hn)] at h
      exact (ih h.2).write (by rw [if_neg hn]; exact ⟨h.1, le_rfl⟩)

theorem exists_of_not_covers (zero : α) [Nontrivial α] {n : Nat} {ws : List (Nat × List α)}
    (h : ¬ Covers n (ws.map shape).reverse) :
    ∃ ws' : List (Nat × List α), ws'.map shape = ws.map shape ∧
      ¬ SameUpTo zero n (cutAll [] ws') (writeAll zero [] ws') := by
  induction ws using List.reverseRecOn generalizing n with
  | nil =>
    refine ⟨[], rfl, fun hsame => h ?_⟩
    exact Nat.le_zero.mp hsame.1
  | append_singleton ws w ih =>
    rw [List.map_append, List.map_singleton, List.reverse_concat] at h
    unfold Covers at h
    -- damage before byte `m` that the last write does not repair
    have key : ∀ m, m ≤ w.1 → m ≤ n → ¬ Covers m (ws.map shape).reverse →
        ∃ ws' : List (Nat × List α), ws'.map shape = (ws ++ [w]).map shape ∧
          ¬ SameUpTo zero n (cutAll [] ws') (writeAll zero [] ws') := by
      intro m hm hmn hcovers
      obtain ⟨ws', hshape, hsame⟩ := ih hcovers
      obtain ⟨data, hdata, hlast⟩ := exists_write_of_not_sameUpTo hsame hm hmn w.2.length
      refine ⟨ws' ++ [(w.1, data)], ?_, ?_⟩
      · rw [List.map_append, List.map_append, hshape, List.map_singleton, List.map_singleton]
        simp only [shape, hdata]
      · rw [cutAll_concat, writeAll_concat]
        exact hlast
    by_cases hn : n ≤ w.1
    · rw [if_pos (show n ≤ (shape w).1 from hn)] at h
      exact key n hn le_rfl h
    · rw [if_neg (show ¬ n ≤ (shape w).1 from hn)] at h
      by_cases hreach : n ≤ w.1 + w.2.length
      · exact key w.1 le_rfl (by omega) fun hcovers => h ⟨hreach, hcovers⟩
      · refine ⟨ws ++ [w], rfl, fun hsame => hreach ?_⟩
        have hlen := hsame.1
        rw [cutAll_concat, length_cutWrite] at hlen
        omega

/-- **Cutting off instead of overwriting**, for a sequence: right for all data of these offsets and
lengths iff the offsets and lengths are `Intact`. -/
theorem cutAll_eq_writeAll_iff (zero : α) [Nontrivial α] {ws : List (Nat × List α)} :
    (∀ ws' : List (Nat × List α), ws'.map shape = ws.map shape →
      cutAll [] ws' = writeAll zero [] ws') ↔ Intact (ws.map shape) := by
  have hiff : ∀ ws' : List (Nat × List α), ws'.map shape = ws.map shape →
      (cutAll [] ws' = writeAll zero [] ws' ↔
        SameUpTo zero (extent (ws.map shape)) (cutAll [] ws') (writeAll zero [] ws')) := by
    intro ws' hshape
    have hlen : (writeAll zero [] ws').length = extent (ws.map shape) := by
      rw [length_writeAll, hshape, List.length_nil, Nat.zero_max]
    rw [eq_iff_sameUpTo (length_cutAll_le ws'), hlen]
  constructor
  · intro h
    by_contra hnot
    obtain ⟨ws', hshape, hsame⟩ := exists_of_not_covers zero hnot
    exact hsame ((hiff ws' hshape).mp (h ws' hshape))
  · intro h ws' hshape
    refine (hiff ws' hshape).mpr (sameUpTo_of_covers ?_)
    rw [hshape]
    exact h

end Cowrie.Lib
