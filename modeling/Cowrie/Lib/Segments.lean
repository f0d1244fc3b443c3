import Cowrie.Lib.Ensures
import Mathlib.Algebra.BigOperators.Group.List.Basic
import Mathlib.Tactic.Ring

/-!
# Messages without a buffer

A stream of messages is cut into segments, and the receiver reads each segment on its own: at most one message
from a segment, and none from less than its `size`.

* `Segmentation stream`: the stream, cut into segments that are not empty.
* **`filterMap_read_iff`**: all messages are read exactly if the segments are the messages, and each of
  them can be read. No list of segments does better, because the sizes add up to the length of the stream.
* **`ReadsPieces.returns`**: a line that ends in a mark and one more element comes in pieces to a receiver that
  raises on a piece which ends in the mark.
-/

namespace Cowrie.Lib

variable {α β γ : Type*}

/-- The stream, cut into segments that are not empty. -/
structure Segmentation (stream : List α) where
  segments : List (List α)
  nonempty : ∀ s ∈ segments, s ≠ []
  flatten : segments.flatten = stream

variable {read : List α → Option β} (size : β → Nat)

/-- What is read is no longer than the segments, and no shorter only if every segment is a message. -/
theorem size_filterMap_le (hsize : ∀ s m, read s = some m → size m ≤ s.length) (segments : List (List α)) :
    ((segments.filterMap read).map size).sum ≤ (segments.map List.length).sum ∧
    ((∀ s ∈ segments, s ≠ []) → ((segments.filterMap read).map size).sum = (segments.map List.length).sum →
      segments.map read = (segments.filterMap read).map some ∧
      segments.map List.length = (segments.filterMap read).map size) := by
  induction segments with
  | nil => exact ⟨Nat.le_refl _, fun _ _ => ⟨rfl, rfl⟩⟩
  | cons s segments ih =>
    obtain ⟨hle, hexact⟩ := ih
    simp only [List.map_cons, List.sum_cons]
    cases hread : read s with
    | none =>
      rw [List.filterMap_cons_none hread]
      refine ⟨by omega, fun hne hsum => ?_⟩
      have hpos := List.length_pos_iff.mpr (hne s List.mem_cons_self)
      omega
    | some m =>
      have hm := hsize s m hread
      rw [List.filterMap_cons_some hread, List.map_cons, List.sum_cons]
      refine ⟨by omega, fun hne hsum => ?_⟩
      obtain ⟨hall, hlength⟩ := hexact (fun t ht => hne t (List.mem_cons_of_mem s ht)) (by omega)
      rw [hall, hlength, show s.length = size m by omega]
      exact ⟨rfl, rfl⟩

theorem sum_map_le {f g : γ → Nat} {ms : List γ} (h : ∀ m ∈ ms, f m ≤ g m) :
    (ms.map f).sum ≤ (ms.map g).sum ∧ ((ms.map f).sum = (ms.map g).sum → ms.map f = ms.map g) := by
  induction ms with
  | nil => exact ⟨Nat.le_refl _, fun _ => rfl⟩
  | cons m ms ih =>
    obtain ⟨hm, hms⟩ := List.forall_mem_cons.mp h
    obtain ⟨hle, hexact⟩ := ih hms
    simp only [List.map_cons, List.sum_cons]
    refine ⟨by omega, fun hsum => ?_⟩
    rw [hexact (by omega), show f m = g m by omega]

/-- **All messages are read** exactly if every segment is one of them. -/
theorem filterMap_read_iff (hsize : ∀ s m, read s = some m → size m ≤ s.length) {bytes : γ → List α}
    {meaning : γ → β} {ms : List γ} (hbytes : ∀ m ∈ ms, (bytes m).length ≤ size (meaning m))
    (cut : Segmentation (ms.flatMap bytes)) :
    cut.segments.filterMap read = ms.map meaning ↔
      cut.segments = ms.map bytes ∧ ∀ m ∈ ms, read (bytes m) = some (meaning m) := by
  obtain ⟨segments, hne, hflatten⟩ := cut
  simp only
  constructor
  · intro hread
    obtain ⟨hle, hexact⟩ := size_filterMap_le size hsize segments
    obtain ⟨hle', hexact'⟩ := sum_map_le hbytes
    have htotal : (segments.map List.length).sum = (ms.map fun m => (bytes m).length).sum := by
      rw [← List.length_flatten, hflatten, List.length_flatMap]
    rw [hread, List.map_map] at hle hexact
    have hsizes : (ms.map (size ∘ meaning)).sum = (ms.map fun m => size (meaning m)).sum := rfl
    obtain ⟨hall, hlength⟩ := hexact hne (by omega)
    have heq : segments = ms.map bytes := by
      rw [List.eq_iff_flatten_eq]
      refine ⟨hflatten, ?_⟩
      rw [hlength, List.map_map]
      exact (hexact' (by omega)).symm
    refine ⟨heq, fun m hm => ?_⟩
    rw [heq, List.map_map, List.map_map] at hall
    exact List.map_inj_left.mp hall m hm
  · rintro ⟨rfl, hread⟩
    rw [List.filterMap_map, ← List.filterMap_eq_map]
    exact List.filterMap_congr hread

/-! ## A line in pieces -/

section Piecewise

variable {ε σ τ : Type} {content : List τ} {mark x : τ} {segments : List (List τ)}
  {packet : List τ → Prog ε σ Unit} {I : List (List τ) → σ → Prop} {A : List (List τ) → List τ → Prop}
  {F : Prop} {Q : Unit → σ → Prop}

/-- Every piece satisfies `A`, together with the pieces before it. -/
def Piecewise (A : List (List τ) → List τ → Prop) (segments : List (List τ)) : Prop :=
  ∀ read p rest, segments = read ++ p :: rest → A read p

theorem piecewise_cons {p : List τ} {rest : List (List τ)} :
    Piecewise A (p :: rest) ↔ A [] p ∧ Piecewise (fun read => A (p :: read)) rest := by
  constructor
  · exact fun h => ⟨h [] p rest rfl, fun read q rest' hcut => h (p :: read) q rest' (congrArg (p :: ·) hcut)⟩
  · rintro ⟨hp, hrest⟩ read q rest' hcut
    cases read with
    | nil =>
      obtain ⟨rfl, -⟩ := List.cons.inj hcut
      exact hp
    | cons p' read =>
      obtain ⟨rfl, hcut'⟩ := List.cons.inj hcut
      exact hrest read q rest' hcut'

/-- What is asked of the pieces one by one. -/
theorem piecewise_const {W : List τ → Prop} : Piecewise (fun _ => W) segments ↔ ∀ p ∈ segments, W p := by
  constructor
  · intro h p hp
    obtain ⟨read, rest, hcut⟩ := List.append_of_mem hp
    exact h read p rest hcut
  · intro h read p rest hcut
    exact h p (by rw [hcut]; simp)

/-- What is asked of the first piece only. -/
theorem piecewise_first {W : List τ → Prop} (hne : segments ≠ []) :
    Piecewise (fun read p => read = [] → W p) segments ↔ W (segments.headD []) := by
  cases segments with
  | nil => exact absurd rfl hne
  | cons p rest =>
    constructor
    · exact fun h => h [] p rest rfl rfl
    · rintro h read q rest' hcut rfl
      obtain ⟨rfl, -⟩ := List.cons.inj hcut
      exact h

/-- A receiver to which a line comes in pieces, and whose end it sees by the mark: it raises on a piece that
ends in the mark, and otherwise returns if every piece satisfies `A` and the line satisfies `F`. -/
structure ReadsPieces (segments : List (List τ)) (mark x : τ) (packet : List τ → Prog ε σ Unit)
    (I : List (List τ) → σ → Prop) (A : List (List τ) → List τ → Prop) (F : Prop) (Q : Unit → σ → Prop) :
    Prop where
  piece : ∀ read p rest s, segments = read ++ p :: rest → mark ∉ p → I read s →
    Returns (A read p) (packet p) (fun _ t => I (read ++ [p]) t) s
  last : ∀ read c s, segments = read ++ [c ++ [mark, x]] → mark ∉ c → I read s →
    Returns (A read (c ++ [mark, x]) ∧ F) (packet (c ++ [mark, x])) Q s
  broken : ∀ read c rest s, segments = read ++ (c ++ [mark]) :: rest → mark ∉ c → I read s →
    Returns False (packet (c ++ [mark])) (fun _ _ => False) s

/-- The rest of the line. -/
theorem ReadsPieces.rest (h : ReadsPieces segments mark x packet I A F Q) (hx : x ≠ mark)
    (hne : ∀ p ∈ segments, p ≠ []) {rest : List (List τ)} {read : List (List τ)} {s : σ}
    (hcut : segments = read ++ rest) (hI : I read s) (hflatten : rest.flatten = content ++ [mark, x])
    (hcontent : mark ∉ content) :
    Returns ((∀ p ∈ rest, p.getLast? ≠ some mark) ∧ Piecewise (fun r => A (read ++ r)) rest ∧ F)
      (rest.forM packet) Q s := by
  induction rest generalizing read s content with
  | nil => simp at hflatten
  | cons p rest ih =>
    change Returns _ (packet p >>= fun _ => rest.forM packet) Q s
    rw [List.flatten_cons] at hflatten
    have hmark : ∀ content', content = p ++ content' → mark ∉ p := fun content' hp hmem =>
      hcontent (hp ▸ List.mem_append_left _ hmem)
    rw [piecewise_cons, List.append_nil]
    -- the piece ends before the mark, right after it, or with the line
    have hpiece : ∀ content', content = p ++ content' → rest.flatten = content' ++ [mark, x] →
        Returns ((∀ q ∈ p :: rest, q.getLast? ≠ some mark) ∧
            (A read p ∧ Piecewise (fun r => A (read ++ p :: r)) rest) ∧ F)
          (packet p >>= fun _ => rest.forM packet) Q s := by
      intro content' hp hrest
      have hlast : p.getLast? ≠ some mark := fun hl => hmark _ hp (List.mem_of_getLast? hl)
      have hnext := returns_bind ((h.piece read p rest s hcut (hmark _ hp) hI).weaken fun _ t ht =>
        ih (by rw [hcut, List.append_assoc]; rfl) ht hrest fun hmem =>
          hcontent (hp ▸ List.mem_append_right _ hmem))
      simp only [List.append_assoc, List.singleton_append] at hnext
      refine hnext.congr ?_
      rw [List.forall_mem_cons]
      exact ⟨fun h => ⟨⟨hlast, h.2.1⟩, ⟨h.1, h.2.2.1⟩, h.2.2.2⟩,
        fun h => ⟨h.2.1.1, h.1.2, h.2.1.2, h.2.2⟩⟩
    rcases List.append_eq_append_iff.mp hflatten with ⟨content', hp, hrest⟩ | ⟨e, hp, hrest⟩
    · exact hpiece content' hp hrest
    · cases e with
      | nil => exact hpiece [] (by rw [hp]; simp) (by rw [List.nil_append]; exact hrest.symm)
      | cons m e =>
        obtain ⟨rfl, hrest'⟩ := List.cons.inj hrest
        cases e with
        | nil =>
          subst hp
          have hraise := returns_bind (B := True) ((h.broken read content rest s hcut hcontent hI).weaken
            fun _ t ht => (ht.elim : Returns True (rest.forM packet) Q t))
          refine hraise.congr (iff_of_false (fun h => h.1) fun h => ?_)
          exact h.1 _ List.mem_cons_self List.getLast?_concat
        | cons y e =>
          obtain ⟨rfl, hend⟩ := List.cons.inj hrest'
          obtain rfl : rest = [] := by
            cases rest with
            | nil => rfl
            | cons q rest =>
              have hq := hne q (hcut ▸ by simp)
              have hnil : e ++ (q ++ rest.flatten) = [] := hend.symm
              simp only [List.append_eq_nil_iff] at hnil
              exact absurd hnil.2.1 hq
          obtain rfl : e = [] := by simpa using hend.symm
          subst hp
          have hwhole := h.last read content s hcut hcontent hI
          have hlast : (content ++ [mark, x]).getLast? ≠ some mark := by simpa using hx
          refine returns_before (hwhole.congr ?_ |>.weaken fun _ _ ht => returns_pure ht)
          have hnone : Piecewise (fun r => A (read ++ (content ++ [mark, x]) :: r)) [] :=
            fun r q rest' h => by simp at h
          simp only [List.forall_mem_singleton, hlast, ne_eq, not_false_eq_true, true_and, hnone, and_true]

/-- **A line in pieces.** -/
theorem ReadsPieces.returns (h : ReadsPieces segments mark x packet I A F Q) (hx : x ≠ mark)
    (hne : ∀ p ∈ segments, p ≠ []) {s : σ} (hI : I [] s) (hflatten : segments.flatten = content ++ [mark, x])
    (hcontent : mark ∉ content) :
    Returns ((∀ p ∈ segments, p.getLast? ≠ some mark) ∧ Piecewise A segments ∧ F) (segments.forM packet) Q s :=
  h.rest hx hne rfl hI hflatten hcontent

end Piecewise

end Cowrie.Lib
