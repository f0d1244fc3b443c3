import Cowrie.Lib.OrderedDict

/-!
# An archive of drafts

Files are written under names of their own and, when they are complete, are kept under a key of what is in them. Of
drafts with the same key the first is kept.

* `Slot` is the name of a draft or a key.
* `keep` ends a draft. **`get?_keep_kept`**, `get?_keep_draft`: what is there then.
-/

namespace Cowrie.Lib

inductive Slot (ι κ : Type*) where
  | draft (i : ι)
  | kept (k : κ)
  deriving DecidableEq

abbrev Archive (ι κ α : Type*) [DecidableEq ι] [DecidableEq κ] := OrderedDict (Slot ι κ) α

namespace Archive

variable {ι κ α : Type*} [DecidableEq ι] [DecidableEq κ]

/-- The draft is kept under the key if nothing is there, and removed. -/
def keep (files : Archive ι κ α) (i : ι) (k : κ) (a : α) : Archive ι κ α :=
  if (files.get? (.kept k)).isSome then files.del (.draft i) else (files.del (.draft i)).set (.kept k) a

variable (files : Archive ι κ α) (i : ι) (k : κ) (a : α)

theorem get?_keep_kept (j : κ) : (files.keep i k a).get? (.kept j) =
    if j = k then some ((files.get? (.kept k)).getD a) else files.get? (.kept j) := by
  unfold keep
  split_ifs with hkept hj hj
  · obtain ⟨b, hb⟩ := Option.isSome_iff_exists.mp hkept
    rw [hj, OrderedDict.get?_del, if_neg (by simp), hb]
    rfl
  · rw [OrderedDict.get?_del, if_neg (by simp)]
  · rw [hj, OrderedDict.get?_set, if_pos rfl, Option.not_isSome_iff_eq_none.mp hkept]
    rfl
  · rw [OrderedDict.get?_set, if_neg (by simpa using hj), OrderedDict.get?_del, if_neg (by simp)]

theorem get?_keep_draft (j : ι) : (files.keep i k a).get? (.draft j) =
    if j = i then none else files.get? (.draft j) := by
  unfold keep
  split_ifs with hkept hj hj
  · rw [hj, OrderedDict.get?_del, if_pos rfl]
  · rw [OrderedDict.get?_del, if_neg (by simpa using hj)]
  · rw [hj, OrderedDict.get?_set, if_neg (by simp), OrderedDict.get?_del, if_pos rfl]
  · rw [OrderedDict.get?_set, if_neg (by simp), OrderedDict.get?_del, if_neg (by simpa using hj)]

/-- What is kept stays. -/
theorem get?_keep_of_kept {j : κ} {b : α} (h : files.get? (.kept j) = some b) :
    (files.keep i k a).get? (.kept j) = some b := by
  rw [get?_keep_kept]
  split_ifs with hj
  · rw [← hj, h]
    rfl
  · exact h

end Archive

end Cowrie.Lib
