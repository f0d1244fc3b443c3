import Cowrie.Lib.Dict
import Mathlib.Data.List.Induction

/-!
# Dictionaries with an order

A `dict` of Python remembers the order in which its keys were inserted, and an `OrderedDict` can move a key
to the end. Here both are a list of distinct keys with their values (`OrderedDict`); no operation can make
a key occur twice.

* `set` keeps the place of a key that is there, `del` and `popFirst` remove one, `moveToEnd` moves it.
* The keys after each operation: `keys_set`, `keys_del`, `keys_moveToEnd`, `keys_popFirst`.
* The value of a key after each of them: `get?_set`, `get?_del`, `get?_moveToEnd`, `get?_popFirst`.
* `ofPairs` enters pairs one after the other: the first with a key gives its place (`find?_keys_ofPairs`), the
  last its value (`get?_ofPairs`).
-/

namespace Cowrie.Lib

/-- A list of distinct keys and their values. -/
@[ext] structure OrderedDict (κ α : Type*) where
  entries : List (κ × α)
  nodup : (entries.map Prod.fst).Nodup

namespace OrderedDict

variable {κ α : Type*}

instance [DecidableEq κ] [DecidableEq α] : DecidableEq (OrderedDict κ α) := fun d d' =>
  decidable_of_iff (d.entries = d'.entries) OrderedDict.ext_iff.symm

def empty : OrderedDict κ α := ⟨[], List.nodup_nil⟩

/-- The keys, the first one inserted first. -/
def keys (d : OrderedDict κ α) : List κ := d.entries.map Prod.fst

def size (d : OrderedDict κ α) : Nat := d.entries.length

/-- `d.popitem(last=False)`. -/
def popFirst (d : OrderedDict κ α) : OrderedDict κ α :=
  ⟨d.entries.tail, d.nodup.sublist ((List.tail_sublist d.entries).map Prod.fst)⟩

/-- New values for the same keys. -/
def mapValues {β : Type*} (f : α → β) (d : OrderedDict κ α) : OrderedDict κ β :=
  ⟨d.entries.map fun e => (e.1, f e.2), by rw [List.map_map]; exact d.nodup⟩

/-- The entries that satisfy `p`. -/
def filter (p : κ → α → Bool) (d : OrderedDict κ α) : OrderedDict κ α :=
  ⟨d.entries.filter fun e => p e.1 e.2, d.nodup.sublist (List.filter_sublist.map Prod.fst)⟩

theorem length_keys (d : OrderedDict κ α) : d.keys.length = d.size := List.length_map Prod.fst

theorem nodup_keys (d : OrderedDict κ α) : d.keys.Nodup := d.nodup

@[simp] theorem keys_mapValues {β : Type*} (f : α → β) (d : OrderedDict κ α) : (d.mapValues f).keys = d.keys := by
  unfold keys mapValues
  rw [List.map_map]
  rfl

theorem keys_popFirst (d : OrderedDict κ α) : d.popFirst.keys = d.keys.tail := List.map_tail

variable [DecidableEq κ]

/-- `d.get(k)`. -/
def get? (d : OrderedDict κ α) (k : κ) : Option α := d.entries.lookup k

/-- `d[k] = a` in the list of entries. -/
def assign (k : κ) (a : α) : List (κ × α) → List (κ × α)
  | [] => [(k, a)]
  | e :: entries => if e.1 = k then (k, a) :: entries else e :: assign k a entries

theorem keys_assign (k : κ) (a : α) (entries : List (κ × α)) :
    (assign k a entries).map Prod.fst =
      if k ∈ entries.map Prod.fst then entries.map Prod.fst else entries.map Prod.fst ++ [k] := by
  induction entries with
  | nil => rfl
  | cons e entries ih =>
    unfold assign
    by_cases he : e.1 = k
    · rw [if_pos he, if_pos (by simp [he]), List.map_cons, List.map_cons, he]
    · rw [if_neg he, List.map_cons, ih, List.map_cons]
      by_cases hk : k ∈ entries.map Prod.fst
      · rw [if_pos hk, if_pos (List.mem_cons_of_mem _ hk)]
      · rw [if_neg hk, if_neg (by simp [Ne.symm he, hk] : k ∉ e.1 :: entries.map Prod.fst), List.cons_append]

theorem lookup_assign (k j : κ) (a : α) (entries : List (κ × α)) :
    (assign k a entries).lookup j = if j = k then some a else entries.lookup j := by
  induction entries with
  | nil =>
    unfold assign
    rw [List.lookup_cons]
    by_cases hj : j = k
    · simp [hj]
    · simp [hj, beq_false_of_ne hj]
  | cons e entries ih =>
    obtain ⟨i, b⟩ := e
    unfold assign
    by_cases hi : i = k
    · rw [if_pos hi, List.lookup_cons, List.lookup_cons, hi]
      by_cases hj : j = k
      · simp [hj]
      · simp [hj, beq_false_of_ne hj]
    · rw [if_neg hi, List.lookup_cons, List.lookup_cons, ih]
      by_cases hj : j = i
      · subst hj
        simp [hi]
      · simp [beq_false_of_ne hj]

/-- `d[k] = a`. -/
def set (d : OrderedDict κ α) (k : κ) (a : α) : OrderedDict κ α :=
  ⟨assign k a d.entries, by
    rw [keys_assign]
    split_ifs with hk
    · exact d.nodup
    · exact List.nodup_append.mpr ⟨d.nodup, List.nodup_singleton k, fun x hx y hy heq =>
        hk (List.mem_singleton.mp hy ▸ heq ▸ hx)⟩⟩

/-- `del d[k]`, and `d.pop(k, None)`. -/
def del (d : OrderedDict κ α) (k : κ) : OrderedDict κ α := ⟨dictDel d.entries k, keys_dictDel d.nodup k⟩

/-- `d.move_to_end(k)`, for a key that is there. -/
def moveToEnd (d : OrderedDict κ α) (k : κ) : OrderedDict κ α :=
  match d.get? k with
  | some a => (d.del k).set k a
  | none => d

theorem get?_empty (k : κ) : (empty : OrderedDict κ α).get? k = none := rfl

theorem mem_keys_iff {d : OrderedDict κ α} {k : κ} : k ∈ d.keys ↔ ∃ a, d.get? k = some a := by
  unfold keys get?
  generalize d.entries = entries
  induction entries with
  | nil => simp
  | cons e entries ih =>
    obtain ⟨i, b⟩ := e
    rw [List.lookup_cons, List.map_cons, List.mem_cons, ih]
    by_cases hk : k = i
    · simp [hk]
    · simp [hk, beq_false_of_ne hk]

theorem get?_eq_none_iff {d : OrderedDict κ α} {k : κ} : d.get? k = none ↔ k ∉ d.keys := by
  rw [mem_keys_iff, Option.eq_none_iff_forall_ne_some]
  exact not_exists.symm

@[simp] theorem get?_set (d : OrderedDict κ α) (k j : κ) (a : α) :
    (d.set k a).get? j = if j = k then some a else d.get? j := lookup_assign k j a d.entries

theorem keys_set (d : OrderedDict κ α) (k : κ) (a : α) :
    (d.set k a).keys = if k ∈ d.keys then d.keys else d.keys ++ [k] := keys_assign k a d.entries

theorem size_set_of_notMem {d : OrderedDict κ α} {k : κ} (h : k ∉ d.keys) (a : α) :
    (d.set k a).size = d.size + 1 := by
  rw [← length_keys, keys_set, if_neg h, List.length_append, length_keys]
  rfl

theorem size_set_of_mem {d : OrderedDict κ α} {k : κ} (h : k ∈ d.keys) (a : α) : (d.set k a).size = d.size := by
  rw [← length_keys, keys_set, if_pos h, length_keys]

@[simp] theorem get?_del (d : OrderedDict κ α) (k j : κ) :
    (d.del k).get? j = if j = k then none else d.get? j := lookup_dictDel d.entries k j

theorem keys_del (d : OrderedDict κ α) (k : κ) : (d.del k).keys = d.keys.filter (· ≠ k) := by
  unfold keys del dictDel
  rw [List.filter_map]
  rfl

theorem mem_keys_set {d : OrderedDict κ α} {k j : κ} {a : α} : j ∈ (d.set k a).keys ↔ j = k ∨ j ∈ d.keys := by
  rw [keys_set]
  split_ifs with hk
  · exact (or_iff_right_of_imp fun hj => hj ▸ hk).symm
  · rw [List.mem_append, List.mem_singleton, or_comm]

theorem mem_keys_del {d : OrderedDict κ α} {k j : κ} : j ∈ (d.del k).keys ↔ j ∈ d.keys ∧ j ≠ k := by
  rw [keys_del, List.mem_filter, decide_eq_true_eq]

theorem keys_moveToEnd {d : OrderedDict κ α} {k : κ} (h : k ∈ d.keys) :
    (d.moveToEnd k).keys = d.keys.filter (· ≠ k) ++ [k] := by
  obtain ⟨a, ha⟩ := mem_keys_iff.mp h
  unfold moveToEnd
  rw [ha]
  simp only
  rw [keys_set, keys_del, if_neg (by simp)]

@[simp] theorem get?_moveToEnd (d : OrderedDict κ α) (k j : κ) : (d.moveToEnd k).get? j = d.get? j := by
  unfold moveToEnd
  cases hk : d.get? k with
  | none => rfl
  | some a =>
    simp only [get?_set, get?_del]
    by_cases hj : j = k
    · rw [if_pos hj, hj, hk]
    · rw [if_neg hj, if_neg hj]

@[simp] theorem mem_keys_moveToEnd {d : OrderedDict κ α} {k j : κ} : j ∈ (d.moveToEnd k).keys ↔ j ∈ d.keys := by
  simp only [mem_keys_iff, get?_moveToEnd]

/-- The first key is gone. -/
theorem get?_popFirst {d : OrderedDict κ α} {k : κ} (h : d.keys.head? = some k) (j : κ) :
    d.popFirst.get? j = if j = k then none else d.get? j := by
  obtain ⟨entries, hnodup⟩ := d
  cases entries with
  | nil => cases h
  | cons e entries =>
    obtain ⟨i, a⟩ := e
    obtain rfl : i = k := Option.some.inj h
    change entries.lookup j = if j = i then none else ((i, a) :: entries).lookup j
    rw [List.lookup_cons]
    by_cases hj : j = i
    · subst hj
      rw [if_pos rfl]
      have hout : j ∉ (⟨entries, (List.nodup_cons.mp hnodup).2⟩ : OrderedDict κ α).keys :=
        (List.nodup_cons.mp hnodup).1
      exact get?_eq_none_iff.mpr hout
    · rw [if_neg hj, beq_false_of_ne hj]

theorem get?_of_popFirst {d : OrderedDict κ α} {k : κ} {a : α} (h : d.popFirst.get? k = some a) :
    d.get? k = some a := by
  cases hhead : d.keys.head? with
  | none =>
    have hnil : d.popFirst.keys = [] := by rw [keys_popFirst, List.head?_eq_none_iff.mp hhead, List.tail_nil]
    have hmem : k ∈ d.popFirst.keys := mem_keys_iff.mpr ⟨a, h⟩
    rw [hnil] at hmem
    cases hmem
  | some first =>
    rw [get?_popFirst hhead] at h
    split_ifs at h
    exact h

theorem entries_set_of_notMem {d : OrderedDict κ α} {k : κ} (h : k ∉ d.keys) (a : α) :
    (d.set k a).entries = d.entries ++ [(k, a)] := by
  obtain ⟨entries, hnodup⟩ := d
  change k ∉ entries.map Prod.fst at h
  change assign k a entries = entries ++ [(k, a)]
  clear hnodup
  induction entries with
  | nil => rfl
  | cons e entries ih =>
    obtain ⟨hne, hrest⟩ := not_or.mp (mt List.mem_cons.mpr h)
    unfold assign
    rw [if_neg (Ne.symm hne), ih hrest, List.cons_append]

theorem mapValues_set {β : Type*} (f : α → β) (d : OrderedDict κ α) (k : κ) (a : α) :
    (d.set k a).mapValues f = (d.mapValues f).set k (f a) := by
  obtain ⟨entries, hnodup⟩ := d
  refine OrderedDict.ext ?_
  change (assign k a entries).map (fun e => (e.1, f e.2)) = assign k (f a) (entries.map fun e => (e.1, f e.2))
  clear hnodup
  induction entries with
  | nil => rfl
  | cons e entries ih =>
    unfold assign
    by_cases he : e.1 = k
    · simp [he]
    · simp [he, ih]

theorem mapValues_del {β : Type*} (f : α → β) (d : OrderedDict κ α) (k : κ) :
    (d.del k).mapValues f = (d.mapValues f).del k := by
  refine OrderedDict.ext ?_
  change (dictDel d.entries k).map (fun e => (e.1, f e.2)) = dictDel (d.entries.map fun e => (e.1, f e.2)) k
  unfold dictDel
  rw [List.filter_map]
  rfl

theorem get?_mapValues {β : Type*} (f : α → β) (d : OrderedDict κ α) (k : κ) :
    (d.mapValues f).get? k = (d.get? k).map f := by
  obtain ⟨entries, hnodup⟩ := d
  change (entries.map fun e => (e.1, f e.2)).lookup k = (entries.lookup k).map f
  clear hnodup
  induction entries with
  | nil => rfl
  | cons e entries ih =>
    rw [List.map_cons, List.lookup_cons, List.lookup_cons, ih]
    cases k == e.1 <;> rfl

theorem get?_filter (p : κ → α → Bool) (d : OrderedDict κ α) (k : κ) :
    (d.filter p).get? k = (d.get? k).filter (p k) := by
  obtain ⟨entries, hnodup⟩ := d
  change (entries.filter fun e => p e.1 e.2).lookup k = (entries.lookup k).filter (p k)
  induction entries with
  | nil => rfl
  | cons e entries ih =>
    obtain ⟨i, a⟩ := e
    obtain ⟨hout, hrest⟩ := List.nodup_cons.mp hnodup
    rw [List.lookup_cons, List.filter_cons]
    by_cases hk : k = i
    · subst hk
      have hnone : entries.lookup k = none := get?_eq_none_iff (d := ⟨entries, hrest⟩).mpr hout
      cases hp : p k a with
      | true => simp [Option.filter_some, hp]
      | false => simp [Option.filter_some, hp, ih hrest, hnone]
    · rw [beq_false_of_ne hk]
      cases hp : p i a with
      | true => simp [List.lookup_cons, beq_false_of_ne hk, ih hrest]
      | false => simp [ih hrest]

/-- `for k in ks: del d[k]`. -/
def delAll (d : OrderedDict κ α) (ks : List κ) : OrderedDict κ α := ks.foldl del d

theorem get?_delAll (d : OrderedDict κ α) (ks : List κ) (j : κ) :
    (d.delAll ks).get? j = if j ∈ ks then none else d.get? j := by
  unfold delAll
  induction ks generalizing d with
  | nil => simp
  | cons k ks ih =>
    rw [List.foldl_cons, ih, get?_del]
    by_cases hj : j = k <;> by_cases hks : j ∈ ks <;> simp [hj, hks]

theorem keys_delAll (d : OrderedDict κ α) (ks : List κ) : (d.delAll ks).keys = d.keys.filter (· ∉ ks) := by
  unfold delAll
  induction ks generalizing d with
  | nil => simp
  | cons k ks ih =>
    rw [List.foldl_cons, ih, keys_del, List.filter_filter]
    refine List.filter_congr fun j _ => ?_
    simp [not_or, Bool.and_comm]

/-- What is left when distinct keys go. -/
theorem size_delAll {d : OrderedDict κ α} {ks : List κ} (hnodup : ks.Nodup) (hsub : ks ⊆ d.keys) :
    (d.delAll ks).size + ks.length = d.size := by
  have hperm : (d.keys.filter (· ∈ ks)).Perm ks := by
    refine (List.perm_ext_iff_of_nodup (d.nodup_keys.filter _) hnodup).mpr fun j => ?_
    rw [List.mem_filter, decide_eq_true_eq]
    exact ⟨And.right, fun hj => ⟨hsub hj, hj⟩⟩
  rw [← length_keys, ← length_keys, keys_delAll, ← hperm.length_eq, Nat.add_comm]
  have hsplit := List.length_eq_length_filter_add (l := d.keys) (fun j => decide (j ∈ ks))
  rw [hsplit]
  congr 2
  exact List.filter_congr fun j _ => by simp

/-- `d.update(d')`. -/
def update (d d' : OrderedDict κ α) : OrderedDict κ α := d'.entries.foldl (fun d e => d.set e.1 e.2) d

theorem get?_update (d d' : OrderedDict κ α) (k : κ) : (d.update d').get? k = (d'.get? k).or (d.get? k) := by
  obtain ⟨entries, hnodup⟩ := d'
  change (entries.foldl (fun d e => d.set e.1 e.2) d).get? k = (entries.lookup k).or (d.get? k)
  induction entries generalizing d with
  | nil => rfl
  | cons e entries ih =>
    obtain ⟨i, a⟩ := e
    obtain ⟨hout, hrest⟩ := List.nodup_cons.mp hnodup
    rw [List.foldl_cons, ih _ hrest, List.lookup_cons, get?_set]
    by_cases hk : k = i
    · subst hk
      have hnone : entries.lookup k = none :=
        get?_eq_none_iff (d := ⟨entries, hrest⟩).mpr hout
      simp [hnone]
    · simp [beq_false_of_ne hk, hk]

/-- `for k, a in pairs: d[k] = a`, from an empty dictionary. -/
def ofPairs (pairs : List (κ × α)) : OrderedDict κ α := pairs.foldl (fun d e => d.set e.1 e.2) empty

theorem ofPairs_concat (pairs : List (κ × α)) (e : κ × α) :
    ofPairs (pairs ++ [e]) = (ofPairs pairs).set e.1 e.2 := by
  unfold ofPairs
  rw [List.foldl_append]
  rfl

/-- The last pair with a key gives its value. -/
theorem get?_ofPairs (pairs : List (κ × α)) (k : κ) :
    (ofPairs pairs).get? k = (pairs.filter (·.1 = k)).getLast?.map Prod.snd := by
  induction pairs using List.reverseRecOn with
  | nil => rfl
  | append_singleton pairs e ih =>
    rw [ofPairs_concat, get?_set, ih, List.filter_append]
    by_cases hk : e.1 = k
    · simp [hk]
    · simp [hk, Ne.symm hk]

/-- The first pair with a key gives its place. -/
theorem find?_keys_ofPairs (p : κ → Bool) (pairs : List (κ × α)) :
    (ofPairs pairs).keys.find? p = (pairs.map Prod.fst).find? p := by
  induction pairs using List.reverseRecOn with
  | nil => rfl
  | append_singleton pairs e ih =>
    rw [ofPairs_concat, keys_set, List.map_append, List.find?_append, ← ih]
    split_ifs with hk
    · cases hfind : (ofPairs pairs).keys.find? p with
      | some k => rfl
      | none =>
        have hout : ¬ p e.1 = true := List.find?_eq_none.mp hfind e.1 hk
        simp [hout]
    · rw [List.find?_append]
      rfl

/-- The first entry whose key satisfies `p` has the value of that key. -/
theorem find?_entries (p : κ → Bool) (d : OrderedDict κ α) :
    (d.entries.find? fun e => p e.1).map Prod.snd = (d.keys.find? p).bind d.get? := by
  obtain ⟨entries, hnodup⟩ := d
  change (entries.find? fun e => p e.1).map Prod.snd =
    ((entries.map Prod.fst).find? p).bind fun k => entries.lookup k
  induction entries with
  | nil => rfl
  | cons e entries ih =>
    obtain ⟨hout, hrest⟩ := List.nodup_cons.mp hnodup
    rw [List.map_cons, List.find?_cons, List.find?_cons]
    cases hp : p e.1 with
    | true =>
      change some e.2 = ((e.1, e.2) :: entries).lookup e.1
      rw [List.lookup_cons_self]
    | false =>
      simp only [ih hrest]
      cases hfind : (entries.map Prod.fst).find? p with
      | none => rfl
      | some k =>
        have hne : k ≠ e.1 := fun h => hout (h ▸ List.mem_of_find?_eq_some hfind)
        simp only [Option.bind_some]
        rw [List.lookup_cons, beq_false_of_ne hne]

end OrderedDict

end Cowrie.Lib
