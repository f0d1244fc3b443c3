import Cowrie.Lib.OrderedDict
import Cowrie.Lib.Recency
import Cowrie.Lib.Run
import Mathlib.Algebra.GroupWithZero.Nat
import Mathlib.Algebra.Order.Group.Int
import Mathlib.Algebra.Order.Group.Unbundled.Basic

/-!
# The response cache (`src/cowrie/llm/bedrock.py:31-86`)

`ResponseCache` keeps at most `max_entries` responses, in an `OrderedDict` in the order of their last use, and
returns none that is older than `ttl_seconds`. Times are of any ordered group; `now` is what
`time.monotonic()` returns in the operation.

* `Logged` is a cache with a log of what was done: the operations with their times and results, and how many
  keys each of them removed. `Logged.step` takes the operations of a clock that does not go back.
* `lastPut`, `uses`: what the log says about a key, its last value and the puts and hits. The log does not say
  what is in the cache; `Sound` does.
* `Applied`: what an operation can do, one case for each path through `get` and `put`; every field of `Sound`
  is kept by each of them.
* **`cache_lru`**: the cache is a TTL-bounded LRU.
-/

namespace Cowrie.Llm

open Lib
open scoped List

variable {T : Type}

structure CacheEntry (T : Type) where
  value : String
  insertedAt : T
  deriving DecidableEq

structure ResponseCache (T : Type) where
  maxEntries : Nat
  ttlSeconds : T
  store : OrderedDict String (CacheEntry T) := .empty
  hits : Nat := 0
  misses : Nat := 0
  evictions : Nat := 0
  deriving DecidableEq

namespace ResponseCache

/-- `get`. -/
def get [AddCommGroup T] [LinearOrder T] (now : T) (key : String) (c : ResponseCache T) :
    Option String × ResponseCache T :=
  match c.store.get? key with
  | none => (none, { c with misses := c.misses + 1 })
  | some entry =>
    if c.ttlSeconds < now - entry.insertedAt then
      (none, { c with store := c.store.del key, evictions := c.evictions + 1, misses := c.misses + 1 })
    else (some entry.value, { c with store := c.store.moveToEnd key, hits := c.hits + 1 })

/-- `put`. -/
def put (now : T) (key value : String) (c : ResponseCache T) : ResponseCache T :=
  if key ∈ c.store.keys then { c with store := (c.store.moveToEnd key).set key ⟨value, now⟩ }
  else
    let store := c.store.set key ⟨value, now⟩
    if c.maxEntries < store.size then { c with store := store.popFirst, evictions := c.evictions + 1 }
    else { c with store := store }

/-- `invalidate`. -/
def invalidate (key : String) (c : ResponseCache T) : ResponseCache T := { c with store := c.store.del key }

/-- `clear`. -/
def clear (c : ResponseCache T) : ResponseCache T := { c with store := .empty }

end ResponseCache

inductive CacheOp
  | get (key : String)
  | put (key value : String)
  | invalidate (key : String)
  | clear
  deriving DecidableEq, Repr

/-! ## What is done -/

/-- An operation that was done: its time, what it returned and how many keys it removed. -/
structure Done (T : Type) where
  now : T
  op : CacheOp
  result : Option String
  removed : Nat
  deriving DecidableEq

structure Logged (T : Type) where
  cache : ResponseCache T
  log : List (Done T) := []
  deriving DecidableEq

/-- The number of keys of the first cache that are not in the second. -/
def removed (c c' : ResponseCache T) : Nat := (c.store.keys.filter (· ∉ c'.store.keys)).length

/-- The value of the last put of a key and its time, unless it was invalidated or cleared since. -/
def lastPut (log : List (Done T)) (key : String) : Option (String × T) :=
  log.foldl (fun last d =>
    match d.op with
    | .get _ => last
    | .put k value => if k = key then some (value, d.now) else last
    | .invalidate k => if k = key then none else last
    | .clear => none) none

/-- The key that is put or hit. -/
def Done.used (d : Done T) : Option String :=
  match d.op with
  | .get k => if d.result.isSome then some k else none
  | .put k _ => some k
  | .invalidate _ => none
  | .clear => none

/-- The puts and hits. -/
def uses (log : List (Done T)) : List String := log.filterMap Done.used

/-- A get that returns a response. -/
def Done.isHit (d : Done T) : Bool :=
  match d.op with
  | .get _ => d.result.isSome
  | _ => false

/-- A get that returns none. -/
def Done.isMiss (d : Done T) : Bool :=
  match d.op with
  | .get _ => d.result.isNone
  | _ => false

/-- The keys removed by a get, which expired, or by a put, for lack of room. -/
def Done.evicted (d : Done T) : Nat :=
  match d.op with
  | .get _ => d.removed
  | .put _ _ => d.removed
  | .invalidate _ => 0
  | .clear => 0

theorem lastPut_concat (log : List (Done T)) (d : Done T) (key : String) :
    lastPut (log ++ [d]) key =
      match d.op with
      | .get _ => lastPut log key
      | .put k value => if k = key then some (value, d.now) else lastPut log key
      | .invalidate k => if k = key then none else lastPut log key
      | .clear => none := by
  unfold lastPut
  rw [List.foldl_append]
  rfl

theorem uses_concat (log : List (Done T)) (d : Done T) : uses (log ++ [d]) = uses log ++ d.used.toList := by
  unfold uses
  rw [List.filterMap_append]
  cases hused : d.used <;> simp [hused]

/-! ## The keys of the store -/

section
variable {d : OrderedDict String (CacheEntry T)} {key : String}

theorem keys_replaced (h : key ∈ d.keys) (entry : CacheEntry T) :
    ((d.moveToEnd key).set key entry).keys = d.keys.filter (· ≠ key) ++ [key] := by
  rw [OrderedDict.keys_set, OrderedDict.keys_moveToEnd h,
    if_pos (List.mem_append_right _ (List.mem_singleton_self key))]

theorem keys_added (h : key ∉ d.keys) (entry : CacheEntry T) : (d.set key entry).keys = d.keys ++ [key] := by
  rw [OrderedDict.keys_set, if_neg h]

/-- The first key makes room. -/
theorem keys_evicting (h : key ∉ d.keys) (entry : CacheEntry T) {first : String} {rest : List String}
    (hkeys : d.keys = first :: rest) : (d.set key entry).popFirst.keys = rest ++ [key] := by
  rw [OrderedDict.keys_popFirst, keys_added h, hkeys]
  rfl

end

theorem length_moved {keys : List String} {key : String} (hnodup : keys.Nodup) (h : key ∈ keys) :
    (keys.filter (· ≠ key) ++ [key]).length = keys.length := by
  have herase : keys.filter (· ≠ key) = keys.erase key := by
    rw [hnodup.erase_eq_filter]
    exact List.filter_congr fun x _ => by simp [bne, decide_not, beq_eq_decide]
  have hcount : (keys.filter (· ≠ key)).length = keys.length - 1 := by
    rw [herase, List.length_erase_of_mem h]
  have hpos := List.length_pos_of_mem h
  rw [List.length_append, hcount, List.length_singleton]
  omega

/-- What is gone when the keys are the same. -/
theorem removed_eq_zero {c c' : ResponseCache T} (h : c.store.keys ⊆ c'.store.keys) : removed c c' = 0 := by
  unfold removed
  rw [List.length_eq_zero_iff, List.filter_eq_nil_iff]
  intro j hj
  simpa using h hj

/-- What is gone when one key is. -/
theorem removed_eq_one {c c' : ResponseCache T} {key : String} (hkey : key ∈ c.store.keys)
    (hgone : key ∉ c'.store.keys) (h : ∀ j ∈ c.store.keys, j ≠ key → j ∈ c'.store.keys) : removed c c' = 1 := by
  unfold removed
  have hsame : c.store.keys.filter (· ∉ c'.store.keys) = c.store.keys.filter (· == key) := by
    refine List.filter_congr fun j hj => ?_
    by_cases hjk : j = key
    · subst hjk
      simp [hgone]
    · simp [hjk, h j hj hjk]
  rw [hsame, ← List.countP_eq_length_filter]
  exact List.count_eq_one_of_mem c.store.nodup_keys hkey

/-! ## One operation -/

variable [AddCommGroup T] [LinearOrder T]

/-- The operation at a time, and what it returns. -/
def ResponseCache.apply (now : T) (op : CacheOp) (c : ResponseCache T) : Option String × ResponseCache T :=
  match op with
  | .get key => c.get now key
  | .put key value => (none, c.put now key value)
  | .invalidate key => (none, c.invalidate key)
  | .clear => (none, c.clear)

def Logged.step (s : Logged T) (e : T × CacheOp) : Option (Logged T) :=
  if ∀ d ∈ s.log, d.now ≤ e.1 then
    let r := s.cache.apply e.1 e.2
    some ⟨r.2, s.log ++ [⟨e.1, e.2, r.1, removed s.cache r.2⟩]⟩
  else none

/-- What an operation can do. -/
inductive Applied (c : ResponseCache T) (now : T) : CacheOp → Option String → ResponseCache T → Prop
  | absent {key : String} (h : c.store.get? key = none) :
    Applied c now (.get key) none { c with misses := c.misses + 1 }
  | expired {key : String} {entry : CacheEntry T} (h : c.store.get? key = some entry)
      (hold : c.ttlSeconds < now - entry.insertedAt) :
    Applied c now (.get key) none
      { c with store := c.store.del key, evictions := c.evictions + 1, misses := c.misses + 1 }
  | hit {key : String} {entry : CacheEntry T} (h : c.store.get? key = some entry)
      (hfresh : now - entry.insertedAt ≤ c.ttlSeconds) :
    Applied c now (.get key) (some entry.value)
      { c with store := c.store.moveToEnd key, hits := c.hits + 1 }
  | replaced {key value : String} (h : key ∈ c.store.keys) :
    Applied c now (.put key value) none
      { c with store := (c.store.moveToEnd key).set key ⟨value, now⟩ }
  | added {key value : String} (h : key ∉ c.store.keys) (hroom : c.store.size < c.maxEntries) :
    Applied c now (.put key value) none { c with store := c.store.set key ⟨value, now⟩ }
  | evicting {key value : String} (h : key ∉ c.store.keys) (hfull : c.maxEntries ≤ c.store.size) :
    Applied c now (.put key value) none
      { c with store := (c.store.set key ⟨value, now⟩).popFirst, evictions := c.evictions + 1 }
  | invalidated {key : String} : Applied c now (.invalidate key) none { c with store := c.store.del key }
  | cleared : Applied c now .clear none { c with store := .empty }

theorem apply_applied (c : ResponseCache T) (now : T) (op : CacheOp) :
    Applied c now op (c.apply now op).1 (c.apply now op).2 := by
  cases op with
  | get key =>
    unfold ResponseCache.apply ResponseCache.get
    simp only
    cases hentry : c.store.get? key with
    | none => exact .absent hentry
    | some entry =>
      simp only
      split_ifs with hold
      · exact .expired hentry hold
      · exact .hit hentry (not_lt.mp hold)
  | put key value =>
    unfold ResponseCache.apply ResponseCache.put
    simp only
    split_ifs with hkey hfull
    · exact .replaced hkey
    · rw [OrderedDict.size_set_of_notMem hkey] at hfull
      exact .evicting hkey (Nat.le_of_lt_succ hfull)
    · rw [OrderedDict.size_set_of_notMem hkey] at hfull
      exact .added hkey (by omega)
  | invalidate key => exact .invalidated
  | clear => exact .cleared

/-! ## The invariant -/

/-- What is left of a put at time `t`: the key is in the store, made room for others, or expired. -/
def Kept (c : ResponseCache T) (log : List (Done T)) (key : String) (t : T) : Prop :=
  key ∈ c.store.keys ∨ c.maxEntries ≤ (since key (uses log)).dedup.length ∨ ∃ d ∈ log, c.ttlSeconds < d.now - t

/-- What the log says about the cache. -/
structure Sound (s : Logged T) : Prop where
  positive : 1 ≤ s.cache.maxEntries
  size : s.cache.store.size ≤ s.cache.maxEntries
  /-- Every entry is the last put of its key. -/
  entries : ∀ key entry, s.cache.store.get? key = some entry →
    lastPut s.log key = some (entry.value, entry.insertedAt)
  /-- The store is in the order of use. -/
  order : s.cache.store.keys <+ recency (uses s.log)
  kept : ∀ key value t, lastPut s.log key = some (value, t) → Kept s.cache s.log key t
  hits : s.cache.hits = s.log.countP Done.isHit
  misses : s.cache.misses = s.log.countP Done.isMiss
  evictions : s.cache.evictions = (s.log.map Done.evicted).sum

/-- Another operation, one that does not use the key. -/
theorem Kept.step {c c' : ResponseCache T} {log : List (Done T)} {d : Done T} {key : String} {t : T}
    (h : Kept c log key t) (hmax : c'.maxEntries = c.maxEntries) (httl : c'.ttlSeconds = c.ttlSeconds)
    (hused : d.used ≠ some key) (hmem : key ∈ c.store.keys → Kept c' (log ++ [d]) key t) :
    Kept c' (log ++ [d]) key t := by
  rcases h with h | h | ⟨e, he, hexpired⟩
  · exact hmem h
  · refine .inr (.inl ?_)
    rw [hmax, uses_concat]
    cases hd : d.used with
    | none => exact (List.append_nil (uses log)).symm ▸ h
    | some j =>
      have hj : j ≠ key := fun heq => hused (heq ▸ hd)
      exact h.trans (dedup_since_mono hj (uses log))
  · exact .inr (.inr ⟨e, List.mem_append_left _ he, httl ▸ hexpired⟩)

/-- A put for which there is no room finds a first key. -/
theorem Sound.exists_first {s : Logged T} (hs : Sound s) (hfull : s.cache.maxEntries ≤ s.cache.store.size) :
    ∃ first rest, s.cache.store.keys = first :: rest := by
  have hpos := hs.positive
  refine List.exists_cons_of_ne_nil (List.ne_nil_of_length_pos ?_)
  rw [OrderedDict.length_keys]
  omega

/-- The first key makes room for the others, all of which were used after it. -/
theorem Sound.made_room {s : Logged T} (hs : Sound s) {k first : String} {rest : List String}
    (h : k ∉ s.cache.store.keys) (hfull : s.cache.maxEntries ≤ s.cache.store.size)
    (hfirst : s.cache.store.keys = first :: rest) :
    s.cache.maxEntries ≤ (since first (uses s.log ++ [k])).dedup.length := by
  rw [hfirst] at h
  have hsub : rest ++ [k] ⊆ since first (uses s.log ++ [k]) := by
    rw [since_concat (List.ne_of_not_mem_cons h)]
    intro j hj
    rcases List.mem_append.mp hj with hj | hj
    · exact List.mem_cons_of_mem k (subset_since (hfirst ▸ hs.order) hj)
    · exact List.mem_cons.mpr (.inl (List.mem_singleton.mp hj))
  have hrest : rest.Nodup := (List.nodup_cons.mp (hfirst ▸ s.cache.store.nodup_keys)).2
  have hnodup : (rest ++ [k]).Nodup :=
    (List.perm_append_singleton k rest).nodup_iff.mpr
      (List.nodup_cons.mpr ⟨fun hk => h (List.mem_cons_of_mem first hk), hrest⟩)
  have hlength := length_le_since hnodup hsub
  rw [← OrderedDict.length_keys, hfirst, List.length_cons] at hfull
  rw [List.length_append, List.length_singleton] at hlength
  exact hfull.trans hlength

section
variable {s : Logged T} {c' : ResponseCache T} {now : T} {op : CacheOp} {result : Option String}
  (happlied : Applied s.cache now op result c')
include happlied

theorem settings_applied : c'.maxEntries = s.cache.maxEntries ∧ c'.ttlSeconds = s.cache.ttlSeconds := by
  cases happlied <;> exact ⟨rfl, rfl⟩

variable (hs : Sound s)
include hs

theorem size_applied : c'.store.size ≤ c'.maxEntries := by
  have hsize := hs.size
  rw [← OrderedDict.length_keys] at hsize ⊢
  cases happlied with
  | absent h => exact hsize
  | expired h hold =>
    rw [OrderedDict.keys_del]
    exact (List.length_filter_le _ _).trans hsize
  | hit h hfresh =>
    have hmem := OrderedDict.mem_keys_iff.mpr ⟨_, h⟩
    rw [OrderedDict.keys_moveToEnd hmem, length_moved s.cache.store.nodup_keys hmem]
    exact hsize
  | replaced h =>
    rw [keys_replaced h, length_moved s.cache.store.nodup_keys h]
    exact hsize
  | added h hroom =>
    rw [keys_added h, List.length_append, OrderedDict.length_keys]
    exact hroom
  | evicting h hfull =>
    obtain ⟨first, rest, hkeys⟩ := hs.exists_first hfull
    rw [hkeys, List.length_cons] at hsize
    rw [keys_evicting h _ hkeys, List.length_append]
    exact hsize
  | invalidated =>
    rw [OrderedDict.keys_del]
    exact (List.length_filter_le _ _).trans hsize
  | cleared => exact Nat.zero_le _

/-- Every entry is the last put of its key. -/
theorem entries_applied (n : Nat) (key : String) (entry : CacheEntry T) (hentry : c'.store.get? key = some entry) :
    lastPut (s.log ++ [⟨now, op, result, n⟩]) key = some (entry.value, entry.insertedAt) := by
  have hold := hs.entries key
  rw [lastPut_concat]
  cases happlied with
  | absent h => exact hold entry hentry
  | expired h hexpired =>
    simp only [OrderedDict.get?_del] at hentry
    split_ifs at hentry
    exact hold entry hentry
  | hit h hfresh =>
    simp only [OrderedDict.get?_moveToEnd] at hentry
    exact hold entry hentry
  | @replaced k value h =>
    simp only [OrderedDict.get?_set, OrderedDict.get?_moveToEnd] at hentry ⊢
    by_cases hk : key = k
    · rw [if_pos hk] at hentry
      rw [if_pos hk.symm, ← Option.some.inj hentry]
    · rw [if_neg hk] at hentry
      rw [if_neg (Ne.symm hk)]
      exact hold entry hentry
  | @added k value h hroom =>
    simp only [OrderedDict.get?_set] at hentry ⊢
    by_cases hk : key = k
    · rw [if_pos hk] at hentry
      rw [if_pos hk.symm, ← Option.some.inj hentry]
    · rw [if_neg hk] at hentry
      rw [if_neg (Ne.symm hk)]
      exact hold entry hentry
  | @evicting k value h hfull =>
    have hset := OrderedDict.get?_of_popFirst hentry
    simp only [OrderedDict.get?_set] at hset ⊢
    by_cases hk : key = k
    · rw [if_pos hk] at hset
      rw [if_pos hk.symm, ← Option.some.inj hset]
    · rw [if_neg hk] at hset
      rw [if_neg (Ne.symm hk)]
      exact hold entry hset
  | @invalidated k =>
    simp only [OrderedDict.get?_del] at hentry ⊢
    by_cases hk : key = k
    · rw [if_pos hk] at hentry
      cases hentry
    · rw [if_neg hk] at hentry
      rw [if_neg (Ne.symm hk)]
      exact hold entry hentry
  | cleared => cases hentry

/-- The store is in the order of use. -/
theorem order_applied (n : Nat) : c'.store.keys <+ recency (uses (s.log ++ [⟨now, op, result, n⟩])) := by
  have horder := hs.order
  have hmoved : ∀ key : String, s.cache.store.keys.filter (· ≠ key) ++ [key] <+
      recency (uses s.log ++ [key]) := fun key => by
    rw [recency_concat]
    exact (horder.filter _).append (List.Sublist.refl _)
  rw [uses_concat]
  cases happlied with
  | absent h => exact List.append_nil _ ▸ horder
  | expired h hold =>
    rw [OrderedDict.keys_del]
    exact List.append_nil _ ▸ List.filter_sublist.trans horder
  | @hit key entry h hfresh =>
    rw [OrderedDict.keys_moveToEnd (OrderedDict.mem_keys_iff.mpr ⟨_, h⟩)]
    exact hmoved key
  | @replaced key value h =>
    rw [keys_replaced h]
    exact hmoved key
  | @added key value h hroom =>
    rw [keys_added h, ← filter_ne_of_notMem h]
    exact hmoved key
  | @evicting key value h hfull =>
    rw [OrderedDict.keys_popFirst, keys_added h, ← filter_ne_of_notMem h]
    exact (List.tail_sublist _).trans (hmoved key)
  | invalidated =>
    rw [OrderedDict.keys_del]
    exact List.append_nil _ ▸ List.filter_sublist.trans horder
  | cleared => exact List.nil_sublist _

/-- What is left of the last put of every key. -/
theorem kept_applied (n : Nat) (key value : String) (t : T)
    (hlast : lastPut (s.log ++ [⟨now, op, result, n⟩]) key = some (value, t)) :
    Kept c' (s.log ++ [⟨now, op, result, n⟩]) key t := by
  obtain ⟨hmax, httl⟩ := settings_applied happlied
  have hold := hs.kept key value t
  have hunused : none ≠ some key := (Option.some_ne_none key).symm
  rw [lastPut_concat] at hlast
  cases happlied with
  | absent h => exact (hold hlast).step hmax httl hunused fun hmem => .inl hmem
  | @expired k entry h hexpired =>
    refine (hold hlast).step hmax httl hunused fun hmem => ?_
    by_cases hk : key = k
    · -- what expired is the last put of its key
      subst hk
      have hput := (hs.entries key entry h).symm.trans hlast
      obtain rfl : entry.insertedAt = t := (Prod.mk.inj (Option.some.inj hput)).2
      exact .inr (.inr ⟨_, List.mem_append_right _ (List.mem_singleton_self _), hexpired⟩)
    · exact .inl (OrderedDict.mem_keys_del.mpr ⟨hmem, hk⟩)
  | @hit k entry h hfresh =>
    by_cases hk : k = key
    · exact .inl (OrderedDict.mem_keys_moveToEnd.mpr (hk ▸ OrderedDict.mem_keys_iff.mpr ⟨_, h⟩))
    · exact (hold hlast).step hmax httl (by simpa [Done.used] using hk) fun hmem =>
        .inl (OrderedDict.mem_keys_moveToEnd.mpr hmem)
  | @replaced k v h =>
    by_cases hk : k = key
    · exact .inl (OrderedDict.mem_keys_set.mpr (.inl hk.symm))
    · simp only [if_neg hk] at hlast
      exact (hold hlast).step hmax httl (by simpa [Done.used] using hk) fun hmem =>
        .inl (OrderedDict.mem_keys_set.mpr (.inr (OrderedDict.mem_keys_moveToEnd.mpr hmem)))
  | @added k v h hroom =>
    by_cases hk : k = key
    · exact .inl (OrderedDict.mem_keys_set.mpr (.inl hk.symm))
    · simp only [if_neg hk] at hlast
      exact (hold hlast).step hmax httl (by simpa [Done.used] using hk) fun hmem =>
        .inl (OrderedDict.mem_keys_set.mpr (.inr hmem))
  | @evicting k v h hfull =>
    obtain ⟨first, rest, hfirst⟩ := hs.exists_first hfull
    have hkeys := keys_evicting h (⟨v, now⟩ : CacheEntry T) hfirst
    by_cases hk : k = key
    · exact .inl (hkeys ▸ hk ▸ List.mem_append_right _ (List.mem_singleton_self k))
    · simp only [if_neg hk] at hlast
      refine (hold hlast).step hmax httl (by simpa [Done.used] using hk) fun hmem => ?_
      rw [hfirst] at hmem
      rcases List.mem_cons.mp hmem with rfl | hmem
      · refine .inr (.inl ?_)
        rw [uses_concat]
        exact hs.made_room h hfull hfirst
      · exact .inl (hkeys ▸ List.mem_append_left _ hmem)
  | @invalidated k =>
    by_cases hk : k = key
    · simp only [if_pos hk, reduceCtorEq] at hlast
    · simp only [if_neg hk] at hlast
      exact (hold hlast).step hmax httl hunused fun hmem =>
        .inl (OrderedDict.mem_keys_del.mpr ⟨hmem, Ne.symm hk⟩)
  | cleared => cases hlast

omit hs in
theorem hits_applied (n : Nat) :
    c'.hits = s.cache.hits + [(⟨now, op, result, n⟩ : Done T)].countP Done.isHit := by
  cases happlied <;> rfl

omit hs in
theorem misses_applied (n : Nat) :
    c'.misses = s.cache.misses + [(⟨now, op, result, n⟩ : Done T)].countP Done.isMiss := by
  cases happlied <;> rfl

/-- What a get or a put removes is counted. -/
theorem evictions_applied :
    c'.evictions = s.cache.evictions + Done.evicted ⟨now, op, result, removed s.cache c'⟩ := by
  have hsame : ∀ {m : Nat}, m = 0 → s.cache.evictions = s.cache.evictions + m := fun h => by rw [h]; rfl
  have hone : ∀ {m : Nat}, m = 1 → s.cache.evictions + 1 = s.cache.evictions + m := fun h => by rw [h]
  cases happlied with
  | absent h => exact hsame (removed_eq_zero (List.Subset.refl _))
  | expired h hold =>
    exact hone (removed_eq_one (OrderedDict.mem_keys_iff.mpr ⟨_, h⟩)
      (fun hin => (OrderedDict.mem_keys_del.mp hin).2 rfl)
      fun j hj hne => OrderedDict.mem_keys_del.mpr ⟨hj, hne⟩)
  | hit h hfresh => exact hsame (removed_eq_zero fun j hj => OrderedDict.mem_keys_moveToEnd.mpr hj)
  | replaced h =>
    exact hsame (removed_eq_zero fun j hj =>
      OrderedDict.mem_keys_set.mpr (.inr (OrderedDict.mem_keys_moveToEnd.mpr hj)))
  | added h hroom => exact hsame (removed_eq_zero fun j hj => OrderedDict.mem_keys_set.mpr (.inr hj))
  | @evicting k v h hfull =>
    obtain ⟨first, rest, hfirst⟩ := hs.exists_first hfull
    have hkeys := keys_evicting h (⟨v, now⟩ : CacheEntry T) hfirst
    have hnodup := hfirst ▸ s.cache.store.nodup_keys
    refine hone (removed_eq_one (hfirst ▸ List.mem_cons_self) ?_ fun j hj hne => ?_)
    · rw [hkeys, List.mem_append, List.mem_singleton]
      rintro (hin | rfl)
      · exact (List.nodup_cons.mp hnodup).1 hin
      · exact h (hfirst ▸ List.mem_cons_self)
    · rw [hkeys]
      exact List.mem_append_left _ ((List.mem_cons.mp (hfirst ▸ hj)).resolve_left hne)
  | invalidated => rfl
  | cleared => rfl

end

/-- **One operation keeps the invariant.** -/
theorem Sound.step {s s' : Logged T} (hs : Sound s) {e : T × CacheOp} (h : s.step e = some s') : Sound s' := by
  unfold Logged.step at h
  split_ifs at h
  obtain rfl := Option.some.inj h
  have happlied := apply_applied s.cache e.1 e.2
  exact
    { positive := (settings_applied happlied).1.symm ▸ hs.positive
      size := size_applied happlied hs
      entries := fun key entry hentry => entries_applied happlied hs _ key entry hentry
      order := order_applied happlied hs _
      kept := fun key value t hlast => kept_applied happlied hs _ key value t hlast
      hits := by
        rw [hits_applied happlied _, hs.hits]
        exact List.countP_append.symm
      misses := by
        rw [misses_applied happlied _, hs.misses]
        exact List.countP_append.symm
      evictions := by
        rw [evictions_applied happlied hs, hs.evictions, List.map_append, List.sum_append]
        rfl }

/-! ## Gets and puts in a sound cache -/

section
variable {s : Logged T} {c' : ResponseCache T} {now : T} {key value : String} {result : Option String}

/-- What a get returns. -/
theorem last_of_get (happlied : Applied s.cache now (.get key) (some value) c') (hs : Sound s) :
    ∃ t, lastPut s.log key = some (value, t) ∧ now - t ≤ s.cache.ttlSeconds := by
  cases happlied with
  | @hit _ entry h hfresh => exact ⟨entry.insertedAt, hs.entries key entry h, hfresh⟩

/-- What a get has to return. -/
theorem get_of_last [IsOrderedAddMonoid T] (happlied : Applied s.cache now (.get key) result c') (hs : Sound s)
    (hclock : ∀ d ∈ s.log, d.now ≤ now) {t : T} (hlast : lastPut s.log key = some (value, t))
    (hfresh : now - t ≤ s.cache.ttlSeconds)
    (hothers : (since key (uses s.log)).dedup.length < s.cache.maxEntries) : result = some value := by
  rcases hs.kept key value t hlast with hmem | hroom | ⟨d, hd, hexpired⟩
  · obtain ⟨entry, hentry⟩ := OrderedDict.mem_keys_iff.mp hmem
    obtain ⟨rfl, rfl⟩ := Prod.mk.inj (Option.some.inj (hlast.symm.trans (hs.entries key entry hentry)))
    cases happlied with
    | absent h => cases hentry.symm.trans h
    | expired h hold =>
      obtain rfl := Option.some.inj (hentry.symm.trans h)
      exact absurd hfresh (not_le.mpr hold)
    | hit h _ =>
      obtain rfl := Option.some.inj (hentry.symm.trans h)
      rfl
  · exact absurd hothers (not_lt.mpr hroom)
  · -- it has expired for good
    have hlater : d.now - t ≤ now - t := sub_le_sub_right (hclock d hd) t
    exact absurd (hlater.trans hfresh) (not_le.mpr hexpired)

variable (happlied : Applied s.cache now (.put key value) result c') (hs : Sound s)
include happlied hs

/-- A put key is in the store. -/
theorem mem_of_put : key ∈ c'.store.keys := by
  cases happlied with
  | replaced h => exact OrderedDict.mem_keys_set.mpr (.inl rfl)
  | added h hroom => exact OrderedDict.mem_keys_set.mpr (.inl rfl)
  | evicting h hfull =>
    obtain ⟨first, rest, hfirst⟩ := hs.exists_first hfull
    rw [keys_evicting h _ hfirst]
    exact List.mem_append_right _ (List.mem_singleton_self key)

/-- **What is dropped is the least recently used**: every other key has been used since. -/
theorem used_since_dropped {dropped : String} (hmem : dropped ∈ s.cache.store.keys)
    (hgone : dropped ∉ c'.store.keys) {other : String} (hother : other ∈ s.cache.store.keys)
    (hne : other ≠ dropped) : other ∈ since dropped (uses s.log) := by
  cases happlied with
  | replaced h =>
    exact absurd (OrderedDict.mem_keys_set.mpr (.inr (OrderedDict.mem_keys_moveToEnd.mpr hmem))) hgone
  | added h hroom => exact absurd (OrderedDict.mem_keys_set.mpr (.inr hmem)) hgone
  | evicting h hfull =>
    obtain ⟨first, rest, hfirst⟩ := hs.exists_first hfull
    rw [keys_evicting h _ hfirst] at hgone
    rw [hfirst] at hmem hother
    have hdropped : dropped = first :=
      (List.mem_cons.mp hmem).resolve_right fun hrest => hgone (List.mem_append_left _ hrest)
    subst hdropped
    exact subset_since (hfirst ▸ hs.order) ((List.mem_cons.mp hother).resolve_left hne)

end

/-! ## Every run -/

/-- A new cache. -/
def Logged.start (maxEntries : Nat) (ttlSeconds : T) : Logged T := ⟨{ maxEntries, ttlSeconds }, []⟩

theorem sound_start {maxEntries : Nat} (hmax : 1 ≤ maxEntries) (ttlSeconds : T) :
    Sound (Logged.start maxEntries ttlSeconds) where
  positive := hmax
  size := Nat.zero_le _
  entries _ _ h := by cases h
  order := List.nil_sublist _
  kept _ _ _ h := by cases h
  hits := rfl
  misses := rfl
  evictions := rfl

/-- The settings of a cache do not change. -/
theorem settings_run {s s' : Logged T} {events : List (T × CacheOp)} (hrun : run Logged.step s events = some s') :
    s'.cache.maxEntries = s.cache.maxEntries ∧ s'.cache.ttlSeconds = s.cache.ttlSeconds := by
  have hstep : ∀ (u : Logged T) e v,
      u.cache.maxEntries = s.cache.maxEntries ∧ u.cache.ttlSeconds = s.cache.ttlSeconds → u.step e = some v →
        v.cache.maxEntries = s.cache.maxEntries ∧ v.cache.ttlSeconds = s.cache.ttlSeconds := by
    intro u e v hu hv
    unfold Logged.step at hv
    split_ifs at hv
    obtain rfl := Option.some.inj hv
    obtain ⟨hmax, httl⟩ := settings_applied (apply_applied u.cache e.1 e.2)
    exact ⟨hmax.trans hu.1, httl.trans hu.2⟩
  exact run_inv' hstep ⟨rfl, rfl⟩ hrun

/-- **The response cache is a TTL-bounded LRU.** After any operations of a clock that does not go back: the
size is bounded; a get returns the last put that has not expired; it does so if fewer than `maxEntries` other
keys were used since; a put drops the least recently used key, never its own; the counters are those of the
log. -/
theorem cache_lru [IsOrderedAddMonoid T] {maxEntries : Nat} (hmax : 1 ≤ maxEntries) {ttlSeconds : T}
    {events : List (T × CacheOp)} {s : Logged T}
    (hrun : run Logged.step (.start maxEntries ttlSeconds) events = some s) :
    s.cache.store.size ≤ maxEntries ∧
      (∀ now key value, (s.cache.get now key).1 = some value →
        ∃ t, lastPut s.log key = some (value, t) ∧ now - t ≤ ttlSeconds) ∧
      (∀ now key value t, (∀ d ∈ s.log, d.now ≤ now) → lastPut s.log key = some (value, t) →
        now - t ≤ ttlSeconds → (since key (uses s.log)).dedup.length < maxEntries →
        (s.cache.get now key).1 = some value) ∧
      (∀ now key value, key ∈ (s.cache.put now key value).store.keys ∧
        ∀ dropped ∈ s.cache.store.keys, dropped ∉ (s.cache.put now key value).store.keys →
          ∀ other ∈ s.cache.store.keys, other ≠ dropped → other ∈ since dropped (uses s.log)) ∧
      s.cache.hits = s.log.countP Done.isHit ∧ s.cache.misses = s.log.countP Done.isMiss ∧
      s.cache.evictions = (s.log.map Done.evicted).sum := by
  have hs : Sound s := run_inv' (fun _ _ _ hs hstep => hs.step hstep) (sound_start hmax ttlSeconds) hrun
  obtain ⟨rfl, rfl⟩ := settings_run hrun
  have happlied := apply_applied s.cache
  refine ⟨hs.size, fun now key value hget => ?_, fun now key value t hclock hlast hfresh hothers => ?_,
    fun now key value => ?_, hs.hits, hs.misses, hs.evictions⟩
  · have hgot := happlied now (.get key)
    exact last_of_get (hget ▸ hgot) hs
  · exact get_of_last (happlied now (.get key)) hs hclock hlast hfresh hothers
  · have hput := happlied now (.put key value)
    exact ⟨mem_of_put hput hs, fun _ hmem hgone _ hother hne => used_since_dropped hput hs hmem hgone hother hne⟩

/-- Three puts and a hit in a cache for two. -/
def threePuts : List (Int × CacheOp) := [(0, .put "a" "1"), (1, .put "b" "2"), (2, .get "a"), (3, .put "c" "3")]

/-- The cache after them: `b` was dropped. -/
def afterThreePuts : Logged Int :=
  ⟨{ maxEntries := 2, ttlSeconds := 10, store := ⟨[("a", ⟨"1", 0⟩), ("c", ⟨"3", 3⟩)], by decide⟩,
     hits := 1, evictions := 1 },
   [⟨0, .put "a" "1", none, 0⟩, ⟨1, .put "b" "2", none, 0⟩, ⟨2, .get "a", some "1", 0⟩,
     ⟨3, .put "c" "3", none, 1⟩]⟩

theorem cache_lru_three : run Logged.step (.start 2 10) threePuts = some afterThreePuts ∧
    afterThreePuts.cache.store.size ≤ 2 ∧ (afterThreePuts.cache.get 9 "a").1 = some "1" ∧
    afterThreePuts.cache.evictions = (afterThreePuts.log.map Done.evicted).sum := by
  have hrun : run Logged.step (.start 2 10) threePuts = some afterThreePuts := by decide +kernel
  obtain ⟨hsize, -, hkept, -, -, -, hevictions⟩ := cache_lru (by decide) hrun
  exact ⟨hrun, hsize, hkept 9 "a" "1" 0 (by decide) (by decide) (by decide) (by decide), hevictions⟩

end Cowrie.Llm
