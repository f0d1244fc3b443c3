import Cowrie.Core.Network
import Mathlib.Data.List.Nodup
import Mathlib.Logic.Relation

/-!
# Following the names of the DNS (`resolve_cname` in `src/cowrie/core/network.py`)

`resolveCname` in `Network.lean` gives the answer of `resolve_cname`, with a bound on its depth that is known to
be enough. Here the run itself is looked at: `resolveWithin` is none while the depth does not suffice, and a
`Search` holds, beside the shared `visited` set, the calls of `lookupAddress` in their order.

The graph may have cycles and may branch at every name. What falls along a chain of calls is the number of
answers for names that have not been visited (`unvisited`): a name enters the set before its records are looked at,
and no call takes a name out again.

* `resolveWithin_returns`: a depth above the number of unvisited answers is enough.
* `resolveWithin_eq`: the run is that of `resolveCname`.
* **`resolve_terminates`**: a run ends, looks no name up twice, and an address it returns belongs to a name
  that CNAME records lead to.
-/

namespace Cowrie.Core

variable {Host : Type}

/-- The state of a run: the set `visited`, and the names that were looked up so far. -/
structure Search (Host : Type) where
  visited : List Host
  lookups : List Host

/-- The address found, and the state after the run. -/
abbrev Found (Host : Type) := Option String × Search Host

/-- `if resolved_ip`. -/
def truthy (resolvedIp : Option String) : Bool := resolvedIp != none && resolvedIp != some ""

/-- The loop over the records of an answer. -/
def followHeaders (resolve : Host → Search Host → Option (Found Host)) :
    List (Record Host) → Search Host → Option (Found Host)
  | [], s => some (none, s)
  | .cname name :: headers, s =>
    (resolve name s).bind fun found =>
      if truthy found.1 then some found else followHeaders resolve headers found.2
  | .a dottedQuad :: _, s => some (dottedQuad, s)
  | .aaaa dottedQuad :: _, s => some (dottedQuad, s)
  | .other :: headers, s => followHeaders resolve headers s

theorem truthy_some (resolvedIp : String) : truthy (some resolvedIp) = true ↔ resolvedIp ≠ "" := by
  simp [truthy]

/-! ## The rounds of the loop -/

/-- What the loop does with a record, given what the call for a CNAME did. -/
theorem followHeaders_cname {resolve : Host → Search Host → Option (Found Host)} {name : Host}
    {headers : List (Record Host)} {s : Search Host} {found : Found Host}
    (h : followHeaders resolve (.cname name :: headers) s = some found) :
    ∃ inner, resolve name s = some inner ∧
      (found = inner ∨ followHeaders resolve headers inner.2 = some found) := by
  unfold followHeaders at h
  obtain ⟨inner, hinner, h⟩ := Option.bind_eq_some_iff.mp h
  refine ⟨inner, hinner, ?_⟩
  split_ifs at h
  · exact .inl (Option.some.inj h).symm
  · exact .inr h

theorem followHeaders_mono {resolve resolve' : Host → Search Host → Option (Found Host)}
    (hresolve : ∀ host s found, resolve host s = some found → resolve' host s = some found)
    {headers : List (Record Host)} {s : Search Host} {found : Found Host}
    (h : followHeaders resolve headers s = some found) :
    followHeaders resolve' headers s = some found := by
  induction headers generalizing s with
  | nil => exact h
  | cons rr headers ih =>
    cases rr with
    | cname name =>
      unfold followHeaders at h ⊢
      obtain ⟨inner, hinner, h⟩ := Option.bind_eq_some_iff.mp h
      rw [hresolve name s inner hinner, Option.bind_some]
      split_ifs at h ⊢ with htruthy
      · exact h
      · exact ih h
    | a dottedQuad => exact h
    | aaaa dottedQuad => exact h
    | other => exact ih h

/-- What every call keeps, the loop keeps. -/
theorem followHeaders_keeps {resolve : Host → Search Host → Option (Found Host)} {P : Search Host → Prop}
    (hresolve : ∀ host s found, P s → resolve host s = some found → P found.2)
    {headers : List (Record Host)} {s : Search Host} {found : Found Host} (hs : P s)
    (h : followHeaders resolve headers s = some found) : P found.2 := by
  induction headers generalizing s with
  | nil =>
    obtain rfl := Option.some.inj h
    exact hs
  | cons rr headers ih =>
    cases rr with
    | cname name =>
      obtain ⟨inner, hinner, rfl | h⟩ := followHeaders_cname h
      · exact hresolve name s _ hs hinner
      · exact ih (hresolve name s inner hs hinner) h
    | a dottedQuad =>
      obtain rfl := Option.some.inj h
      exact hs
    | aaaa dottedQuad =>
      obtain rfl := Option.some.inj h
      exact hs
    | other => exact ih hs h

/-- An address comes from an address record of the answer, or from the call for one of its CNAME records. -/
theorem followHeaders_source {resolve : Host → Search Host → Option (Found Host)} {headers : List (Record Host)}
    {s : Search Host} {found : Found Host} {ip : String} (hip : found.1 = some ip)
    (h : followHeaders resolve headers s = some found) :
    Record.a (some ip) ∈ headers ∨ Record.aaaa (some ip) ∈ headers ∨
      ∃ name s' inner, Record.cname name ∈ headers ∧ resolve name s' = some inner ∧ inner.1 = some ip := by
  induction headers generalizing s with
  | nil =>
    obtain rfl := Option.some.inj h
    cases hip
  | cons rr headers ih =>
    have hlater {s' : Search Host} (h : followHeaders resolve headers s' = some found) :
        Record.a (some ip) ∈ rr :: headers ∨ Record.aaaa (some ip) ∈ rr :: headers ∨
          ∃ name s' inner, Record.cname name ∈ rr :: headers ∧ resolve name s' = some inner ∧
            inner.1 = some ip := by
      rcases ih h with ha | haaaa | ⟨name, s', inner, hmem, hinner⟩
      · exact .inl (List.mem_cons_of_mem rr ha)
      · exact .inr (.inl (List.mem_cons_of_mem rr haaaa))
      · exact .inr (.inr ⟨name, s', inner, List.mem_cons_of_mem rr hmem, hinner⟩)
    cases rr with
    | cname name =>
      obtain ⟨inner, hinner, rfl | h⟩ := followHeaders_cname h
      · exact .inr (.inr ⟨name, s, _, List.mem_cons_self, hinner, hip⟩)
      · exact hlater h
    | a dottedQuad =>
      obtain rfl := Option.some.inj h
      exact .inl (by rw [← hip]; exact List.mem_cons_self)
    | aaaa dottedQuad =>
      obtain rfl := Option.some.inj h
      exact .inr (.inl (by rw [← hip]; exact List.mem_cons_self))
    | other => exact hlater h

/-- The loop ends if the calls do that start from what it has visited. -/
theorem followHeaders_returns {resolve : Host → Search Host → Option (Found Host)} {visited : List Host}
    (hresolve : ∀ host s, visited ⊆ s.visited →
      ∃ found, resolve host s = some found ∧ visited ⊆ found.2.visited)
    (headers : List (Record Host)) {s : Search Host} (hs : visited ⊆ s.visited) :
    ∃ found, followHeaders resolve headers s = some found ∧ visited ⊆ found.2.visited := by
  induction headers generalizing s with
  | nil => exact ⟨(none, s), rfl, hs⟩
  | cons rr headers ih =>
    cases rr with
    | cname name =>
      obtain ⟨inner, hinner, hvisited⟩ := hresolve name s hs
      unfold followHeaders
      rw [hinner, Option.bind_some]
      split_ifs
      · exact ⟨inner, rfl, hvisited⟩
      · exact ih hvisited
    | a dottedQuad => exact ⟨(dottedQuad, s), rfl, hs⟩
    | aaaa dottedQuad => exact ⟨(dottedQuad, s), rfl, hs⟩
    | other => exact ih hs

/-- The loop of `Network.lean`, without the trace. -/
theorem followHeaders_eq {resolve : Host → Search Host → Option (Found Host)}
    {plain : Host → List Host → Option String × List Host}
    (hresolve : ∀ host s found, resolve host s = some found → plain host s.visited = (found.1, found.2.visited))
    {headers : List (Record Host)} {s : Search Host} {found : Found Host}
    (h : followHeaders resolve headers s = some found) :
    followRecords plain headers s.visited = (found.1, found.2.visited) := by
  induction headers generalizing s with
  | nil =>
    obtain rfl := Option.some.inj h
    rfl
  | cons rr headers ih =>
    cases rr with
    | cname name =>
      unfold followHeaders at h
      obtain ⟨⟨resolvedIp, s'⟩, hinner, h⟩ := Option.bind_eq_some_iff.mp h
      have hplain := hresolve name s _ hinner
      unfold followRecords
      rw [hplain]
      cases resolvedIp with
      | none => exact ih h
      | some resolvedIp =>
        by_cases hempty : resolvedIp = ""
        · subst hempty
          exact ih h
        · rw [if_pos ((truthy_some resolvedIp).mpr hempty)] at h
          obtain rfl := Option.some.inj h
          exact if_neg hempty
    | a dottedQuad =>
      obtain rfl := Option.some.inj h
      rfl
    | aaaa dottedQuad =>
      obtain rfl := Option.some.inj h
      rfl
    | other => exact ih h

/-! ## A run -/

/-- `visited.add(address)`, and the call of `lookupAddress`. -/
def Search.ask (s : Search Host) (address : Host) : Search Host :=
  ⟨address :: s.visited, s.lookups ++ [address]⟩

/-- Each name that was looked up is in `visited`, and none was looked up twice. -/
def Search.Once (s : Search Host) : Prop := s.lookups.Nodup ∧ ∀ name ∈ s.lookups, name ∈ s.visited

theorem ask_once {s : Search Host} (hs : s.Once) {address : Host} (hnew : address ∉ s.visited) :
    (s.ask address).Once := by
  refine ⟨List.Nodup.append hs.1 (List.nodup_singleton address) ?_, ?_⟩
  · intro name hname hsame
    rw [List.mem_singleton.mp hsame] at hname
    exact hnew (hs.2 address hname)
  · intro name hname
    rcases List.mem_append.mp hname with hname | hname
    · exact List.mem_cons_of_mem address (hs.2 name hname)
    · rw [List.mem_singleton.mp hname]
      exact List.mem_cons_self

variable [DecidableEq Host]

/-- `resolve_cname` with at most `depth` calls inside each other. -/
def resolveWithin (dns : Dns Host) : Nat → Host → Search Host → Option (Found Host)
  | 0, _, _ => none
  | depth + 1, address, s =>
    if address ∈ s.visited then some (none, s)
    else
      match dns.lookup address with
      | none => some (none, s.ask address)
      | some headers => followHeaders (resolveWithin dns depth) headers (s.ask address)

/-- A CNAME record of `name` names `target`. -/
def Leads (dns : Dns Host) (name target : Host) : Prop :=
  ∃ headers, dns.lookup name = some headers ∧ Record.cname target ∈ headers

/-- An A or AAAA record of `name` has this text. -/
def Gives (dns : Dns Host) (name : Host) (ip : String) : Prop :=
  ∃ headers, dns.lookup name = some headers ∧
    (Record.a (some ip) ∈ headers ∨ Record.aaaa (some ip) ∈ headers)

/-- The names that CNAME records lead to. -/
abbrev Reachable (dns : Dns Host) : Host → Host → Prop := Relation.ReflTransGen (Leads dns)

/-- The outcomes of a call: the name was visited, it has no answer, or the loop runs over its records. -/
theorem resolveWithin_cases {dns : Dns Host} {depth : Nat} {address : Host} {s : Search Host} {found : Found Host}
    (h : resolveWithin dns (depth + 1) address s = some found) :
    found = (none, s) ∨
      address ∉ s.visited ∧ (found = (none, s.ask address) ∨
        ∃ headers, dns.lookup address = some headers ∧
          followHeaders (resolveWithin dns depth) headers (s.ask address) = some found) := by
  unfold resolveWithin at h
  split_ifs at h with hvisited
  · exact .inl (Option.some.inj h).symm
  · refine .inr ⟨hvisited, ?_⟩
    split at h
    · exact .inl (Option.some.inj h).symm
    · exact .inr ⟨_, ‹_›, h⟩

theorem resolveWithin_succ {dns : Dns Host} {depth : Nat} {address : Host} {s : Search Host} {found : Found Host}
    (h : resolveWithin dns depth address s = some found) :
    resolveWithin dns (depth + 1) address s = some found := by
  induction depth generalizing address s found with
  | zero => cases h
  | succ depth ih =>
    unfold resolveWithin at h ⊢
    split_ifs at h ⊢ with hvisited
    · exact h
    · split at h
      · exact h
      · exact followHeaders_mono (fun host s found => ih) h

theorem resolveWithin_mono {dns : Dns Host} {depth depth' : Nat} (hle : depth ≤ depth') {address : Host}
    {s : Search Host} {found : Found Host} (h : resolveWithin dns depth address s = some found) :
    resolveWithin dns depth' address s = some found := by
  induction hle with
  | refl => exact h
  | step _ ih => exact resolveWithin_succ ih

/-- **A depth above the number of unvisited answers is enough.** -/
theorem resolveWithin_returns (dns : Dns Host) {depth : Nat} (address : Host) {s : Search Host}
    (h : unvisited dns s.visited < depth) :
    ∃ found, resolveWithin dns depth address s = some found ∧ s.visited ⊆ found.2.visited := by
  induction depth generalizing address s with
  | zero => exact absurd h (Nat.not_lt_zero _)
  | succ depth ih =>
    unfold resolveWithin
    have hask : s.visited ⊆ (s.ask address).visited := List.subset_cons_self address s.visited
    by_cases hvisited : address ∈ s.visited
    · rw [if_pos hvisited]
      exact ⟨(none, s), rfl, List.Subset.refl _⟩
    · rw [if_neg hvisited]
      cases hanswer : dns.lookup address with
      | none => exact ⟨(none, s.ask address), rfl, hask⟩
      | some headers =>
        have hlt := unvisited_lt hanswer hvisited
        have hcall (host : Host) (s' : Search Host) (hs' : (s.ask address).visited ⊆ s'.visited) :
            ∃ found, resolveWithin dns depth host s' = some found ∧
              (s.ask address).visited ⊆ found.2.visited := by
          have hle : unvisited dns s'.visited ≤ unvisited dns (address :: s.visited) := unvisited_le dns hs'
          obtain ⟨found, hfound, hvisited⟩ := ih host (s := s') (by omega)
          exact ⟨found, hfound, List.Subset.trans hs' hvisited⟩
        obtain ⟨found, hfound, hkept⟩ := followHeaders_returns hcall headers (List.Subset.refl _)
        exact ⟨found, hfound, List.Subset.trans hask hkept⟩

/-- No name is looked up twice. -/
theorem resolveWithin_once {dns : Dns Host} {depth : Nat} {address : Host} {s : Search Host} {found : Found Host}
    (hs : s.Once) (h : resolveWithin dns depth address s = some found) : found.2.Once := by
  induction depth generalizing address s found with
  | zero => cases h
  | succ depth ih =>
    rcases resolveWithin_cases h with rfl | ⟨hnew, rfl | ⟨headers, -, h⟩⟩
    · exact hs
    · exact ask_once hs hnew
    · exact followHeaders_keeps (fun host s found => ih) (ask_once hs hnew) h

/-- An address that a run returns belongs to a name that CNAME records lead to. -/
theorem resolveWithin_source {dns : Dns Host} {depth : Nat} {address : Host} {s : Search Host} {found : Found Host}
    {ip : String} (hip : found.1 = some ip) (h : resolveWithin dns depth address s = some found) :
    ∃ name, Reachable dns address name ∧ Gives dns name ip := by
  induction depth generalizing address s found with
  | zero => cases h
  | succ depth ih =>
    rcases resolveWithin_cases h with rfl | ⟨-, rfl | ⟨headers, hanswer, h⟩⟩
    · cases hip
    · cases hip
    · rcases followHeaders_source hip h with ha | haaaa | ⟨next, s', inner, hnext, hinner, hip⟩
      · exact ⟨address, .refl, headers, hanswer, .inl ha⟩
      · exact ⟨address, .refl, headers, hanswer, .inr haaaa⟩
      · obtain ⟨name, hreach, hgives⟩ := ih hip hinner
        exact ⟨name, .head ⟨headers, hanswer, hnext⟩ hreach, hgives⟩

/-- The run is that of `resolveCname`. -/
theorem resolveWithin_eq {dns : Dns Host} {depth : Nat} {address : Host} {s : Search Host} {found : Found Host}
    (h : resolveWithin dns depth address s = some found) :
    resolveCname dns depth address s.visited = (found.1, found.2.visited) := by
  induction depth generalizing address s found with
  | zero => cases h
  | succ depth ih =>
    unfold resolveWithin at h
    unfold resolveCname
    by_cases hvisited : address ∈ s.visited
    · rw [if_pos hvisited] at h ⊢
      obtain rfl := Option.some.inj h
      rfl
    · rw [if_neg hvisited] at h ⊢
      cases hanswer : dns.lookup address with
      | none =>
        rw [hanswer] at h
        obtain rfl := Option.some.inj h
        rfl
      | some headers =>
        rw [hanswer] at h
        have hcall (host : Host) (s : Search Host) (found : Found Host)
            (hfound : resolveWithin dns depth host s = some found) :
            resolveCname dns depth host s.visited = (found.1, found.2.visited) := ih hfound
        exact followHeaders_eq hcall h

/-- **`resolve_cname` terminates on every graph**: however deep its calls may go, from the number of answers on
the run ends, with the address that `resolved` gives. It looks no name up twice, and its address is that of an A
or AAAA record of a name that CNAME records lead to. -/
theorem resolve_terminates (dns : Dns Host) (address : Host) :
    ∃ s : Search Host,
      (∀ depth, dns.length < depth →
        resolveWithin dns depth address ⟨[], []⟩ = some (resolved dns address, s)) ∧
      s.lookups.Nodup ∧
      ∀ ip, resolved dns address = some ip → ∃ name, Reachable dns address name ∧ Gives dns name ip := by
  have hle : unvisited dns [] ≤ dns.length := List.length_filter_le _ dns
  obtain ⟨⟨result, s⟩, hrun, -⟩ := resolveWithin_returns dns address (s := ⟨[], []⟩)
    (Nat.lt_succ_of_le hle)
  have hresult : resolved dns address = result := congrArg Prod.fst (resolveWithin_eq hrun)
  subst hresult
  refine ⟨s, fun depth hdepth => resolveWithin_mono hdepth hrun, ?_, fun ip hip => resolveWithin_source hip hrun⟩
  exact (resolveWithin_once ⟨List.nodup_nil, fun name hname => by cases hname⟩ hrun).1

end Cowrie.Core
