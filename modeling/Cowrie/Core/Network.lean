import Mathlib.Data.BitVec
import Mathlib.Data.List.Basic

/-!
# The outbound filter (`src/cowrie/core/network.py`)

`communication_allowed` decides whether a command of the attacker may connect to an address: a literal, or a
name whose records `resolve_cname` follows to the first A or AAAA record.

* Python's `ipaddress` is the parameter `Ipaddress`: reading an address, writing it, and that an address
  reads back as it was written. Membership in a network is the code of `_BaseNetwork.__contains__`: never for
  an address of the other version, and otherwise by the leading bits.
* A name in the DNS is a `Host`. Names of records are `dns.Name` objects, whose equality is not that of
  strings: the type and its equality are parameters, `text` is the name of a string. `Dns` are the answers,
  finitely many; a name without an answer fails. The text of a record is none if `dottedQuad` raises.
* `resolveCname` is `resolve_cname`, with the `visited` set handed on as the source shares it. `fuel` bounds
  the chain of names; `resolve_stable`: the number of answers is enough.

**`allowed_iff`**: the filter keeps the attacker away from the blocked networks, also by their IPv6 forms, iff
the address is not the IPv6 form of a blocked IPv4 address.
-/

namespace Cowrie.Core

/-! ## Addresses -/

/-- An `IPv4Address` or an `IPv6Address`. -/
inductive Address
  | v4 (n : BitVec 32)
  | v6 (n : BitVec 128) (scope : Option String)
  deriving DecidableEq, Repr

/-- An `IPv4Network` or an `IPv6Network`: an address in it and its prefix length. -/
inductive Network
  | v4 (n : BitVec 32) (prefixlen : Nat)
  | v6 (n : BitVec 128) (prefixlen : Nat)
  deriving DecidableEq, Repr

/-- `ip in network`. -/
def Network.contains : Network → Address → Bool
  | .v4 n prefixlen, .v4 ip => ip >>> (32 - prefixlen) == n >>> (32 - prefixlen)
  | .v6 n prefixlen, .v6 ip _ => ip >>> (128 - prefixlen) == n >>> (128 - prefixlen)
  | .v4 _ _, .v6 _ _ => false
  | .v6 _ _, .v4 _ => false

/-- The address `a.b.c.d`. -/
def quad (a b c d : BitVec 8) : BitVec 32 := a ++ b ++ c ++ d

/-- `BLOCKED_IPS`. -/
def blockedIps : List Network :=
  [.v4 (quad 0 0 0 0) 8, .v4 (quad 10 0 0 0) 8, .v4 (quad 172 16 0 0) 12, .v4 (quad 192 168 0 0) 16,
    .v4 (quad 169 254 0 0) 16, .v4 (quad 100 100 100 200) 32, .v4 (quad 127 0 0 0) 8, .v4 (quad 0 0 0 0) 8,
    .v4 (quad 224 0 0 0) 4, .v4 (quad 240 0 0 0) 4, .v4 (quad 255 255 255 255) 32, .v6 1 128]

/-- The address is in a blocked network. -/
def Blocked (a : Address) : Prop := ∃ network ∈ blockedIps, network.contains a

instance (a : Address) : Decidable (Blocked a) := inferInstanceAs (Decidable (∃ network ∈ blockedIps, _))

/-- The IPv4 address of an IPv4-mapped or IPv4-compatible IPv6 address. -/
def embedded : Address → Option (BitVec 32)
  | .v4 _ => none
  | .v6 n _ => if n >>> 32 = 0xffff ∨ n >>> 32 = 0 then some (n.setWidth 32) else none

/-- Python's `ipaddress`: `ip_address(s)`, none being a `ValueError`, and `str(ip)`. -/
structure Ipaddress where
  ipAddress : String → Option Address
  str : Address → String
  ipAddress_str : ∀ s a, ipAddress s = some a → ipAddress (str a) = some a

/-! ## Names -/

/-- The payload of a resource record. -/
inductive Record (Host : Type)
  | cname (name : Host)
  | a (dottedQuad : Option String)
  | aaaa (dottedQuad : Option String)
  | other

/-- What `lookupAddress` answers. -/
abbrev Dns (Host : Type) := List (Host × List (Record Host))

variable {Host : Type}

/-- The loop of `resolve_cname` over the records of an answer. -/
def followRecords (resolve : Host → List Host → Option String × List Host) :
    List (Record Host) → List Host → Option String × List Host
  | [], visited => (none, visited)
  | .cname name :: headers, visited =>
    match resolve name visited with
    | (some resolvedIp, visited) =>
      if resolvedIp = "" then followRecords resolve headers visited else (some resolvedIp, visited)
    | (none, visited) => followRecords resolve headers visited
  | .a dottedQuad :: _, visited => (dottedQuad, visited)
  | .aaaa dottedQuad :: _, visited => (dottedQuad, visited)
  | .other :: headers, visited => followRecords resolve headers visited

theorem followRecords_visited {resolve : Host → List Host → Option String × List Host}
    (hresolve : ∀ host visited, visited ⊆ (resolve host visited).2) (headers : List (Record Host))
    (visited : List Host) : visited ⊆ (followRecords resolve headers visited).2 := by
  induction headers generalizing visited with
  | nil => exact List.Subset.refl visited
  | cons rr headers ih =>
    cases rr with
    | cname name =>
      have hname := hresolve name visited
      unfold followRecords
      generalize resolve name visited = r at hname
      obtain ⟨resolvedIp, visited'⟩ := r
      cases resolvedIp with
      | none => exact List.Subset.trans hname (ih visited')
      | some resolvedIp =>
        simp only
        split_ifs
        · exact List.Subset.trans hname (ih visited')
        · exact hname
    | a dottedQuad => exact List.Subset.refl visited
    | aaaa dottedQuad => exact List.Subset.refl visited
    | other => exact ih visited

theorem followRecords_congr {resolve resolve' : Host → List Host → Option String × List Host}
    {visited : List Host} (hresolve : ∀ host v, visited ⊆ v → visited ⊆ (resolve host v).2)
    (hsame : ∀ host v, visited ⊆ v → resolve host v = resolve' host v) (headers : List (Record Host))
    {v : List Host} (hv : visited ⊆ v) : followRecords resolve headers v = followRecords resolve' headers v := by
  induction headers generalizing v with
  | nil => rfl
  | cons rr headers ih =>
    cases rr with
    | cname name =>
      have hname := hresolve name v hv
      unfold followRecords
      rw [← hsame name v hv]
      generalize resolve name v = r at hname
      obtain ⟨resolvedIp, v'⟩ := r
      cases resolvedIp with
      | none => exact ih hname
      | some resolvedIp =>
        simp only
        split_ifs
        · exact ih hname
        · rfl
    | a dottedQuad => rfl
    | aaaa dottedQuad => rfl
    | other => exact ih hv

variable [DecidableEq Host]

/-- `resolve_cname`. -/
def resolveCname (dns : Dns Host) : Nat → Host → List Host → Option String × List Host
  | 0, _, visited => (none, visited)
  | fuel + 1, address, visited =>
    if address ∈ visited then (none, visited)
    else
      match dns.lookup address with
      | none => (none, address :: visited)
      | some headers => followRecords (resolveCname dns fuel) headers (address :: visited)

/-- The text of the address that a name resolves to. -/
def resolved (dns : Dns Host) (host : Host) : Option String := (resolveCname dns (dns.length + 1) host []).1

/-- The test of `communication_allowed` against `BLOCKED_IPS`. -/
def notBlocked (ip : Ipaddress) (resolvedIp : String) : Bool :=
  match ip.ipAddress resolvedIp with
  | none => false
  | some a => !decide (Blocked a)

/-- `communication_allowed`. -/
def communicationAllowed (ip : Ipaddress) (dns : Dns Host) (text : String → Host) (address : String) : Bool :=
  match ip.ipAddress address with
  | some a => notBlocked ip (ip.str a)
  | none =>
    match resolved dns (text address) with
    | none => false
    | some resolvedIp => notBlocked ip resolvedIp

/-- The address that the attacker's string stands for. -/
def denoted (ip : Ipaddress) (dns : Dns Host) (text : String → Host) (address : String) : Option Address :=
  match ip.ipAddress address with
  | some a => some a
  | none => (resolved dns (text address)).bind ip.ipAddress

/-! ## The fuel of `resolveCname` -/

/-- The answers for names that have not been visited. -/
def unvisited (dns : Dns Host) (visited : List Host) : Nat := (dns.filter fun e => e.1 ∉ visited).length

theorem unvisited_le (dns : Dns Host) {visited visited' : List Host} (h : visited ⊆ visited') :
    unvisited dns visited' ≤ unvisited dns visited := by
  unfold unvisited
  refine (List.monotone_filter_right dns fun e he => ?_).length_le
  simpa using fun hmem => (by simpa using he : e.1 ∉ visited') (h hmem)

/-- A name with an answer has one fewer left. -/
theorem unvisited_lt {dns : Dns Host} {address : Host} {headers : List (Record Host)}
    (h : dns.lookup address = some headers) {visited : List Host} (hnew : address ∉ visited) :
    unvisited dns (address :: visited) < unvisited dns visited := by
  induction dns with
  | nil => cases h
  | cons e dns ih =>
    obtain ⟨name, answer⟩ := e
    have hle := unvisited_le dns (List.subset_cons_self address visited)
    rw [List.lookup_cons] at h
    unfold unvisited at hle ih ⊢
    by_cases haddress : address = name
    · subst haddress
      rw [List.filter_cons_of_neg (by simp), List.filter_cons_of_pos (by simpa using hnew), List.length_cons]
      omega
    · rw [beq_false_of_ne haddress] at h
      have hlt := ih h
      by_cases hname : name ∈ visited
      · rw [List.filter_cons_of_neg (by simp [hname]), List.filter_cons_of_neg (by simp [hname])]
        exact hlt
      · rw [List.filter_cons_of_pos (by simp [hname, Ne.symm haddress]),
          List.filter_cons_of_pos (by simpa using hname), List.length_cons, List.length_cons]
        omega

theorem resolveCname_visited (dns : Dns Host) (fuel : Nat) (host : Host) (visited : List Host) :
    visited ⊆ (resolveCname dns fuel host visited).2 := by
  induction fuel generalizing host visited with
  | zero => exact List.Subset.refl visited
  | succ fuel ih =>
    unfold resolveCname
    split_ifs
    · exact List.Subset.refl visited
    · split
      · exact List.subset_cons_self host visited
      · exact List.Subset.trans (List.subset_cons_self host visited) (followRecords_visited ih _ _)

/-- **Any fuel beyond the number of unvisited answers gives the same result.** -/
theorem resolve_stable (dns : Dns Host) {fuel fuel' : Nat} {host : Host} {visited : List Host}
    (h : unvisited dns visited < fuel) (h' : unvisited dns visited < fuel') :
    resolveCname dns fuel host visited = resolveCname dns fuel' host visited := by
  induction fuel generalizing fuel' host visited with
  | zero => exact absurd h (Nat.not_lt_zero _)
  | succ fuel ih =>
    obtain ⟨fuel', rfl⟩ : ∃ k, fuel' = k + 1 := ⟨fuel' - 1, by omega⟩
    unfold resolveCname
    by_cases hnew : host ∈ visited
    · rw [if_pos hnew, if_pos hnew]
    · rw [if_neg hnew, if_neg hnew]
      cases hanswer : dns.lookup host with
      | none => rfl
      | some headers =>
        have hlt := unvisited_lt hanswer hnew
        refine followRecords_congr (fun name v hv => ?_) (fun name v hv => ?_) headers
          (List.Subset.refl (host :: visited))
        · exact List.Subset.trans hv (resolveCname_visited dns fuel name v)
        · have hle := unvisited_le dns hv
          exact ih (by omega) (by omega)

/-- Resolving a name takes no more fuel than it has. -/
theorem resolved_eq (dns : Dns Host) (host : Host) {fuel : Nat} (h : dns.length < fuel) :
    (resolveCname dns fuel host []).1 = resolved dns host := by
  have hle : unvisited dns [] ≤ dns.length := List.length_filter_le _ dns
  exact congrArg Prod.fst (resolve_stable dns (by omega) (by omega))

/-! ## What is allowed -/

theorem allowed_eq (ip : Ipaddress) (dns : Dns Host) (text : String → Host) (address : String) :
    communicationAllowed ip dns text address = true ↔
      ∃ a, denoted ip dns text address = some a ∧ ¬ Blocked a := by
  unfold communicationAllowed denoted notBlocked
  cases hliteral : ip.ipAddress address with
  | some a => simp [ip.ipAddress_str _ _ hliteral]
  | none =>
    cases hname : resolved dns (text address) with
    | none => simp
    | some resolvedIp =>
      cases hip : ip.ipAddress resolvedIp with
      | none => simp [hip]
      | some a => simp [hip]

/-- The only blocked IPv6 address. -/
theorem blocked_v6_iff (n : BitVec 128) (scope : Option String) : Blocked (.v6 n scope) ↔ n = 1 := by
  simp [Blocked, blockedIps, Network.contains]

/-- **The filter keeps the attacker away from the blocked networks iff the address is not the IPv6 form of a
blocked IPv4 address**, `::1` apart. -/
theorem allowed_iff (ip : Ipaddress) (dns : Dns Host) (text : String → Host) (address : String) :
    (communicationAllowed ip dns text address = true → ∀ a, denoted ip dns text address = some a →
        ¬ Blocked a ∧ ∀ n, embedded a = some n → ¬ Blocked (.v4 n)) ↔
      ∀ m scope n, denoted ip dns text address = some (.v6 m scope) → embedded (.v6 m scope) = some n →
        Blocked (.v4 n) → m = 1 := by
  rw [allowed_eq]
  constructor
  · intro h m scope n hdenoted hembedded hblocked
    by_contra hm
    have hpasses : ¬ Blocked (.v6 m scope) := mt (blocked_v6_iff m scope).mp hm
    exact (h ⟨_, hdenoted, hpasses⟩ _ hdenoted).2 n hembedded hblocked
  · rintro h ⟨b, hb, hpasses⟩ a ha
    obtain rfl : b = a := Option.some.inj (hb.symm.trans ha)
    refine ⟨hpasses, fun n hembedded hblocked => ?_⟩
    cases b with
    | v4 m => cases hembedded
    | v6 m scope => exact hpasses ((blocked_v6_iff m scope).mpr (h m scope n hb hembedded hblocked))

/-- `ipaddress` on one address. -/
def onlyAddress (s : String) (a : Address) : Ipaddress where
  ipAddress t := if t = s then some a else none
  str _ := s
  ipAddress_str t b h := by
    by_cases ht : t = s
    · rw [if_pos ht] at h
      rw [if_pos rfl]
      exact h
    · rw [if_neg ht] at h
      cases h

/-- The loopback address, written as an IPv4-mapped IPv6 address. -/
theorem allowed_violated :
    ¬ ∀ (ip : Ipaddress) (dns : Dns String) (address : String),
      communicationAllowed ip dns id address = true → ∀ a, denoted ip dns id address = some a →
        ¬ Blocked a ∧ ∀ n, embedded a = some n → ¬ Blocked (.v4 n) := by
  intro h
  have hmapped := h (onlyAddress "::ffff:127.0.0.1" (.v6 0xffff7f000001 none)) [] "::ffff:127.0.0.1"
    (by decide +kernel) (.v6 0xffff7f000001 none) rfl
  exact hmapped.2 (quad 127 0 0 1) (by decide +kernel) (by decide +kernel)

end Cowrie.Core
