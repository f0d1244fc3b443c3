import Cowrie.Bytes
import Cowrie.Lib.OrderedDict
import Cowrie.Lib.Run
import Mathlib.Data.List.Dedup
import Mathlib.Data.List.Perm.Subperm

/-!
# Logins after a number of attempts (`AuthRandom` of `src/cowrie/core/auth.py`)

`checklogin` keeps for each IP how many attempts it made and how many it needs, what it tried, and its last
successful login, and for all of them a cache of successful logins. The variables are written to a file after
every call and read before the next one, so calls follow each other on the same variables, which are empty at the
start.

* `bytesStr` is `str(b)` of bytes. The stored user is such a text, and the code compares it to the login itself
  (`bytesEqStr`), which is never equal to it.
* `attempt` is what follows the look into the cache, from the missing variables on. The number of attempts and
  the number needed are there since the first call of an IP.
* `Visits` adds to the variables what was granted to an IP last, and all that it tried.
* `Remembers`, `Earned` are the two promises of the docstring, for one call: the stored login succeeds, and one that
  is not stored or cached succeeds after `mintry` combinations. `StillOpen`, `NotWavedThrough` say when they hold.

Results:
* `Attempts`, `Attempts.call`: what is known of the variables of an IP after any call of its.
* **`remembers_iff`**: the stored login succeeds iff it is in the cache or no attempt of the IP was counted.
* **`earned_iff`**: a login without the cache is earned iff the IP was not let in through the cache before any
  attempt was counted, with too few combinations.
-/

namespace Cowrie.Core.AuthRandom

open Lib

/-! ## The code -/

/-- One byte in the text of a `bytes`. -/
def reprByte (quote : Char) (x : UInt8) : List Char :=
  let c := Char.ofNat x.toNat
  if c = quote ∨ c = '\\' then ['\\', c]
  else if c = '\t' then ['\\', 't']
  else if c = '\n' then ['\\', 'n']
  else if c = '\r' then ['\\', 'r']
  else if x < 32 ∨ 127 ≤ x then ['\\', 'x', Nat.digitChar (x.toNat / 16), Nat.digitChar (x.toNat % 16)]
  else [c]

/-- `str(b)`. -/
def bytesStr (b : Bytes) : String :=
  let quote := if 39 ∈ b ∧ 34 ∉ b then '"' else '\''
  String.ofList (['b', quote] ++ b.flatMap (reprByte quote) ++ [quote])

/-- `b == s` is false for bytes and a text. -/
def bytesEqStr (_ : Bytes) (_ : String) : Bool := false

/-- The parameters that the constructor leaves. -/
structure Params where
  mintry : Int
  maxtry : Int
  maxcache : Int
  le : mintry ≤ maxtry

/-- The parameters of the configuration, adjusted. -/
def Params.ofConfig (mintry maxtry maxcache : Int) : Params where
  mintry := mintry
  maxtry := if maxtry < mintry then mintry + 1 else maxtry
  maxcache := maxcache
  le := by split_ifs <;> omega

/-- The variables of one IP. -/
structure IpInfo where
  tries : Int
  max : Int
  tried : List String := []
  user : Option String := none
  pw : Option String := none

structure UserVar where
  cache : List String := []
  ips : OrderedDict String IpInfo := .empty

/-- A call of `checklogin`, with what `randint` returns in it. -/
structure Call (p : Params) where
  thelogin : Bytes
  thepasswd : Bytes
  srcIp : String
  roll : Int
  mintry_le : p.mintry ≤ roll
  le_maxtry : roll ≤ p.maxtry

section
variable {p : Params}

/-- `userpass`. -/
def Call.userpass (c : Call p) : String := bytesStr c.thelogin ++ ":" ++ bytesStr c.thepasswd

/-- The login as the stored one. -/
def IpInfo.remember (ipinfo : IpInfo) (c : Call p) : IpInfo :=
  { ipinfo with user := some (bytesStr c.thelogin), pw := some (bytesStr c.thepasswd) }

/-- Whether the login is the stored one, as the code compares them. -/
def IpInfo.expects (ipinfo : IpInfo) (c : Call p) : Bool :=
  match ipinfo.user, ipinfo.pw with
  | some user, some pw => bytesEqStr c.thelogin user && bytesStr c.thepasswd = pw
  | _, _ => false

/-- A new combination in the cache, which holds `maxcache` of them. -/
def pushCache (maxcache : Int) (cache : List String) (userpass : String) : List String :=
  if maxcache < (cache ++ [userpass]).length then (cache ++ [userpass]).tail else cache ++ [userpass]

/-- A login that is not in the cache: the answer, the variables of the IP and the cache. -/
def attempt (c : Call p) (ipinfo : IpInfo) (cache : List String) : Bool × IpInfo × List String :=
  if c.userpass ∈ ipinfo.tried then (false, ipinfo, cache)
  else
    let counted := { ipinfo with tries := ipinfo.tries + 1 }
    if counted.tries < counted.max then
      (false, { counted with tried := ipinfo.tried ++ [c.userpass] }, cache)
    else if counted.tries = counted.max then (true, counted.remember c, pushCache p.maxcache cache c.userpass)
    else if ipinfo.user.isNone ∨ ipinfo.pw.isNone then
      (false, { counted with tried := ipinfo.tried ++ [c.userpass], tries := 1 }, cache)
    else (ipinfo.expects c, counted, cache)

/-- A call for an IP with these variables. -/
def call (c : Call p) (ipinfo : IpInfo) (cache : List String) : Bool × IpInfo × List String :=
  if c.userpass ∈ cache then (true, { ipinfo with max := 1 }.remember c, cache) else attempt c ipinfo cache

/-- The variables of the IP that calls; those of a new one need what `randint` returns. -/
def UserVar.info (v : UserVar) (c : Call p) : IpInfo :=
  match v.ips.get? c.srcIp with
  | none => { tries := 0, max := c.roll }
  | some ipinfo => ipinfo

/-- `checklogin`. -/
def checklogin (c : Call p) (v : UserVar) : Bool × UserVar :=
  let r := call c (v.info c) v.cache
  (r.1, { cache := r.2.2, ips := v.ips.set c.srcIp r.2.1 })

end

/-! ## Calls one after the other -/

/-- The variables, and for each IP the last login that was granted and all that were tried. -/
structure Visits where
  vars : UserVar := {}
  last : String → Option (Bytes × Bytes) := fun _ => none
  used : String → List (Bytes × Bytes) := fun _ => []

section
variable {p : Params}

/-- The combination of a call. -/
def Call.pair (c : Call p) : Bytes × Bytes := (c.thelogin, c.thepasswd)

/-- One call. -/
def step (s : Visits) (c : Call p) : Option Visits :=
  let r := checklogin c s.vars
  some { vars := r.2
         last := if r.1 then Function.update s.last c.srcIp (some c.pair) else s.last
         used := Function.update s.used c.srcIp (s.used c.srcIp ++ [c.pair]) }

/-- The login granted last succeeds again. -/
def Remembers (s : Visits) (c : Call p) : Prop :=
  s.last c.srcIp = some c.pair → (checklogin c s.vars).1 = true

instance (s : Visits) (c : Call p) : Decidable (Remembers s c) := by
  unfold Remembers
  infer_instance

/-- The login granted last is in the cache, or no attempt of the IP has been counted. -/
def StillOpen (s : Visits) (c : Call p) : Prop :=
  s.last c.srcIp = some c.pair →
    c.userpass ∈ s.vars.cache ∨ ∀ ipinfo, s.vars.ips.get? c.srcIp = some ipinfo → ipinfo.tries = 0

/-- The stored login of the IP. -/
def Stored (s : Visits) (c : Call p) : Prop :=
  ∃ ipinfo, s.vars.ips.get? c.srcIp = some ipinfo ∧
    ipinfo.user = some (bytesStr c.thelogin) ∧ ipinfo.pw = some (bytesStr c.thepasswd)

instance (s : Visits) (c : Call p) : Decidable (Stored s c) := by
  unfold Stored
  cases s.vars.ips.get? c.srcIp with
  | none => exact isFalse fun ⟨_, h, _⟩ => Option.some_ne_none _ h.symm
  | some ipinfo =>
    exact decidable_of_iff
      (ipinfo.user = some (bytesStr c.thelogin) ∧ ipinfo.pw = some (bytesStr c.thepasswd)) (by simp)

/-- How many combinations the IP has tried with this call. -/
def combinations (s : Visits) (c : Call p) : Nat := (s.used c.srcIp ++ [c.pair]).dedup.length

/-- A login that is neither in the cache nor stored succeeds after `mintry` combinations. -/
def Earned (s : Visits) (c : Call p) : Prop :=
  (checklogin c s.vars).1 = true → c.userpass ∉ s.vars.cache → ¬Stored s c → p.mintry ≤ combinations s c

instance (s : Visits) (c : Call p) : Decidable (Earned s c) := by
  unfold Earned
  infer_instance

/-- Not the first attempt to be counted of an IP that came in through the cache, with too few combinations. -/
def NotWavedThrough (s : Visits) (c : Call p) : Prop :=
  ¬((∃ ipinfo, s.vars.ips.get? c.srcIp = some ipinfo ∧ ipinfo.tries = 0) ∧
    c.userpass ∉ s.vars.cache ∧ ¬Stored s c ∧ combinations s c < p.mintry)

end

/-! ## What an attempt can do -/

theorem expects_eq_false {p : Params} (ipinfo : IpInfo) (c : Call p) : ipinfo.expects c = false := by
  unfold IpInfo.expects bytesEqStr
  split <;> rfl

/-- **An attempt** is a repeated combination, one too early, the one that is needed, one without a stored login, or
one that is compared to the stored login and fails. -/
theorem attempt_cases {p : Params} (c : Call p) (ipinfo : IpInfo) (cache : List String) :
    c.userpass ∈ ipinfo.tried ∧ attempt c ipinfo cache = (false, ipinfo, cache) ∨
    (c.userpass ∉ ipinfo.tried ∧ ipinfo.tries + 1 < ipinfo.max ∧ attempt c ipinfo cache =
      (false, { ipinfo with tries := ipinfo.tries + 1, tried := ipinfo.tried ++ [c.userpass] }, cache)) ∨
    (c.userpass ∉ ipinfo.tried ∧ ipinfo.tries + 1 = ipinfo.max ∧ attempt c ipinfo cache =
      (true, { ipinfo with tries := ipinfo.tries + 1 }.remember c, pushCache p.maxcache cache c.userpass)) ∨
    (c.userpass ∉ ipinfo.tried ∧ ipinfo.max < ipinfo.tries + 1 ∧ (ipinfo.user = none ∨ ipinfo.pw = none) ∧
      attempt c ipinfo cache = (false, { ipinfo with tries := 1, tried := ipinfo.tried ++ [c.userpass] }, cache)) ∨
    (c.userpass ∉ ipinfo.tried ∧ ipinfo.max < ipinfo.tries + 1 ∧ ipinfo.user ≠ none ∧ ipinfo.pw ≠ none ∧
      attempt c ipinfo cache = (false, { ipinfo with tries := ipinfo.tries + 1 }, cache)) := by
  unfold attempt
  by_cases htried : c.userpass ∈ ipinfo.tried
  · exact .inl ⟨htried, if_pos htried⟩
  rw [if_neg htried]
  refine .inr ?_
  simp only [htried, not_false_eq_true, true_and]
  rcases lt_trichotomy (ipinfo.tries + 1) ipinfo.max with hlt | heq | hgt
  · exact .inl ⟨hlt, if_pos hlt⟩
  · exact .inr (.inl ⟨heq, by rw [if_neg (by omega), if_pos heq]⟩)
  · have hlt : ¬ ipinfo.tries + 1 < ipinfo.max := by omega
    have heq : ¬ ipinfo.tries + 1 = ipinfo.max := by omega
    by_cases hnone : ipinfo.user = none ∨ ipinfo.pw = none
    · exact .inr (.inr (.inl ⟨hgt, hnone, by simp [hlt, heq, hnone]⟩))
    · obtain ⟨huser, hpw⟩ := not_or.mp hnone
      refine .inr (.inr (.inr ⟨hgt, huser, hpw, ?_⟩))
      simp [hlt, heq, hnone, expects_eq_false]

/-! ## What is known of an IP -/

/-- The variables of an IP that has tried the combinations `used`. Where no login is stored, as many were tried
as were counted, fewer than are needed; where one is, the number needed is 1 or was reached. -/
structure Attempts (p : Params) (used : List (Bytes × Bytes)) (ipinfo : IpInfo) : Prop where
  nonneg : 0 ≤ ipinfo.tries
  zero : ipinfo.tries = 0 → ipinfo.tried = []
  nodup : ipinfo.tried.Nodup
  sub : ∀ w ∈ ipinfo.tried, ∃ pair ∈ used, bytesStr pair.1 ++ ":" ++ bytesStr pair.2 = w
  unset : ipinfo.user = none →
    p.mintry ≤ ipinfo.max ∧ (ipinfo.max ≤ 0 ∨ ipinfo.tries < ipinfo.max ∧ ipinfo.tries = ipinfo.tried.length)
  stored : ipinfo.user ≠ none →
    ipinfo.pw ≠ none ∧ (ipinfo.max = 1 ∨ 1 ≤ ipinfo.max ∧ ipinfo.max ≤ ipinfo.tries)

section
variable {p : Params} {used : List (Bytes × Bytes)} {ipinfo : IpInfo} {c : Call p}

theorem Attempts.new (c : Call p) : Attempts p [] { tries := 0, max := c.roll } where
  nonneg := le_rfl
  zero := fun _ => rfl
  nodup := List.nodup_nil
  sub := fun _ hw => absurd hw List.not_mem_nil
  unset := fun _ => ⟨c.mintry_le, (le_or_gt c.roll 0).imp id fun hpos => ⟨hpos, rfl⟩⟩
  stored := fun h => absurd rfl h

theorem Attempts.used_concat (h : Attempts p used ipinfo) (pair : Bytes × Bytes) :
    Attempts p (used ++ [pair]) ipinfo :=
  { h with sub := fun w hw => (h.sub w hw).imp fun _ h => ⟨List.mem_append_left _ h.1, h.2⟩ }

/-- One more combination among those tried. -/
theorem Attempts.sub_concat (h : Attempts p used ipinfo) :
    ∀ w ∈ ipinfo.tried ++ [c.userpass],
      ∃ pair ∈ used ++ [c.pair], bytesStr pair.1 ++ ":" ++ bytesStr pair.2 = w := by
  intro w hw
  rcases List.mem_append.mp hw with hin | hnew
  · exact (h.used_concat c.pair).sub w hin
  · exact ⟨c.pair, List.mem_append_right _ (List.mem_singleton_self _), (List.mem_singleton.mp hnew).symm⟩

theorem Attempts.nodup_concat (h : Attempts p used ipinfo) (hnew : c.userpass ∉ ipinfo.tried) :
    (ipinfo.tried ++ [c.userpass]).Nodup :=
  List.nodup_append.mpr ⟨h.nodup, List.nodup_singleton _, fun _ hx _ hy heq =>
    hnew (List.mem_singleton.mp hy ▸ heq ▸ hx)⟩

/-- **A login that is not in the cache** keeps what is known, and after it an attempt was counted or a login
is stored. -/
theorem Attempts.attempt (h : Attempts p used ipinfo) (cache : List String) :
    Attempts p (used ++ [c.pair]) (attempt c ipinfo cache).2.1 ∧
      ((AuthRandom.attempt c ipinfo cache).2.1.user = none →
        1 ≤ (AuthRandom.attempt c ipinfo cache).2.1.tries) := by
  have hnonneg := h.nonneg
  have hunset := h.unset
  have hstored := h.stored
  rcases attempt_cases c ipinfo cache with ⟨htried, heq⟩ | ⟨hnew, hlt, heq⟩ | ⟨hnew, hmax, heq⟩ |
    ⟨hnew, hgt, hnone, heq⟩ | ⟨hnew, hgt, huser, hpw, heq⟩ <;> rw [heq] <;> simp only
  · -- a combination that was tried before is not counted
    have hne : ipinfo.tries ≠ 0 := fun h0 => List.not_mem_nil (h.zero h0 ▸ htried)
    exact ⟨h.used_concat c.pair, fun _ => by omega⟩
  · -- more attempts are needed, so no login is stored
    have hnone : ipinfo.user = none := by
      by_contra hsome
      have := (hstored hsome).2
      omega
    refine ⟨⟨by simp only; omega, fun h0 => ?_, h.nodup_concat hnew, h.sub_concat, fun _ => ⟨(hunset hnone).1, ?_⟩,
      fun hsome => absurd hnone hsome⟩, fun _ => by omega⟩
    · simp only at h0
      omega
    · have := (hunset hnone).2
      simp only [List.length_append, List.length_singleton]
      omega
  · -- enough of them: the login is stored
    refine ⟨⟨?_, fun h0 => ?_, h.nodup, (h.used_concat c.pair).sub, fun hnone => ?_,
      fun _ => ⟨Option.some_ne_none _, ?_⟩⟩, fun hnone => ?_⟩
    · simp only [IpInfo.remember]
      omega
    · simp only [IpInfo.remember] at h0
      omega
    · cases hnone
    · simp only [IpInfo.remember]
      omega
    · cases hnone
  · -- no attempt can be enough
    have huser : ipinfo.user = none := by
      by_contra hsome
      exact hnone.elim hsome (hstored hsome).1
    refine ⟨⟨Int.one_nonneg, fun h0 => absurd h0 Int.one_ne_zero, h.nodup_concat hnew, h.sub_concat,
      fun _ => ⟨(hunset huser).1, ?_⟩, fun hsome => absurd huser hsome⟩, fun _ => le_rfl⟩
    have := (hunset huser).2
    simp only
    omega
  · have := (hstored huser).2
    refine ⟨⟨by simp only; omega, fun h0 => ?_, h.nodup, (h.used_concat c.pair).sub,
      fun hn => absurd hn huser, fun _ => ⟨hpw, by simp only; omega⟩⟩, fun hn => absurd hn huser⟩
    simp only at h0
    omega

/-- **Any call** keeps what is known of its IP. -/
theorem Attempts.call (h : Attempts p used ipinfo) (cache : List String) :
    Attempts p (used ++ [c.pair]) (call c ipinfo cache).2.1 ∧
      ((AuthRandom.call c ipinfo cache).2.1.user = none → 1 ≤ (AuthRandom.call c ipinfo cache).2.1.tries) := by
  unfold AuthRandom.call
  by_cases hcache : c.userpass ∈ cache
  · rw [if_pos hcache]
    refine ⟨⟨h.nonneg, h.zero, h.nodup, (h.used_concat c.pair).sub, fun hnone => ?_,
      fun _ => ⟨Option.some_ne_none _, Or.inl rfl⟩⟩, fun hnone => ?_⟩
    · cases hnone
    · cases hnone
  · rw [if_neg hcache]
    exact h.attempt cache

/-- A login is stored after a call that succeeds, and stays. -/
theorem user_call {cache : List String} (h : (call c ipinfo cache).1 = true ∨ ipinfo.user ≠ none) :
    (call c ipinfo cache).2.1.user ≠ none := by
  unfold call at h ⊢
  by_cases hcache : c.userpass ∈ cache
  · rw [if_pos hcache]
    exact Option.some_ne_none _
  · rw [if_neg hcache] at h ⊢
    rcases attempt_cases c ipinfo cache with ⟨-, heq⟩ | ⟨-, -, heq⟩ | ⟨-, -, heq⟩ | ⟨-, -, -, heq⟩ |
      ⟨-, -, -, -, heq⟩ <;> rw [heq] at h ⊢
    case inr.inr.inl => exact Option.some_ne_none _
    all_goals exact h.resolve_left Bool.false_ne_true

/-- **Where a login is stored**, the first attempt to be counted succeeds and no later one. -/
theorem attempt_iff_of_stored (h : Attempts p used ipinfo) (hstored : ipinfo.user ≠ none) (cache : List String) :
    (attempt c ipinfo cache).1 = true ↔ ipinfo.tries = 0 := by
  have hnonneg := h.nonneg
  have hmax := (h.stored hstored).2
  rcases attempt_cases c ipinfo cache with ⟨htried, heq⟩ | ⟨-, hlt, heq⟩ | ⟨-, hneed, heq⟩ | ⟨-, hgt, -, heq⟩ |
    ⟨-, hgt, -, -, heq⟩ <;> rw [heq] <;> simp only [Bool.false_eq_true, false_iff, true_iff]
  · exact fun h0 => List.not_mem_nil (h.zero h0 ▸ htried)
  · omega
  · omega
  · omega
  · omega

/-- Different texts are made of as many different combinations. -/
theorem length_le_dedup {words : List String} {pairs : List (Bytes × Bytes)} (hnodup : words.Nodup)
    (hsub : ∀ w ∈ words, ∃ pair ∈ pairs, bytesStr pair.1 ++ ":" ++ bytesStr pair.2 = w) :
    words.length ≤ pairs.dedup.length := by
  have hmap : words ⊆ pairs.dedup.map fun pair => bytesStr pair.1 ++ ":" ++ bytesStr pair.2 := fun w hw => by
    obtain ⟨pair, hpair, rfl⟩ := hsub w hw
    exact List.mem_map_of_mem (List.mem_dedup.mpr hpair)
  simpa using (List.subperm_of_subset hnodup hmap).length_le

/-- **Where none is**, an attempt succeeds after `mintry` combinations. -/
theorem mintry_le_of_attempt (h : Attempts p used ipinfo) (hnone : ipinfo.user = none) {cache : List String}
    (hauth : (attempt c ipinfo cache).1 = true) : p.mintry ≤ (used ++ [c.pair]).dedup.length := by
  have hunset := h.unset hnone
  have hnonneg := h.nonneg
  rcases attempt_cases c ipinfo cache with ⟨-, heq⟩ | ⟨-, -, heq⟩ | ⟨hnew, hneed, -⟩ | ⟨-, -, -, heq⟩ |
    ⟨-, -, -, -, heq⟩
  case inr.inr.inl =>
    have hlength := length_le_dedup (h.nodup_concat hnew) (h.sub_concat (c := c))
    rw [List.length_append, List.length_singleton] at hlength
    omega
  all_goals
    rw [heq] at hauth
    cases hauth

end

/-! ## Whole runs -/

/-- What is known of the variables and of what was granted. -/
structure Known (p : Params) (s : Visits) : Prop where
  attempts : ∀ ip ipinfo, s.vars.ips.get? ip = some ipinfo →
    Attempts p (s.used ip) ipinfo ∧ (ipinfo.user = none → 1 ≤ ipinfo.tries)
  unused : ∀ ip, s.vars.ips.get? ip = none → s.used ip = []
  granted : ∀ ip pair, s.last ip = some pair → ∃ ipinfo, s.vars.ips.get? ip = some ipinfo ∧ ipinfo.user ≠ none

theorem Known.start (p : Params) : Known p {} :=
  ⟨fun _ _ h => (Option.some_ne_none _ h.symm).elim, fun _ _ => rfl,
    fun _ _ h => (Option.some_ne_none _ h.symm).elim⟩

section
variable {p : Params} {s t : Visits} {c : Call p}

/-- The variables that a call finds. -/
theorem Known.info (h : Known p s) (c : Call p) : Attempts p (s.used c.srcIp) (s.vars.info c) := by
  unfold UserVar.info
  cases hip : s.vars.ips.get? c.srcIp with
  | none => exact h.unused c.srcIp hip ▸ Attempts.new c
  | some ipinfo => exact (h.attempts c.srcIp ipinfo hip).1

/-- **What a call changes.** -/
theorem step_spec (hstep : step s c = some t) :
    t.vars.ips = s.vars.ips.set c.srcIp (call c (s.vars.info c) s.vars.cache).2.1 ∧
      t.used = Function.update s.used c.srcIp (s.used c.srcIp ++ [c.pair]) ∧
      ∀ ip pair, t.last ip = some pair →
        ip = c.srcIp ∧ (call c (s.vars.info c) s.vars.cache).1 = true ∨ s.last ip = some pair := by
  obtain rfl := Option.some.inj hstep
  refine ⟨rfl, rfl, fun ip pair hlast => ?_⟩
  change (if (checklogin c s.vars).1 then Function.update s.last c.srcIp (some c.pair) else s.last) ip =
    some pair at hlast
  split_ifs at hlast with hauth
  · by_cases hsame : ip = c.srcIp
    · exact .inl ⟨hsame, hauth⟩
    · rw [Function.update_of_ne hsame] at hlast
      exact .inr hlast
  · exact .inr hlast

/-- **The step lemma.** -/
theorem Known.step (h : Known p s) (hstep : step s c = some t) : Known p t := by
  obtain ⟨hips, hused, hgranted⟩ := step_spec hstep
  have hcall := (h.info c).call s.vars.cache (c := c)
  refine ⟨fun ip ipinfo hip => ?_, fun ip hip => ?_, fun ip pair hlast => ?_⟩
  · rw [hips, OrderedDict.get?_set] at hip
    rw [hused]
    by_cases hsame : ip = c.srcIp
    · rw [if_pos hsame] at hip
      obtain rfl := Option.some.inj hip
      rw [hsame, Function.update_self]
      exact hcall
    · rw [if_neg hsame] at hip
      rw [Function.update_of_ne hsame]
      exact h.attempts ip ipinfo hip
  · rw [hips, OrderedDict.get?_set] at hip
    split_ifs at hip with hsame
    rw [hused, Function.update_of_ne hsame]
    exact h.unused ip hip
  · rw [hips, OrderedDict.get?_set]
    by_cases hsame : ip = c.srcIp
    · -- the call was granted, or the login was stored before it
      rw [if_pos hsame]
      refine ⟨_, rfl, user_call ((hgranted ip pair hlast).imp And.right fun hbefore => ?_)⟩
      obtain ⟨ipinfo, hip, huser⟩ := h.granted ip pair hbefore
      unfold UserVar.info
      rw [← hsame, hip]
      exact huser
    · rw [if_neg hsame]
      exact h.granted ip pair ((hgranted ip pair hlast).resolve_left fun hnew => hsame hnew.1)

/-- A call for an IP that is known. -/
theorem info_of_get? {ipinfo : IpInfo} (hip : s.vars.ips.get? c.srcIp = some ipinfo) : s.vars.info c = ipinfo := by
  unfold UserVar.info
  rw [hip]

theorem checklogin_of_cached (hcache : c.userpass ∈ s.vars.cache) : (checklogin c s.vars).1 = true := by
  unfold checklogin call
  rw [if_pos hcache]

theorem checklogin_of_not_cached (hcache : c.userpass ∉ s.vars.cache) :
    (checklogin c s.vars).1 = (attempt c (s.vars.info c) s.vars.cache).1 := by
  unfold checklogin call
  rw [if_neg hcache]

/-- **One call of the login granted last.** -/
theorem remembers_iff_stillOpen (h : Known p s) : StillOpen s c ↔ Remembers s c := by
  unfold StillOpen Remembers
  refine imp_congr_right fun hlast => ?_
  obtain ⟨ipinfo, hip, huser⟩ := h.granted _ _ hlast
  by_cases hcache : c.userpass ∈ s.vars.cache
  · exact iff_of_true (Or.inl hcache) (checklogin_of_cached hcache)
  · rw [checklogin_of_not_cached hcache, info_of_get? hip,
      attempt_iff_of_stored (h.attempts _ _ hip).1 huser, or_iff_right hcache, hip]
    simp only [Option.some.injEq, forall_eq']

/-- **One call that succeeds without the cache.** -/
theorem earned_iff_notWavedThrough (h : Known p s) : NotWavedThrough s c ↔ Earned s c := by
  unfold NotWavedThrough Earned
  by_cases hcache : c.userpass ∈ s.vars.cache
  · exact iff_of_true (fun hw => hw.2.1 hcache) fun _ hout => absurd hcache hout
  rw [checklogin_of_not_cached hcache]
  by_cases huser : (s.vars.info c).user = none
  · -- without a stored login every success is earned, and an attempt was counted before
    refine iff_of_true (fun hw => ?_) fun hauth _ _ => mintry_le_of_attempt (h.info c) huser hauth
    obtain ⟨ipinfo, hip, hzero⟩ := hw.1
    have hone := (h.attempts _ _ hip).2 (info_of_get? hip ▸ huser)
    omega
  · -- with one, only the first attempt to be counted succeeds
    rw [attempt_iff_of_stored (h.info c) huser]
    have hknown : (∃ ipinfo, s.vars.ips.get? c.srcIp = some ipinfo ∧ ipinfo.tries = 0) ↔
        (s.vars.info c).tries = 0 := by
      cases hip : s.vars.ips.get? c.srcIp with
      | none =>
        unfold UserVar.info at huser
        rw [hip] at huser
        exact absurd rfl huser
      | some ipinfo =>
        rw [info_of_get? hip]
        simp only [Option.some.injEq, exists_eq_left']
    rw [hknown, ← Int.not_lt]
    tauto

end

/-- **A login is remembered** throughout a run iff each time it comes again it is in the cache or no attempt of its
IP was counted. -/
theorem remembers_iff (p : Params) (calls : List (Call p)) :
    StepsMeet step Remembers {} calls ↔ StepsMeet step StillOpen {} calls :=
  (stepsMeet_iff_of_inv (fun _ _ _ h _ hstep => Known.step h hstep) (fun _ _ h => remembers_iff_stillOpen h)
    (Known.start p)).symm

/-- The login that was granted is no longer in the cache, and fails. -/
theorem forgets_stored_login :
    let p : Params := ⟨2, 2, 1, Int.le_refl 2⟩
    let login (user pw ip : String) : Call p := ⟨encode user, encode pw, ip, 2, Int.le_refl 2, Int.le_refl 2⟩
    ¬StepsMeet step Remembers {} [login "a" "1" "A", login "b" "2" "A", login "c" "3" "C", login "d" "4" "C",
      login "b" "2" "A"] := by
  decide +kernel

/-- **A login is earned** throughout a run iff no IP is waved through. -/
theorem earned_iff (p : Params) (calls : List (Call p)) :
    StepsMeet step Earned {} calls ↔ StepsMeet step NotWavedThrough {} calls :=
  (stepsMeet_iff_of_inv (fun _ _ _ h _ hstep => Known.step h hstep) (fun _ _ h => earned_iff_notWavedThrough h)
    (Known.start p)).symm

/-- After a login from the cache, the next one that is not in it succeeds. -/
theorem waved_through :
    let p : Params := ⟨3, 3, 10, Int.le_refl 3⟩
    let login (user pw ip : String) : Call p := ⟨encode user, encode pw, ip, 3, Int.le_refl 3, Int.le_refl 3⟩
    ¬StepsMeet step Earned {} [login "a" "1" "A", login "b" "2" "A", login "c" "3" "A", login "c" "3" "B",
      login "foo" "bar" "B"] := by
  decide +kernel

end Cowrie.Core.AuthRandom
