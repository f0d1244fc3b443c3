import Cowrie.Lib.Run
import Mathlib.Data.List.Nodup
import Cowrie.Pool.Service

/-!
# What a step of the pool can do, and the invariants of all runs

Every step is described once, and the invariants are read off these descriptions:

* `producer_spec`: after an iteration of the producer a guest is either an old one whose state
  has aged (`Ages`) and which is otherwise unchanged, or a fresh one nobody has seen;
* `requestVm_guests`: `request_vm` writes `Guest.granted` to the guest it chooses, and leaves the
  list alone when it chooses none (`stop_pool` included);
* `updateById_spec`: `free_vm` and `reuse_vm` write to the first guest carrying the id.

**`wf_run`**: in every run guests are distinct objects, allocated below `nextRef`, and a guest
with a client remembers a state to revert to that is one of the three serving states.
-/

namespace Cowrie.Pool

open Cowrie.Lib

/-- The states whose guests `request_vm` hands out. -/
def Serving (a : GuestState) : Prop := a = .available ∨ a = .inUse ∨ a = .used

/-- The states a guest is in once it is marked for destruction. -/
def Dead (a : GuestState) : Prop := a = .unavailable ∨ a = .destroyed

instance (a : GuestState) : Decidable (Dead a) := inferInstanceAs (Decidable (_ ∨ _))

instance (a : GuestState) : Decidable (Serving a) := inferInstanceAs (Decidable (_ ∨ _ ∨ _))

theorem Dead.not_serving {a : GuestState} (h : Dead a) : ¬ Serving a := by
  rintro (rfl | rfl | rfl) <;> rcases h with h | h <;> cases h

/-! ## The producer -/

/-- How an iteration of the producer can change a state. -/
def Ages (a b : GuestState) : Prop := b = a ∨ Dead b ∨ (a = .created ∧ b = .available)

/-- `g'` is `g` with its state aged. -/
def AgedFrom (g g' : Guest) : Prop := g' = { g with state := g'.state } ∧ Ages g.state g'.state

theorem Ages.refl (a : GuestState) : Ages a a := Or.inl rfl

theorem Ages.trans {a b c : GuestState} (h : Ages a b) (h' : Ages b c) : Ages a c := by
  rcases h' with rfl | hd | ⟨rfl, rfl⟩
  · exact h
  · exact Or.inr (Or.inl hd)
  · rcases h with rfl | hd | ⟨-, hb⟩
    · exact Or.inr (Or.inr ⟨rfl, rfl⟩)
    · rcases hd with h | h <;> cases h
    · cases hb

theorem Ages.dead {a b : GuestState} (h : Ages a b) (ha : Dead a) : Dead b := by
  rcases h with rfl | hd | ⟨rfl, -⟩
  · exact ha
  · exact hd
  · rcases ha with h | h <;> cases h

theorem Ages.not_inUse {a b : GuestState} (h : Ages a b) (ha : a ≠ .inUse) : b ≠ .inUse := by
  rcases h with rfl | (rfl | rfl) | ⟨-, rfl⟩
  · exact ha
  all_goals decide

theorem AgedFrom.refl (g : Guest) : AgedFrom g g := ⟨rfl, Ages.refl _⟩

theorem AgedFrom.trans {g g' g'' : Guest} (h : AgedFrom g g') (h' : AgedFrom g' g'') :
    AgedFrom g g'' := by
  refine ⟨?_, h.2.trans h'.2⟩
  rw [h'.1, h.1]

theorem AgedFrom.ref_eq {g g' : Guest} (h : AgedFrom g g') : g'.ref = g.ref := by rw [h.1]

theorem AgedFrom.set {g : Guest} {a : GuestState} (h : Ages g.state a) :
    AgedFrom g { g with state := a } := ⟨rfl, h⟩

/-- A phase of the producer that creates nothing: guests age or disappear. -/
structure Reaps (s t : PoolService) : Prop where
  refs : (t.guests.map Guest.ref).Sublist (s.guests.map Guest.ref)
  aged : ∀ g' ∈ t.guests, ∃ g ∈ s.guests, AgedFrom g g'
  nextRef : t.nextRef = s.nextRef
  settings : t.settings = s.settings

theorem Reaps.refl (s : PoolService) : Reaps s s :=
  ⟨List.Sublist.refl _, fun g hg => ⟨g, hg, AgedFrom.refl g⟩, rfl, rfl⟩

theorem Reaps.trans {s t u : PoolService} (h : Reaps s t) (h' : Reaps t u) : Reaps s u := by
  refine ⟨h'.refs.trans h.refs, fun g'' hg'' => ?_, h'.nextRef.trans h.nextRef,
    h'.settings.trans h.settings⟩
  obtain ⟨g', hg', ha'⟩ := h'.aged g'' hg''
  obtain ⟨g, hg, ha⟩ := h.aged g' hg'
  exact ⟨g, hg, ha.trans ha'⟩

/-- A loop over some states whose body ages the guest is such a phase, whatever it does to the
rest of the pool. -/
theorem reaps_forStates {s t : PoolService} {states : List GuestState} {body : Guest → Guest}
    (hbody : ∀ g, g.state ∈ states → AgedFrom g (body g))
    (hg : t.guests = (s.forStates states body).guests) (hn : t.nextRef = s.nextRef)
    (hs : t.settings = s.settings) : Reaps s t := by
  have hone : ∀ g : Guest, AgedFrom g (if g.state ∈ states then body g else g) := by
    intro g
    split
    · exact hbody g (by assumption)
    · exact AgedFrom.refl g
  refine ⟨?_, fun g' hg' => ?_, hn, hs⟩
  · rw [hg]
    simp only [PoolService.forStates, List.map_map]
    rw [List.map_congr_left fun g _ => by
      simpa only [Function.comp] using (hone g).ref_eq]
  · rw [hg] at hg'
    obtain ⟨g, hmem, rfl⟩ := List.mem_map.mp hg'
    exact ⟨g, hmem, hone g⟩

theorem foldl_erase_filter (p : Guest → Bool) :
    ∀ gs : List Guest, (gs.filter p).foldl List.erase gs = gs.filter fun g => !p g
  | [] => rfl
  | g :: gs => by
    have hskip : ∀ (D l : List Guest), g ∉ D → D.foldl List.erase (g :: l) =
        g :: D.foldl List.erase l := by
      intro D
      induction D with
      | nil => intro l _; rfl
      | cons d D ih =>
        intro l hl
        rw [List.mem_cons, not_or] at hl
        rw [List.foldl_cons, List.erase_cons_tail (by simpa using hl.1), ih _ hl.2, List.foldl_cons]
    cases hp : p g with
    | true => simp [hp, foldl_erase_filter p gs]
    | false =>
      have hnot : g ∉ gs.filter p := by simp [hp]
      rw [List.filter_cons_of_neg (by simp [hp]), hskip _ _ hnot, foldl_erase_filter p gs,
        List.filter_cons_of_pos (by simp [hp])]

/-- **`__producer_remove_destroyed` keeps exactly the guests that are not destroyed.** -/
theorem removeDestroyed_guests (s : PoolService) :
    s.removeDestroyed.guests = s.guests.filter fun g => !decide (g.state = .destroyed) := by
  unfold PoolService.removeDestroyed PoolService.getGuestStates
  simp only [List.mem_singleton]
  exact foldl_erase_filter _ _

theorem reaps_loopNextCall (c : Option DelayedCall) (s : PoolService) :
    Reaps s { s with loopNextCall := c } :=
  ⟨List.Sublist.refl _, fun g hg => ⟨g, hg, AgedFrom.refl g⟩, rfl, rfl⟩

theorem reaps_markTimedOut (env : ProducerEnv) (n : Nat) (s : PoolService) :
    Reaps s (s.markTimedOut env n) :=
  reaps_forStates (fun g _ => by
    split
    · exact AgedFrom.set (Or.inr (Or.inl (Or.inl rfl)))
    · exact AgedFrom.refl g) rfl rfl rfl

theorem reaps_destroyTimedOut (env : ProducerEnv) (s : PoolService) :
    Reaps s (s.destroyTimedOut env) :=
  reaps_forStates (fun _ _ => AgedFrom.set (Or.inr (Or.inl (Or.inr rfl)))) rfl rfl rfl

theorem reaps_checkHealth (env : ProducerEnv) (s : PoolService) : Reaps s (s.checkHealth env) :=
  reaps_forStates (fun g _ => by
    split
    · exact AgedFrom.refl g
    · exact AgedFrom.set (Or.inr (Or.inl (Or.inl rfl)))) rfl rfl rfl

theorem reaps_removeDestroyed (s : PoolService) : Reaps s s.removeDestroyed := by
  have hsub : s.removeDestroyed.guests.Sublist s.guests := by
    rw [removeDestroyed_guests]
    exact List.filter_sublist
  exact ⟨hsub.map _, fun g hg => ⟨g, hsub.subset hg, AgedFrom.refl g⟩, rfl, rfl⟩

theorem reaps_producerReap (env : ProducerEnv) (s : PoolService) :
    Reaps s (s.producerReap env) := by
  have hloop := reaps_loopNextCall (s.loopNextCall.map fun _ => .called) s
  unfold PoolService.producerReap
  simp only
  split
  · exact hloop.trans (((reaps_markTimedOut env _ _).trans (reaps_destroyTimedOut env _)).trans
      ((reaps_checkHealth env _).trans (reaps_removeDestroyed _)))
  · exact hloop.trans ((reaps_checkHealth env _).trans (reaps_removeDestroyed _))

/-- A guest nobody has seen yet. -/
structure Fresh (s : PoolService) (g : Guest) : Prop where
  ref : s.nextRef ≤ g.ref
  connected : g.connected = 0
  clientIps : g.clientIps = []
  state : g.state ≠ .inUse

/-- What the creation loop does: it appends fresh guests, in allocation order. -/
structure Grows (s t : PoolService) : Prop where
  nextRef : s.nextRef ≤ t.nextRef
  settings : t.settings = s.settings
  guests : ∃ news, t.guests = s.guests ++ news ∧ (news.map Guest.ref).Nodup ∧
    ∀ g ∈ news, Fresh s g ∧ g.ref < t.nextRef

theorem grows_createOne {env : CreateEnv} {s t : PoolService} (h : s.createOne env = .ok t) :
    Grows s t := by
  unfold PoolService.createOne at h
  split at h
  · cases h
  · cases h
  · obtain rfl := Except.ok.inj h
    refine ⟨Nat.le_succ _, rfl, _, rfl, by simp, ?_⟩
    intro g hg
    obtain rfl := List.mem_singleton.mp hg
    exact ⟨⟨le_refl _, rfl, rfl, by simp⟩, Nat.lt_succ_self _⟩

theorem Grows.trans {s t u : PoolService} (h : Grows s t) (h' : Grows t u) : Grows s u := by
  obtain ⟨hn, hs, as, ha, had, haf⟩ := h
  obtain ⟨hn', hs', bs, hb, hbd, hbf⟩ := h'
  refine ⟨hn.trans hn', hs'.trans hs, as ++ bs, by rw [hb, ha, List.append_assoc], ?_, ?_⟩
  · rw [List.map_append, List.nodup_append]
    refine ⟨had, hbd, ?_⟩
    intro x hx y hy hxy
    obtain ⟨g, hg, rfl⟩ := List.mem_map.mp hx
    obtain ⟨g', hg', rfl⟩ := List.mem_map.mp hy
    have h1 : g'.ref < t.nextRef := hxy ▸ (haf g hg).2
    exact absurd (hbf g' hg').1.ref (not_le.mpr h1)
  · intro g hg
    rcases List.mem_append.mp hg with hg | hg
    · exact ⟨(haf g hg).1, (haf g hg).2.trans_le hn'⟩
    · obtain ⟨⟨h1, h2, h3, h4⟩, h5⟩ := hbf g hg
      exact ⟨⟨hn.trans h1, h2, h3, h4⟩, h5⟩

theorem grows_createLoop (env : Nat → CreateEnv) :
    ∀ (n i : Nat) (s : PoolService), Grows s (s.createLoop env i n).1
  | 0, _, s => ⟨le_refl _, rfl, [], by simp [PoolService.createLoop], by simp, by simp⟩
  | n + 1, i, s => by
    unfold PoolService.createLoop
    split
    · exact ⟨le_refl _, rfl, [], by simp, by simp, by simp⟩
    · rename_i t ht
      exact (grows_createOne ht).trans (grows_createLoop env n (i + 1) t)

theorem reaps_markAvailable (env : ProducerEnv) (s : PoolService) :
    Reaps s (s.markAvailable env) :=
  reaps_forStates (fun g hg => by
    split
    · exact AgedFrom.set (Or.inr (Or.inr ⟨by simpa using hg, rfl⟩))
    · exact AgedFrom.refl g) rfl rfl rfl

/-- What an iteration of the producer does to the guests. -/
structure Produces (s t : PoolService) : Prop where
  nextRef : s.nextRef ≤ t.nextRef
  settings : t.settings = s.settings
  nodup : (s.guests.map Guest.ref).Nodup → (∀ g ∈ s.guests, g.ref < s.nextRef) →
    (t.guests.map Guest.ref).Nodup
  guests : ∀ g' ∈ t.guests, (∃ g ∈ s.guests, AgedFrom g g') ∨ (Fresh s g' ∧ g'.ref < t.nextRef)

/-- **What the producer can do**: reap, then create, then mark available. -/
theorem producer_spec (env : ProducerEnv) (s : PoolService) :
    Produces s (s.producerLoop env).1 := by
  -- the state after the creation loop, before `__producer_mark_available`
  have hmid : ∃ u, Grows (s.producerReap env) u ∧ Reaps u (s.producerLoop env).1 := by
    have hgrow : Grows (s.producerReap env) ((s.producerReap env).createGuests env).1 :=
      grows_createLoop _ _ _ _
    unfold PoolService.producerLoop
    cases hc : (s.producerReap env).createGuests env with
    | mk t r =>
      rw [hc] at hgrow
      cases r with
      | some e => exact ⟨t, hgrow, Reaps.refl t⟩
      | none =>
        have h := reaps_markAvailable env t
        exact ⟨t, hgrow, ⟨h.refs, h.aged, h.nextRef, h.settings⟩⟩
  have hreap := reaps_producerReap env s
  obtain ⟨u, ⟨hn, hs, news, hu, hnd, hfresh⟩, hmark⟩ := hmid
  refine ⟨?_, ?_, ?_, ?_⟩
  · rw [hmark.nextRef, ← hreap.nextRef]
    exact hn
  · rw [hmark.settings, hs, hreap.settings]
  · intro hnodup hbound
    refine hmark.refs.nodup ?_
    rw [hu, List.map_append, List.nodup_append]
    refine ⟨hreap.refs.nodup hnodup, hnd, ?_⟩
    intro x hx y hy hxy
    obtain ⟨g, hg, rfl⟩ := List.mem_map.mp (hreap.refs.subset hx)
    obtain ⟨g', hg', rfl⟩ := List.mem_map.mp hy
    have h1 : g'.ref < s.nextRef := hxy ▸ hbound g hg
    have h2 := (hfresh g' hg').1.ref
    rw [hreap.nextRef] at h2
    exact absurd h2 (not_le.mpr h1)
  · intro g'' hg''
    obtain ⟨g', hg', ha'⟩ := hmark.aged g'' hg''
    rw [hu] at hg'
    rcases List.mem_append.mp hg' with hg' | hg'
    · obtain ⟨g, hg, ha⟩ := hreap.aged g' hg'
      exact Or.inl ⟨g, hg, ha.trans ha'⟩
    · obtain ⟨⟨h1, h2, h3, hst⟩, h4⟩ := hfresh g' hg'
      refine Or.inr ⟨⟨?_, ?_, ?_, ha'.2.not_inUse hst⟩, ?_⟩
      · rw [ha'.ref_eq, ← hreap.nextRef]
        exact h1
      · rw [ha'.1]
        exact h2
      · rw [ha'.1]
        exact h3
      · rw [ha'.ref_eq, hmark.nextRef]
        exact h4

/-! ## The consumers -/

theorem cancelLoop_frame {s t : PoolService} (h : s.cancelLoop = .ok t) :
    ∃ c, t = { s with loopNextCall := c } := by
  unfold PoolService.cancelLoop at h
  split at h
  · exact ⟨s.loopNextCall, (Except.ok.inj h).symm⟩
  · exact ⟨_, (Except.ok.inj h).symm⟩
  · cases h
  · cases h

theorem freeAllBindings_frame (s : PoolService) :
    ∃ b, s.freeAllBindings = { s with natBindings := b } := by
  unfold PoolService.freeAllBindings
  split
  · exact ⟨_, rfl⟩
  · exact ⟨s.natBindings, rfl⟩

/-- **What `stop_pool` changes**: the delayed call, the domains and the bindings, not the guests. -/
theorem stopPool_frame (env : StopEnv) (s : PoolService) :
    ∃ c q b, (s.stopPool env).1 = { s with loopNextCall := c, qemu := q, natBindings := b } := by
  unfold PoolService.stopPool
  cases hc : s.cancelLoop with
  | error e => exact ⟨s.loopNextCall, s.qemu, s.natBindings, rfl⟩
  | ok t =>
    obtain ⟨c, rfl⟩ := cancelLoop_frame hc
    simp only
    cases env.destroyAll with
    | error left => exact ⟨c, _, s.natBindings, rfl⟩
    | ok u =>
      simp only [PoolService.destroyAllCowrie]
      obtain ⟨b, hb⟩ := freeAllBindings_frame { s with
        loopNextCall := c
        qemu := { (s.guests.foldl (fun q g => PoolService.destroyGuest q g.domain
          (env.destroyOk g.ref)) s.qemu) with domains := [] } }
      rw [hb]
      cases env.stopBackend with
      | ok u => exact ⟨c, _, b, rfl⟩
      | error left => exact ⟨c, _, b, rfl⟩

theorem stopPool_guests (env : StopEnv) (s : PoolService) :
    (s.stopPool env).1.guests = s.guests ∧ (s.stopPool env).1.nextRef = s.nextRef ∧
      (s.stopPool env).1.settings = s.settings := by
  obtain ⟨c, q, b, h⟩ := stopPool_frame env s
  rw [h]
  exact ⟨rfl, rfl, rfl⟩

theorem requestVm_pool (env : StopEnv) (ip : Ip) (s : PoolService) :
    (s.requestVm env ip).1 =
      match s.chooseGuest ip with
      | some g => s.commitRequest g.ref ip
      | none => if s.anyVmUp then (s.stopPool env).1 else s := by
  unfold PoolService.requestVm
  cases s.chooseGuest ip with
  | some g => rfl
  | none =>
    simp only
    split
    · cases s.stopPool env with
      | mk t r => cases r <;> rfl
    · rfl

/-- **What `request_vm` does to the guests**: it grants the chosen one, or nothing. -/
theorem requestVm_guests (env : StopEnv) (ip : Ip) (s : PoolService) :
    (s.requestVm env ip).1.nextRef = s.nextRef ∧ (s.requestVm env ip).1.settings = s.settings ∧
      (s.requestVm env ip).1.guests =
        match s.chooseGuest ip with
        | some g => s.guests.map fun x => if x.ref = g.ref then x.granted ip else x
        | none => s.guests := by
  rw [requestVm_pool]
  cases hc : s.chooseGuest ip with
  | some g => exact ⟨rfl, rfl, rfl⟩
  | none =>
    simp only
    split
    · obtain ⟨h1, h2, h3⟩ := stopPool_guests env s
      exact ⟨h2, h3, h1⟩
    · exact ⟨rfl, rfl, rfl⟩

/-- The guest a request is granted is in the list, in a serving state. -/
theorem chooseGuest_mem {s : PoolService} {ip : Ip} {g : Guest} (h : s.chooseGuest ip = some g) :
    g ∈ s.guests ∧ Serving g.state := by
  have hstates : ∀ states, (∀ a ∈ states, Serving a) → g ∈ s.getGuestStates states →
      g ∈ s.guests ∧ Serving g.state := by
    intro states hserve hg
    obtain ⟨hmem, hst⟩ := List.mem_filter.mp hg
    exact ⟨hmem, hserve _ (by simpa using hst)⟩
  unfold PoolService.chooseGuest at h
  split at h
  · rename_i g' hg'
    obtain rfl := Option.some.inj h
    refine hstates [.used, .inUse] ?_ (List.mem_of_find?_eq_some hg')
    simp [Serving]
  · split at h
    · rename_i g' hg'
      obtain rfl := Option.some.inj h
      refine hstates [.available] ?_ (List.mem_of_mem_head? hg')
      simp [Serving]
    · split at h
      · refine hstates [.inUse, .used] ?_ (List.argmin_mem h)
        simp [Serving]
      · cases h

/-- **What `free_vm` and `reuse_vm` do to the guests**: they write to the first one with the id,
if there is one. -/
theorem updateById_spec (id : Nat) (f : Guest → Guest) {gs : List Guest}
    (hnd : (gs.map Guest.ref).Nodup) :
    PoolService.updateById id f gs =
      match gs.find? (·.id == id) with
      | some g => gs.map fun x => if x.ref = g.ref then f x else x
      | none => gs := by
  induction gs with
  | nil => rfl
  | cons x gs ih =>
    rw [List.map_cons, List.nodup_cons] at hnd
    unfold PoolService.updateById
    by_cases hx : x.id = id
    · have hrest : ∀ y ∈ gs, (if y.ref = x.ref then f y else y) = y := fun y hy =>
        if_neg fun e => hnd.1 (List.mem_map.mpr ⟨y, hy, e⟩)
      rw [if_pos hx, List.find?_cons_of_pos (by simpa using hx)]
      simp only [List.map_cons, if_true, List.cons.injEq, true_and]
      rw [List.map_congr_left hrest, List.map_id']
    · rw [if_neg hx, List.find?_cons_of_neg (by simpa using hx), ih hnd.2]
      cases hf : gs.find? (·.id == id) with
      | none => rfl
      | some g =>
        have hne : ¬ x.ref = g.ref := fun e =>
          hnd.1 (List.mem_map.mpr ⟨g, List.mem_of_find?_eq_some hf, e.symm⟩)
        simp only [List.map_cons, if_neg hne]

/-- The outstanding request an event releases. -/
def Event.lease? : Event → Option Lease
  | .free l _ => some l
  | .reuse l => some l
  | _ => none

/-- What a releasing event writes to the guest it finds. -/
def Event.writes : Event → Guest → Guest
  | .free _ now => Guest.freed now
  | .reuse _ => Guest.reused
  | _ => id

/-- What `free_vm` and `reuse_vm` have in common: one client less, and a change of state only
when it was the last one. -/
structure Releases (f : Guest → Guest) : Prop where
  ref : ∀ g, (f g).ref = g.ref
  id : ∀ g, (f g).id = g.id
  clientIps : ∀ g, (f g).clientIps = g.clientIps
  connected : ∀ g, (f g).connected = g.connected - 1
  kept : ∀ g, g.connected ≠ 1 → (f g).state = g.state ∧ (f g).prevState = g.prevState
  last : ∀ g, g.connected = 1 → (f g).state = .used ∨ (f g).state = g.prevState

theorem releases_freed (now : ℚ) : Releases (Guest.freed now) where
  ref _ := rfl
  id _ := rfl
  clientIps _ := rfl
  connected _ := rfl
  kept g hg := ⟨if_neg (by omega), rfl⟩
  last g hg := Or.inl (if_pos (by omega))

theorem releases_reused : Releases Guest.reused where
  ref g := by unfold Guest.reused; simp only; split <;> rfl
  id g := by unfold Guest.reused; simp only; split <;> rfl
  clientIps g := by unfold Guest.reused; simp only; split <;> rfl
  connected g := by unfold Guest.reused; simp only; split <;> rfl
  kept g hg := by
    unfold Guest.reused
    simp only
    rw [if_neg (by omega)]
    exact ⟨rfl, rfl⟩
  last g hg := by
    unfold Guest.reused
    simp only
    rw [if_pos (by omega)]
    exact Or.inr rfl

/-- **What a step can do**, by kind of event. -/
theorem step_cases {s t : Sys} {e : Event} (h : step s e = some t) :
    (∃ ip env, e = .request ip env ∧ t.pool = (s.pool.requestVm env ip).1 ∧
      t.leases = match s.pool.chooseGuest ip with
        | some g => s.leases ++ [⟨ip, g.ref, g.id⟩]
        | none => s.leases) ∨
    (∃ l, e.lease? = some l ∧ Releases e.writes ∧ l ∈ s.leases ∧ t.leases = s.leases.erase l ∧
      t.pool = { s.pool with
        guests := PoolService.updateById l.id e.writes s.pool.guests }) ∨
    (∃ env, e = .producer env ∧ t.pool = (s.pool.producerLoop env).1 ∧ t.leases = s.leases) := by
  cases e with
  | request ip env =>
    obtain rfl := Option.some.inj h
    exact Or.inl ⟨ip, env, rfl, rfl, rfl⟩
  | free l now =>
    simp only [step] at h
    split at h
    · rename_i hl
      obtain rfl := Option.some.inj h
      exact Or.inr (Or.inl ⟨l, rfl, releases_freed now, hl, rfl, rfl⟩)
    · cases h
  | reuse l =>
    simp only [step] at h
    split at h
    · rename_i hl
      obtain rfl := Option.some.inj h
      exact Or.inr (Or.inl ⟨l, rfl, releases_reused, hl, rfl, rfl⟩)
    · cases h
  | producer env =>
    obtain rfl := Option.some.inj h
    exact Or.inr (Or.inr ⟨env, rfl, rfl, rfl⟩)

/-- Writing to the guests keeps what is not written. -/
theorem map_kept {β : Type} {gs : List Guest} {f : Guest → Guest} {p : Guest → β}
    (hf : ∀ g, p (f g) = p g) : (gs.map f).map p = gs.map p := by
  rw [List.map_map]
  exact List.map_congr_left fun g _ => hf g

/-- What no request and no release writes. -/
structure SameGuest (g g' : Guest) : Prop where
  ref : g'.ref = g.ref
  id : g'.id = g.id
  domain : g'.domain = g.domain

theorem SameGuest.refl (g : Guest) : SameGuest g g := ⟨rfl, rfl, rfl⟩

theorem same_granted (ip : Ip) (g : Guest) : SameGuest g (g.granted ip) := ⟨rfl, rfl, rfl⟩

theorem same_writes (e : Event) (g : Guest) : SameGuest g (e.writes g) := by
  cases e with
  | free l now => exact ⟨rfl, rfl, rfl⟩
  | reuse l =>
    change SameGuest g g.reused
    unfold Guest.reused
    simp only
    split
    · exact ⟨rfl, rfl, rfl⟩
    · exact ⟨rfl, rfl, rfl⟩
  | request ip env => exact SameGuest.refl g
  | producer env => exact SameGuest.refl g

theorem same_write {f : Guest → Guest} (hf : ∀ g, SameGuest g (f g)) (r : Ref) (g : Guest) :
    SameGuest g (if g.ref = r then f g else g) := by
  split
  · exact hf g
  · exact SameGuest.refl g

/-- **Requests and releases keep the guests** in the list, and write to some of their fields. -/
theorem consumer_guests {s t : Sys} {e : Event} (hnd : (s.pool.guests.map Guest.ref).Nodup)
    (he : ∀ env, e ≠ .producer env) (h : step s e = some t) :
    ∃ f, (∀ g, SameGuest g (f g)) ∧ t.pool.guests = s.pool.guests.map f := by
  have hid : s.pool.guests = s.pool.guests.map id := (List.map_id _).symm
  rcases step_cases h with ⟨ip, env, -, hp, -⟩ | ⟨l, -, -, -, -, hp⟩ | ⟨env, rfl, -, -⟩
  · obtain ⟨-, -, hg⟩ := requestVm_guests env ip s.pool
    rw [← hp] at hg
    cases hc : s.pool.chooseGuest ip with
    | none =>
      simp only [hc] at hg
      exact ⟨id, SameGuest.refl, hg.trans hid⟩
    | some c =>
      simp only [hc] at hg
      exact ⟨_, same_write (same_granted ip) c.ref, hg⟩
  · have hg := updateById_spec l.id e.writes hnd
    rw [hp]
    cases hc : s.pool.guests.find? (·.id == l.id) with
    | none =>
      rw [hc] at hg
      exact ⟨id, SameGuest.refl, hg.trans hid⟩
    | some c =>
      rw [hc] at hg
      exact ⟨_, same_write (same_writes e) c.ref, hg⟩
  · exact absurd rfl (he env)

/-- No step changes the settings. -/
theorem settings_step (s : Sys) (e : Event) (t : Sys) (h : step s e = some t) :
    t.pool.settings = s.pool.settings := by
  rcases step_cases h with ⟨ip, env, -, hp, -⟩ | ⟨l, -, -, -, -, hp⟩ | ⟨env, -, hp, -⟩
  · rw [hp]
    exact (requestVm_guests env ip s.pool).2.1
  · rw [hp]
  · rw [hp]
    exact (producer_spec env s.pool).settings

theorem nextRef_consumer {s t : Sys} {e : Event} (he : ∀ env, e ≠ .producer env)
    (h : step s e = some t) : t.pool.nextRef = s.pool.nextRef := by
  rcases step_cases h with ⟨ip, env, -, hp, -⟩ | ⟨l, -, -, -, -, hp⟩ | ⟨env, rfl, -, -⟩
  · rw [hp]
    exact (requestVm_guests env ip s.pool).1
  · rw [hp]
  · exact absurd rfl (he env)

theorem nextRef_step (s : Sys) (e : Event) (t : Sys) (h : step s e = some t) :
    s.pool.nextRef ≤ t.pool.nextRef := by
  rcases step_cases h with ⟨ip, env, -, hp, -⟩ | ⟨l, -, -, -, -, hp⟩ | ⟨env, -, hp, -⟩
  · rw [hp, (requestVm_guests env ip s.pool).1]
  · rw [hp]
  · rw [hp]
    exact (producer_spec env s.pool).nextRef

/-! ## Invariants of all runs -/

/-- Guests are distinct objects, allocated below `nextRef`; a guest with a client can be
reverted to a serving state. -/
structure Wf (s : PoolService) : Prop where
  nodup : (s.guests.map Guest.ref).Nodup
  bound : ∀ g ∈ s.guests, g.ref < s.nextRef
  reverts : ∀ g ∈ s.guests, 1 ≤ g.connected → Serving g.prevState

theorem Wf.eq_of_ref {s : PoolService} (h : Wf s) {g g' : Guest} (hg : g ∈ s.guests)
    (hg' : g' ∈ s.guests) (e : g.ref = g'.ref) : g = g' :=
  List.inj_on_of_nodup_map h.nodup hg hg' e

/-- Writing to one object keeps the objects. -/
theorem map_ref_write {gs : List Guest} {f : Guest → Guest} {r : Ref}
    (hf : ∀ g, (f g).ref = g.ref) :
    (gs.map fun x => if x.ref = r then f x else x).map Guest.ref = gs.map Guest.ref := by
  refine map_kept fun g => ?_
  split
  · exact hf g
  · rfl

/-- A guest after a write to the object `r`. -/
theorem mem_write {gs : List Guest} {f : Guest → Guest} {r : Ref} {g' : Guest}
    (h : g' ∈ gs.map fun x => if x.ref = r then f x else x) :
    ∃ g ∈ gs, (g.ref = r ∧ g' = f g) ∨ (g.ref ≠ r ∧ g' = g) := by
  obtain ⟨g, hg, rfl⟩ := List.mem_map.mp h
  refine ⟨g, hg, ?_⟩
  by_cases hr : g.ref = r
  · exact Or.inl ⟨hr, if_pos hr⟩
  · exact Or.inr ⟨hr, if_neg hr⟩

theorem wf_write {s t : PoolService} {f : Guest → Guest} {r : Ref} (hs : Wf s)
    (hf : ∀ g, (f g).ref = g.ref)
    (hrev : ∀ g ∈ s.guests, g.ref = r → 1 ≤ (f g).connected → Serving (f g).prevState)
    (hg : t.guests = s.guests.map fun x => if x.ref = r then f x else x)
    (hn : t.nextRef = s.nextRef) : Wf t := by
  refine ⟨?_, fun g' hg' => ?_, fun g' hg' => ?_⟩
  · rw [hg, map_ref_write hf]
    exact hs.nodup
  · rw [hg] at hg'
    obtain ⟨g, hmem, ⟨-, rfl⟩ | ⟨-, rfl⟩⟩ := mem_write hg'
    · rw [hf, hn]
      exact hs.bound g hmem
    · rw [hn]
      exact hs.bound _ hmem
  · rw [hg] at hg'
    obtain ⟨g, hmem, ⟨hr, rfl⟩ | ⟨-, rfl⟩⟩ := mem_write hg'
    · exact hrev g hmem hr
    · exact hs.reverts _ hmem

theorem Reaps.wf {s t : PoolService} (h : Reaps s t) (hs : Wf s) : Wf t := by
  refine ⟨h.refs.nodup hs.nodup, fun g' hg' => ?_, fun g' hg' h1 => ?_⟩
  · obtain ⟨g, hg, ha⟩ := h.aged g' hg'
    rw [ha.ref_eq, h.nextRef]
    exact hs.bound g hg
  · obtain ⟨g, hg, ha⟩ := h.aged g' hg'
    rw [ha.1] at h1 ⊢
    exact hs.reverts g hg h1

theorem Grows.wf {s t : PoolService} (h : Grows s t) (hs : Wf s) : Wf t := by
  obtain ⟨hn, -, news, hg, hnd, hfresh⟩ := h
  refine ⟨?_, fun g hgm => ?_, fun g hgm h1 => ?_⟩
  · rw [hg, List.map_append, List.nodup_append]
    refine ⟨hs.nodup, hnd, ?_⟩
    intro x hx y hy hxy
    obtain ⟨a, ha, rfl⟩ := List.mem_map.mp hx
    obtain ⟨b, hb, rfl⟩ := List.mem_map.mp hy
    have h1 : b.ref < s.nextRef := hxy ▸ hs.bound a ha
    exact absurd (hfresh b hb).1.ref (not_le.mpr h1)
  · rw [hg] at hgm
    rcases List.mem_append.mp hgm with hgm | hgm
    · exact (hs.bound g hgm).trans_le hn
    · exact (hfresh g hgm).2
  · rw [hg] at hgm
    rcases List.mem_append.mp hgm with hgm | hgm
    · exact hs.reverts g hgm h1
    · rw [(hfresh g hgm).1.connected] at h1
      exact absurd h1 (by omega)

theorem wf_step (s : Sys) (e : Event) (t : Sys) (hs : Wf s.pool) (h : step s e = some t) :
    Wf t.pool := by
  rcases step_cases h with ⟨ip, env, rfl, hp, -⟩ | ⟨l, hl, hf, -, -, hp⟩ | ⟨env, rfl, hp, -⟩
  · obtain ⟨hn, -, hg⟩ := requestVm_guests env ip s.pool
    rw [hp]
    cases hc : s.pool.chooseGuest ip with
    | none =>
      simp only [hc] at hg
      refine ⟨?_, ?_, ?_⟩ <;> rw [hg]
      · exact hs.nodup
      · rw [hn]
        exact hs.bound
      · exact hs.reverts
    | some c =>
      simp only [hc] at hg
      obtain ⟨hmem, hserve⟩ := chooseGuest_mem hc
      refine wf_write (f := Guest.granted ip) hs (fun _ => rfl) (fun g hg hr _ => ?_) hg hn
      obtain rfl := hs.eq_of_ref hg hmem hr
      exact hserve
  · rw [hp]
    have hg := updateById_spec l.id e.writes hs.nodup
    cases hc : s.pool.guests.find? (·.id == l.id) with
    | none =>
      rw [hc] at hg
      simp only [hg]
      exact hs
    | some c =>
      rw [hc] at hg
      refine wf_write hs hf.ref (fun g hmem _ h1 => ?_) hg rfl
      rw [hf.connected] at h1
      rw [(hf.kept g (by omega)).2]
      exact hs.reverts g hmem (by omega)
  · rw [hp]
    have hprod := producer_spec env s.pool
    refine ⟨hprod.nodup hs.nodup hs.bound, fun g' hg' => ?_, fun g' hg' h1 => ?_⟩
    · rcases hprod.guests g' hg' with ⟨g, hg, ha⟩ | ⟨-, hb⟩
      · rw [ha.ref_eq]
        exact (hs.bound g hg).trans_le hprod.nextRef
      · exact hb
    · rcases hprod.guests g' hg' with ⟨g, hg, ha⟩ | ⟨hf, -⟩
      · rw [ha.1] at h1 ⊢
        exact hs.reverts g hg h1
      · rw [hf.connected] at h1
        exact absurd h1 (by omega)

theorem wf_start (settings : Settings) : Wf (Sys.start settings).pool :=
  ⟨by simp [Sys.start, PoolService.start], by simp [Sys.start, PoolService.start],
    by simp [Sys.start, PoolService.start]⟩

/-- **Every reachable pool is well formed.** -/
theorem wf_run {settings : Settings} {es : List Event} {s : Sys}
    (h : run step (Sys.start settings) es = some s) : Wf s.pool :=
  run_inv' wf_step (wf_start settings) h

end Cowrie.Pool
