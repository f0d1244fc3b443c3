import Cowrie.Core.ClientHello

/-!
# The JA4 fingerprint is stable (`generate_ja4`)

Clients permute their cipher suites and extensions and mix in GREASE values at random. `Reordered` lists are those
that such steps lead from one to the other: two lists with the same elements that are no noise, up to their order
(`reordered_iff`).

* `generateJa4_eq`: the fingerprint depends on the lists without GREASE, up to their order.
* **`ja4_eq_of_reordered`**: it is the same for two messages that differ in such steps.
-/

namespace Cowrie.Core.Fingerprint

open scoped List

/-! ## Lists up to order and noise -/

section
variable {α : Type} {noise : α → Prop}

/-- A list after permuting it and inserting and removing noise. -/
inductive Reordered (noise : α → Prop) : List α → List α → Prop
  | perm {l l' : List α} : l ~ l' → Reordered noise l l'
  | insert {a : α} {l : List α} : noise a → Reordered noise l (a :: l)
  | remove {a : α} {l : List α} : noise a → Reordered noise (a :: l) l
  | trans {l l' l'' : List α} : Reordered noise l l' → Reordered noise l' l'' → Reordered noise l l''

theorem Reordered.cons (a : α) {l l' : List α} (h : Reordered noise l l') : Reordered noise (a :: l) (a :: l') := by
  induction h with
  | perm hperm => exact .perm (hperm.cons a)
  | insert hb => exact .trans (.insert hb) (.perm (.swap ..))
  | remove hb => exact .trans (.perm (.swap ..)) (.remove hb)
  | trans _ _ ih ih' => exact .trans ih ih'

/-- Noise that a function does not see makes no difference to it. -/
theorem Reordered.filterMap {β : Type} {f : α → Option β} (hf : ∀ a, noise a → f a = none) {l l' : List α}
    (h : Reordered noise l l') : l.filterMap f ~ l'.filterMap f := by
  induction h with
  | perm hperm => exact hperm.filterMap f
  | insert ha => rw [List.filterMap_cons_none (hf _ ha)]
  | remove ha => rw [List.filterMap_cons_none (hf _ ha)]
  | trans _ _ ih ih' => exact ih.trans ih'

theorem Reordered.any {f : α → Bool} (hf : ∀ a, noise a → f a = false) {l l' : List α} (h : Reordered noise l l') :
    l.any f = l'.any f := by
  induction h with
  | perm hperm => exact hperm.any_eq
  | insert ha => rw [List.any_cons, hf _ ha, Bool.false_or]
  | remove ha => rw [List.any_cons, hf _ ha, Bool.false_or]
  | trans _ _ ih ih' => exact ih.trans ih'

/-- Nor does it to the image of the list, if it is noise there too. -/
theorem Reordered.map {β : Type} {noise' : β → Prop} (f : α → β) (hf : ∀ a, noise a → noise' (f a)) {l l' : List α}
    (h : Reordered noise l l') : Reordered noise' (l.map f) (l'.map f) := by
  induction h with
  | perm hperm => exact .perm (hperm.map f)
  | insert ha => exact .insert (hf _ ha)
  | remove ha => exact .remove (hf _ ha)
  | trans _ _ ih ih' => exact .trans ih ih'

variable [DecidablePred noise]

/-- The list without its noise. -/
def quiet (noise : α → Prop) [DecidablePred noise] (l : List α) : List α := l.filter fun a => ¬noise a

theorem reordered_quiet (l : List α) : Reordered noise l (quiet noise l) ∧ Reordered noise (quiet noise l) l := by
  induction l with
  | nil => exact ⟨.perm (.refl _), .perm (.refl _)⟩
  | cons a l ih =>
    unfold quiet at ih ⊢
    by_cases ha : noise a
    · rw [List.filter_cons_of_neg (by simpa using ha)]
      exact ⟨.trans (.remove ha) ih.1, .trans ih.2 (.insert ha)⟩
    · rw [List.filter_cons_of_pos (by simpa using ha)]
      exact ⟨ih.1.cons a, ih.2.cons a⟩

/-- What such steps keep is the list without its noise, up to order. -/
theorem reordered_iff {l l' : List α} : Reordered noise l l' ↔ quiet noise l ~ quiet noise l' := by
  constructor
  · intro h
    unfold quiet
    induction h with
    | perm hperm => exact hperm.filter _
    | insert ha => rw [List.filter_cons_of_neg (by simpa using ha)]
    | remove ha => rw [List.filter_cons_of_neg (by simpa using ha)]
    | trans _ _ ih ih' => exact ih.trans ih'
  · intro h
    exact .trans (reordered_quiet l).1 (.trans (.perm h) (reordered_quiet l').2)

end

/-! ## The fingerprint -/

/-- A GREASE value. -/
def Grease (n : Nat) : Prop := n ∈ greaseValues

instance (n : Nat) : Decidable (Grease n) := inferInstanceAs (Decidable (n ∈ greaseValues))

theorem sorted_eq_of_perm {l l' : List String} (h : l ~ l') : sorted l = sorted l' :=
  List.Perm.eq_of_pairwise' (List.pairwise_insertionSort _ _) (List.pairwise_insertionSort _ _)
    ((List.perm_insertionSort _ _).trans (h.trans (List.perm_insertionSort _ _).symm))

/-- **The fingerprint depends on the lists without GREASE, up to their order.** -/
theorem generateJa4_eq (shaEncode : List String ⊕ String → String) {info info' : TlsInfo}
    (hversion : info.tlsVersion = info'.tlsVersion) (hciphers : Reordered Grease info.ciphers info'.ciphers)
    (hextensions : Reordered Grease info.extensions info'.extensions) (hsni : info.hasSni = info'.hasSni)
    (halpn : info.alpn = info'.alpn) (halgorithms : info.signatureAlgorithms = info'.signatureAlgorithms)
    (useQuic : Bool) : generateJa4 shaEncode info useQuic = generateJa4 shaEncode info' useQuic := by
  have hquiet : ∀ {l l' : List Nat}, Reordered Grease l l' → withoutGrease l ~ withoutGrease l' := reordered_iff.mp
  have hc := hquiet hciphers
  have he := hquiet hextensions
  unfold generateJa4
  simp only [hversion, hsni, halpn, halgorithms, hc.length_eq, he.length_eq, sorted_eq_of_perm (hc.map hex4),
    sorted_eq_of_perm (he.map hex4)]

/-- What at most one element has is the same in another order. -/
theorem head?_eq_of_perm {α : Type} {l l' : List α} (h : l ~ l') (hone : l.length ≤ 1) : l.head? = l'.head? := by
  match l, hone with
  | [], _ => rw [h.nil_eq]
  | [a], _ => rw [List.perm_singleton.mp h.symm]

/-- GREASE extensions are none of those that the parser looks into. -/
theorem not_grease {e : Extension} (h : Grease e.type.toNat) :
    e.firstAlpn = none ∧ e.algorithms = none ∧ e.type ≠ 0x0000 := by
  have halpn : ¬Grease 0x0010 := by decide
  have halgorithms : ¬Grease 0x000d := by decide
  cases e with
  | alpn protocols => exact absurd h halpn
  | signatureAlgorithms algorithms => exact absurd h halgorithms
  | other type body => exact ⟨rfl, rfl, fun h0 => absurd (h0 ▸ h) (by decide)⟩

/-- **The fingerprint is the same** for two messages with an extensions block of which the second is the first with
its cipher suites and its extensions permuted and GREASE values inserted and removed. -/
theorem ja4_eq_of_reordered (shaEncode : List String ⊕ String → String) {h h' : ClientHello}
    {extensions extensions' : List Extension} (hsome : h.extensions = some extensions)
    (hsome' : h'.extensions = some extensions') (hversion : h.version = h'.version)
    (hciphers : Reordered (fun c : UInt16 => Grease c.toNat) h.ciphers h'.ciphers)
    (hextensions : Reordered (fun e : Extension => Grease e.type.toNat) extensions extensions') :
    ∃ fingerprint, ja4 shaEncode h.encode = some fingerprint ∧ ja4 shaEncode h'.encode = some fingerprint := by
  have hdistinct := h.distinct
  rw [hsome, Option.getD_some] at hdistinct
  refine ⟨generateJa4 shaEncode h.info false, ?_, ?_⟩
  · unfold ja4
    rw [h.parse_of_some hsome]
    rfl
  · unfold ja4
    rw [h'.parse_of_some hsome', Option.map_some]
    refine congrArg some (generateJa4_eq shaEncode ?_ ?_ ?_ ?_ ?_ ?_ false).symm
    all_goals
      unfold Hello.info
      simp only [hsome, hsome', Option.getD_some]
    · rw [hversion]
    · exact hciphers.map UInt16.toNat fun _ hc => hc
    · exact hextensions.map (fun e : Extension => e.type.toNat) fun _ he => he
    · exact hextensions.any fun _ he => decide_eq_false (not_grease he).2.2
    · exact head?_eq_of_perm (hextensions.filterMap fun _ he => (not_grease he).1)
        (length_filterMap_le_one (fun _ => type_of_firstAlpn) hdistinct)
    · exact head?_eq_of_perm (hextensions.filterMap fun _ he => (not_grease he).2.1)
        (length_filterMap_le_one (fun _ => type_of_algorithms) hdistinct)

/-- The same suites and extensions in another order, each with a GREASE value. -/
theorem ja4_of_reordered_hello :
    ∃ h h' : ClientHello, h.ciphers = [0x1301, 0xc02f] ∧ h'.ciphers = [0xc02f, 0x0a0a, 0x1301] ∧
      ∃ fingerprint, ja4 (Sum.elim (fun _ => "c1929292aa6b") fun _ => "a2cf1a00988d") h.encode = some fingerprint ∧
        ja4 (Sum.elim (fun _ => "c1929292aa6b") fun _ => "a2cf1a00988d") h'.encode = some fingerprint := by
  refine ⟨{ recordVersion := 0x0301, version := 0x0303, random := List.replicate 32 0, sessionId := []
            ciphers := [0x1301, 0xc02f], compression := [0]
            extensions := some [.other 0x0000 [0, 4, 0, 0, 1, 97], .alpn [[104, 50]]], random_length := rfl
            sessionId_length := by decide, ciphers_ne_nil := by decide, compression_length := by decide
            legal := by decide, distinct := by decide, fits := by decide },
    { recordVersion := 0x0301, version := 0x0303, random := List.replicate 32 0, sessionId := []
      ciphers := [0xc02f, 0x0a0a, 0x1301], compression := [0]
      extensions := some [.other 0x2a2a [], .alpn [[104, 50]], .other 0x0000 [0, 4, 0, 0, 1, 97]]
      random_length := rfl, sessionId_length := by decide, ciphers_ne_nil := by decide
      compression_length := by decide, legal := by decide, distinct := by decide, fits := by decide }, rfl, rfl,
    ja4_eq_of_reordered _ rfl rfl rfl ?_ ?_⟩
  · exact reordered_iff.mpr (by decide)
  · exact reordered_iff.mpr (by decide)

end Cowrie.Core.Fingerprint
