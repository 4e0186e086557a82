import Mathlib.Order.WellFounded

/-!
# Library.Stages

A search in stages: every stage goes on to the first place at which its own
condition holds, and no stage looks again at the conditions of the stages before it.
-/

namespace CloudI.Stages

variable {α : Type} [LinearOrder α] {P : α → Prop} {Ps : List (α → Prop)} {a b e : α}

/-- `b` is the first place from `a` on at which `P` holds. -/
structure First (P : α → Prop) (a b : α) : Prop where
  le : a ≤ b
  holds : P b
  least : ∀ c, a ≤ c → P c → b ≤ c

/-- The search: the stages one after another lead from `a` to `b`. -/
inductive Search : List (α → Prop) → α → α → Prop
  | nil {a : α} : Search [] a a
  | cons {P : α → Prop} {Ps : List (α → Prop)} {a b c : α} :
      First P a b → Search Ps b c → Search (P :: Ps) a c

/-- **A chain**: the conditions hold one after another at places from `a` to `e`, each at a place
of its own. -/
inductive Chain : List (α → Prop) → α → α → Prop
  | nil {a e : α} : a ≤ e → Chain [] a e
  | cons {P : α → Prop} {Ps : List (α → Prop)} {a b e : α} :
      a ≤ b → P b → Chain Ps b e → Chain (P :: Ps) a e

/-- All conditions hold at once. -/
def Together (Ps : List (α → Prop)) (a : α) : Prop := ∀ P ∈ Ps, P a

theorem First.eq (h : First P a b) (h' : First P a e) : b = e :=
  le_antisymm (h.least e h'.le h'.holds) (h'.least b h.le h.holds)

theorem First.self (h : P a) : First P a a := ⟨le_rfl, h, fun _ hle _ => hle⟩

/-- A condition that holds somewhere holds at a first place. -/
theorem exists_first [WellFoundedLT α] (hle : a ≤ e) (h : P e) : ∃ b, First P a b := by
  obtain ⟨b, ⟨hab, hb⟩, hmin⟩ :=
    wellFounded_lt.has_min {c : α | a ≤ c ∧ P c} ⟨e, hle, h⟩
  exact ⟨b, hab, hb, fun c hac hc => not_lt.mp (hmin c ⟨hac, hc⟩)⟩

theorem Chain.le (h : Chain Ps a e) : a ≤ e := by
  induction h with
  | nil hle => exact hle
  | cons hle _ _ ih => exact hle.trans ih

theorem Chain.mono (h : Chain Ps b e) (hle : a ≤ b) : Chain Ps a e := by
  cases h with
  | nil hbe => exact .nil (hle.trans hbe)
  | cons hbc hP hrest => exact .cons (hle.trans hbc) hP hrest

/-- Places at which all conditions hold are chains. -/
theorem Together.chain (hle : a ≤ e) (h : Together Ps e) : Chain Ps a e := by
  induction Ps generalizing a with
  | nil => exact .nil hle
  | cons P Ps ih =>
    exact .cons hle (h P List.mem_cons_self) (ih le_rfl fun Q hQ => h Q (List.mem_cons_of_mem P hQ))

theorem Search.le (h : Search Ps a b) : a ≤ b := by
  induction h with
  | nil => exact le_rfl
  | cons hfirst _ ih => exact hfirst.le.trans ih

/-- A search goes along a chain. -/
theorem Search.chain (h : Search Ps a b) : Chain Ps a b := by
  induction h with
  | nil => exact .nil le_rfl
  | cons hfirst _ ih => exact .cons hfirst.le hfirst.holds ih

/-- **No chain ends before the search does.** -/
theorem Search.le_of_chain (h : Search Ps a b) (hchain : Chain Ps a e) : b ≤ e := by
  induction h with
  | nil => exact hchain.le
  | cons hfirst _ ih =>
    cases hchain with
    | cons hle hP hrest => exact ih (hrest.mono (hfirst.least _ hle hP))

theorem Search.eq (h : Search Ps a b) (h' : Search Ps a e) : b = e :=
  le_antisymm (h.le_of_chain h'.chain) (h'.le_of_chain h.chain)

/-- A search stays where all conditions hold. -/
theorem Search.self (h : Together Ps a) : Search Ps a a := by
  induction Ps with
  | nil => exact .nil
  | cons P Ps ih =>
    exact .cons (.self (h P List.mem_cons_self)) (ih fun Q hQ => h Q (List.mem_cons_of_mem P hQ))

/-- A search that ends where it begins. -/
theorem Search.together_self (h : Search Ps a b) (hle : b ≤ a) : Together Ps a := by
  induction h with
  | nil => exact fun P hP => absurd hP List.not_mem_nil
  | cons hfirst hrest ih =>
    rename_i P Ps a b c
    obtain rfl : a = b := le_antisymm hfirst.le (hrest.le.trans hle)
    intro Q hQ
    rcases List.mem_cons.mp hQ with rfl | hQ
    · exact hfirst.holds
    · exact ih hle Q hQ

/-- **A search ends** if there is a chain. -/
theorem Chain.exists_search [WellFoundedLT α] (h : Chain Ps a e) : ∃ b, Search Ps a b := by
  induction Ps generalizing a with
  | nil => exact ⟨a, .nil⟩
  | cons P Ps ih =>
    cases h with
    | cons hle hP hrest =>
      obtain ⟨b, hb⟩ := exists_first hle hP
      obtain ⟨c, hc⟩ := ih (hrest.mono (hb.least _ hle hP))
      exact ⟨c, .cons hb hc⟩

/-- It ends where all conditions hold at the latest. -/
theorem exists_search [WellFoundedLT α] (hle : a ≤ e) (h : Together Ps e) : ∃ b, Search Ps a b :=
  (h.chain hle).exists_search

/-- A chain with one condition more. -/
theorem chain_append_singleton : Chain (Ps ++ [P]) a e ↔ ∃ b, Chain Ps a b ∧ P b ∧ b ≤ e := by
  induction Ps generalizing a with
  | nil =>
    constructor
    · intro h
      cases h with
      | cons hle hP hrest => exact ⟨_, .nil hle, hP, hrest.le⟩
    · rintro ⟨b, hchain, hP, hle⟩
      exact .cons hchain.le hP (.nil hle)
  | cons Q Ps ih =>
    constructor
    · intro h
      cases h with
      | cons hle hQ hrest =>
        obtain ⟨b, hchain, hb⟩ := ih.mp hrest
        exact ⟨b, .cons hle hQ hchain, hb⟩
    · rintro ⟨b, hchain, hb⟩
      cases hchain with
      | cons hle hQ hrest => exact .cons hle hQ (ih.mpr ⟨b, hrest, hb⟩)

/-- A chain may end later. -/
theorem Chain.extend {b : α} (h : Chain Ps a b) (hle : b ≤ e) : Chain Ps a e := by
  induction h with
  | nil hab => exact .nil (hab.trans hle)
  | cons hab hP _ ih => exact .cons hab hP (ih hle)

/-- **When a search finds the first place at which all conditions hold**: every chain passes one. -/
theorem Search.first_iff (h : Search Ps a b) :
    First (Together Ps) a b ↔ ∀ e, Chain Ps a e → ∃ c, a ≤ c ∧ c ≤ e ∧ Together Ps c := by
  constructor
  · intro hfirst e hchain
    exact ⟨b, hfirst.le, h.le_of_chain hchain, hfirst.holds⟩
  · intro hpass
    obtain ⟨c, hac, hcb, hc⟩ := hpass b h.chain
    obtain rfl : b = c := le_antisymm (h.le_of_chain (hc.chain hac)) hcb
    exact ⟨hac, hc, fun d had hd => h.le_of_chain (hd.chain had)⟩

end CloudI.Stages
