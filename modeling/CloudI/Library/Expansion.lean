import Mathlib.Data.List.Perm.Basic
import Mathlib.Data.Set.Basic

/-!
# Library.Expansion

Lists whose elements may be names of other lists, and their expansion.  A list expands when every
name that it reaches is defined and none leads back to itself.  A depth first search that carries
the names above it finds that out.

The search collects what is no name in a list that it turns around whenever it ends a list, at
whatever depth.  What that comes to depends on how many turns follow an element.
-/

namespace CloudI.Expansion

open List
open Relation (TransGen)

variable {α κ : Type}

/-! ## reached elements -/

section Reaching

variable (asAlias : α → Option κ) (defs : κ → Option (List α))

/-- The elements that a list reaches. -/
inductive Reaches (values : List α) : α → Prop
  | mem {e : α} (h : e ∈ values) : Reaches values e
  | step {e e' : α} {k : κ} {values' : List α} (h : Reaches values e) (halias : asAlias e = some k)
      (hdefs : defs k = some values') (hmem : e' ∈ values') : Reaches values e'

/-- The second name is in the list of the first. -/
def Leads (k k' : κ) : Prop :=
  ∃ values e, defs k = some values ∧ e ∈ values ∧ asAlias e = some k'

/-- Everything that a list reaches is in order: the names are defined and lead nowhere back, the
other elements are good. -/
structure Sound (good : α → Prop) (values : List α) : Prop where
  defined : ∀ e k, Reaches asAlias defs values e → asAlias e = some k → ∃ values', defs k = some values'
  acyclic : ∀ e k, Reaches asAlias defs values e → asAlias e = some k →
    ¬ TransGen (Leads asAlias defs) k k
  leaves : ∀ e, Reaches asAlias defs values e → asAlias e = none → good e

/-- All names of a list are below all names of a path. -/
def Below (path : List κ) (values : List α) : Prop :=
  ∀ p ∈ path, ∀ e ∈ values, ∀ k, asAlias e = some k → TransGen (Leads asAlias defs) p k

end Reaching

variable {asAlias : α → Option κ} {defs : κ → Option (List α)} {good : α → Prop}
  {values values' : List α} {e : α} {k : κ} {path : List κ}

theorem Reaches.mono (hsub : ∀ e ∈ values', Reaches asAlias defs values e)
    (h : Reaches asAlias defs values' e) : Reaches asAlias defs values e := by
  induction h with
  | mem hmem => exact hsub _ hmem
  | step _ halias hdefs hmem ih => exact .step ih halias hdefs hmem

theorem Sound.mono (hsub : ∀ e ∈ values', Reaches asAlias defs values e)
    (h : Sound asAlias defs good values) : Sound asAlias defs good values' where
  defined e k he := h.defined e k (he.mono hsub)
  acyclic e k he := h.acyclic e k (he.mono hsub)
  leaves e he := h.leaves e (he.mono hsub)

theorem Sound.tail (h : Sound asAlias defs good (e :: values)) : Sound asAlias defs good values :=
  h.mono fun _ he => .mem (mem_cons_of_mem _ he)

theorem Sound.definition (h : Sound asAlias defs good (e :: values)) (halias : asAlias e = some k)
    (hdefs : defs k = some values') : Sound asAlias defs good values' :=
  h.mono fun _ he => .step (.mem mem_cons_self) halias hdefs he

theorem below_nil (values : List α) : Below asAlias defs [] values := nofun

section

variable (h : Below asAlias defs path (e :: values))

include h

theorem Below.tail : Below asAlias defs path values :=
  fun p hp e he => h p hp e (mem_cons_of_mem _ he)

/-- The names of a definition are below its name too. -/
theorem Below.definition (halias : asAlias e = some k) (hdefs : defs k = some values')
    : Below asAlias defs (k :: path) values' := by
  intro p hp e' he' k' halias'
  have hleads : Leads asAlias defs k k' := ⟨values', e', hdefs, he', halias'⟩
  rcases mem_cons.mp hp with rfl | hp
  · exact .single hleads
  · exact .tail (h p hp e mem_cons_self k halias) hleads

/-- Where nothing leads back, a name is not on the path above it. -/
theorem Below.notMem (hsound : Sound asAlias defs good (e :: values)) (halias : asAlias e = some k)
    : k ∉ path :=
  fun hmem => hsound.acyclic e k (.mem mem_cons_self) halias
    (h k hmem e mem_cons_self k halias)

end

/-! ## the expansion -/

/-- What a search does: it pushes an element, or it turns around what it has. -/
inductive Op (α : Type) where
  | push (a : α)
  | turn

/-- What is pushed, in order. -/
def pushes : List (Op α) → List α
  | [] => []
  | .push a :: ops => a :: pushes ops
  | .turn :: ops => pushes ops

/-- How often it is turned. -/
def turns : List (Op α) → Nat
  | [] => 0
  | .push _ :: ops => turns ops
  | .turn :: ops => turns ops + 1

@[simp] theorem pushes_append (ops ops' : List (Op α)) :
    pushes (ops ++ ops') = pushes ops ++ pushes ops' := by
  induction ops with
  | nil => rfl
  | cons op ops ih => cases op <;> simp [pushes, ih]

@[simp] theorem turns_append (ops ops' : List (Op α)) :
    turns (ops ++ ops') = turns ops + turns ops' := by
  induction ops with
  | nil => simp [turns]
  | cons op ops ih => cases op <;> simp [turns, ih, Nat.add_right_comm]

section Unfolding

variable (asAlias : α → Option κ) (defs : κ → Option (List α))

/-- A list expands, and so does a search of it: the end of every list turns. -/
inductive Unfolds : List α → List (Op α) → Prop
  | nil : Unfolds [] [.turn]
  | leaf {e : α} {values : List α} {ops : List (Op α)} (hleaf : asAlias e = none)
      (h : Unfolds values ops) : Unfolds (e :: values) (.push e :: ops)
  | name {e : α} {k : κ} {values values' : List α} {ops ops' : List (Op α)}
      (halias : asAlias e = some k) (hdefs : defs k = some values') (h' : Unfolds values' ops')
      (h : Unfolds values ops) : Unfolds (e :: values) (ops' ++ ops)

end Unfolding

variable {ops ops' : List (Op α)}

section

variable (h : Unfolds asAlias defs values ops)

include h

theorem Unfolds.unique (h' : Unfolds asAlias defs values ops') : ops = ops' := by
  induction h generalizing ops' with
  | nil =>
    cases h'
    rfl
  | leaf hleaf h ih =>
    cases h' with
    | leaf hleaf' h' => rw [ih h']
    | name halias' => simp [hleaf] at halias'
  | name halias hdefs h₁ h₂ ih₁ ih₂ =>
    cases h' with
    | leaf hleaf' => simp [halias] at hleaf'
    | name halias' hdefs' h₁' h₂' =>
      cases halias.symm.trans halias'
      cases hdefs.symm.trans hdefs'
      rw [ih₁ h₁', ih₂ h₂']

theorem Unfolds.turns_pos : 0 < turns ops := by
  induction h with
  | nil => exact Nat.one_pos
  | leaf _ _ ih => exact ih
  | name _ _ _ _ _ ih =>
    rw [turns_append]
    exact Nat.add_pos_right _ ih

theorem Unfolds.leaf_mem (hmem : e ∈ values) (hleaf : asAlias e = none) : e ∈ pushes ops := by
  induction h with
  | nil => cases hmem
  | leaf _ _ ih =>
    rcases mem_cons.mp hmem with rfl | hmem
    · exact mem_cons_self
    · exact mem_cons_of_mem _ (ih hmem)
  | name halias _ _ _ _ ih =>
    rw [pushes_append]
    rcases mem_cons.mp hmem with rfl | hmem
    · simp [hleaf] at halias
    · exact mem_append_right _ (ih hmem)

/-- A name of a list that expands is defined.  Its definition expands too: it turns less often, and
what it pushes is pushed. -/
theorem Unfolds.definition (hmem : e ∈ values) (halias : asAlias e = some k) :
    ∃ values' ops', defs k = some values' ∧ Unfolds asAlias defs values' ops' ∧
      turns ops' < turns ops ∧ pushes ops' ⊆ pushes ops := by
  induction h with
  | nil => cases hmem
  | leaf hleaf h ih =>
    rcases mem_cons.mp hmem with rfl | hmem
    · simp [hleaf] at halias
    · obtain ⟨values', ops', hdefs, hunfolds, hlt, hsub⟩ := ih hmem
      exact ⟨values', ops', hdefs, hunfolds, hlt, subset_cons_of_subset _ hsub⟩
  | name halias' hdefs h₁ h₂ ih₁ ih₂ =>
    rw [turns_append, pushes_append]
    rcases mem_cons.mp hmem with rfl | hmem
    · cases halias.symm.trans halias'
      exact ⟨_, _, hdefs, h₁, Nat.lt_add_of_pos_right h₂.turns_pos, subset_append_left _ _⟩
    · obtain ⟨values', ops', hdefs', hunfolds, hlt, hsub⟩ := ih₂ hmem
      exact ⟨values', ops', hdefs', hunfolds, Nat.lt_of_lt_of_le hlt (Nat.le_add_left _ _),
        subset_append_of_subset_right _ hsub⟩

/-- So is every name that the list reaches. -/
theorem Unfolds.reached (he : Reaches asAlias defs values e) (halias : asAlias e = some k) :
    ∃ values' ops', defs k = some values' ∧ Unfolds asAlias defs values' ops' ∧
      pushes ops' ⊆ pushes ops := by
  induction he generalizing k with
  | mem hmem =>
    obtain ⟨values', ops', hdefs, hunfolds, -, hsub⟩ := h.definition hmem halias
    exact ⟨values', ops', hdefs, hunfolds, hsub⟩
  | step _ halias' hdefs hmem ih =>
    obtain ⟨values₁, ops₁, hdefs₁, hunfolds₁, hsub₁⟩ := ih halias'
    cases hdefs.symm.trans hdefs₁
    obtain ⟨values', ops', hdefs', hunfolds, -, hsub⟩ := hunfolds₁.definition hmem halias
    exact ⟨values', ops', hdefs', hunfolds, List.Subset.trans hsub hsub₁⟩

end

/-- A name whose definition expands leads to names whose definitions turn less often. -/
theorem Unfolds.leads {k' : κ} (hdefs : defs k = some values) (h : Unfolds asAlias defs values ops)
    (hleads : TransGen (Leads asAlias defs) k k') :
    ∃ values' ops', defs k' = some values' ∧ Unfolds asAlias defs values' ops' ∧
      turns ops' < turns ops := by
  induction hleads with
  | single hleads =>
    obtain ⟨values₁, e, hdefs₁, hmem, halias⟩ := hleads
    cases hdefs.symm.trans hdefs₁
    obtain ⟨values', ops', hdefs', hunfolds, hlt, -⟩ := h.definition hmem halias
    exact ⟨values', ops', hdefs', hunfolds, hlt⟩
  | tail _ hleads ih =>
    obtain ⟨values₁, ops₁, hdefs₁, hunfolds₁, hlt₁⟩ := ih
    obtain ⟨values₂, e, hdefs₂, hmem, halias⟩ := hleads
    cases hdefs₁.symm.trans hdefs₂
    obtain ⟨values', ops', hdefs', hunfolds, hlt, -⟩ := hunfolds₁.definition hmem halias
    exact ⟨values', ops', hdefs', hunfolds, hlt.trans hlt₁⟩

theorem Unfolds.mem_pushes (h : Unfolds asAlias defs values ops) :
    e ∈ pushes ops ↔ Reaches asAlias defs values e ∧ asAlias e = none := by
  constructor
  · intro hmem
    induction h with
    | nil => cases hmem
    | leaf hleaf h ih =>
      rcases mem_cons.mp hmem with rfl | hmem
      · exact ⟨.mem mem_cons_self, hleaf⟩
      · exact ⟨(ih hmem).1.mono fun _ he => .mem (mem_cons_of_mem _ he), (ih hmem).2⟩
    | name halias hdefs h₁ h₂ ih₁ ih₂ =>
      rw [pushes_append, mem_append] at hmem
      rcases hmem with hmem | hmem
      · exact ⟨(ih₁ hmem).1.mono fun _ he => .step (.mem mem_cons_self) halias hdefs he,
          (ih₁ hmem).2⟩
      · exact ⟨(ih₂ hmem).1.mono fun _ he => .mem (mem_cons_of_mem _ he), (ih₂ hmem).2⟩
  · rintro ⟨hreaches, hleaf⟩
    cases hreaches with
    | mem hmem => exact h.leaf_mem hmem hleaf
    | step hreaches halias hdefs hmem =>
      obtain ⟨values₁, ops₁, hdefs₁, hunfolds₁, hsub⟩ := h.reached hreaches halias
      cases hdefs.symm.trans hdefs₁
      exact hsub (hunfolds₁.leaf_mem hmem hleaf)

/-- **What expands is in order**, when what is pushed is good. -/
theorem Unfolds.sound (h : Unfolds asAlias defs values ops) (hgood : ∀ a ∈ pushes ops, good a) :
    Sound asAlias defs good values where
  defined e k he halias := by
    obtain ⟨values', ops', hdefs, -⟩ := h.reached he halias
    exact ⟨values', hdefs⟩
  acyclic e k he halias hleads := by
    obtain ⟨values₁, ops₁, hdefs₁, hunfolds₁, -⟩ := h.reached he halias
    obtain ⟨values₂, ops₂, hdefs₂, hunfolds₂, hlt⟩ := hunfolds₁.leads hdefs₁ hleads
    cases hdefs₁.symm.trans hdefs₂
    rw [hunfolds₁.unique hunfolds₂] at hlt
    exact Nat.lt_irrefl _ hlt
  leaves e he hleaf := hgood e (h.mem_pushes.mpr ⟨he, hleaf⟩)

/-! ## turning around -/

/-- One operation on the list. -/
def apply (out : List α) : Op α → List α
  | .push a => a :: out
  | .turn => out.reverse

variable (ops : List (Op α))

/-- The operations on a list. -/
def run (out : List α) : List α := ops.foldl apply out

/-- The elements that an even number of turns follows. -/
def flipped : List (Op α) → List α
  | [] => []
  | .push a :: ops => if turns ops % 2 = 0 then a :: flipped ops else flipped ops
  | .turn :: ops => flipped ops

/-- The elements that an odd number of turns follows. -/
def kept : List (Op α) → List α
  | [] => []
  | .push a :: ops => if turns ops % 2 = 0 then kept ops else a :: kept ops
  | .turn :: ops => kept ops

/-- The elements that are flipped come in front, the last first, the others behind. -/
theorem run_eq (out : List α) : run ops out =
      (flipped ops).reverse ++ (if turns ops % 2 = 0 then out else out.reverse) ++ kept ops := by
  induction ops generalizing out with
  | nil => simp [run, flipped, kept, turns]
  | cons op ops ih =>
    have hstep : run (op :: ops) out = run ops (apply out op) := rfl
    rw [hstep, ih]
    cases op with
    | push a =>
      by_cases heven : turns ops % 2 = 0
      · simp [flipped, kept, turns, apply, heven]
      · simp [flipped, kept, turns, apply, heven]
    | turn =>
      by_cases heven : turns ops % 2 = 0
      · have hodd : (turns ops + 1) % 2 ≠ 0 := by omega
        simp [flipped, kept, turns, apply, heven, hodd]
      · have heven' : (turns ops + 1) % 2 = 0 := by omega
        simp [flipped, kept, turns, apply, heven, heven']

/-- What comes out of nothing. -/
theorem run_nil : run ops [] = (flipped ops).reverse ++ kept ops := by
  rw [run_eq]
  split <;> simp

/-- Everything that is pushed comes out, in whatever order. -/
theorem run_perm : (run ops []).Perm (pushes ops) := by
  rw [run_nil]
  refine ((reverse_perm _).append_right _).trans ?_
  induction ops with
  | nil => exact .refl _
  | cons op ops ih =>
    cases op with
    | push a =>
      by_cases heven : turns ops % 2 = 0
      · simpa [flipped, kept, pushes, heven] using ih.cons a
      · simp only [flipped, kept, pushes, heven, if_false]
        exact perm_middle.trans (ih.cons a)
    | turn => exact ih

theorem flipped_subset : flipped ops ⊆ pushes ops := by
  induction ops with
  | nil => exact List.Subset.refl _
  | cons op ops ih =>
    cases op with
    | turn => exact ih
    | push a =>
      rw [flipped, pushes]
      split
      · exact List.cons_subset_cons a ih
      · exact List.subset_cons_of_subset a ih

theorem kept_eq (h : flipped ops = []) : kept ops = pushes ops := by
  induction ops with
  | nil => rfl
  | cons op ops ih =>
    cases op with
    | turn => exact ih h
    | push a =>
      rw [flipped] at h
      split at h
      · cases h
      · rename_i hodd
        rw [kept, if_neg hodd, ih h, pushes]

/-- **The order is kept**: distinct elements come out as they were pushed exactly when none but the
first is followed by an even number of turns. -/
theorem order_kept_iff (hnodup : (pushes ops).Nodup) :
    (flipped ops).reverse ++ kept ops = pushes ops ↔
      ∀ a ∈ (pushes ops).tail, a ∉ flipped ops := by
  induction ops with
  | nil => exact iff_of_true rfl fun a ha => by cases ha
  | cons op ops ih =>
    cases op with
    | turn => exact ih hnodup
    | push a =>
      obtain ⟨ha, hrest⟩ := List.nodup_cons.mp hnodup
      have hcomes : (flipped (.push a :: ops)).reverse ++ kept (.push a :: ops) =
          (flipped ops).reverse ++ a :: kept ops := by
        by_cases heven : turns ops % 2 = 0 <;> simp [flipped, kept, heven]
      have hsub : flipped ops ⊆ flipped (.push a :: ops) := by
        rw [flipped]
        split
        · exact List.subset_cons_self a _
        · exact List.Subset.refl _
      rw [hcomes]
      constructor
      · intro h b hb hflipped
        -- the first that comes out is `a`, which is pushed once
        have hnil : flipped ops = [] := by
          by_contra hne
          obtain ⟨c, l, hl⟩ := List.exists_cons_of_ne_nil (mt List.reverse_eq_nil_iff.mp hne)
          rw [hl] at h
          obtain rfl : c = a := (List.cons.inj h).1
          exact ha (flipped_subset ops (List.mem_reverse.mp (hl ▸ List.mem_cons_self)))
        rw [flipped, hnil] at hflipped
        split at hflipped
        · exact ha (List.mem_singleton.mp hflipped ▸ hb)
        · cases hflipped
      · intro h
        have hnil : flipped ops = [] :=
          List.eq_nil_iff_forall_not_mem.mpr fun b hb => h b (flipped_subset ops hb) (hsub hb)
        rw [hnil, kept_eq ops hnil]
        rfl

end CloudI.Expansion
