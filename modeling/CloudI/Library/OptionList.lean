import CloudI.Library.Except

/-!
# Library.OptionList

The check of a list of options: a state takes one option after the other, each of which may be
refused, and is completed at the end.  The rules are an induction over an accepted list, the
invariant that follows from it, and the equations of a list that is written out.
-/

namespace CloudI.OptionList

variable {α σ ρ ε : Type} {option : α → σ → Except ε σ} {complete : σ → Except ε ρ}

/-- Take the options in order, then complete the state. -/
def validate (option : α → σ → Except ε σ) (complete : σ → Except ε ρ) :
    List α → σ → Except ε ρ
  | [], state => complete state
  | entry :: options, state => option entry state >>= validate option complete options

theorem validate_nil (state : σ) : validate option complete [] state = complete state := rfl

variable {state : σ} {options : List α} {result : ρ}

/-- An option that is taken. -/
theorem validate_cons (h : option entry state = .ok state') :
    validate option complete (entry :: options) state = validate option complete options state' := by
  simp [validate, h]

/-- **Induction over an accepted list**, from the state that is completed. -/
theorem validate_induction {P : List α → σ → ρ → Prop}
    (hcomplete : ∀ state result, complete state = .ok result → P [] state result)
    (hoption : ∀ entry options state state' result, option entry state = .ok state' →
      P options state' result → P (entry :: options) state result)
    (h : validate option complete options state = .ok result) : P options state result := by
  induction options generalizing state with
  | nil => exact hcomplete state result h
  | cons entry options ih =>
    obtain ⟨state', hstate, hrest⟩ := Except.ok_of_bind h
    exact hoption entry options state state' result hstate (ih hrest)

/-- **Invariant rule**: what every accepted option keeps holds of the state that is completed. -/
theorem validate_invariant {I : σ → Prop}
    (hoption : ∀ entry state state', I state → option entry state = .ok state' → I state')
    (hstate : I state) (h : validate option complete options state = .ok result) :
    ∃ state', I state' ∧ complete state' = .ok result := by
  have hall : I state → ∃ state', I state' ∧ complete state' = .ok result :=
    validate_induction (P := fun _ state result => I state →
        ∃ state', I state' ∧ complete state' = .ok result)
      (fun state result hcomplete hI => ⟨state, hI, hcomplete⟩)
      (fun entry options state state' result hok ih hI => ih (hoption entry state state' hI hok)) h
  exact hall hstate

/-! ## the last option of a kind -/

variable {β : Type} {pick : α → Option β}

/-- What `pick` takes from the last option that it takes something from. -/
def lastOf (pick : α → Option β) : List α → Option β
  | [] => none
  | entry :: options => (lastOf pick options).or (pick entry)

/-- **The last option decides**: a property of the state that the options of a kind set, each by
itself, and the others leave alone. -/
theorem validate_last_iff {S : σ → Prop} {R : ρ → Prop} {T : β → Prop}
    (hcomplete : ∀ state result, complete state = .ok result → (R result ↔ S state))
    (hpick : ∀ entry state state' b, option entry state = .ok state' → pick entry = some b →
      (S state' ↔ T b))
    (hskip : ∀ entry state state', option entry state = .ok state' → pick entry = none →
      (S state' ↔ S state)) (h : validate option complete options state = .ok result) :
    R result ↔ (∀ b, lastOf pick options = some b → T b) ∧
      (lastOf pick options = none → S state) := by
  refine validate_induction (P := fun options state result => R result ↔
      (∀ b, lastOf pick options = some b → T b) ∧ (lastOf pick options = none → S state))
    ?_ ?_ h
  · intro state result hok
    simp [lastOf, hcomplete state result hok]
  · intro entry options state state' result hok ih
    rw [ih, lastOf]
    cases hlast : lastOf pick options with
    | some b => simp
    | none =>
      cases hentry : pick entry with
      | some b => simp [hpick entry state state' b hok hentry]
      | none => simp [hskip entry state state' hok hentry]

end CloudI.OptionList
