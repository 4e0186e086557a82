import CloudI.Configuration.Acl
import CloudI.Library.Except

/-!
# Configuration.AclExpanded

What `acl_add` stores and what the lists of a service expand to.  `acl_add` succeeds exactly when
everything that the new definitions reach is in order, and stores the patterns they reach.  The
patterns are in the order of the definition only when the turns of the search come out even.
-/

namespace CloudI.Configuration.Acl

open List
open Expansion (Reaches Leads Sound Below below_nil Op Unfolds pushes run run_nil run_perm flipped
  kept)

variable {κ τ : Type} [LinearOrder κ]

/-- The definitions of a map. -/
def defs (acl : AclMap κ τ) (k : κ) : Option (List (Element κ τ)) := Maps.find k acl

/-- A list expands in a map. -/
abbrev Expands (acl : AclMap κ τ) (values : List (Element κ τ)) (ops : List (Op (Element κ τ))) :
    Prop :=
  Unfolds Element.asAlias (defs acl) values ops

/-- Everything that a list reaches in a map is in order. -/
abbrev InOrder (acl : AclMap κ τ) (values : List (Element κ τ)) : Prop :=
  Sound Element.asAlias (defs acl) Element.IsPattern values

/-! ## the search -/

variable {path : List κ} {acl acl' aclConfig aclFinal : AclMap κ τ}
  {values out output l : List (Element κ τ)} {key : κ} {pairs : List (κ × List (Element κ τ))}

/-- A search that succeeds has expanded its list. -/
theorem aclUpdateValues_spec (h : aclUpdateValues acl key values output path = .ok out) :
    ∃ ops, Expands acl values ops ∧ out = run ops output ∧ ∀ e ∈ pushes ops, e.IsPattern := by
  induction values, output, path using aclUpdateValues.induct acl key generalizing out with
  | case1 output path =>
    rw [aclUpdateValues] at h
    cases h
    exact ⟨_, .nil, rfl, nofun⟩
  | case2 output path a values hpath =>
    rw [aclUpdateValues, dif_pos hpath] at h
    cases h
  | case3 output path a values hpath hfind =>
    rw [aclUpdateValues, dif_neg hpath] at h
    split at h
    · cases h
    · next other hother => simp [hfind] at hother
  | case4 output path a values hpath other hfind newOutput hother ih₁ ih₂ =>
    rw [aclUpdateValues, dif_neg hpath] at h
    split at h
    · cases h
    · next other' hfind' =>
        cases hfind.symm.trans hfind'
        rw [hother] at h
        obtain ⟨ops₁, hunfolds₁, hrun₁, hgood₁⟩ := ih₁ hother
        obtain ⟨ops₂, hunfolds₂, hrun₂, hgood₂⟩ := ih₂ h
        refine ⟨ops₁ ++ ops₂, .name rfl hfind hunfolds₁ hunfolds₂, ?_, ?_⟩
        · rw [hrun₂, hrun₁, run, run, run, foldl_append]
        · intro e he
          rw [Expansion.pushes_append] at he
          exact (mem_append.mp he).elim (hgood₁ e) (hgood₂ e)
  | case5 output path a values hpath other hfind failure hother ih =>
    rw [aclUpdateValues, dif_neg hpath] at h
    split at h
    · cases h
    · next other' hfind' =>
        cases hfind.symm.trans hfind'
        rw [hother] at h
        cases h
  | case6 output path text values e hcheck ih =>
    rw [aclUpdateValues, hcheck] at h
    obtain ⟨rfl, hpattern⟩ := checkText_ok_iff.mp hcheck
    obtain ⟨ops, hunfolds, hrun, hgood⟩ := ih h
    exact ⟨_, .leaf rfl hunfolds, hrun, forall_mem_cons.mpr ⟨hpattern, hgood⟩⟩
  | case7 output path text values failure hcheck =>
    rw [aclUpdateValues, hcheck] at h
    cases h
  | case8 output path term values =>
    rw [aclUpdateValues] at h
    cases h

/-- A search of a list in order succeeds: below the path nothing leads back to it. -/
theorem exists_aclUpdateValues (hsound : InOrder acl values)
    (hbelow : Below Element.asAlias (defs acl) path values) :
    ∃ out, aclUpdateValues acl key values output path = .ok out := by
  induction values, output, path using aclUpdateValues.induct acl key with
  | case1 output path => exact ⟨_, by rw [aclUpdateValues]⟩
  | case2 output path a values hpath =>
    exact absurd hpath (hbelow.notMem hsound (show Element.asAlias (.atom a) = some a from rfl))
  | case3 output path a values hpath hfind =>
    obtain ⟨other, hother⟩ := hsound.defined (.atom a) a (.mem mem_cons_self) rfl
    exact absurd (hfind.symm.trans hother) nofun
  | case4 output path a values hpath other hfind newOutput hother ih₁ ih₂ =>
    obtain ⟨out, hout⟩ := ih₂ hsound.tail hbelow.tail
    refine ⟨out, ?_⟩
    rw [aclUpdateValues, dif_neg hpath]
    split
    · next hnone => simp [hfind] at hnone
    · next other' hfind' =>
        cases hfind.symm.trans hfind'
        rw [hother]
        exact hout
  | case5 output path a values hpath other hfind failure hother ih =>
    obtain ⟨out, hout⟩ := ih (hsound.definition (k := a) rfl hfind)
      (hbelow.definition (k := a) rfl hfind)
    rw [hother] at hout
    cases hout
  | case6 output path text values e hcheck ih =>
    obtain ⟨out, hout⟩ := ih hsound.tail hbelow.tail
    exact ⟨out, by rw [aclUpdateValues, hcheck]; exact hout⟩
  | case7 output path text values failure hcheck =>
    have hpattern := hsound.leaves (.text text) (.mem mem_cons_self) rfl
    have hok := checkText_ok_iff.mpr ⟨rfl, hpattern⟩
    rw [hcheck] at hok
    cases hok
  | case8 output path term values =>
    exact (hsound.leaves (.other term) (.mem mem_cons_self) rfl).elim

/-- **A search succeeds** exactly when everything that its list reaches is in order. -/
theorem aclUpdateValues_ok_iff (key : κ) :
    (∃ out, aclUpdateValues acl key values [] [] = .ok out) ↔ InOrder acl values := by
  constructor
  · rintro ⟨out, hout⟩
    obtain ⟨ops, hunfolds, -, hgood⟩ := aclUpdateValues_spec hout
    exact hunfolds.sound hgood
  · intro hsound
    exact exists_aclUpdateValues hsound (below_nil values)

/-! ## `acl_add` -/

/-- Definitions, as an argument of `acl_add`. -/
def definitions (pairs : List (κ × List (Element κ τ))) : List (Definition κ τ) :=
  pairs.map fun p => .pair p.1 p.2

/-- Definitions put over a map, later ones over earlier ones. -/
def overlay (pairs : List (κ × List (Element κ τ))) (acl : AclMap κ τ) : AclMap κ τ :=
  pairs.foldl (fun d p => Maps.put p.1 p.2 d) acl

theorem aclStore_definitions (hpairs : ∀ p ∈ pairs, p.2 ≠ []) (acl : AclMap κ τ) :
    aclStore (definitions pairs) acl = .ok (overlay pairs acl) := by
  induction pairs generalizing acl with
  | nil => rfl
  | cons p pairs ih =>
    obtain ⟨hp, hrest⟩ := forall_mem_cons.mp hpairs
    obtain ⟨key, value⟩ := p
    cases value with
    | nil => exact absurd rfl hp
    | cons e value => exact ih hrest _

theorem eq_definitions_of_aclStore (h : aclStore entries acl = .ok acl') :
    ∃ pairs, entries = definitions pairs ∧ ∀ p ∈ pairs, p.2 ≠ [] := by
  induction entries generalizing acl with
  | nil => exact ⟨[], rfl, nofun⟩
  | cons entry entries ih =>
    match entry, h with
    | .pair key (e :: value), h =>
      obtain ⟨pairs, rfl, hpairs⟩ := ih h
      exact ⟨(key, e :: value) :: pairs, rfl,
        forall_mem_cons.mpr ⟨cons_ne_nil _ _, hpairs⟩⟩

theorem find_overlay_of_notMem (h : key ∉ pairs.map Prod.fst) (acl : AclMap κ τ) :
    Maps.find key (overlay pairs acl) = Maps.find key acl := by
  induction pairs generalizing acl with
  | nil => rfl
  | cons p pairs ih =>
    rw [map_cons, mem_cons, not_or] at h
    have hstep : overlay (p :: pairs) acl = overlay pairs (Maps.put p.1 p.2 acl) := rfl
    rw [hstep, ih h.2, Maps.find_put, if_neg fun heq => h.1 heq.symm]

theorem aclUpdate_definitions_cons (p : κ × List (Element κ τ)) :
    aclUpdate (definitions (p :: pairs)) aclFinal aclConfig =
      aclUpdateValues aclConfig p.1 p.2 [] [] >>= fun newValue =>
        aclUpdate (definitions pairs) (Maps.put p.1 newValue aclFinal) aclConfig := by
  show aclUpdate (.pair p.1 p.2 :: definitions pairs) aclFinal aclConfig = _
  rw [aclUpdate]
  cases aclUpdateValues aclConfig p.1 p.2 [] [] <;> rfl

/-- The update succeeds exactly when the search of every definition does. -/
theorem aclUpdate_ok_iff : (∃ acl', aclUpdate (definitions pairs) aclFinal aclConfig = .ok acl') ↔
      ∀ p ∈ pairs, InOrder aclConfig p.2 := by
  induction pairs generalizing aclFinal with
  | nil => exact ⟨fun _ => forall_mem_nil _, fun _ => ⟨_, rfl⟩⟩
  | cons p pairs ih =>
    rw [forall_mem_cons, ← aclUpdateValues_ok_iff p.1, aclUpdate_definitions_cons]
    cases aclUpdateValues aclConfig p.1 p.2 [] [] with
    | ok newValue => simp [ih]
    | error failure => simp

/-- The update stores what the search of the last definition finds, and nothing else. -/
theorem find_aclUpdate (h : aclUpdate (definitions pairs) aclFinal aclConfig = .ok acl') (key : κ)
    (acl : AclMap κ τ) :
    if key ∈ pairs.map Prod.fst then
      ∃ value out, Maps.find key (overlay pairs acl) = some value ∧
        aclUpdateValues aclConfig key value [] [] = .ok out ∧ Maps.find key acl' = some out
    else Maps.find key acl' = Maps.find key aclFinal := by
  induction pairs generalizing aclFinal acl with
  | nil =>
    cases h
    exact rfl
  | cons p pairs ih =>
    have hoverlay : overlay (p :: pairs) acl = overlay pairs (Maps.put p.1 p.2 acl) := rfl
    rw [aclUpdate_definitions_cons] at h
    cases hvalues : aclUpdateValues aclConfig p.1 p.2 [] [] with
    | error failure => simp [hvalues] at h
    | ok newValue =>
      rw [hvalues] at h
      have hrest := ih h (Maps.put p.1 p.2 acl)
      by_cases hmem : key ∈ pairs.map Prod.fst
      · rw [if_pos hmem] at hrest
        rw [if_pos (by simp only [map_cons, mem_cons, hmem, or_true]), hoverlay]
        exact hrest
      · rw [if_neg hmem, Maps.find_put] at hrest
        by_cases hkey : p.1 = key
        · subst hkey
          rw [if_pos (by simp only [map_cons, mem_cons, true_or]), hoverlay]
          rw [if_pos rfl] at hrest
          refine ⟨p.2, newValue, ?_, hvalues, hrest⟩
          rw [find_overlay_of_notMem hmem, Maps.find_put, if_pos rfl]
        · rw [if_neg hkey] at hrest
          rw [if_neg (by
            rw [map_cons, mem_cons, not_or]
            exact ⟨fun heq => hkey heq.symm, hmem⟩)]
          exact hrest

/-! ## stored aliases -/

/-- What is stored are patterns. -/
def Stored (acl : AclMap κ τ) : Prop :=
  ∀ key value, Maps.find key acl = some value → ∀ e ∈ value, e.IsPattern

/-- The maps that calls of `acl_add` and `acl_remove` lead to. -/
inductive Reachable : AclMap κ τ → Prop
  | empty : Reachable ∅
  | add {acl acl' : AclMap κ τ} {value : List (Definition κ τ)} (h : Reachable acl)
      (hadd : aclAdd value acl = .ok acl') : Reachable acl'
  | remove {acl acl' : AclMap κ τ} {value : List (Option κ)} (h : Reachable acl)
      (hremove : aclRemove value acl = .ok acl') : Reachable acl'

theorem Stored.aclAdd (h : Stored acl) (hadd : Acl.aclAdd value acl = .ok acl') : Stored acl' := by
  have hlookup : aclLookupAdd value acl = .ok acl' := by
    unfold Acl.aclAdd at hadd
    split at hadd
    · exact hadd
    · cases hadd
  unfold aclLookupAdd at hlookup
  cases hstore : aclStore value acl with
  | error failure => simp [hstore] at hlookup
  | ok config =>
    rw [hstore] at hlookup
    obtain ⟨pairs, rfl, hpairs⟩ := eq_definitions_of_aclStore hstore
    intro key stored hstored
    have hfind := find_aclUpdate hlookup key acl
    by_cases hmem : key ∈ pairs.map Prod.fst
    · rw [if_pos hmem] at hfind
      obtain ⟨value, out, -, hvalues, hout⟩ := hfind
      cases hout.symm.trans hstored
      obtain ⟨ops, -, rfl, hgood⟩ := aclUpdateValues_spec hvalues
      exact fun e he => hgood e ((run_perm ops).mem_iff.mp he)
    · rw [if_neg hmem] at hfind
      exact h key stored (hfind ▸ hstored)

theorem Stored.aclRemove (h : Stored acl) (hremove : Acl.aclRemove value acl = .ok acl') :
    Stored acl' := by
  unfold Acl.aclRemove at hremove
  split at hremove
  · cases hremove
    refine List.foldlRecOn _ _ h fun acl hacl e _ => ?_
    cases e with
    | none => exact hacl
    | some a =>
      intro key stored hstored
      rw [Maps.find_remove] at hstored
      split at hstored
      · cases hstored
      · exact hacl key stored hstored
  · cases hremove

theorem Reachable.stored (h : Reachable acl) : Stored acl := by
  induction h with
  | empty =>
    intro key value hfind
    rw [Maps.find_empty] at hfind
    cases hfind
  | add _ hadd ih => exact ih.aclAdd hadd
  | remove _ hremove ih => exact ih.aclRemove hremove

/-! ## the lists of a service -/

theorem expands_patterns (acl : AclMap κ τ) (h : ∀ e ∈ value, e.IsPattern) :
    ∃ ops, Expands acl value ops ∧ pushes ops = value := by
  induction value with
  | nil => exact ⟨_, .nil, rfl⟩
  | cons e value ih =>
    obtain ⟨he, hrest⟩ := forall_mem_cons.mp h
    obtain ⟨ops, hops, hpushes⟩ := ih hrest
    exact ⟨_, .leaf (asAlias_of_isPattern he) hops, by rw [pushes, hpushes]⟩

/-- An expanded list is the turns that it stands for, in some order. -/
theorem expandList_spec (hacl : Stored acl) (h : expandList acl l output = .ok out) :
    ∃ ops, Expands acl l ops ∧ out.Perm (output ++ pushes ops) := by
  induction l generalizing output with
  | nil =>
    cases h
    exact ⟨_, .nil, by simp [pushes, reverse_perm output]⟩
  | cons e l ih =>
    cases e with
    | atom a =>
      rw [expandList] at h
      cases hfind : Maps.find a acl with
      | none => simp [hfind] at h
      | some value =>
        rw [hfind] at h
        obtain ⟨ops, hops, hperm⟩ := ih h
        obtain ⟨ops', hops', hpushes⟩ := expands_patterns acl (hacl a value hfind)
        refine ⟨ops' ++ ops, .name rfl hfind hops' hops, hperm.trans ?_⟩
        rw [Expansion.pushes_append, hpushes, append_assoc]
        exact perm_append_comm_assoc value output (pushes ops)
    | text t =>
      rw [expandList] at h
      cases hcheck : (checkText t : Except (Failure κ τ) (Element κ τ)) with
      | error failure => simp [hcheck] at h
      | ok e =>
        rw [hcheck] at h
        obtain ⟨rfl, -⟩ := checkText_ok_iff.mp hcheck
        obtain ⟨ops, hops, hperm⟩ := ih h
        refine ⟨_, .leaf rfl hops, hperm.trans ?_⟩
        exact perm_middle.symm
    | other term => cases h

/-- An element that raises an exception: neither an atom nor a list with an integer at the head,
or such a list whose end `trie:is_pattern2/1` does not take. -/
def Raises : Element κ τ → Prop
  | .atom _ => False
  | .text t => t.isPattern2 = .error .functionClause
  | .other _ => True

/-- An element that is refused with an error. -/
def Refused (acl : AclMap κ τ) : Element κ τ → Prop
  | .atom a => Maps.find a acl = none
  | .text t => t.isPattern2 = .error .badarg
  | .other _ => False

/-- No element raises an exception before one is refused. -/
def Handled (acl : AclMap κ τ) (l : List (Element κ τ)) : Prop :=
  ∀ before e after, l = before ++ e :: after → Raises e → ∃ e' ∈ before, Refused acl e'

theorem handled_cons : Handled acl (e :: l) ↔ ¬ Raises e ∧ (Refused acl e ∨ Handled acl l) := by
  constructor
  · intro h
    refine ⟨fun hraises => ?_, ?_⟩
    · obtain ⟨e', he', -⟩ := h [] e l rfl hraises
      cases he'
    · by_cases hrefused : Refused acl e
      · exact .inl hrefused
      · refine .inr fun before e' after hl hraises => ?_
        obtain ⟨e'', he'', hrefused''⟩ := h (e :: before) e' after (by rw [hl]; rfl) hraises
        rcases mem_cons.mp he'' with rfl | he''
        · exact absurd hrefused'' hrefused
        · exact ⟨e'', he'', hrefused''⟩
  · rintro ⟨hraises, h⟩ before e' after hl hraises'
    cases before with
    | nil =>
      cases hl
      exact absurd hraises' hraises
    | cons first before =>
      cases hl
      rcases h with hrefused | h
      · exact ⟨_, mem_cons_self, hrefused⟩
      · obtain ⟨e'', he'', hrefused''⟩ := h before e' after rfl hraises'
        exact ⟨e'', mem_cons_of_mem _ he'', hrefused''⟩

/-- A list raises no exception exactly when every element that would is behind one that is
refused. -/
theorem expandList_handled_iff (output : List (Element κ τ)) :
    expandList acl l output ≠ .error .functionClause ↔ Handled acl l := by
  induction l generalizing output with
  | nil => exact ⟨fun _ before e after h => by simp at h, fun _ => nofun⟩
  | cons e l ih =>
    rw [handled_cons]
    cases e with
    | atom a =>
      rw [expandList]
      cases hfind : Maps.find a acl with
      | none => simp [Raises, Refused, hfind]
      | some value => simp [Raises, Refused, hfind, ← ih (value ++ output)]
    | text t =>
      rw [expandList, checkText]
      cases hpattern : t.isPattern2 with
      | ok b => simp [Raises, Refused, hpattern, ← ih (.text t :: output)]
      | error failure => cases failure <;> simp [Raises, Refused, hpattern]
    | other term => simp [expandList, Raises]

/-! ## the order -/

/-- The definitions of a call of `acl_add` in a map, and what they come to. -/
structure Adds (acl : AclMap κ τ) (pairs : List (κ × List (Element κ τ))) : Prop where
  succeeds : (∃ acl', aclAdd (definitions pairs) acl = .ok acl') ↔
    ∀ p ∈ pairs, InOrder (overlay pairs acl) p.2
  stores : ∀ acl', aclAdd (definitions pairs) acl = .ok acl' → ∀ key ∈ pairs.map Prod.fst,
    ∃ value ops, Maps.find key (overlay pairs acl) = some value ∧
      Expands (overlay pairs acl) value ops ∧ Maps.find key acl' = some (pushes ops)
  patterns : ∀ acl', aclAdd (definitions pairs) acl = .ok acl' → Stored acl'
  unchanged : ∀ acl', aclAdd (definitions pairs) acl = .ok acl' → ∀ key, key ∉ pairs.map Prod.fst →
    Maps.find key acl' = Maps.find key acl

/-- A list of a service expands to the patterns that it reaches, or an error is returned. -/
def Answers (acl : AclMap κ τ) (l : List (Element κ τ)) : Prop :=
  (∃ out ops, serviceAclExpandList acl (.list l) = .ok (.list out) ∧ Expands acl l ops ∧
    out.Perm (pushes ops)) ∨
  ∃ reason, serviceAclExpandList acl (.list l) = .error (.error reason)

/-- The patterns of every new alias come out in order: those that an even number of turns follows,
the last one first, and then the others, are the patterns in the order of the definition. -/
def TurnsEvenly (acl : AclMap κ τ) (pairs : List (κ × List (Element κ τ))) : Prop :=
  (∀ p ∈ pairs, InOrder (overlay pairs acl) p.2) → ∀ key ∈ pairs.map Prod.fst, ∀ value ops,
    Maps.find key (overlay pairs acl) = some value → Expands (overlay pairs acl) value ops →
      (flipped ops).reverse ++ kept ops = pushes ops

/-- **Turns come out even** for distinct patterns exactly when, in every new alias, no pattern but
the first is followed by an even number of turns. -/
theorem turnsEvenly_iff (hdistinct : ∀ key ∈ pairs.map Prod.fst, ∀ value ops,
      Maps.find key (overlay pairs acl) = some value → Expands (overlay pairs acl) value ops →
        (pushes ops).Nodup) :
    TurnsEvenly acl pairs ↔ ((∀ p ∈ pairs, InOrder (overlay pairs acl) p.2) →
      ∀ key ∈ pairs.map Prod.fst, ∀ value ops, Maps.find key (overlay pairs acl) = some value →
        Expands (overlay pairs acl) value ops → ∀ e ∈ (pushes ops).tail, e ∉ flipped ops) := by
  refine forall_congr' fun _ => forall₂_congr fun key hkey => forall₂_congr fun value ops =>
    forall₂_congr fun hvalue hops => ?_
  exact Expansion.order_kept_iff ops (hdistinct key hkey value ops hvalue hops)

theorem aclAdd_definitions (hne : pairs ≠ []) (hpairs : ∀ p ∈ pairs, p.2 ≠ []) :
    aclAdd (definitions pairs) acl = aclUpdate (definitions pairs) acl (overlay pairs acl) := by
  have hadd : aclAdd (definitions pairs) acl = aclLookupAdd (definitions pairs) acl := by
    cases pairs with
    | nil => exact absurd rfl hne
    | cons p pairs =>
      obtain ⟨key, value⟩ := p
      cases value with
      | nil => exact absurd rfl (hpairs (key, []) mem_cons_self)
      | cons e value => rfl
  rw [hadd, aclLookupAdd, aclStore_definitions hpairs]

theorem stored_of_aclAdd (hne : pairs ≠ []) (hpairs : ∀ p ∈ pairs, p.2 ≠ [])
    (h : aclAdd (definitions pairs) acl = .ok acl') (hkey : key ∈ pairs.map Prod.fst) :
    ∃ value ops, Maps.find key (overlay pairs acl) = some value ∧
      Expands (overlay pairs acl) value ops ∧ Maps.find key acl' = some (run ops []) := by
  rw [aclAdd_definitions hne hpairs] at h
  have hfind := find_aclUpdate h key acl
  rw [if_pos hkey] at hfind
  obtain ⟨value, out, hvalue, hvalues, hout⟩ := hfind
  obtain ⟨ops, hops, rfl, -⟩ := aclUpdateValues_spec hvalues
  exact ⟨value, ops, hvalue, hops, hout⟩

theorem adds_iff (hacl : Reachable acl) (hne : pairs ≠ []) (hpairs : ∀ p ∈ pairs, p.2 ≠ []) :
    Adds acl pairs ↔ TurnsEvenly acl pairs := by
  have hsucceeds : (∃ acl', aclAdd (definitions pairs) acl = .ok acl') ↔
      ∀ p ∈ pairs, InOrder (overlay pairs acl) p.2 := by
    rw [aclAdd_definitions hne hpairs]
    exact aclUpdate_ok_iff
  constructor
  · intro h hinOrder key hkey value ops hvalue hops
    obtain ⟨acl', hadd⟩ := hsucceeds.mpr hinOrder
    obtain ⟨value₁, ops₁, hvalue₁, hops₁, hstored⟩ := stored_of_aclAdd hne hpairs hadd hkey
    obtain ⟨value₂, ops₂, hvalue₂, hops₂, hstored₂⟩ := h.stores acl' hadd key hkey
    cases hvalue.symm.trans hvalue₁
    cases hvalue.symm.trans hvalue₂
    rw [hops₁.unique hops] at hstored
    rw [hops₂.unique hops] at hstored₂
    rw [← run_nil]
    exact Option.some.inj (hstored.symm.trans hstored₂)
  · intro h
    refine ⟨hsucceeds, fun acl' hadd key hkey => ?_, fun acl' hadd => hacl.stored.aclAdd hadd,
      fun acl' hadd key hkey => ?_⟩
    · obtain ⟨value, ops, hvalue, hops, hstored⟩ := stored_of_aclAdd hne hpairs hadd hkey
      refine ⟨value, ops, hvalue, hops, ?_⟩
      rw [hstored, run_nil, h (hsucceeds.mp ⟨acl', hadd⟩) key hkey value ops hvalue hops]
    · rw [aclAdd_definitions hne hpairs] at hadd
      have hfind := find_aclUpdate hadd key acl
      rwa [if_neg hkey] at hfind

theorem answers_iff (hacl : Reachable acl) : Answers acl l ↔ Handled acl l := by
  rw [← expandList_handled_iff [], Answers, serviceAclExpandList]
  cases hexpand : expandList acl l [] with
  | ok out =>
    obtain ⟨ops, hops, hperm⟩ := expandList_spec hacl.stored hexpand
    exact iff_of_true (.inl ⟨out, ops, rfl, hops, hperm⟩) nofun
  | error failure =>
    cases failure with
    | error reason => exact iff_of_true (.inr ⟨reason, rfl⟩) nofun
    | functionClause =>
      refine iff_of_false ?_ fun h => h rfl
      rintro (⟨out, ops, hout, -⟩ | ⟨reason, hreason⟩)
      · cases hout
      · cases hreason

/-- **Access control lists**: `acl_add` and the expansion of a list of a service do what they are
for exactly when the patterns of the new aliases come out in order and no element of the list
raises an exception. -/
theorem acl_iff {acl : AclMap κ τ} (hacl : Reachable acl) {pairs : List (κ × List (Element κ τ))}
    (hne : pairs ≠ []) (hpairs : ∀ p ∈ pairs, p.2 ≠ []) (l : List (Element κ τ)) :
    Adds acl pairs ∧ Answers acl l ↔ TurnsEvenly acl pairs ∧ Handled acl l := by
  rw [adds_iff hacl hne hpairs, answers_iff hacl]

/-- Two aliases, and a list with one of them, a pattern and an alias that is not defined. -/
theorem acl_iff_twoAliases : Adds (∅ : AclMap Nat Nat)
        [(1, [.text ⟨.other 47, [.star], true⟩]), (2, [.atom 1, .text ⟨.other 97, [], true⟩])] ∧
      Answers ∅ [.atom 1, .text ⟨.other 47, [], true⟩] ↔
    TurnsEvenly (∅ : AclMap Nat Nat)
        [(1, [.text ⟨.other 47, [.star], true⟩]), (2, [.atom 1, .text ⟨.other 97, [], true⟩])] ∧
      Handled ∅ [.atom 1, .text ⟨.other 47, [], true⟩] :=
  acl_iff .empty (by simp) (by simp) _

/-- A pattern of one character. -/
def single (character : Nat) : Element Nat Nat := .text ⟨.other character, [], true⟩

theorem isPattern_single (character : Nat) : (single character).IsPattern :=
  wellFormed_singleton.mpr ⟨rfl, nofun⟩

/-- The alias of an alias of two patterns has them in reverse, and a number in a list of a service
raises an exception. -/
theorem alias_reversed_and_number_raises :
    ¬ Adds (∅ : AclMap Nat Nat) [(1, [.atom 2]), (2, [single 47, single 97])] ∧
      serviceAclExpandList (∅ : AclMap Nat Nat) (.list [.other 5]) = .error .functionClause := by
  refine ⟨?_, rfl⟩
  rw [adds_iff .empty (by simp) (by simp)]
  intro h
  have hfind : ∀ key, Maps.find key (overlay [(1, [.atom 2]), (2, [single 47, single 97])]
      (∅ : AclMap Nat Nat)) =
        if 2 = key then some [single 47, single 97] else if 1 = key then some [.atom 2] else none := by
    intro key
    simp [overlay]
  have htwo : Expands (overlay [(1, [.atom 2]), (2, [single 47, single 97])] (∅ : AclMap Nat Nat))
      [single 47, single 97] [.push (single 47), .push (single 97), .turn] :=
    .leaf rfl (.leaf rfl .nil)
  have hone : Expands (overlay [(1, [.atom 2]), (2, [single 47, single 97])] (∅ : AclMap Nat Nat))
      [.atom 2] ([.push (single 47), .push (single 97), .turn] ++ [.turn]) :=
    .name rfl (hfind 2) htwo .nil
  have hgood : ∀ e ∈ [single 47, single 97], e.IsPattern := by
    simp [isPattern_single]
  have horder := h (by
      refine forall_mem_cons.mpr ⟨hone.sound hgood, forall_mem_cons.mpr ⟨?_, nofun⟩⟩
      exact htwo.sound hgood) 1 (by simp) [.atom 2] _ (hfind 1) hone
  simp [flipped, kept, pushes, Expansion.turns, single] at horder

end CloudI.Configuration.Acl
