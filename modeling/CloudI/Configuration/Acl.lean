import CloudI.Erlang.Maps
import CloudI.Library.Expansion
import Mathlib.Data.List.Chain

/-!
# Configuration.Acl

The access control lists of `cloudi_core_i_configuration`: `acl_add` stores the expansion of every
alias, and the lists of a service are expanded with what is stored.

The elements of a list are aliases (atoms), service name patterns (lists with an integer at the
head) and other terms.
-/

namespace CloudI.Configuration.Acl

open List
open Expansion (Reaches Leads Sound Below Op Unfolds pushes run flipped kept)

variable {κ τ : Type}

/-! ## `trie:is_pattern2` -/

/-- A character of a pattern: what is equal to `$*`, `$?` and the float that is equal to it, and
the others.  The float is a wildcard, but at the end it is not the pattern `[$?]`. -/
inductive Character (τ : Type) where
  | star
  | question
  | questionFloat
  | other (term : τ)
  deriving DecidableEq

def Character.wild : Character τ → Bool
  | .other _ => false
  | _ => true

def Character.isQuestion : Character τ → Bool
  | .question => true
  | _ => false

/-- The exceptions of `trie:is_pattern2/1`. -/
inductive PatternFailure where
  | badarg
  | functionClause
  deriving DecidableEq

/-- `trie:is_pattern2/2`; a list that is not proper ends in a term that is no list. -/
def isPattern2 (proper : Bool) : List (Character τ) → Bool → Except PatternFailure Bool
  | [], result => if proper then .ok result else .error .functionClause
  | c :: rest, result =>
      if c.isQuestion && rest.isEmpty && proper then .error .badarg
      else if c.wild && rest.head?.any Character.wild then .error .badarg
      else isPattern2 proper rest (c.wild || result)

/-- A list with an integer at the head. -/
structure Text (τ : Type) where
  head : Character τ
  tail : List (Character τ)
  proper : Bool := true
  deriving DecidableEq

/-- `trie:is_pattern2/1`. -/
def Text.isPattern2 (text : Text τ) : Except PatternFailure Bool :=
  Acl.isPattern2 text.proper (text.head :: text.tail) false

/-- A pattern that is well formed: a proper list in which no wildcard follows another, and that
does not end in `?`. -/
structure WellFormed (proper : Bool) (characters : List (Character τ)) : Prop where
  proper : proper = true
  apart : characters.IsChain fun c0 c1 => ¬ (c0.wild ∧ c1.wild)
  last : ∀ c ∈ characters.getLast?, ¬ c.isQuestion

theorem wellFormed_singleton : WellFormed proper [c] ↔ proper = true ∧ ¬ c.isQuestion := by
  constructor
  · intro h
    exact ⟨h.proper, h.last c rfl⟩
  · rintro ⟨hproper, hlast⟩
    exact ⟨hproper, .singleton c, by simpa using hlast⟩

theorem wellFormed_cons_cons : WellFormed proper (c :: c1 :: rest) ↔
      ¬ (c.wild ∧ c1.wild) ∧ WellFormed proper (c1 :: rest) := by
  constructor
  · intro h
    obtain ⟨hfirst, hrest⟩ := isChain_cons_cons.mp h.apart
    exact ⟨hfirst, h.proper, hrest, by simpa using h.last⟩
  · rintro ⟨hfirst, hrest⟩
    exact ⟨hrest.proper, isChain_cons_cons.mpr ⟨hfirst, hrest.apart⟩,
      by simpa using hrest.last⟩

theorem isPattern2_ok_iff (result : Bool) :
    (∃ b, isPattern2 proper characters result = .ok b) ↔ WellFormed proper characters := by
  induction characters generalizing result with
  | nil =>
    cases proper
    · exact ⟨nofun, fun h => nomatch h.proper⟩
    · exact ⟨fun _ => ⟨rfl, .nil, nofun⟩, fun _ => ⟨result, rfl⟩⟩
  | cons c rest ih =>
    rw [isPattern2]
    cases rest with
    | nil =>
      rw [wellFormed_singleton]
      cases proper <;> cases c <;> simp [Character.isQuestion, isPattern2]
    | cons c1 rest =>
      rw [wellFormed_cons_cons, ← ih (c.wild || result)]
      cases hwild : c.wild <;> cases hwild1 : c1.wild <;> simp [hwild1]

/-! ## elements and results -/

/-- An element of an access control list. -/
inductive Element (κ τ : Type) where
  | atom (a : κ)
  | text (t : Text τ)
  | other (term : τ)
  deriving DecidableEq

/-- The alias that an element names. -/
def Element.asAlias : Element κ τ → Option κ
  | .atom a => some a
  | _ => none

/-- A well formed pattern. -/
def Element.IsPattern : Element κ τ → Prop
  | .text t => WellFormed t.proper (t.head :: t.tail)
  | _ => False

theorem asAlias_of_isPattern {e : Element κ τ} (h : e.IsPattern) : e.asAlias = none := by
  cases e with
  | atom a => exact h.elim
  | text t => rfl
  | other term => rfl

/-- An entry of the argument of `acl_add`. -/
inductive Definition (κ τ : Type) where
  | pair (key : κ) (value : List (Element κ τ))
  | other (term : τ)
  deriving DecidableEq

/-- The errors. -/
inductive Reason (κ τ : Type) where
  | invalid (element : Element κ τ)
  | invalidDefinition (definition : Definition κ τ)
  | invalidValue (value : List (Definition κ τ))
  | invalidKeys (value : List (Option κ))
  | cyclic (key a : κ)
  | notFound (a : κ)
  deriving DecidableEq

/-- An error that is returned, or an exception. -/
inductive Failure (κ τ : Type) where
  | error (reason : Reason κ τ)
  | functionClause
  deriving DecidableEq

/-- A text as an element: only the exit `badarg` of `trie:is_pattern2/1` is caught. -/
def checkText (text : Text τ) : Except (Failure κ τ) (Element κ τ) :=
  match text.isPattern2 with
  | .ok _ => .ok (.text text)
  | .error .badarg => .error (.error (.invalid (.text text)))
  | .error .functionClause => .error .functionClause

theorem checkText_ok_iff {text : Text τ} {e : Element κ τ} :
    checkText text = .ok e ↔ e = .text text ∧ (Element.text text : Element κ τ).IsPattern := by
  have hiff : (∃ b, text.isPattern2 = .ok b) ↔ (Element.text text : Element κ τ).IsPattern :=
    isPattern2_ok_iff false
  rw [← hiff, checkText]
  rcases text.isPattern2 with (_ | _) | b <;> simp [eq_comm]

variable [LinearOrder κ]

/-- The stored aliases. -/
abbrev AclMap (κ τ : Type) [LinearOrder κ] := ErlMap κ (List (Element κ τ))

/-! ## `acl_add` and `acl_remove` -/

def aclStore (definitions : List (Definition κ τ)) (acl : AclMap κ τ) :
    Except (Failure κ τ) (AclMap κ τ) :=
  match definitions with
  | [] => .ok acl
  | .pair key (e :: value) :: definitions => aclStore definitions (Maps.put key (e :: value) acl)
  | definition :: _ => .error (.error (.invalidDefinition definition))

/-- The aliases that are defined and not on the path. -/
def unvisited (acl : AclMap κ τ) (path : List κ) : List (κ × List (Element κ τ)) :=
  (Maps.toList acl).filter fun entry => entry.1 ∉ path

theorem unvisited_lt {acl : AclMap κ τ} {path : List κ} {a : κ} {value : List (Element κ τ)}
    (hpath : a ∉ path) (hfind : Maps.find a acl = some value) :
    (unvisited acl (a :: path)).length < (unvisited acl path).length := by
  have hsub : (unvisited acl (a :: path)).Sublist (unvisited acl path) := by
    refine monotone_filter_right _ fun entry hentry => ?_
    simp only [mem_cons, not_or, decide_eq_true_eq] at hentry ⊢
    exact hentry.2
  refine lt_of_le_of_ne hsub.length_le fun heq => ?_
  have hmem : (a, value) ∈ unvisited acl path :=
    mem_filter.mpr ⟨Maps.mem_toList.mpr hfind, by simpa using hpath⟩
  rw [← hsub.eq_of_length heq] at hmem
  simpa using (mem_filter.mp hmem).2

def aclUpdateValues (acl : AclMap κ τ) (key : κ) (values output : List (Element κ τ))
    (path : List κ) : Except (Failure κ τ) (List (Element κ τ)) :=
  match values with
  | [] => .ok output.reverse
  | .atom a :: values =>
      if _hpath : a ∈ path then .error (.error (.cyclic key a))
      else
        match _hfind : Maps.find a acl with
        | none => .error (.error (.notFound a))
        | some other =>
            match aclUpdateValues acl key other output (a :: path) with
            | .ok newOutput => aclUpdateValues acl key values newOutput path
            | .error failure => .error failure
  | .text text :: values =>
      match checkText text with
      | .ok e => aclUpdateValues acl key values (e :: output) path
      | .error failure => .error failure
  | .other term :: _ => .error (.error (.invalid (.other term)))
termination_by ((unvisited acl path).length, values.length)
decreasing_by
  · exact .left _ _ (unvisited_lt _hpath _hfind)
  · exact .right _ (Nat.lt_succ_self _)
  · exact .right _ (Nat.lt_succ_self _)

def aclUpdate (definitions : List (Definition κ τ)) (aclFinal aclConfig : AclMap κ τ) :
    Except (Failure κ τ) (AclMap κ τ) :=
  match definitions with
  | [] => .ok aclFinal
  | .pair key value :: definitions =>
      match aclUpdateValues aclConfig key value [] [] with
      | .ok newValue => aclUpdate definitions (Maps.put key newValue aclFinal) aclConfig
      | .error failure => .error failure
  | .other _ :: _ => .error .functionClause

def aclLookupAdd (definitions : List (Definition κ τ)) (oldAcl : AclMap κ τ) :
    Except (Failure κ τ) (AclMap κ τ) :=
  match aclStore definitions oldAcl with
  | .ok newAcl => aclUpdate definitions oldAcl newAcl
  | .error failure => .error failure

def aclAdd (value : List (Definition κ τ)) (acl : AclMap κ τ) : Except (Failure κ τ) (AclMap κ τ) :=
  match value with
  | .pair _ (_ :: _) :: _ => aclLookupAdd value acl
  | _ => .error (.error (.invalidValue value))

/-- `acl_remove/2`; a term that is no atom is `none`, and is no key. -/
def aclRemove (value : List (Option κ)) (acl : AclMap κ τ) : Except (Failure κ τ) (AclMap κ τ) :=
  match value with
  | some _ :: _ =>
      .ok (value.foldl (fun d e => match e with | some a => Maps.remove a d | none => d) acl)
  | _ => .error (.error (.invalidKeys value))

/-! ## the lists of a service -/

/-- `dest_list_deny` and `dest_list_allow`. -/
inductive DestList (κ τ : Type) where
  | invalid
  | undefined
  | list (list : List (Element κ τ))
  deriving DecidableEq

/-- `service_acl_expand_list/3` of a list. -/
def expandList (acl : AclMap κ τ) :
    List (Element κ τ) → List (Element κ τ) → Except (Failure κ τ) (List (Element κ τ))
  | [], output => .ok output.reverse
  | .atom a :: l, output =>
      match Maps.find a acl with
      | some value => expandList acl l (value ++ output)
      | none => .error (.error (.notFound a))
  | .text text :: l, output =>
      match checkText text with
      | .ok e => expandList acl l (e :: output)
      | .error failure => .error failure
  | .other _ :: _, _ => .error .functionClause

def serviceAclExpandList (acl : AclMap κ τ) :
    DestList κ τ → Except (Failure κ τ) (DestList κ τ)
  | .invalid => .ok .invalid
  | .undefined => .ok .undefined
  | .list l => (expandList acl l []).map .list

end CloudI.Configuration.Acl
