import Mathlib.Data.List.Basic

/-!
# CloudiString.Split

The functions of `cloudi_string` that take a string apart at a character, from the left
(`afterl`, `beforel`, `splitl`) and from the right (`afterr`, `beforer`, `splitr`).  Those with a
failure argument return what it says when there is no such character.  `afterr` and `beforer` read
an empty part as "there was none", so that with `input` they return the whole string when the last
occurrence is at the end, or at the start.
-/

namespace CloudI.CloudiString

open List

/-- The failure argument, `empty | input`. -/
inductive Failure where
  | empty
  | input
  deriving DecidableEq

variable {α : Type} [DecidableEq α]

/-! ## after a character -/

def afterl (char : α) : List α → List α
  | [] => []
  | x :: rest => if x = char then rest else afterl char rest

def afterlInput (char : α) : List α → List α → List α
  | [], input => input
  | x :: rest, input => if x = char then rest else afterlInput char rest input

/-- `afterl/3`. -/
def afterlOr (char : α) (input : List α) : Failure → List α
  | .empty => afterl char input
  | .input => afterlInput char input input

def afterrEmpty (l : List α) (char : α) : List α → List α
  | [] => l
  | x :: rest => if x = char then afterrEmpty rest char rest else afterrEmpty l char rest

def afterr (char : α) (input : List α) : List α := afterrEmpty [] char input

def afterrInput (l : List α) (char : α) : List α → List α → List α
  | [], input => if l = [] then input else l
  | x :: rest, input =>
      if x = char then afterrInput rest char rest input else afterrInput l char rest input

/-- `afterr/3`. -/
def afterrOr (char : α) (input : List α) : Failure → List α
  | .empty => afterrEmpty [] char input
  | .input => afterrInput [] char input input

/-! ## before a character -/

def beforelEmpty (before : List α) (char : α) : List α → List α
  | [] => []
  | h :: input => if h = char then before.reverse else beforelEmpty (h :: before) char input

def beforel (char : α) (input : List α) : List α := beforelEmpty [] char input

def beforelInput (before : List α) (char : α) : List α → List α → List α
  | [], input => input
  | h :: rest, input =>
      if h = char then before.reverse else beforelInput (h :: before) char rest input

/-- `beforel/3`. -/
def beforelOr (char : α) (input : List α) : Failure → List α
  | .empty => beforelEmpty [] char input
  | .input => beforelInput [] char input input

def beforerEmpty (before l : List α) (char : α) : List α → List α
  | [] => before
  | h :: rest =>
      if h = char then beforerEmpty (before ++ l.reverse) [char] char rest
      else beforerEmpty before (h :: l) char rest

def beforer (char : α) (input : List α) : List α := beforerEmpty [] [] char input

def beforerInput (before l : List α) (char : α) : List α → List α → List α
  | [], input => if before = [] then input else before
  | h :: rest, input =>
      if h = char then beforerInput (before ++ l.reverse) [char] char rest input
      else beforerInput before (h :: l) char rest input

/-- `beforer/3`. -/
def beforerOr (char : α) (input : List α) : Failure → List α
  | .empty => beforerEmpty [] [] char input
  | .input => beforerInput [] [] char input input

/-! ## both parts -/

def splitlEmpty (before : List α) (char : α) : List α → List α × List α
  | [] => ([], [])
  | h :: rest => if h = char then (before.reverse, rest) else splitlEmpty (h :: before) char rest

def splitl (char : α) (input : List α) : List α × List α := splitlEmpty [] char input

def splitlInput (before : List α) (char : α) : List α → List α → List α × List α
  | [], input => (input, [])
  | h :: rest, input =>
      if h = char then (before.reverse, rest) else splitlInput (h :: before) char rest input

/-- `splitl/3`. -/
def splitlOr (char : α) (input : List α) : Failure → List α × List α
  | .empty => splitlEmpty [] char input
  | .input => splitlInput [] char input input

/-- `splitr_prefix/3`: `none` where no clause matches. -/
def splitrPrefix : List α → List α → α → Option (List α)
  | [], _, _ => none
  | x :: l1, [], char => if x = char then some l1.reverse else none
  | _ :: l1, _ :: l2, char => splitrPrefix l1 l2 char

/-- The clauses of `splitr_empty/4` and `splitr_input/5` for the end of the string, with what is
returned when the character was not seen. -/
def splitrEnd (l1 l2 : List α) (char : α) (failed : List α × List α) : Option (List α × List α) :=
  match l1, l2 with
  | x :: l1, [] => some (if x = char then (l1.reverse, []) else failed)
  | [], [] => some failed
  | l1, y :: l2 => (splitrPrefix l1 (y :: l2) char).map fun before => (before, y :: l2)

def splitrEmpty (l1 l2 : List α) (char : α) : List α → Option (List α × List α)
  | [] => splitrEnd l1 l2 char ([], [])
  | c :: rest =>
      if c = char then splitrEmpty (char :: l1) rest char rest
      else splitrEmpty (c :: l1) l2 char rest

def splitr (char : α) (input : List α) : Option (List α × List α) :=
  splitrEmpty [] [] char input

def splitrInput (l1 l2 : List α) (char : α) : List α → List α → Option (List α × List α)
  | [], input => splitrEnd l1 l2 char ([], input)
  | c :: rest, input =>
      if c = char then splitrInput (char :: l1) rest char rest input
      else splitrInput (c :: l1) l2 char rest input

/-- `splitr/3`. -/
def splitrOr (char : α) (input : List α) : Failure → Option (List α × List α)
  | .empty => splitrEmpty [] [] char input
  | .input => splitrInput [] [] char input input

/-! ## without a failure argument -/

variable (char : α) (input : List α)

theorem afterr_eq : afterr char input = afterrOr char input .empty := rfl

theorem beforel_eq : beforel char input = beforelOr char input .empty := rfl

theorem beforer_eq : beforer char input = beforerOr char input .empty := rfl

theorem splitl_eq : splitl char input = splitlOr char input .empty := rfl

theorem splitr_eq : splitr char input = splitrOr char input .empty := rfl

/-! ## the failure argument -/

/-- What the failure argument says. -/
def Failure.result (input : List α) : Failure → List α
  | .empty => []
  | .input => input

variable {char : α} {b a s : List α}

theorem afterlOr_eq (s : List α) (failure : Failure) :
    afterlOr char s failure = afterlInput char s (failure.result s) := by
  have hempty : afterl char s = afterlInput char s [] := by
    induction s with
    | nil => rfl
    | cons x s ih => rw [afterl, afterlInput, ih]
  cases failure with
  | empty => exact hempty
  | input => rfl

theorem afterrEmpty_eq (l s : List α) : afterrEmpty l char s = afterrInput l char s [] := by
  induction s generalizing l with
  | nil =>
    rw [afterrEmpty, afterrInput]
    split
    · assumption
    · rfl
  | cons x s ih => rw [afterrEmpty, afterrInput, ih, ih]

theorem afterrOr_eq (s : List α) (failure : Failure) :
    afterrOr char s failure = afterrInput [] char s (failure.result s) := by
  cases failure with
  | empty => exact afterrEmpty_eq [] s
  | input => rfl

theorem beforelEmpty_eq (before s : List α) :
    beforelEmpty before char s = beforelInput before char s [] := by
  induction s generalizing before with
  | nil => rfl
  | cons x s ih => rw [beforelEmpty, beforelInput, ih]

theorem beforelOr_eq (s : List α) (failure : Failure) :
    beforelOr char s failure = beforelInput [] char s (failure.result s) := by
  cases failure with
  | empty => exact beforelEmpty_eq [] s
  | input => rfl

theorem beforerEmpty_eq (before l s : List α) :
    beforerEmpty before l char s = beforerInput before l char s [] := by
  induction s generalizing before l with
  | nil =>
    rw [beforerEmpty, beforerInput]
    split
    · assumption
    · rfl
  | cons x s ih => rw [beforerEmpty, beforerInput, ih, ih]

theorem beforerOr_eq (s : List α) (failure : Failure) :
    beforerOr char s failure = beforerInput [] [] char s (failure.result s) := by
  cases failure with
  | empty => exact beforerEmpty_eq [] [] s
  | input => rfl

theorem splitlEmpty_eq (before s : List α) :
    splitlEmpty before char s = splitlInput before char s [] := by
  induction s generalizing before with
  | nil => rfl
  | cons x s ih => rw [splitlEmpty, splitlInput, ih]

theorem splitlOr_eq (s : List α) (failure : Failure) :
    splitlOr char s failure = splitlInput [] char s (failure.result s) := by
  cases failure with
  | empty => exact splitlEmpty_eq [] s
  | input => rfl

theorem splitrEmpty_eq (l1 l2 s : List α) :
    splitrEmpty l1 l2 char s = splitrInput l1 l2 char s [] := by
  induction s generalizing l1 l2 with
  | nil => rfl
  | cons x s ih => rw [splitrEmpty, splitrInput, ih, ih]

theorem splitrOr_eq (s : List α) (failure : Failure) :
    splitrOr char s failure = splitrInput [] [] char s (failure.result s) := by
  cases failure with
  | empty => exact splitrEmpty_eq [] [] s
  | input => rfl

/-! ## a string without the character -/

section

variable (h : char ∉ s)

include h

theorem afterlInput_of_not_mem (input : List α) : afterlInput char s input = input := by
  induction s with
  | nil => rfl
  | cons x s ih =>
    rw [afterlInput, if_neg (ne_of_not_mem_cons h).symm, ih (not_mem_of_not_mem_cons h)]

theorem afterrInput_of_not_mem (l input : List α) :
    afterrInput l char s input = if l = [] then input else l := by
  induction s with
  | nil => rfl
  | cons x s ih =>
    rw [afterrInput, if_neg (ne_of_not_mem_cons h).symm, ih (not_mem_of_not_mem_cons h)]

theorem beforelInput_of_not_mem (before input : List α) :
    beforelInput before char s input = input := by
  induction s generalizing before with
  | nil => rfl
  | cons x s ih =>
    rw [beforelInput, if_neg (ne_of_not_mem_cons h).symm, ih (not_mem_of_not_mem_cons h)]

theorem beforerInput_of_not_mem (before l input : List α) :
    beforerInput before l char s input = if before = [] then input else before := by
  induction s generalizing l with
  | nil => rfl
  | cons x s ih =>
    rw [beforerInput, if_neg (ne_of_not_mem_cons h).symm, ih (not_mem_of_not_mem_cons h)]

theorem splitlInput_of_not_mem (before input : List α) :
    splitlInput before char s input = (input, []) := by
  induction s generalizing before with
  | nil => rfl
  | cons x s ih =>
    rw [splitlInput, if_neg (ne_of_not_mem_cons h).symm, ih (not_mem_of_not_mem_cons h)]

theorem splitrInput_of_not_mem (l1 l2 input : List α) :
    splitrInput l1 l2 char s input = splitrEnd (s.reverse ++ l1) l2 char ([], input) := by
  induction s generalizing l1 with
  | nil => rfl
  | cons x s ih =>
    rw [splitrInput, if_neg (ne_of_not_mem_cons h).symm,
      ih (not_mem_of_not_mem_cons h), reverse_cons, append_assoc,
      singleton_append]

theorem splitrEnd_of_not_mem (failed : List α × List α) :
    splitrEnd s [] char failed = some failed := by
  cases s with
  | nil => rfl
  | cons x s => rw [splitrEnd, if_neg (ne_of_not_mem_cons h).symm]

end

/-! ## the first occurrence -/

theorem afterlInput_first (h : char ∉ b) (input : List α) :
    afterlInput char (b ++ char :: a) input = a := by
  induction b with
  | nil => exact if_pos rfl
  | cons x b ih =>
    rw [cons_append, afterlInput, if_neg (ne_of_not_mem_cons h).symm,
      ih (not_mem_of_not_mem_cons h)]

theorem beforelInput_first (h : char ∉ b) (before input : List α) :
    beforelInput before char (b ++ char :: a) input = before.reverse ++ b := by
  induction b generalizing before with
  | nil => exact (if_pos rfl).trans (append_nil _).symm
  | cons x b ih =>
    rw [cons_append, beforelInput, if_neg (ne_of_not_mem_cons h).symm,
      ih (not_mem_of_not_mem_cons h), reverse_cons, append_assoc,
      singleton_append]

theorem splitlInput_first (h : char ∉ b) (before input : List α) :
    splitlInput before char (b ++ char :: a) input = (before.reverse ++ b, a) := by
  induction b generalizing before with
  | nil =>
    rw [append_nil]
    exact if_pos rfl
  | cons x b ih =>
    rw [cons_append, splitlInput, if_neg (ne_of_not_mem_cons h).symm,
      ih (not_mem_of_not_mem_cons h), reverse_cons, append_assoc,
      singleton_append]

/-! ## the last occurrence -/

theorem afterrInput_last (h : char ∉ a) (l input : List α) :
    afterrInput l char (b ++ char :: a) input = if a = [] then input else a := by
  induction b generalizing l with
  | nil => rw [nil_append, afterrInput, if_pos rfl, afterrInput_of_not_mem h]
  | cons x b ih =>
    rw [cons_append, afterrInput]
    split <;> exact ih _

theorem beforerInput_last (h : char ∉ a) (before l input : List α) :
    beforerInput before l char (b ++ char :: a) input =
      if before ++ l.reverse ++ b = [] then input else before ++ l.reverse ++ b := by
  induction b generalizing before l with
  | nil =>
    rw [nil_append, beforerInput, if_pos rfl, beforerInput_of_not_mem h, append_nil]
  | cons x b ih =>
    rw [cons_append, beforerInput]
    by_cases hx : x = char
    · rw [if_pos hx, ih, hx, reverse_singleton, append_assoc, singleton_append]
    · rw [if_neg hx, ih, reverse_cons]
      simp only [append_assoc, singleton_append]

theorem splitrPrefix_eq (char : α) (l1 l2 r : List α) (hlen : l1.length = l2.length) :
    splitrPrefix (l1 ++ char :: r) l2 char = some r.reverse := by
  induction l1 generalizing l2 with
  | nil =>
    rw [length_eq_zero_iff.mp hlen.symm]
    exact if_pos rfl
  | cons x l1 ih =>
    cases l2 with
    | nil => cases hlen
    | cons y l2 => exact ih l2 (Nat.succ.inj hlen)

/-- The end of a string whose last occurrence is in front of `a`. -/
theorem splitrEnd_last (a l1 : List α) (failed : List α × List α) :
    splitrEnd (a.reverse ++ char :: l1) a char failed = some (l1.reverse, a) := by
  cases a with
  | nil =>
    rw [reverse_nil, nil_append, splitrEnd, if_pos rfl]
  | cons x a =>
    have hprefix := splitrPrefix_eq char (x :: a).reverse (x :: a) l1 (length_reverse)
    rw [splitrEnd, hprefix, Option.map_some]

theorem splitrInput_last (h : char ∉ a) (l1 l2 input : List α) :
    splitrInput l1 l2 char (b ++ char :: a) input = some (l1.reverse ++ b, a) := by
  induction b generalizing l1 l2 with
  | nil =>
    rw [nil_append, splitrInput, if_pos rfl, splitrInput_of_not_mem h, splitrEnd_last,
      append_nil]
  | cons x b ih =>
    rw [cons_append, splitrInput]
    by_cases hx : x = char
    · rw [if_pos hx, ih, hx, reverse_cons, append_assoc, singleton_append]
    · rw [if_neg hx, ih, reverse_cons, append_assoc, singleton_append]

/-! ## what they say they return -/

/-- Without the character each function returns what the failure argument says, with it the part
or the parts around its first or its last occurrence. -/
def TakesApart (char : α) (s : List α) (failure : Failure) : Prop :=
  (char ∉ s →
    splitlOr char s failure = (failure.result s, []) ∧
    splitrOr char s failure = some ([], failure.result s) ∧
    beforelOr char s failure = failure.result s ∧ beforerOr char s failure = failure.result s ∧
    afterlOr char s failure = failure.result s ∧ afterrOr char s failure = failure.result s) ∧
  (char ∈ s →
    (∃ b a, b ++ [char] ++ a = s ∧ char ∉ b ∧ splitlOr char s failure = (b, a) ∧
      beforelOr char s failure = b ∧ afterlOr char s failure = a) ∧
    ∃ b a, b ++ [char] ++ a = s ∧ char ∉ a ∧ splitrOr char s failure = some (b, a) ∧
      beforerOr char s failure = b ∧ afterrOr char s failure = a)

/-- The part behind the last occurrence, or in front of it, is empty. -/
def LastAtAnEnd (char : α) (s : List α) : Prop :=
  s.getLast? = some char ∨ s.head? = some char ∧ char ∉ s.tail

instance (char : α) (s : List α) : Decidable (LastAtAnEnd char s) :=
  inferInstanceAs (Decidable (_ ∨ _))

omit [DecidableEq α] in
theorem exists_last (h : char ∈ s) : ∃ b a, s = b ++ char :: a ∧ char ∉ a := by
  obtain ⟨a, b, hs, ha⟩ := eq_append_cons_of_mem (mem_reverse.mpr h)
  refine ⟨b.reverse, a.reverse, ?_, mt mem_reverse.mp ha⟩
  rw [← reverse_reverse s, hs, reverse_append, reverse_cons, append_assoc,
    singleton_append]

omit [DecidableEq α] in
theorem lastAtAnEnd_iff (h : char ∉ a) : LastAtAnEnd char (b ++ char :: a) ↔ a = [] ∨ b = [] := by
  refine or_congr ⟨fun hlast => ?_, fun ha => ?_⟩ ⟨fun ⟨_, htail⟩ => ?_, fun hb => ?_⟩
  · by_contra ha
    rw [getLast?_append_of_ne_nil _ (cons_ne_nil _ _), getLast?_cons,
      getLast?_eq_some_getLast ha] at hlast
    exact h (Option.some.inj hlast ▸ getLast_mem ha)
  · rw [ha, getLast?_concat]
  · cases b with
    | nil => rfl
    | cons x b => exact absurd (mem_append_right b mem_cons_self) htail
  · rw [hb]
    exact ⟨rfl, h⟩

theorem left_results (h : char ∉ b) (failure : Failure) :
    splitlOr char (b ++ char :: a) failure = (b, a) ∧
    beforelOr char (b ++ char :: a) failure = b ∧ afterlOr char (b ++ char :: a) failure = a := by
  rw [splitlOr_eq, beforelOr_eq, afterlOr_eq]
  exact ⟨splitlInput_first h [] _, beforelInput_first h [] _, afterlInput_first h _⟩

theorem right_results (h : char ∉ a) (failure : Failure) :
    splitrOr char (b ++ char :: a) failure = some (b, a) ∧
    beforerOr char (b ++ char :: a) failure =
      (if b = [] then failure.result (b ++ char :: a) else b) ∧
    afterrOr char (b ++ char :: a) failure =
      if a = [] then failure.result (b ++ char :: a) else a := by
  rw [splitrOr_eq, beforerOr_eq, afterrOr_eq]
  exact ⟨splitrInput_last h [] [] _, beforerInput_last h [] [] _, afterrInput_last h [] _⟩

/-- The functions return what they say, except `afterr` and `beforer` with `input` for a last
occurrence at the end or at the start. -/
theorem takesApart_iff (char : α) (s : List α) (failure : Failure) :
    TakesApart char s failure ↔ ¬ (failure = .input ∧ LastAtAnEnd char s) := by
  by_cases hmem : char ∈ s
  · obtain ⟨b, a, rfl, ha⟩ := exists_last hmem
    obtain ⟨hsplit, hbefore, hafter⟩ := right_results (b := b) ha failure
    rw [lastAtAnEnd_iff ha]
    constructor
    · rintro ⟨-, h⟩ ⟨rfl, hend⟩
      obtain ⟨-, b', a', -, -, hsplit', hbefore', hafter'⟩ := h hmem
      cases hsplit.symm.trans hsplit'
      -- the whole string is longer than each part of it
      have hlong : ∀ l : List α, l = b ++ char :: a → l = [] → False := by
        rintro _ rfl hnil
        cases b <;> cases hnil
      rcases hend with ha | hb
      · exact hlong a (((if_pos ha).symm.trans (hafter.symm.trans hafter')).symm) ha
      · exact hlong b (((if_pos hb).symm.trans (hbefore.symm.trans hbefore')).symm) hb
    · intro h
      have hpart : ∀ l : List α, (l = [] → a = [] ∨ b = []) →
          (if l = [] then failure.result (b ++ char :: a) else l) = l := by
        intro l hl
        cases failure with
        | empty => exact ite_eq_right_iff.mpr Eq.symm
        | input => exact if_neg fun hnil => h ⟨rfl, hl hnil⟩
      obtain ⟨b₀, a₀, hs, hb₀⟩ := eq_append_cons_of_mem hmem
      refine ⟨fun hnot => absurd hmem hnot, fun _ => ⟨⟨b₀, a₀, ?_, hb₀, ?_⟩, b, a, ?_, ha, ?_⟩⟩
      · rw [hs, append_assoc, singleton_append]
      · rw [hs]
        exact left_results hb₀ failure
      · rw [append_assoc, singleton_append]
      · exact ⟨hsplit, hbefore.trans (hpart b .inr), hafter.trans (hpart a .inl)⟩
  · have hnot : ¬ LastAtAnEnd char s := by
      rintro (hlast | ⟨hhead, -⟩)
      · exact hmem (mem_of_getLast? hlast)
      · exact hmem (mem_of_head? hhead)
    refine iff_of_true ⟨fun _ => ?_, fun h => absurd h hmem⟩ fun h => hnot h.2
    rw [splitlOr_eq, splitrOr_eq, beforelOr_eq, beforerOr_eq, afterlOr_eq, afterrOr_eq,
      splitlInput_of_not_mem hmem, splitrInput_of_not_mem hmem, beforelInput_of_not_mem hmem,
      beforerInput_of_not_mem hmem, afterlInput_of_not_mem hmem, afterrInput_of_not_mem hmem,
      append_nil, splitrEnd_of_not_mem (mt mem_reverse.mp hmem)]
    exact ⟨rfl, rfl, rfl, if_pos rfl, rfl, if_pos rfl⟩

/-- `afterr($/, "a/", input)` is the whole string, not the empty one behind the last `/`. -/
theorem takesApart_not_at_end : ¬ ∀ char (s : List Nat) failure, TakesApart char s failure := by
  intro h
  obtain ⟨-, b, a, -, -, hsplit, -, hafter⟩ := (h 47 [97, 47] .input).2 (by decide)
  have hsplit' : splitrOr 47 [97, 47] .input = some ([97], []) := by decide
  cases hsplit'.symm.trans hsplit
  exact absurd hafter (by decide)

end CloudI.CloudiString
