import Mathlib.Order.Lattice
import Mathlib.Data.List.Count

/-!
# Erlang.Lists

Erlang lists: `lists:umerge/2` and `lists:usort/1`, which keep sorted lists
without duplicates, and the removal of a number of occurrences of an element,
from the head (the newest) or from the tail (the oldest).
-/

namespace CloudI.Lists

open List

instance lawfulBEq {α : Type} [LinearOrder α] : LawfulBEq α := inferInstance

/-! ## terms that compare equal

Erlang compares an integer and a float by their values, so terms that are not identical can
compare equal.  `rank` stands for what `==` and `<` see of a term. -/

section Rank

variable {α ρ : Type} [LinearOrder ρ] {rank : α → ρ} {x y : α} {l : List α}

/-- `lists:umerge(L, [X])`: an element of `L` that compares equal takes the place of `X`. -/
def uinsertBy (rank : α → ρ) (x : α) : List α → List α
  | [] => [x]
  | y :: l =>
      if rank x < rank y then x :: y :: l
      else if rank x = rank y then y :: l
      else y :: uinsertBy rank x l

theorem mem_uinsertBy_of_mem (h : y ∈ l) : y ∈ uinsertBy rank x l := by
  fun_induction uinsertBy rank x l with
  | case1 => cases h
  | case2 => exact mem_cons_of_mem x h
  | case3 => exact h
  | case4 z l hlt hne ih =>
    rcases mem_cons.mp h with rfl | h
    · exact mem_cons_self
    · exact mem_cons_of_mem z (ih h)

theorem of_mem_uinsertBy (h : y ∈ uinsertBy rank x l) : y = x ∨ y ∈ l := by
  fun_induction uinsertBy rank x l with
  | case1 => exact .inl (mem_singleton.mp h)
  | case2 => exact mem_cons.mp h
  | case3 => exact .inr h
  | case4 z l hlt hne ih =>
    rcases mem_cons.mp h with rfl | h
    · exact .inr mem_cons_self
    · exact (ih h).imp_right (mem_cons_of_mem z)

/-- The element is there exactly when no other element compares equal to it. -/
theorem mem_uinsertBy_self (hsorted : l.Pairwise fun y z => rank y < rank z) :
    x ∈ uinsertBy rank x l ↔ ∀ y ∈ l, rank y = rank x → y = x := by
  fun_induction uinsertBy rank x l with
  | case1 => simp
  | case2 z l hlt =>
    refine ⟨fun _ y hy heq => ?_, fun _ => mem_cons_self⟩
    rcases mem_cons.mp hy with rfl | hy
    · exact absurd heq (ne_of_gt hlt)
    · exact absurd heq (ne_of_gt (lt_trans hlt (rel_of_pairwise_cons hsorted hy)))
  | case3 z l hlt heq =>
    have hnot : ∀ y ∈ l, rank y ≠ rank x := fun y hy => by
      rw [heq]
      exact ne_of_gt (rel_of_pairwise_cons hsorted hy)
    constructor
    · intro hx y hy hrank
      have hxz : x = z := (mem_cons.mp hx).resolve_right fun hxl => hnot x hxl rfl
      have hyz : y = z := (mem_cons.mp hy).resolve_right fun hyl => hnot y hyl hrank
      rw [hxz, hyz]
    · intro hall
      rw [hall z mem_cons_self heq.symm]
      exact mem_cons_self
  | case4 z l hlt hne ih =>
    have hxz : x ≠ z := fun hx => hne (congrArg rank hx)
    rw [mem_cons, ih hsorted.of_cons, forall_mem_cons]
    constructor
    · rintro (hx | hall)
      · exact absurd hx hxz
      · exact ⟨fun hrank => absurd hrank.symm hne, hall⟩
    · exact fun hall => .inr hall.2

theorem pairwise_uinsertBy (h : l.Pairwise fun y z => rank y < rank z) :
    (uinsertBy rank x l).Pairwise fun y z => rank y < rank z := by
  fun_induction uinsertBy rank x l with
  | case1 => exact pairwise_singleton _ x
  | case2 z l hlt =>
    refine pairwise_cons.mpr ⟨fun y hy => ?_, h⟩
    rcases mem_cons.mp hy with rfl | hy
    · exact hlt
    · exact lt_trans hlt (rel_of_pairwise_cons h hy)
  | case3 => exact h
  | case4 z l hlt hne ih =>
    refine pairwise_cons.mpr ⟨fun y hy => ?_, ih h.of_cons⟩
    rcases of_mem_uinsertBy hy with rfl | hy
    · exact lt_of_le_of_ne (not_lt.mp hlt) (Ne.symm hne)
    · exact rel_of_pairwise_cons h hy

/-- An element that no other one compares equal to is added. -/
theorem perm_uinsertBy (h : ∀ y ∈ l, rank y ≠ rank x) : (uinsertBy rank x l).Perm (x :: l) := by
  fun_induction uinsertBy rank x l with
  | case1 | case2 => exact List.Perm.refl _
  | case3 z l hlt heq => exact absurd heq.symm (h z mem_cons_self)
  | case4 z l hlt hne ih =>
    have hrest := ih fun y hy => h y (mem_cons_of_mem z hy)
    exact (hrest.cons z).trans (List.Perm.swap x z l)

theorem uinsertBy_ne_nil : uinsertBy rank x l ≠ [] := by
  fun_cases uinsertBy rank x l <;> exact cons_ne_nil _ _

end Rank

/-! ## sorted lists without duplicates -/

section Sorted

variable {α : Type} [LinearOrder α]

/-- `lists:umerge(L, [X])`. -/
def uinsert (x : α) : List α → List α
  | [] => [x]
  | y :: l => if x < y then x :: y :: l else if x = y then y :: l else y :: uinsert x l

/-- `lists:umerge/2`. -/
def umerge (l1 l2 : List α) : List α := l2.foldl (fun l x => uinsert x l) l1

/-- `lists:usort/1`. -/
def usort (l : List α) : List α := umerge [] l

theorem uinsert_eq (x : α) (l : List α) : uinsert x l = uinsertBy id x l := by
  fun_induction uinsert x l <;> simp [uinsertBy, *]

@[simp] theorem mem_uinsert {l : List α} : y ∈ uinsert x l ↔ y = x ∨ y ∈ l := by
  fun_induction uinsert x l with
  | case1 | case2 | case3 => simp
  | case4 z l hlt hne ih =>
    simp only [mem_cons, ih]
    exact or_left_comm

/-- An element that is not there is added. -/
theorem perm_uinsert {l : List α} (h : x ∉ l) : (uinsert x l).Perm (x :: l) := by
  rw [uinsert_eq]
  exact perm_uinsertBy fun y hy (heq : y = x) => h (heq ▸ hy)

theorem pairwise_uinsert {l : List α} (h : l.Pairwise (· < ·)) :
    (uinsert x l).Pairwise (· < ·) := by
  rw [uinsert_eq]
  exact pairwise_uinsertBy h

@[simp] theorem mem_umerge {l1 l2 : List α} : y ∈ umerge l1 l2 ↔ y ∈ l1 ∨ y ∈ l2 := by
  induction l2 generalizing l1 with
  | nil => simp [umerge]
  | cons x l2 ih =>
    have hstep : umerge l1 (x :: l2) = umerge (uinsert x l1) l2 := rfl
    rw [hstep, ih, mem_uinsert, mem_cons, or_comm (a := y = x), or_assoc]

theorem pairwise_umerge {l1 l2 : List α} (h : l1.Pairwise (· < ·)) :
    (umerge l1 l2).Pairwise (· < ·) := by
  induction l2 generalizing l1 with
  | nil => exact h
  | cons x l2 ih => exact ih (pairwise_uinsert h)

@[simp] theorem mem_usort {l : List α} : y ∈ usort l ↔ y ∈ l := by
  simp [usort]

theorem nodup_usort (l : List α) : (usort l).Nodup :=
  (pairwise_umerge List.Pairwise.nil).imp ne_of_lt

end Sorted

/-! ## removing occurrences -/

section Remove

variable {α : Type} [DecidableEq α]

/-- The list without the first `n` occurrences of `x`. -/
def removeFirst (x : α) : Nat → List α → List α
  | 0, l => l
  | _ + 1, [] => []
  | n + 1, y :: l => if y = x then removeFirst x n l else y :: removeFirst x (n + 1) l

/-- The list without the last `n` occurrences of `x`. -/
def removeLast (x : α) (n : Nat) (l : List α) : List α := (removeFirst x n l.reverse).reverse

@[simp] theorem removeFirst_zero (x : α) (l : List α) : removeFirst x 0 l = l := by
  cases l <;> rfl

theorem count_removeFirst_self (x : α) (n : Nat) (l : List α) :
    (removeFirst x n l).count x = l.count x - n := by
  fun_induction removeFirst x n l with
  | case1 l => simp
  | case2 n => simp
  | case3 n l ih =>
    rw [ih, count_cons_self]
    omega
  | case4 n y l hy ih => rw [count_cons_of_ne hy, count_cons_of_ne hy, ih]

theorem filter_removeFirst_of_pos (hx : p x = true) (n : Nat) (l : List α) :
    (removeFirst x n l).filter p = removeFirst x n (l.filter p) := by
  fun_induction removeFirst x n l with
  | case1 l => simp
  | case2 n => rfl
  | case3 n l ih => rw [ih, filter_cons_of_pos hx, removeFirst, if_pos rfl]
  | case4 n y l hy ih =>
    by_cases hp : p y = true
    · rw [filter_cons_of_pos hp, filter_cons_of_pos hp, ih, removeFirst, if_neg hy]
    · rw [filter_cons_of_neg hp, filter_cons_of_neg hp, ih]

theorem filter_removeFirst_of_neg (hx : p x = false) (n : Nat) (l : List α) :
    (removeFirst x n l).filter p = l.filter p := by
  fun_induction removeFirst x n l with
  | case1 l => rfl
  | case2 n => rfl
  | case3 n l ih => rw [ih, filter_cons_of_neg (by simp [hx])]
  | case4 n y l hy ih => rw [filter_cons, filter_cons, ih]

theorem removeFirst_min (x : α) (n : Nat) (l : List α) :
    removeFirst x (min n (l.count x)) l = removeFirst x n l := by
  fun_induction removeFirst x n l with
  | case1 l => simp
  | case2 n => simp
  | case3 n l ih =>
    rw [count_cons_self, Nat.succ_min_succ, removeFirst, if_pos rfl, ih]
  | case4 n y l hy ih =>
    rw [count_cons_of_ne hy, ← ih]
    cases hc : min (n + 1) (l.count x) with
    | zero => simp
    | succ m => rw [removeFirst, if_neg hy]

theorem length_removeFirst (x : α) (n : Nat) (l : List α) :
    (removeFirst x n l).length + min n (l.count x) = l.length := by
  fun_induction removeFirst x n l with
  | case1 l => simp
  | case2 n => simp
  | case3 n l ih =>
    rw [count_cons_self, Nat.succ_min_succ, length_cons, ← ih]
    omega
  | case4 n y l hy ih =>
    rw [count_cons_of_ne hy, length_cons, length_cons, ← ih]
    omega

theorem removeFirst_add (x : α) (n m : Nat) (l : List α) :
    removeFirst x m (removeFirst x n l) = removeFirst x (n + m) l := by
  fun_induction removeFirst x n l with
  | case1 l => rw [Nat.zero_add]
  | case2 n => cases m <;> simp [removeFirst]
  | case3 n l ih => rw [ih, Nat.succ_add, removeFirst, if_pos rfl]
  | case4 n y l hy ih =>
    rw [Nat.succ_add, removeFirst, if_neg hy]
    cases m with
    | zero => simp
    | succ m => rw [removeFirst, if_neg hy, ih, Nat.succ_add]

theorem length_filter_ne (x : α) (l : List α) :
    (l.filter (· ≠ x)).length + l.count x = l.length := by
  induction l with
  | nil => rfl
  | cons y l ih =>
    by_cases hy : y = x
    · subst hy
      rw [filter_cons_of_neg (by simp), count_cons_self, length_cons, ← ih]
      rfl
    · rw [filter_cons_of_pos (by simpa using hy), count_cons_of_ne hy,
        length_cons, length_cons, ← ih]
      omega

/-- The other elements keep their number. -/
theorem count_removeFirst_of_ne (h : y ≠ x) (n : Nat) (l : List α) :
    (removeFirst x n l).count y = l.count y := by
  have hx : (y == x) = false := by simpa using h
  have hfilter := filter_removeFirst_of_neg (p := (y == ·)) hx n l
  rw [count_eq_length_filter, count_eq_length_filter]
  simpa [BEq.comm] using congrArg List.length hfilter

theorem removeLast_min (x : α) (n : Nat) (l : List α) :
    removeLast x (min n (l.count x)) l = removeLast x n l := by
  have hcount : l.count x = l.reverse.count x := count_reverse.symm
  rw [removeLast, removeLast, hcount, removeFirst_min]

theorem count_removeLast_self (x : α) (n : Nat) (l : List α) :
    (removeLast x n l).count x = l.count x - n := by
  rw [removeLast, count_reverse, count_removeFirst_self, count_reverse]

theorem count_removeLast_of_ne (h : y ≠ x) (n : Nat) (l : List α) :
    (removeLast x n l).count y = l.count y := by
  rw [removeLast, count_reverse, count_removeFirst_of_ne h, count_reverse]

theorem length_removeLast (x : α) (n : Nat) (l : List α) :
    (removeLast x n l).length + min n (l.count x) = l.length := by
  have h := length_removeFirst x n l.reverse
  rw [count_reverse] at h
  rw [removeLast, length_reverse, h, length_reverse]

theorem removeLast_add (x : α) (n m : Nat) (l : List α) :
    removeLast x m (removeLast x n l) = removeLast x (n + m) l := by
  rw [removeLast, removeLast, reverse_reverse, removeFirst_add, removeLast]

@[simp] theorem removeLast_zero (x : α) (l : List α) : removeLast x 0 l = l := by
  simp [removeLast]

theorem mem_removeLast_self {x : α} {l : List α} : x ∈ removeLast x n l ↔ n < l.count x := by
  rw [← count_pos_iff, count_removeLast_self]
  omega

theorem mem_removeLast_of_ne (h : y ≠ x) {l : List α} : y ∈ removeLast x n l ↔ y ∈ l := by
  rw [← count_pos_iff, count_removeLast_of_ne h, count_pos_iff]

theorem filter_removeLast_of_pos (hx : p x = true) (n : Nat) (l : List α) :
    (removeLast x n l).filter p = removeLast x n (l.filter p) := by
  rw [removeLast, filter_reverse, filter_removeFirst_of_pos hx, filter_reverse]
  rfl

theorem filter_removeLast_of_neg (hx : p x = false) (n : Nat) (l : List α) :
    (removeLast x n l).filter p = l.filter p := by
  rw [removeLast, filter_reverse, filter_removeFirst_of_neg hx, filter_reverse,
    reverse_reverse]

theorem removeFirst_append (x : α) (n : Nat) (l r : List α) :
    removeFirst x n (l ++ r) = removeFirst x n l ++ removeFirst x (n - l.count x) r := by
  fun_induction removeFirst x n l with
  | case1 l => simp
  | case2 n => simp
  | case3 n l ih =>
    rw [cons_append, removeFirst, if_pos rfl, ih, count_cons_self, Nat.succ_sub_succ]
  | case4 n y l hy ih =>
    rw [cons_append, removeFirst, if_neg hy, ih, count_cons_of_ne hy, cons_append]

theorem removeFirst_replicate (x : α) (n k : Nat) :
    removeFirst x n (List.replicate k x) = List.replicate (k - n) x := by
  induction k generalizing n with
  | zero => cases n <;> simp [removeFirst]
  | succ k ih =>
    cases n with
    | zero => simp
    | succ n => rw [replicate_succ, removeFirst, if_pos rfl, ih, Nat.add_sub_add_right]

theorem removeFirst_of_notMem {l : List α} (h : x ∉ l) (n : Nat) : removeFirst x n l = l := by
  rw [← removeFirst_min, count_eq_zero.mpr h, Nat.min_zero, removeFirst_zero]

/-- The first other element does not move to the right. -/
theorem findIdx_removeFirst_le (x : α) (n : Nat) (l : List α) :
    (removeFirst x n l).findIdx (· ≠ x) ≤ l.findIdx (· ≠ x) := by
  fun_induction removeFirst x n l with
  | case1 l => exact Nat.le_refl _
  | case2 n => exact Nat.le_refl _
  | case3 n l ih =>
    have hfirst : (x :: l).findIdx (· ≠ x) = l.findIdx (· ≠ x) + 1 := by
      simp [findIdx_cons]
    rw [hfirst]
    exact Nat.le_succ_of_le ih
  | case4 n y l hy ih => simp [findIdx_cons, hy]

/-- New occurrences at the end are what is removed only if all occurrences are at the end. -/
theorem removeFirst_append_replicate_iff {l : List α} (hk : 0 < k) :
    removeFirst x k (l ++ List.replicate k x) = l ↔ ∃ r n, l = r ++ List.replicate n x ∧ x ∉ r := by
  constructor
  · intro h
    induction l with
    | nil => exact ⟨[], 0, rfl, not_mem_nil⟩
    | cons y l ih =>
      obtain ⟨k, rfl⟩ := Nat.exists_eq_succ_of_ne_zero (Nat.ne_of_gt hk)
      rw [cons_append, removeFirst] at h
      by_cases hy : y = x
      · subst hy
        rw [if_pos rfl] at h
        have hall : ∀ z ∈ l, z = y := by
          by_contra hnot
          push Not at hnot
          obtain ⟨z, hz, hne⟩ := hnot
          -- the first other element would have moved to the right
          have hlt : l.findIdx (· ≠ y) < l.length :=
            findIdx_lt_length_of_exists ⟨z, hz, by simpa using hne⟩
          have hnext : (y :: l).findIdx (· ≠ y) = l.findIdx (· ≠ y) + 1 := by
            simp [findIdx_cons]
          have hle := findIdx_removeFirst_le y k (l ++ List.replicate (k + 1) y)
          rw [h, hnext, findIdx_append, if_pos hlt] at hle
          exact Nat.not_succ_le_self _ hle
        refine ⟨[], l.length + 1, ?_, not_mem_nil⟩
        rw [nil_append, replicate_succ, eq_replicate_of_mem hall,
          length_replicate]
      · rw [if_neg hy] at h
        obtain ⟨r, n, rfl, hr⟩ := ih (List.cons.inj h).2
        exact ⟨y :: r, n, rfl, not_mem_cons_of_ne_of_not_mem (Ne.symm hy) hr⟩
  · rintro ⟨r, n, rfl, hr⟩
    rw [append_assoc, replicate_append_replicate, removeFirst_append,
      removeFirst_of_notMem hr, count_eq_zero.mpr hr, Nat.sub_zero, removeFirst_replicate,
      Nat.add_sub_cancel]

/-- New occurrences at the front are what is removed only if all occurrences are at the front. -/
theorem removeLast_replicate_append_iff {l : List α} (hk : 0 < k) :
    removeLast x k (List.replicate k x ++ l) = l ↔ ∃ n r, l = List.replicate n x ++ r ∧ x ∉ r := by
  rw [removeLast, reverse_eq_iff, reverse_append, reverse_replicate,
    removeFirst_append_replicate_iff hk]
  constructor
  · rintro ⟨r, n, hl, hr⟩
    have hreverse : l = (r ++ List.replicate n x).reverse := reverse_eq_iff.mp hl
    exact ⟨n, r.reverse, by simpa using hreverse, by simpa using hr⟩
  · rintro ⟨n, r, rfl, hr⟩
    exact ⟨r.reverse, n, by simp, by simpa using hr⟩

end Remove

end CloudI.Lists
