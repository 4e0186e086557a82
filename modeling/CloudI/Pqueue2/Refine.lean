import CloudI.Library.Fifos
import CloudI.Pqueue2.Basic

/-!
# Pqueue2.Refine

`pqueue2` as a stable priority queue.  In the heaps that the operations make every
left heap is empty and the priorities ascend to the right (`Spine`), so that
`merge/2` meets one node of a priority at most in each of its arguments, and never
two queues.  `Spec` says what each operation does to the FIFO list of each priority
and what it answers.
-/

namespace CloudI.Pqueue2

open Fifos Option
open Function (update update_self update_of_ne)

variable {α : Type}

/-! ## the heaps of the operations -/

/-- The root of the heap has a greater priority. -/
def Above (p : Int) : Heap α → Prop
  | .empty => True
  | .node p' _ _ _ => p < p'

/-- A heap without left heaps whose priorities ascend. -/
inductive Spine : Heap α → Prop
  | empty : Spine .empty
  | node (hp : Above p hr) (hr' : Spine hr) : Spine (.node p .empty hr d)

/-- The elements of a node, oldest first. -/
def Data.toList : Data α → List α
  | .element x => [x]
  | .queue q => q.toList

/-- The FIFO list of each priority. -/
def contents : Heap α → Int → List α
  | .empty, _ => []
  | .node p _ hr d, r => if r = p then d.toList else contents hr r

variable {h hr : Heap α}

theorem Above.trans (hq : Above q h) (hp : p < q) : Above p h := by
  cases h with
  | empty => trivial
  | node q' hl hr d => exact lt_trans hp hq

theorem contents_of_above (hs : Spine h) (hp : Above p h) : ∀ r ≤ p, contents h r = [] := by
  induction hs generalizing p with
  | empty => exact fun r _ => rfl
  | node hp' hr' ih =>
    intro r hr
    have hlt : r < _ := lt_of_le_of_lt hr hp
    rw [contents, if_neg (ne_of_lt hlt), ih hp' r hlt.le]

theorem contents_node_self (p : Int) (hl hr : Heap α) (d d' : Data α) :
    contents (.node p hl hr d') = update (contents (.node p hl hr d)) p d'.toList := by
  funext r
  by_cases hr : r = p
  · rw [hr, update_self, contents, if_pos rfl]
  · rw [update_of_ne hr, contents, contents, if_neg hr, if_neg hr]

theorem contents_node_of_ne (hq : q ≠ p) (h : contents hr' = update (contents hr) q l)
    (d : Data α) : contents (.node p hl hr' d) = update (contents (.node p hl hr d)) q l := by
  funext r
  rw [contents, h]
  by_cases hr : r = q
  · rw [hr, update_self, update_self, if_neg hq]
  · rw [update_of_ne hr, update_of_ne hr, contents]

theorem contents_root_nil (hs : Spine hr) (hp : Above p hr) (hd : d.toList = []) :
    contents (.node p .empty hr d) = contents hr := by
  funext r
  rw [contents]
  by_cases hr' : r = p
  · rw [if_pos hr', hd, contents_of_above hs hp r hr'.le]
  · rw [if_neg hr']

theorem merge_empty_left (h : Heap α) : merge .empty h = some h := by
  rw [merge]

/-! ## the steps of out -/

theorem out_queue_nil (hout : q.out = (none, q')) (p : Int) (hr : Heap α) :
    out (.node p .empty hr (.queue q)) = out hr := by
  rw [out, hout]
  simp only
  split
  · next hm =>
      rw [merge_empty_left] at hm
      cases hm
  · next h hm =>
      rw [merge_empty_left] at hm
      cases hm
      rfl

theorem pout_queue_nil (hout : q.out = (none, q')) (p : Int) (hr : Heap α) :
    pout (.node p .empty hr (.queue q)) = pout hr := by
  rw [pout, hout]
  simp only
  split
  · next hm =>
      rw [merge_empty_left] at hm
      cases hm
  · next h hm =>
      rw [merge_empty_left] at hm
      cases hm
      rfl

theorem outAt_below (h : p < p1) (hl hr : Heap α) (d : Data α) :
    outAt p (.node p1 hl hr d) = some (none, .node p1 hl hr d) := by
  cases d <;> rw [outAt, if_pos h]

theorem outAt_above (h : p1 < p) (hr : Heap α) (d : Data α) : outAt p (.node p1 .empty hr d) =
      (outAt p hr).map fun (value, hr) => (value, .node p1 .empty hr d) := by
  have hempty : outAt p (.empty : Heap α) = some (none, .empty) := by rw [outAt]
  cases d <;> rw [outAt, if_neg (lt_asymm h), if_pos h, hempty]

theorem outAt_element (p : Int) (hr : Heap α) (x : α) :
    outAt p (.node p .empty hr (.element x)) = some (some x, hr) := by
  rw [outAt, if_neg (lt_irrefl p), if_neg (lt_irrefl p), merge_empty_left, map_some]

theorem outAt_queue_some (hout : q.out = (some x, q')) (p : Int) (hr : Heap α) :
    outAt p (.node p .empty hr (.queue q)) = some (some x, .node p .empty hr (.queue q')) := by
  rw [outAt, if_neg (lt_irrefl p), if_neg (lt_irrefl p), hout]

theorem outAt_queue_nil (hout : q.out = (none, q')) (p : Int) (hr : Heap α) :
    outAt p (.node p .empty hr (.queue q)) = outAt p hr := by
  rw [outAt, if_neg (lt_irrefl p), if_neg (lt_irrefl p), hout]
  simp only
  split
  · next hm =>
      rw [merge_empty_left] at hm
      cases hm
  · next h hm =>
      rw [merge_empty_left] at hm
      cases hm
      rfl

/-! ## in -/

theorem mergeData_element (x : α) (d : Data α) :
    ∃ d', mergeData (.element x) d = some d' ∧ d'.toList = d.toList ++ [x] := by
  cases d with
  | element y => exact ⟨_, rfl, ErlQueue.toList_fromList _⟩
  | queue q => exact ⟨_, rfl, ErlQueue.toList_enter x q⟩

/-- An element enters behind those of its priority. -/
theorem enterAt_spec (hs : Spine h) (x : α) (p : Int) :
    ∃ h', enterAt x p h = some h' ∧ Spine h' ∧ (∀ q < p, Above q h → Above q h') ∧
      contents h' = update (contents h) p (contents h p ++ [x]) := by
  induction hs with
  | empty =>
    refine ⟨.node p .empty .empty (.element x), ?_, .node trivial .empty, fun q hq _ => hq, ?_⟩
    · rw [enterAt, merge]
    · funext r
      by_cases hr : r = p
      · rw [hr, update_self]
        exact if_pos rfl
      · rw [update_of_ne hr]
        exact if_neg hr
  | @node p2 hr d hp hs ih =>
    rw [enterAt, merge]
    rcases lt_trichotomy p p2 with hlt | rfl | hgt
    · refine ⟨.node p .empty (.node p2 .empty hr d) (.element x), ?_,
        .node hlt (.node hp hs), fun q hq _ => hq, ?_⟩
      · rw [if_pos hlt, merge_empty_left, map_some]
      · have hbelow := contents_of_above (.node hp hs : Spine (.node p2 .empty hr d)) hlt p le_rfl
        funext r
        by_cases hr : r = p
        · rw [hr, update_self, hbelow, contents, if_pos rfl]
          rfl
        · rw [update_of_ne hr, contents, if_neg hr]
    · obtain ⟨d', hd', hlist⟩ := mergeData_element x d
      refine ⟨.node p .empty hr d', ?_, .node hp hs, fun q hq _ => hq, ?_⟩
      · rw [if_neg (lt_irrefl p), if_neg (lt_irrefl p)]
        simp only [merge_empty_left, hd']
      · have hroot : contents (.node p .empty hr d) p = d.toList := if_pos rfl
        rw [contents_node_self p .empty hr d d', hlist, hroot]
    · obtain ⟨hr', hin, hs', habove, hcontents⟩ := ih
      rw [enterAt] at hin
      have hne : p ≠ p2 := ne_of_gt hgt
      have hother : contents (.node p2 .empty hr d) p = contents hr p := if_neg hne
      refine ⟨.node p2 .empty hr' d, ?_, .node (habove p2 hgt hp) hs', fun q _ hq => hq, ?_⟩
      · rw [if_neg (lt_asymm hgt), if_pos hgt, hin, map_some]
      · rw [contents_node_of_ne hne hcontents d, hother]

/-! ## out -/

/-- The oldest element of the smallest priority goes out. -/
theorem out_spec (hs : Spine h) :
    ((∀ p, contents h p = []) ∧ out h = some (none, .empty) ∧ pout h = some (none, .empty)) ∨
    ∃ p x l h', First (contents h) p x l ∧ out h = some (some x, h') ∧
      pout h = some (some (x, p), h') ∧ Spine h' ∧
      contents h' = update (contents h) p l := by
  induction hs with
  | empty => exact .inl ⟨fun p => rfl, by rw [out], by rw [pout]⟩
  | @node p hr d hp hs ih =>
    have hbelow : ∀ r < p, contents (.node p .empty hr d) r = [] := fun r hr' =>
      contents_of_above (.node hp hs) (show Above r _ from hr') r le_rfl
    have hroot : contents (.node p .empty hr d) p = d.toList := if_pos rfl
    cases d with
    | element x =>
      refine .inr ⟨p, x, [], hr, ⟨hroot, hbelow⟩, ?_, ?_, hs, ?_⟩
      · rw [out, merge_empty_left, map_some]
      · rw [pout, merge_empty_left, map_some]
      · funext r
        by_cases hr' : r = p
        · rw [hr', update_self, contents_of_above hs hp p le_rfl]
        · rw [update_of_ne hr', contents, if_neg hr']
    | queue q =>
      rcases q.out_toList with ⟨hnil, hout⟩ | ⟨x, q', hout, hcons⟩
      · have hsame := contents_root_nil hs hp (d := .queue q) hnil
        rw [hsame, out_queue_nil hout, pout_queue_nil hout]
        exact ih
      · refine .inr ⟨p, x, q'.toList, .node p .empty hr (.queue q'), ⟨?_, hbelow⟩, ?_, ?_,
          .node hp hs, contents_node_self p .empty hr _ _⟩
        · rw [hroot]
          exact hcons
        · rw [out, hout]
        · rw [pout, hout]

/-- What an operation at one priority does. -/
theorem outAt_spec (hs : Spine h) (p : Int) :
    ∃ value h', outAt p h = some (value, h') ∧ Spine h' ∧ (∀ q, Above q h → Above q h') ∧
      ((value = none ∧ contents h p = [] ∧ contents h' = contents h) ∨
        ∃ x l, value = some x ∧ contents h p = x :: l ∧
          contents h' = update (contents h) p l) := by
  induction hs with
  | empty =>
    exact ⟨none, .empty, by rw [outAt], .empty, fun _ h => h, .inl ⟨rfl, rfl, rfl⟩⟩
  | @node p1 hr d hp hs ih =>
    have habove : ∀ q, Above q (.node p1 .empty hr d) → Above q hr := fun q hq => hp.trans hq
    rcases lt_trichotomy p p1 with hlt | rfl | hgt
    · refine ⟨none, .node p1 .empty hr d, outAt_below hlt _ _ _, .node hp hs, fun _ h => h,
        .inl ⟨rfl, ?_, rfl⟩⟩
      exact contents_of_above (.node hp hs) (show Above p _ from hlt) p le_rfl
    · have hroot : contents (.node p .empty hr d) p = d.toList := if_pos rfl
      rw [hroot]
      cases d with
      | element x =>
        refine ⟨some x, hr, outAt_element p hr x, hs, habove, .inr ⟨x, [], rfl, rfl, ?_⟩⟩
        funext r
        by_cases hr' : r = p
        · rw [hr', update_self, contents_of_above hs hp p le_rfl]
        · rw [update_of_ne hr', contents, if_neg hr']
      | queue q =>
        rcases q.out_toList with ⟨hnil, hout⟩ | ⟨x, q', hout, hcons⟩
        · obtain ⟨value, h', hrun, hs', habove', hcase⟩ := ih
          have hnone : contents hr p = [] := contents_of_above hs hp p le_rfl
          have hsame := contents_root_nil hs hp (d := .queue q) hnil
          refine ⟨value, h', (outAt_queue_nil hout p hr).trans hrun, hs',
            fun q hq => habove' q (habove q hq), ?_⟩
          rcases hcase with ⟨rfl, -, hcontents⟩ | ⟨x, l, rfl, hcons, -⟩
          · exact .inl ⟨rfl, hnil, hcontents.trans hsame.symm⟩
          · rw [hnone] at hcons
            cases hcons
        · exact ⟨some x, .node p .empty hr (.queue q'), outAt_queue_some hout p hr,
            .node hp hs, fun _ h => h,
            .inr ⟨x, q'.toList, rfl, hcons, contents_node_self p .empty hr _ _⟩⟩
    · obtain ⟨value, h', hrun, hs', habove', hcase⟩ := ih
      have hne : p ≠ p1 := ne_of_gt hgt
      have hother : contents (.node p1 .empty hr d) p = contents hr p := if_neg hne
      refine ⟨value, .node p1 .empty h' d, ?_, .node (habove' p1 hp) hs', fun _ h => h, ?_⟩
      · rw [outAt_above hgt, hrun, map_some]
      · rw [hother]
        rcases hcase with ⟨rfl, hnil, hcontents⟩ | ⟨x, l, rfl, hcons, hcontents⟩
        · refine .inl ⟨rfl, hnil, ?_⟩
          funext r
          rw [contents, hcontents, contents]
        · exact .inr ⟨x, l, rfl, hcons, contents_node_of_ne hne hcontents d⟩

/-! ## runs -/

/-- An operation of the queue. -/
inductive Op (α : Type) where
  | enter (x : α)
  | enterAt (x : α) (p : Int)
  | out
  | outAt (p : Int)
  | pout

/-- What an operation answers beside the new queue. -/
inductive Answer (α : Type) where
  | queue
  | value (x : Option α)
  | valueAt (x : Option (α × Int))

/-- One operation on the heap. -/
def apply (h : Heap α) : Op α → Option (Answer α × Heap α)
  | .enter x => (enter x h).map fun h => (.queue, h)
  | .enterAt x p => (enterAt x p h).map fun h => (.queue, h)
  | .out => (out h).map fun (value, h) => (.value value, h)
  | .outAt p => (outAt p h).map fun (value, h) => (.value value, h)
  | .pout => (pout h).map fun (value, h) => (.valueAt value, h)

/-- The operations in order, with their answers. -/
def exec (h : Heap α) : List (Op α) → Option (List (Answer α) × Heap α)
  | [] => some ([], h)
  | op :: ops => do
      let (answer, h) ← apply h op
      let (answers, h) ← exec h ops
      return (answer :: answers, h)

/-- **What each operation means** for the FIFO lists `a` of the priorities:
`Spec a op answer a'`. -/
inductive Spec : (Int → List α) → Op α → Answer α → (Int → List α) → Prop
  | enter : Spec a (.enter x) .queue (update a 0 (a 0 ++ [x]))
  | enterAt : Spec a (.enterAt x p) .queue (update a p (a p ++ [x]))
  | outEmpty (h : ∀ p, a p = []) : Spec a .out (.value none) a
  | out (h : First a p x l) : Spec a .out (.value (some x)) (update a p l)
  | outAtEmpty (h : a p = []) : Spec a (.outAt p) (.value none) a
  | outAt (h : a p = x :: l) : Spec a (.outAt p) (.value (some x)) (update a p l)
  | poutEmpty (h : ∀ p, a p = []) : Spec a .pout (.valueAt none) a
  | pout (h : First a p x l) : Spec a .pout (.valueAt (some (x, p))) (update a p l)

/-- A run of `Spec`. -/
inductive SpecRun : (Int → List α) → List (Op α) → List (Answer α) → (Int → List α) → Prop
  | nil : SpecRun a [] [] a
  | cons (h : Spec a op answer a') (hrest : SpecRun a' ops answers a'') :
      SpecRun a (op :: ops) (answer :: answers) a''

/-- **Step lemma**: an operation on a heap of the operations is a step of `Spec`, and
makes such a heap again. -/
theorem apply_spec (hs : Spine h) (op : Op α) :
    ∃ answer h', apply h op = some (answer, h') ∧ Spine h' ∧
      Spec (contents h) op answer (contents h') := by
  have hnil : (∀ p, contents h p = []) → contents h = contents (.empty : Heap α) :=
    fun hnil => funext hnil
  cases op with
  | enter x =>
    obtain ⟨h', hin, hs', -, hcontents⟩ := enterAt_spec hs x 0
    exact ⟨.queue, h', by rw [apply, enter, hin]; rfl, hs', hcontents ▸ .enter⟩
  | enterAt x p =>
    obtain ⟨h', hin, hs', -, hcontents⟩ := enterAt_spec hs x p
    exact ⟨.queue, h', by rw [apply, hin]; rfl, hs', hcontents ▸ .enterAt⟩
  | out =>
    rcases out_spec hs with ⟨hempty, hout, -⟩ | ⟨p, x, l, h', hfirst, hout, -, hs', hcontents⟩
    · refine ⟨.value none, .empty, by rw [apply, hout]; rfl, .empty, ?_⟩
      exact hnil hempty ▸ .outEmpty hempty
    · exact ⟨.value (some x), h', by rw [apply, hout]; rfl, hs', hcontents ▸ .out hfirst⟩
  | outAt p =>
    obtain ⟨value, h', hout, hs', -, hcase⟩ := outAt_spec hs p
    refine ⟨.value value, h', by rw [apply, hout]; rfl, hs', ?_⟩
    rcases hcase with ⟨rfl, hempty, hcontents⟩ | ⟨x, l, rfl, hcons, hcontents⟩
    · rw [hcontents]
      exact .outAtEmpty hempty
    · rw [hcontents]
      exact .outAt hcons
  | pout =>
    rcases out_spec hs with ⟨hempty, -, hout⟩ | ⟨p, x, l, h', hfirst, -, hout, hs', hcontents⟩
    · refine ⟨.valueAt none, .empty, by rw [apply, hout]; rfl, .empty, ?_⟩
      exact hnil hempty ▸ .poutEmpty hempty
    · exact ⟨.valueAt (some (x, p)), h', by rw [apply, hout]; rfl, hs', hcontents ▸ .pout hfirst⟩

theorem exec_spec (hs : Spine h) (ops : List (Op α)) :
    ∃ answers h', exec h ops = some (answers, h') ∧ Spine h' ∧
      SpecRun (contents h) ops answers (contents h') := by
  induction ops generalizing h with
  | nil => exact ⟨[], h, rfl, hs, .nil⟩
  | cons op ops ih =>
    obtain ⟨answer, h₁, hop, hs₁, hspec⟩ := apply_spec hs op
    obtain ⟨answers, h', hrest, hs', hrun⟩ := ih hs₁
    refine ⟨answer :: answers, h', ?_, hs', .cons hspec hrun⟩
    rw [exec, hop]
    simp only [bind_eq_bind, bind_some, hrest, pure_def]

/-- **The heap is a stable priority queue**: every sequence of operations runs without
an exception, so `merge/2` has a clause for all that it meets, and answers what `Spec`
says. -/
theorem exec_heap_stable (ops : List (Op α)) :
    ∃ answers h a, exec new ops = some (answers, h) ∧ SpecRun (fun _ => []) ops answers a ∧
      Spine h ∧ contents h = a := by
  obtain ⟨answers, h, heq, hs, hrun⟩ := exec_spec (.empty : Spine (new : Heap α)) ops
  exact ⟨answers, h, contents h, heq, hrun, hs, rfl⟩

end CloudI.Pqueue2
