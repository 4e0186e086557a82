import CloudI.ApiPython.Erlang.Forms

/-!
# ApiPython.Erlang.Faults

What else the decoder takes than forms: it reads a term that the data end in, and is left with an
index past the end; and it fails with an exception of its own in the middle of the data, on a name
that is no UTF-8, on a float that is none, on a key that cannot be assigned, or at the limit on
recursion.
-/

namespace CloudI.ApiPython.Erlang

open Binary CloudI.Except Unpack List

variable {φ : Type} {py : Python φ} {data b rest : Binary} {i j n : Nat} {e : Exception}
variable {limit : Nat → Binary → Bool} {d : Nat}

/-! ## terms that are cut -/

/-- **A term that the data end in**, which is read though: the body of a leaf is cut, or the last
term in another one is.  A function whose length does not count its own bytes leaves the index in
these. -/
inductive Cut (py : Python φ) : Binary → Prop
  | leaf {head : Leaf} {body : Binary} : head.Fits → head.need ≤ body.length →
      body.length < head.size → (head.value py body).isOk = true → Cut py (head.bytes ++ body)
  | newFun {n : Nat} {rest : Binary} : n < 4 → Cut py (header .newFunExt 4 n ++ rest)
  | sequence {s : Sequence} {l : List Form} {b : Binary} : s.Fits (l.length + 1) →
      Form.FitsList l → (Form.valueList py l).isOk = true → Cut py b →
      Cut py (s.bytes (l.length + 1) ++ (Form.bytesList l ++ b))
  | map {l : List (Form × Form)} {pairs : List (Term φ × Term φ)} {k : Form} {key : Term φ}
      {b : Binary} : l.length + 1 < 256 ^ 4 → Form.FitsEntries l →
      Form.valueEntries py l [] = .ok pairs → k.Fits → k.value py = .ok key →
      (∀ e, ¬ KeyFails py pairs (keyOf key) e) → Cut py b →
      Cut py (header .mapExt 4 (l.length + 1) ++ (Form.bytesEntries l ++ (k.bytes ++ b)))
  | function {head : FunHead} {l : List Form} {b : Binary} : l.length + 1 < 256 ^ 4 → head.Fits →
      head.check = .ok () → Form.FitsList l → (Form.valueList py l).isOk = true →
      Cut py b →
      Cut py (header .funExt 4 (l.length + 1) ++ (head.bytes ++ (Form.bytesList l ++ b)))

/-- A term in front of anything, or one that is cut. -/
def ReadsAt (py : Python φ) (b : Binary) : Prop :=
  (∃ (f : Form) (rest : Binary), f.Fits ∧ (f.value py).isOk = true ∧ b = f.bytes ++ rest) ∨
    Cut py b

/-- **Nothing can be read behind a term that was cut**: the index is past the end, or at a byte that
is no tag. -/
def Dead (data : Binary) (j : Nat) : Prop :=
  data.length < j ∨ ∃ x rest, data.drop j = x :: rest ∧ Tag.ofByte x = none

/-! ## faults -/

/-- An atom whose name is not read, also when it is cut. -/
def AtomFaults (b : Binary) (e : Exception) : Prop :=
  ∃ (head : AtomHead) (rest : Binary), head.Fits ∧ head.need ≤ rest.length ∧
    b = head.bytes ++ rest ∧ head.value (rest.take head.size) = .error e

/-- **The decoder fails with an exception of its own** on a term in `d` others, behind a number of
terms: on a name or a float, which may be cut, on a key that cannot be assigned, or at the limit on
recursion.  The size of a compressed term is not 0. -/
inductive Faults (py : Python φ) (limit : Nat → Binary → Bool) : Nat → Binary → Exception → Prop
  | deep {d : Nat} {tag : Tag} {rest : Binary} : limit d (tag.code :: rest) = true →
      Faults py limit d (tag.code :: rest) .recursionError
  | leaf {d : Nat} {head : Leaf} {rest : Binary} {e : Exception} : head.Fits →
      head.need ≤ rest.length → head.value py (rest.take head.size) = .error e →
      Faults py limit d (head.bytes ++ rest) e
  | compressed {d n : Nat} {rest : Binary} : n < 256 ^ 4 → n ≠ 0 →
      Faults py limit d (header .compressedZlib 4 n ++ rest) .compressed
  | sequence {d n : Nat} {s : Sequence} {l : List Form} {b : Binary} {e : Exception} : s.Fits n →
      l.length < n → Form.FitsList l → (Form.valueList py l).isOk = true →
      Faults py limit (d + 1) b e →
      Faults py limit d (s.bytes n ++ (Form.bytesList l ++ b)) e
  | key {d n : Nat} {l : List (Form × Form)} {pairs : List (Term φ × Term φ)} {b : Binary}
      {e : Exception} : n < 256 ^ 4 → l.length < n → Form.FitsEntries l →
      Form.valueEntries py l [] = .ok pairs → Faults py limit (d + 1) b e →
      Faults py limit d (header .mapExt 4 n ++ (Form.bytesEntries l ++ b)) e
  | value {d n : Nat} {l : List (Form × Form)} {pairs : List (Term φ × Term φ)} {k : Form}
      {key : Term φ} {b : Binary} {e : Exception} : n < 256 ^ 4 → l.length < n →
      Form.FitsEntries l → Form.valueEntries py l [] = .ok pairs → k.Fits →
      k.value py = .ok key → Faults py limit (d + 1) b e →
      Faults py limit d (header .mapExt 4 n ++ (Form.bytesEntries l ++ (k.bytes ++ b))) e
  | item {d n : Nat} {l : List (Form × Form)} {pairs : List (Term φ × Term φ)} {k : Form}
      {key : Term φ} {b : Binary} {e : Exception} : n < 256 ^ 4 → l.length < n →
      Form.FitsEntries l → Form.valueEntries py l [] = .ok pairs → k.Fits →
      k.value py = .ok key → ReadsAt py b → KeyFails py pairs (keyOf key) e →
      Faults py limit d (header .mapExt 4 n ++ (Form.bytesEntries l ++ (k.bytes ++ b))) e
  | exportModule {d : Nat} {b : Binary} {e : Exception} : AtomFaults b e →
      Faults py limit d (Tag.exportExt.code :: b) e
  | exportFunction {d : Nat} {head : AtomHead} {name b : Binary} {v : AtomValue} {e : Exception} :
      head.Fits → name.length = head.size → head.value name = .ok v → AtomFaults b e →
      Faults py limit d (Tag.exportExt.code :: (head.bytes ++ name ++ b)) e
  | functionPid {d n : Nat} {new : Bool} {b : Binary} {e : Exception} : n < 256 ^ 4 →
      AtomFaults b e →
      Faults py limit d (header .funExt 4 n ++ ((Node.pid new).tag.code :: b)) e
  | functionModule {d n : Nat} {new : Bool} {node : AtomHead} {body b : Binary}
      {v : AtomValue} {e : Exception} : n < 256 ^ 4 → node.Fits →
      body.length = node.size + (4 + 4 + creationSize new) →
      node.value (body.take node.size) = .ok v → AtomFaults b e →
      Faults py limit d (header .funExt 4 n ++
        ((Node.pid new).tag.code :: (node.bytes ++ body) ++ b)) e
  | functionFree {d n : Nat} {head : FunHead} {l : List Form} {b : Binary} {e : Exception} :
      n < 256 ^ 4 → head.Fits → head.check = .ok () → l.length < n → Form.FitsList l →
      (Form.valueList py l).isOk = true → Faults py limit (d + 1) b e →
      Faults py limit d (header .funExt 4 n ++ (head.bytes ++ (Form.bytesList l ++ b))) e

/-! ## tags in front -/

/-- The bytes of a tag in front. -/
def Tagged (b : Binary) : Prop := ∃ tag r, b = Tag.code tag :: r

theorem tagged_header (tag : Tag) (w n : Nat) (rest : Binary) :
    Tagged (header tag w n ++ rest) := ⟨tag, _, rfl⟩

theorem tagged_leaf (head : Leaf) (rest : Binary) : Tagged (head.bytes ++ rest) := by
  obtain ⟨l, hl⟩ := head.bytes_eq
  exact ⟨head.tag, l ++ rest, by rw [hl]; rfl⟩

theorem tagged_sequence (s : Sequence) (n : Nat) (rest : Binary) : Tagged (s.bytes n ++ rest) := by
  cases s <;> exact tagged_header _ _ _ _

theorem tagged_form (f : Form) (rest : Binary) : Tagged (f.bytes ++ rest) := by
  cases f with
  | leaf head body =>
    rw [Form.bytes, append_assoc]
    exact tagged_leaf head _
  | sequence s l =>
    rw [Form.bytes, append_assoc]
    exact tagged_sequence s _ _
  | exportFun form => exact ⟨.exportExt, _, rfl⟩
  | _ =>
    rw [Form.bytes, append_assoc]
    exact tagged_header _ _ _ _

theorem Cut.tagged (h : Cut py b) : Tagged b := by
  cases h with
  | leaf => exact tagged_leaf _ _
  | sequence => exact tagged_sequence _ _ _
  | _ => exact tagged_header _ _ _ _

theorem Faults.tagged (h : Faults py limit d b e) : Tagged b := by
  cases h with
  | deep => exact ⟨_, _, rfl⟩
  | leaf => exact tagged_leaf _ _
  | sequence => exact tagged_sequence _ _ _
  | exportModule => exact ⟨.exportExt, _, rfl⟩
  | exportFunction => exact ⟨.exportExt, _, rfl⟩
  | _ => exact tagged_header _ _ _ _

theorem Dead.not_tagged (h : Dead data j) : ¬ Tagged (data.drop j) := by
  rintro ⟨tag, r, htag⟩
  rcases h with hlt | ⟨x, rest, hx, hnone⟩
  · rw [drop_eq_nil_of_le (Nat.le_of_lt hlt)] at htag
    cases htag
  · rw [hx] at htag
    obtain ⟨rfl, -⟩ := List.cons.inj htag
    rw [Tag.ofByte_code] at hnone
    cases hnone

theorem Dead.ne_length (h : Dead data j) : j ≠ data.length := by
  rintro rfl
  rcases h with hlt | ⟨x, rest, hx, -⟩
  · exact absurd hlt (Nat.lt_irrefl _)
  · rw [drop_length] at hx
    cases hx

/-! ## one term -/

/-- **What reading at an index comes to**: a form, a term that is cut, a fault, or an exception that
becomes a `ParseException`. -/
def Reading (py : Python φ) (limit : Nat → Binary → Bool) (d : Nat) (data : Binary) (i : Nat) :
    Except Exception (Nat × Term φ) → Prop
  | .ok (j, t) =>
      (∃ (f : Form) (rest : Binary), f.Fits ∧ f.value py = .ok t ∧
        data.drop i = f.bytes ++ rest ∧ j = i + f.bytes.length) ∨
      Cut py (data.drop i) ∧ Dead data j ∧ i ≤ j
  | .error e => caught e = .parseException ∨ Faults py limit d (data.drop i) e

theorem Reading.index_le {t : Term φ} (h : Reading py limit d data i (.ok (j, t))) : i ≤ j := by
  rcases h with ⟨f, rest, -, -, -, rfl⟩ | ⟨-, -, hle⟩
  · exact Nat.le_add_right _ _
  · exact hle

theorem Reading.of_dead {x : Except Exception (Nat × Term φ)} (h : Reading py limit d data j x)
    (hdead : Dead data j) : ∃ e, x = .error e ∧ caught e = .parseException := by
  have hnot := hdead.not_tagged
  match x, h with
  | .ok (j', t), .inl ⟨f, rest, _, _, hdrop, _⟩ =>
    rw [hdrop] at hnot
    exact absurd (tagged_form f rest) hnot
  | .ok (j', t), .inr ⟨hcut, _⟩ => exact absurd hcut.tagged hnot
  | .error e, .inl hcaught => exact ⟨e, rfl, hcaught⟩
  | .error e, .inr hfaults => exact absurd hfaults.tagged hnot

end CloudI.ApiPython.Erlang
