import CloudI.ApiPython.Erlang.Forms

/-!
# ApiPython.Erlang.Unambiguous

A form is determined by its bytes, whatever comes behind them.
-/

namespace CloudI.ApiPython.Erlang

open Binary List

variable {r r' : Binary}

/-! ## heads -/

theorem Tag.code_injective {tag tag' : Tag} (h : tag.code = tag'.code) : tag = tag' := by
  have hbyte := Tag.ofByte_code tag
  rw [h, Tag.ofByte_code] at hbyte
  exact (Option.some.inj hbyte).symm

theorem bigEndian_unique (hn : n < 256 ^ w) (hn' : n' < 256 ^ w)
    (h : bigEndian w n ++ r = bigEndian w n' ++ r') : n = n' ∧ r = r' := by
  obtain ⟨hnumber, hrest⟩ := append_inj h (by rw [length_bigEndian, length_bigEndian])
  have hvalue := congrArg value hnumber
  rw [value_bigEndian, value_bigEndian, Nat.mod_eq_of_lt hn, Nat.mod_eq_of_lt hn'] at hvalue
  exact ⟨hvalue, hrest⟩

theorem header_unique {tag : Tag} {w n n' : Nat} (hn : n < 256 ^ w) (hn' : n' < 256 ^ w)
    (h : header tag w n ++ r = header tag w n' ++ r') : n = n' ∧ r = r' :=
  bigEndian_unique hn hn' (List.cons.inj h).2

theorem tag_unique {tag tag' : Tag} {b b' l l' : Binary} (hb : b = tag.code :: l)
    (hb' : b' = tag'.code :: l') (h : b ++ r = b' ++ r') : tag = tag' := by
  rw [hb, hb'] at h
  exact Tag.code_injective (List.cons.inj h).1

theorem AtomHead.unique {head head' : AtomHead} (hfits : head.Fits) (hfits' : head'.Fits)
    (h : head.bytes ++ r = head'.bytes ++ r') : head = head' ∧ r = r' := by
  obtain ⟨l, hl⟩ := head.bytes_eq
  obtain ⟨l', hl'⟩ := head'.bytes_eq
  have htag := tag_unique hl hl' h
  cases head with
  | cacheRef =>
    cases head' with
    | cacheRef => exact ⟨rfl, (List.cons.inj h).2⟩
    | name utf8 small n => cases utf8 <;> cases small <;> cases htag
  | name utf8 small n =>
    cases head' with
    | cacheRef => cases utf8 <;> cases small <;> cases htag
    | name utf8' small' n' =>
      have hsame : utf8 = utf8' ∧ small = small' := by
        cases utf8 <;> cases small <;> cases utf8' <;> cases small' <;>
          first | exact ⟨rfl, rfl⟩ | cases htag
      obtain ⟨rfl, rfl⟩ := hsame
      rw [AtomHead.bytes, AtomHead.bytes] at h
      obtain ⟨rfl, hr⟩ := bigEndian_unique hfits hfits' (List.cons.inj h).2
      exact ⟨rfl, hr⟩

theorem Node.bytes_eq (kind : Node) : ∃ l, kind.bytes = kind.tag.code :: l := by
  cases kind <;> exact ⟨_, rfl⟩

theorem Node.unique {kind kind' : Node} (hfits : kind.Fits) (hfits' : kind'.Fits)
    (h : kind.bytes ++ r = kind'.bytes ++ r') : kind = kind' ∧ r = r' := by
  obtain ⟨l, hl⟩ := kind.bytes_eq
  obtain ⟨l', hl'⟩ := kind'.bytes_eq
  have htag := tag_unique hl hl' h
  match kind, kind', htag with
  | .pid true, .pid true, _ => exact ⟨rfl, (List.cons.inj h).2⟩
  | .pid false, .pid false, _ => exact ⟨rfl, (List.cons.inj h).2⟩
  | .port true, .port true, _ => exact ⟨rfl, (List.cons.inj h).2⟩
  | .port false, .port false, _ => exact ⟨rfl, (List.cons.inj h).2⟩
  | .reference, .reference, _ => exact ⟨rfl, (List.cons.inj h).2⟩
  | .newReference true words, .newReference true words', _ =>
    obtain ⟨rfl, hr⟩ := header_unique hfits hfits' h
    exact ⟨rfl, hr⟩
  | .newReference false words, .newReference false words', _ =>
    obtain ⟨rfl, hr⟩ := header_unique hfits hfits' h
    exact ⟨rfl, hr⟩

/-- The kinds of leaves, by their tags. -/
def Tag.leafKind : Tag → Nat
  | .newFloatExt => 0
  | .floatExt => 1
  | .bitBinaryExt => 2
  | .binaryExt => 3
  | .stringExt => 4
  | .atomExt | .atomCacheRef | .smallAtomExt | .atomUtf8Ext | .smallAtomUtf8Ext => 5
  | .newPidExt | .pidExt | .newPortExt | .portExt | .referenceExt | .newReferenceExt
  | .newerReferenceExt => 6
  | .smallIntegerExt => 7
  | .integerExt => 8
  | .nilExt => 9
  | .smallBigExt | .largeBigExt => 10
  | .newFunExt => 11
  | _ => 12

theorem AtomHead.leafKind_tag (head : AtomHead) : head.tag.leafKind = 5 := by
  match head with
  | .cacheRef => rfl
  | .name false false _ => rfl
  | .name false true _ => rfl
  | .name true false _ => rfl
  | .name true true _ => rfl

theorem Node.leafKind_tag (kind : Node) : kind.tag.leafKind = 6 := by
  match kind with
  | .pid true => rfl
  | .pid false => rfl
  | .port true => rfl
  | .port false => rfl
  | .reference => rfl
  | .newReference true _ => rfl
  | .newReference false _ => rfl

theorem Leaf.leafKind_tag (leaf : Leaf) : leaf.tag.leafKind = leaf.ctorIdx := by
  cases leaf with
  | atom head => exact head.leafKind_tag
  | node kind head => exact kind.leafKind_tag
  | bignum large n => cases large <;> rfl
  | _ => rfl

theorem Leaf.unique {leaf leaf' : Leaf} (hfits : leaf.Fits) (hfits' : leaf'.Fits)
    (h : leaf.bytes ++ r = leaf'.bytes ++ r') : leaf = leaf' ∧ r = r' := by
  obtain ⟨l, hl⟩ := leaf.bytes_eq
  obtain ⟨l', hl'⟩ := leaf'.bytes_eq
  have htag := tag_unique hl hl' h
  have hkind : leaf.ctorIdx = leaf'.ctorIdx := by
    rw [← Leaf.leafKind_tag, ← Leaf.leafKind_tag, htag]
  -- only the leaves of one kind are left
  cases leaf <;> cases leaf' <;> try cases hkind
  case newFloat.newFloat | float.float | smallInteger.smallInteger | integer.integer | nil.nil =>
      exact ⟨rfl, (List.cons.inj h).2⟩
  case bitBinary.bitBinary n bits n' bits' =>
      rw [Leaf.bytes, Leaf.bytes, append_assoc, append_assoc] at h
      obtain ⟨rfl, hr⟩ := header_unique hfits hfits' h
      obtain ⟨rfl, hrest⟩ := List.cons.inj hr
      exact ⟨rfl, hrest⟩
  case binary.binary n n' =>
      obtain ⟨rfl, hr⟩ := header_unique hfits hfits' h
      exact ⟨rfl, hr⟩
  case string.string n n' =>
      obtain ⟨rfl, hr⟩ := header_unique hfits hfits' h
      exact ⟨rfl, hr⟩
  case atom.atom head head' =>
      obtain ⟨rfl, hr⟩ := AtomHead.unique hfits hfits' h
      exact ⟨rfl, hr⟩
  case node.node kind head kind' head' =>
      rw [Leaf.bytes, Leaf.bytes, append_assoc, append_assoc] at h
      obtain ⟨rfl, hr⟩ := Node.unique hfits.1 hfits'.1 h
      obtain ⟨rfl, hrest⟩ := AtomHead.unique hfits.2 hfits'.2 hr
      exact ⟨rfl, hrest⟩
  case bignum.bignum large n large' n' =>
      cases large <;> cases large' <;> try cases htag
      all_goals
        obtain ⟨rfl, hr⟩ := header_unique hfits hfits' h
        exact ⟨rfl, hr⟩
  case newFun.newFun n n' =>
      obtain ⟨rfl, hr⟩ := header_unique hfits.2 hfits'.2 h
      exact ⟨rfl, hr⟩

/-! ## forms -/

theorem IntForm.unique {form form' : IntForm} (hfits : form.Fits) (hfits' : form'.Fits)
    (h : form.bytes ++ r = form'.bytes ++ r') : form = form' ∧ r = r' := by
  match form, form', h with
  | .small b, .small b', h =>
    obtain ⟨-, hrest⟩ := List.cons.inj h
    obtain ⟨rfl, hr⟩ := List.cons.inj hrest
    exact ⟨rfl, hr⟩
  | .integer b, .integer b', h =>
    have hlen : b.length = b'.length := hfits.trans hfits'.symm
    obtain ⟨rfl, hr⟩ := append_inj (List.cons.inj h).2 hlen
    exact ⟨rfl, hr⟩
  | .small b, .integer b', h => cases (List.cons.inj h).1
  | .integer b, .small b', h => cases (List.cons.inj h).1

theorem FunHead.unique {head head' : FunHead} (hfits : head.Fits) (hfits' : head'.Fits)
    (h : head.bytes ++ r = head'.bytes ++ r') : head = head' ∧ r = r' := by
  obtain ⟨new, node, body, module, name, index, uniq⟩ := head
  obtain ⟨new', node', body', module', name', index', uniq'⟩ := head'
  simp only [FunHead.bytes, FunHead.pidBytes, cons_append, append_assoc] at h
  obtain ⟨htag, h₁⟩ := List.cons.inj h
  have hnew : new = new' := by
    cases new <;> cases new' <;> first | rfl | cases htag
  obtain rfl := hnew
  obtain ⟨rfl, h₂⟩ := AtomHead.unique hfits.node hfits'.node h₁
  obtain ⟨rfl, h₃⟩ := append_inj h₂ (hfits.body.trans hfits'.body.symm)
  obtain ⟨rfl, h₄⟩ := AtomHead.unique hfits.module hfits'.module h₃
  obtain ⟨rfl, h₅⟩ := append_inj h₄ (hfits.name.trans hfits'.name.symm)
  obtain ⟨rfl, h₆⟩ := IntForm.unique hfits.index hfits'.index h₅
  obtain ⟨rfl, hr⟩ := IntForm.unique hfits.uniq hfits'.uniq h₆
  exact ⟨rfl, hr⟩

theorem ExportForm.unique {form form' : ExportForm} (hfits : form.Fits) (hfits' : form'.Fits)
    (h : form.bytes ++ r = form'.bytes ++ r') : form = form' ∧ r = r' := by
  obtain ⟨module, name, function, functionName, arity⟩ := form
  obtain ⟨module', name', function', functionName', arity'⟩ := form'
  simp only [ExportForm.bytes, append_assoc] at h
  obtain ⟨rfl, h₁⟩ := AtomHead.unique hfits.module hfits'.module h
  obtain ⟨rfl, h₂⟩ := append_inj h₁ (hfits.name.trans hfits'.name.symm)
  obtain ⟨rfl, h₃⟩ := AtomHead.unique hfits.function hfits'.function h₂
  obtain ⟨rfl, h₄⟩ := append_inj h₃ (hfits.functionName.trans hfits'.functionName.symm)
  obtain ⟨-, h₅⟩ := List.cons.inj h₄
  obtain ⟨rfl, hr⟩ := List.cons.inj h₅
  exact ⟨rfl, hr⟩

namespace Form

/-- The tag of a form. -/
def tag : Form → Tag
  | .leaf head _ => head.tag
  | .sequence s _ => s.tag
  | .map _ => .mapExt
  | .exportFun _ => .exportExt
  | .function _ _ => .funExt

theorem bytes_eq (f : Form) : ∃ l, f.bytes = f.tag.code :: l := by
  match f with
  | .leaf head body =>
    obtain ⟨l, hl⟩ := head.bytes_eq
    exact ⟨l ++ body, by rw [bytes, hl]; rfl⟩
  | .sequence .smallTuple l => exact ⟨_, rfl⟩
  | .sequence .largeTuple l => exact ⟨_, rfl⟩
  | .sequence .list l => exact ⟨_, rfl⟩
  | .map l => exact ⟨_, rfl⟩
  | .exportFun form => exact ⟨_, rfl⟩
  | .function head l => exact ⟨_, rfl⟩

theorem leafKind_ne (leaf : Leaf) : leaf.tag.leafKind ≠ 12 := by
  rw [Leaf.leafKind_tag]
  cases leaf <;> nofun

/-- What is to be shown of a form. -/
def Unique (f : Form) : Prop :=
  ∀ (g : Form) (r r' : Binary), f.Fits → g.Fits → f.bytes ++ r = g.bytes ++ r' → f = g ∧ r = r'

/-- As many forms. -/
theorem unique_list {l l' : List Form} (h : ∀ f ∈ l, Unique f) (hlen : l.length = l'.length)
    (hfits : FitsList l) (hfits' : FitsList l')
    (heq : bytesList l ++ r = bytesList l' ++ r') : l = l' ∧ r = r' := by
  induction l generalizing l' with
  | nil =>
    rw [length_nil] at hlen
    obtain rfl := length_eq_zero_iff.mp hlen.symm
    exact ⟨rfl, heq⟩
  | cons f l ih =>
    cases l' with
    | nil => cases hlen
    | cons g l' =>
      rw [bytesList, bytesList, append_assoc, append_assoc] at heq
      obtain ⟨rfl, hrest⟩ := h f mem_cons_self g _ _ hfits.1 hfits'.1 heq
      obtain ⟨rfl, hr⟩ := ih (fun x hx => h x (mem_cons_of_mem f hx))
        (Nat.succ.inj hlen) hfits.2 hfits'.2 hrest
      exact ⟨rfl, hr⟩

/-- As many keys and values. -/
theorem unique_entries {l l' : List (Form × Form)} (h : ∀ x ∈ l, Unique x.1 ∧ Unique x.2)
    (hlen : l.length = l'.length) (hfits : FitsEntries l) (hfits' : FitsEntries l')
    (heq : bytesEntries l ++ r = bytesEntries l' ++ r') : l = l' ∧ r = r' := by
  induction l generalizing l' with
  | nil =>
    rw [length_nil] at hlen
    obtain rfl := length_eq_zero_iff.mp hlen.symm
    exact ⟨rfl, heq⟩
  | cons x l ih =>
    cases l' with
    | nil => cases hlen
    | cons y l' =>
      obtain ⟨k, v⟩ := x
      obtain ⟨k', v'⟩ := y
      simp only [bytesEntries, append_assoc] at heq
      obtain ⟨hk, hv⟩ := h (k, v) mem_cons_self
      obtain ⟨rfl, hrest⟩ := hk k' _ _ hfits.1 hfits'.1 heq
      obtain ⟨rfl, hrest'⟩ := hv v' _ _ hfits.2.1 hfits'.2.1 hrest
      obtain ⟨rfl, hr⟩ := ih (fun x hx => h x (mem_cons_of_mem _ hx))
        (Nat.succ.inj hlen) hfits.2.2 hfits'.2.2 hrest'
      exact ⟨rfl, hr⟩

/-- **A form is determined by its bytes.** -/
theorem unique (f : Form) : Unique f := by
  induction f using Form.induct with
  | leaf head body =>
    intro g r r' hfits hfits' h
    obtain ⟨l, hl⟩ := (Form.leaf head body).bytes_eq
    obtain ⟨l', hl'⟩ := g.bytes_eq
    have htag : head.tag = g.tag := tag_unique hl hl' h
    cases g with
    | leaf head' body' =>
      rw [bytes, bytes, append_assoc, append_assoc] at h
      obtain ⟨rfl, hrest⟩ := Leaf.unique hfits.1 hfits'.1 h
      obtain ⟨rfl, hr⟩ := append_inj hrest (hfits.2.trans hfits'.2.symm)
      exact ⟨rfl, hr⟩
    | sequence s l => cases s <;> exact absurd (congrArg Tag.leafKind htag) (leafKind_ne head)
    | _ => exact absurd (congrArg Tag.leafKind htag) (leafKind_ne head)
  | sequence s l ih =>
    intro g r r' hfits hfits' h
    obtain ⟨b, hb⟩ := (Form.sequence s l).bytes_eq
    obtain ⟨b', hb'⟩ := g.bytes_eq
    have htag := tag_unique hb hb' h
    cases g with
    | leaf head body =>
      cases s <;> exact absurd (congrArg Tag.leafKind htag).symm (leafKind_ne head)
    | sequence s' l' =>
      have hs : s = s' := by
        cases s <;> cases s' <;> first | rfl | cases htag
      obtain rfl := hs
      rw [bytes, bytes, append_assoc, append_assoc] at h
      have hhead : l.length = l'.length ∧ bytesList l ++ r = bytesList l' ++ r' := by
        cases s with
        | list =>
          obtain ⟨hpos, hle⟩ := hfits.1
          obtain ⟨hpos', hle'⟩ := hfits'.1
          obtain ⟨hlen, hrest⟩ := header_unique (by omega) (by omega) h
          exact ⟨by omega, hrest⟩
        | _ => exact header_unique hfits.1 hfits'.1 h
      obtain ⟨rfl, hr⟩ := unique_list ih hhead.1 hfits.2 hfits'.2 hhead.2
      exact ⟨rfl, hr⟩
    | _ => cases s <;> cases htag
  | map l ih =>
    intro g r r' hfits hfits' h
    obtain ⟨b, hb⟩ := (Form.map l).bytes_eq
    obtain ⟨b', hb'⟩ := g.bytes_eq
    have htag := tag_unique hb hb' h
    cases g with
    | leaf head body => exact absurd (congrArg Tag.leafKind htag).symm (leafKind_ne head)
    | map l' =>
      rw [bytes, bytes, append_assoc, append_assoc] at h
      obtain ⟨hlen, hrest⟩ := header_unique hfits.1 hfits'.1 h
      obtain ⟨rfl, hr⟩ := unique_entries ih hlen hfits.2 hfits'.2 hrest
      exact ⟨rfl, hr⟩
    | sequence s l' => cases s <;> cases htag
    | _ => cases htag
  | exportFun form =>
    intro g r r' hfits hfits' h
    obtain ⟨b, hb⟩ := (Form.exportFun form).bytes_eq
    obtain ⟨b', hb'⟩ := g.bytes_eq
    have htag := tag_unique hb hb' h
    cases g with
    | leaf head body => exact absurd (congrArg Tag.leafKind htag).symm (leafKind_ne head)
    | exportFun form' =>
      obtain ⟨rfl, hr⟩ := ExportForm.unique hfits hfits' (List.cons.inj h).2
      exact ⟨rfl, hr⟩
    | sequence s l' => cases s <;> cases htag
    | _ => cases htag
  | function head l ih =>
    intro g r r' hfits hfits' h
    obtain ⟨b, hb⟩ := (Form.function head l).bytes_eq
    obtain ⟨b', hb'⟩ := g.bytes_eq
    have htag := tag_unique hb hb' h
    cases g with
    | leaf head' body => exact absurd (congrArg Tag.leafKind htag).symm (leafKind_ne head')
    | function head' l' =>
      have hparts : header .funExt 4 l.length ++ (head.bytes ++ (bytesList l ++ r)) =
          header .funExt 4 l'.length ++ (head'.bytes ++ (bytesList l' ++ r')) := by
        simpa only [bytes, append_assoc] using h
      obtain ⟨hlen, hrest⟩ := header_unique hfits.1 hfits'.1 hparts
      obtain ⟨rfl, hfree⟩ := FunHead.unique hfits.2.1 hfits'.2.1 hrest
      obtain ⟨rfl, hr⟩ := unique_list ih hlen hfits.2.2 hfits'.2.2 hfree
      exact ⟨rfl, hr⟩
    | sequence s l' => cases s <;> cases htag
    | _ => cases htag

theorem eq_of_bytes {f g : Form} (hfits : f.Fits) (hfits' : g.Fits) (h : f.bytes = g.bytes) :
    f = g :=
  (unique f g [] [] hfits hfits' (congrArg (· ++ []) h)).1

end Form

end CloudI.ApiPython.Erlang
