import PhaseHost.Proofs.Json.Documents

/-! # The form of a value

    A text may have the form of a value and spell none: a number may be beyond every range,
    four hexadecimal digits may stand for no character, and arrays and objects may nest too
    deep to be read.

    `Formed` is the grammar of such texts.  It is laid out like the grammar of values, over
    the same lists, and every text that spells a value is of this form. -/

namespace PhaseHost.Json

/-! ## The grammar -/

/-- The text between the quotes of a string, whatever its escapes stand for. -/
inductive LooseBody : Bytes → Prop
  | nil : LooseBody []
  | plain {b : UInt8} {t : Bytes} (ordinary : Ordinary b) (body : LooseBody t) : LooseBody (b :: t)
  | short {letter : UInt8} {t : Bytes} (listed : letter ∈ shortEscapes.map Prod.fst)
    (body : LooseBody t) : LooseBody (0x5C :: letter :: t)
  | unicode {h₁ h₂ h₃ h₄ : UInt8} {n : Nat} {t : Bytes} (quad : hexQuad? h₁ h₂ h₃ h₄ = some n)
    (body : LooseBody t) : LooseBody (0x5C :: 0x75 :: h₁ :: h₂ :: h₃ :: h₄ :: t)

/-- The form of a value without parts. -/
inductive LooseScalar : Bytes → Prop
  | null : LooseScalar [0x6E, 0x75, 0x6C, 0x6C]
  | true : LooseScalar [0x74, 0x72, 0x75, 0x65]
  | false : LooseScalar [0x66, 0x61, 0x6C, 0x73, 0x65]
  | text {t : Bytes} (body : LooseBody t) : LooseScalar (0x22 :: (t ++ [0x22]))
  | number {n : Numeral} (wellFormed : n.WellFormed) : LooseScalar n.text
  | negative {n : Numeral} (wellFormed : n.WellFormed) : LooseScalar (0x2D :: n.text)

/-- A name and a value, of which nothing is kept. -/
abbrev LooseMember (Kind : Bytes → Unit → Prop) : Bytes → Unit × Unit → Prop :=
  Pair (fun t _ => LooseBody t) (fun _ => Kind)

/-- The form of a value whose parts nest less deep than a bound. -/
def Form : Nat → Bytes → Unit → Prop
  | 0, _, _ => False
  | depth + 1, t, _ =>
    LooseScalar t
    ∨ (∃ r items, Listed (Form depth) 0x5D r items ∧ t = 0x5B :: r)
    ∨ ∃ r members, Listed (LooseMember (Form depth)) 0x7D r members ∧ t = 0x7B :: r

/-- The form of a value, at any depth. -/
def Formed (t : Bytes) : Prop :=
  ∃ depth, Form depth t ()

variable {b t s r rest : Bytes} {depth : Nat} {v : Json} {u : Unit}

/-! ## Lists of less -/

section Lists

variable {α β : Type} {Kind : Bytes → α → Prop} {Kind' : Bytes → β → Prop} {close : UInt8}
  {xs : List α}

/-- A list of texts is a list of any other kind that its texts are of. -/
theorem Further.imp (h : Further Kind close r xs)
    (hkind : ∀ {t x}, t.length < r.length → Kind t x → ∃ y, Kind' t y) :
    ∃ ys, Further Kind' close r ys := by
  induction h with
  | done blank => exact ⟨[], .done blank⟩
  | @more b b' t r x xs blank blank' item further ih =>
      obtain ⟨y, hy⟩ := hkind (by simp only [List.length_append, List.length_cons]; omega) item
      obtain ⟨ys, hys⟩ := ih (fun hlt =>
        hkind (by simp only [List.length_append, List.length_cons]; omega))
      exact ⟨_, .more blank blank' hy hys⟩

theorem Further.length_pos (h : Further Kind close r xs) : 0 < r.length := by
  cases h with
  | done blank => simp only [List.length_append, List.length_singleton]; omega
  | more blank blank' item further => simp only [List.length_append, List.length_cons]; omega

theorem Listed.imp (h : Listed Kind close r xs)
    (hkind : ∀ {t x}, t.length < r.length → Kind t x → ∃ y, Kind' t y) :
    ∃ ys, Listed Kind' close r ys := by
  cases h with
  | empty blank => exact ⟨[], .empty blank⟩
  | @items b t r x xs blank item further =>
      have hpos := further.length_pos
      obtain ⟨y, hy⟩ := hkind (by simp only [List.length_append]; omega) item
      obtain ⟨ys, hys⟩ := further.imp (fun hlt =>
        hkind (by simp only [List.length_append]; omega))
      exact ⟨_, .items blank hy hys⟩

end Lists

/-- The value of a member is shorter than the member. -/
theorem LooseMember.imp {Kind Kind' : Bytes → Unit → Prop} {p : Unit × Unit}
    (h : LooseMember Kind t p) (hkind : ∀ {r}, r.length < t.length → Kind r () → Kind' r ()) :
    LooseMember Kind' t p := by
  cases h with
  | mk name blank blank' value =>
      refine .mk name blank blank' (hkind ?_ value)
      simp only [List.length_append, List.length_cons]
      omega

/-- The depth of a form is less than its length. -/
theorem Form.of_length (h : Form depth t u) {bound : Nat} (hbound : t.length < bound) :
    Form bound t u := by
  induction depth generalizing t bound with
  | zero => exact h.elim
  | succ depth ih =>
      obtain ⟨bound, rfl⟩ := Nat.exists_eq_succ_of_ne_zero (Nat.ne_of_gt (Nat.zero_lt_of_lt hbound))
      rcases h with h | ⟨r, items, hr, rfl⟩ | ⟨r, members, hr, rfl⟩
      · exact Or.inl h
      · rw [List.length_cons] at hbound
        obtain ⟨items', hr'⟩ : ∃ items', Listed (Form bound) 0x5D r items' :=
          hr.imp (fun hlt h => ⟨(), ih h (by omega)⟩)
        exact Or.inr (Or.inl ⟨r, items', hr', rfl⟩)
      · rw [List.length_cons] at hbound
        obtain ⟨members', hr'⟩ : ∃ members', Listed (LooseMember (Form bound)) 0x7D r members' :=
          hr.imp (fun hlt h => ⟨_, LooseMember.imp h (fun hless h' => ih h' (by omega))⟩)
        exact Or.inr (Or.inr ⟨r, members', hr', rfl⟩)

/-- What lists forms in brackets has the form of an array. -/
theorem formed_of_items {α : Type} {Kind : Bytes → α → Prop} {xs : List α}
    (h : Listed Kind 0x5D r xs) (hkind : ∀ {t x}, Kind t x → Formed t) : Formed (0x5B :: r) := by
  obtain ⟨items, hitems⟩ : ∃ items, Listed (Form r.length) 0x5D r items := by
    refine h.imp (fun hlt hx => ?_)
    obtain ⟨depth, hform⟩ := hkind hx
    exact ⟨(), hform.of_length hlt⟩
  exact ⟨r.length + 1, Or.inr (Or.inl ⟨r, items, hitems, rfl⟩)⟩

/-- What lists members with forms in braces has the form of an object. -/
theorem formed_of_members {α : Type} {Kind : Bytes → α → Prop} {xs : List α}
    (h : Listed Kind 0x7D r xs)
    (hkind : ∀ {t x}, Kind t x → LooseMember (fun t _ => Formed t) t ((), ())) :
    Formed (0x7B :: r) := by
  obtain ⟨members, hmembers⟩ : ∃ members, Listed (LooseMember (Form r.length)) 0x7D r members := by
    refine h.imp (fun hlt hx => ⟨_, LooseMember.imp (hkind hx) (fun hless hformed => ?_)⟩)
    obtain ⟨depth, hform⟩ := hformed
    exact hform.of_length (Nat.lt_trans hless hlt)
  exact ⟨r.length + 1, Or.inr (Or.inr ⟨r, members, hmembers, rfl⟩)⟩

/-! ## Values have the form of values -/

theorem Body.loose {cs : List Char} (h : Body t cs) : LooseBody t := by
  have happend : ∀ {bytes t : Bytes}, (∀ x ∈ bytes, Ordinary x) → LooseBody t →
      LooseBody (bytes ++ t) := by
    intro bytes t hbytes ht
    induction bytes with
    | nil => exact ht
    | cons x bytes ih =>
        obtain ⟨hx, hrest⟩ := List.forall_mem_cons.mp hbytes
        exact .plain hx (ih hrest)
  induction h with
  | nil => exact .nil
  | cons piece body ih =>
      cases piece with
      | plain printable quote backslash =>
          exact happend (ordinary_of_plain printable quote backslash) ih
      | escape he =>
          cases he with
          | short listed => exact .short (List.mem_map_of_mem listed) ih
          | unicode quad whole => exact .unicode quad ih
          | pair quad isHigh quad' isLow => exact .unicode quad (.unicode quad' ih)

theorem Scalar.loose (h : Scalar t v) : LooseScalar t := by
  cases h with
  | null => exact .null
  | true => exact .true
  | false => exact .false
  | text body => exact .text body.loose
  | number wellFormed value => exact .number wellFormed
  | negative wellFormed value => exact .negative wellFormed

/-- A member has the form of a member. -/
theorem Member.loose {α : Type} {Kind : Bytes → α → Prop} {Kind' : Bytes → Unit → Prop}
    {p : String × α} (h : Member Kind t p) (hkind : ∀ {r x}, Kind r x → Kind' r ()) :
    LooseMember Kind' t ((), ()) := by
  cases h with
  | mk name blank blank' value => exact .mk name.loose blank blank' (hkind value)

theorem Spells.form (h : Spells depth t v) : Form (depth + 1) t () := by
  induction depth generalizing t v with
  | zero => exact Or.inl (Scalar.loose h)
  | succ depth ih =>
      rcases h with h | ⟨r, items, hr, rfl, -⟩ | ⟨r, members, fields, hr, -, rfl, -⟩
      · exact Or.inl h.loose
      · obtain ⟨items', hr'⟩ := hr.imp (fun _ h => ⟨(), ih h⟩)
        exact Or.inr (Or.inl ⟨r, items', hr', rfl⟩)
      · obtain ⟨members', hr'⟩ := hr.imp (fun _ h => ⟨_, h.loose ih⟩)
        exact Or.inr (Or.inr ⟨r, members', hr', rfl⟩)

/-- What spells a value has the form of one. -/
theorem Spells.formed (h : Spells depth t v) : Formed t :=
  ⟨depth + 1, h.form⟩

end PhaseHost.Json
