import PhaseHost.Proofs.Json.Numerals
import PhaseHost.Proofs.Json.Strings

/-! # The grammar of documents

    The grammar is laid out over bytes.  Arrays and objects nest, so what spells a value is
    said for each bound on the depth in terms of the bound below; lists of items and lists
    of members are one construction over what spells one of them.

    The members of an object are gathered into its fields: a key that comes several times
    has the last of its values, and the keys are in order.  There is one such list of
    fields. -/

namespace PhaseHost

namespace Fields

variable {β : Type} {key : String}

/-- Fields that have the last value of every key, and the keys in order. -/
def Gathers (pairs : List (String × β)) (fields : Fields β) : Prop :=
  Ascending fields ∧ ∀ key, find? key fields = find? key pairs.reverse

/-- What stands in front is found first. -/
theorem find?_append (xs ys : List (String × β)) :
    find? key (xs ++ ys) = (find? key xs).or (find? key ys) := by
  induction xs with
  | nil => rfl
  | cons p rest ih =>
      obtain ⟨k, v⟩ := p
      rw [List.cons_append, find?_cons, find?_cons, ih]
      split
      · rfl
      · rfl

/-- Of the pairs that were inserted the last one with the key counts. -/
theorem find?_foldl_insert_last (pairs : List (String × β)) (fields : Fields β) :
    find? key (pairs.foldl (fun fields p => insert p.1 p.2 fields) fields)
      = (find? key pairs.reverse).or (find? key fields) := by
  induction pairs generalizing fields with
  | nil => rfl
  | cons p rest ih =>
      obtain ⟨k, v⟩ := p
      rw [List.foldl_cons, ih, List.reverse_cons, find?_append, Option.or_assoc, find?_cons]
      by_cases hkey : k = key
      · subst hkey
        rw [if_pos rfl, find?_insert_self]
        rfl
      · rw [if_neg hkey, find?_insert_of_ne (Ne.symm hkey)]
        rfl

/-- The fields of a list of pairs gather them. -/
theorem gathers_ofList (pairs : List (String × β)) : Gathers pairs (ofList pairs) := by
  refine ⟨ascending_ofList pairs, fun key => ?_⟩
  rw [ofList, find?_foldl_insert_last, find?_nil, Option.or_none]

/-- No key before the first is found. -/
theorem Ascending.find?_of_lt {fields : Fields β} (h : Ascending fields)
    (hkey : ∀ p ∈ fields, key < p.1) : find? key fields = none := by
  induction fields with
  | nil => rfl
  | cons p rest ih =>
      obtain ⟨k, v⟩ := p
      have hne : k ≠ key := by
        rintro rfl
        exact String.lt_irrefl k (hkey (k, v) List.mem_cons_self)
      rw [find?_cons, if_neg hne]
      exact ih (List.pairwise_cons.mp h).2 (fun q hq => hkey q (List.mem_cons_of_mem _ hq))

/-- The first key is missing among fields that begin with a greater one. -/
theorem Ascending.not_lt_of_find? {fields fields' : Fields β} {k k' : String} {v v' : β}
    (h : Ascending ((k', v') :: fields'))
    (hfind : find? k ((k, v) :: fields) = find? k ((k', v') :: fields')) : ¬ k < k' := by
  intro hlt
  have hnone : find? k ((k', v') :: fields') = none := by
    refine h.find?_of_lt (List.forall_mem_cons.mpr ⟨hlt, ?_⟩)
    intro p hp
    exact String.lt_trans hlt ((List.pairwise_cons.mp h).1 p hp)
  rw [hnone, find?_cons, if_pos rfl] at hfind
  cases hfind

/-- Ascending fields are known by what is found in them. -/
theorem Ascending.ext {fields fields' : Fields β} (h : Ascending fields) (h' : Ascending fields')
    (hfind : ∀ key, find? key fields = find? key fields') : fields = fields' := by
  induction fields generalizing fields' with
  | nil =>
      cases fields' with
      | nil => rfl
      | cons p rest =>
          have hfirst := hfind p.1
          rw [find?_nil, find?_cons, if_pos rfl] at hfirst
          cases hfirst
  | cons p rest ih =>
      obtain ⟨k, v⟩ := p
      obtain ⟨hk, hrest⟩ := List.pairwise_cons.mp h
      cases fields' with
      | nil =>
          have hfirst := hfind k
          rw [find?_nil, find?_cons, if_pos rfl] at hfirst
          cases hfirst
      | cons p' rest' =>
          obtain ⟨k', v'⟩ := p'
          obtain ⟨hk', hrest'⟩ := List.pairwise_cons.mp h'
          obtain rfl : k = k' := by
            refine String.le_antisymm (String.not_lt.mp ?_) (String.not_lt.mp ?_)
            · exact Ascending.not_lt_of_find? h (hfind k').symm
            · exact Ascending.not_lt_of_find? h' (hfind k)
          have hv := hfind k
          rw [find?_cons, find?_cons, if_pos rfl, if_pos rfl] at hv
          obtain rfl := Option.some.inj hv
          refine congrArg _ (ih hrest hrest' (fun key => ?_))
          have hother := hfind key
          rw [find?_cons, find?_cons] at hother
          by_cases hne : k = key
          · subst hne
            rw [Ascending.find?_of_lt hrest hk, Ascending.find?_of_lt hrest' hk']
          · rwa [if_neg hne, if_neg hne] at hother

/-- There is only one way to gather pairs. -/
theorem gathers_iff {pairs : List (String × β)} {fields : Fields β} :
    Gathers pairs fields ↔ fields = ofList pairs := by
  constructor
  · intro h
    have hof := gathers_ofList pairs
    exact h.1.ext hof.1 (fun key => (h.2 key).trans (hof.2 key).symm)
  · rintro rfl
    exact gathers_ofList pairs

end Fields

namespace Json

/-! ## The grammar -/

/-- Blanks in a row. -/
def Blank (b : Bytes) : Prop :=
  ∀ x ∈ b, isSpace x = true

/-- Texts of a kind in a list behind a first one: commas between them, and the end. -/
inductive Further {α : Type} (Kind : Bytes → α → Prop) (close : UInt8) : Bytes → List α → Prop
  | done {b : Bytes} (blank : Blank b) : Further Kind close (b ++ [close]) []
  | more {b b' t r : Bytes} {x : α} {xs : List α} (blank : Blank b) (blank' : Blank b')
    (item : Kind t x) (further : Further Kind close r xs) :
    Further Kind close (b ++ 0x2C :: (b' ++ (t ++ r))) (x :: xs)

/-- Texts of a kind in a list, from behind its opening to its end. -/
inductive Listed {α : Type} (Kind : Bytes → α → Prop) (close : UInt8) : Bytes → List α → Prop
  | empty {b : Bytes} (blank : Blank b) : Listed Kind close (b ++ [close]) []
  | items {b t r : Bytes} {x : α} {xs : List α} (blank : Blank b) (item : Kind t x)
    (further : Further Kind close r xs) : Listed Kind close (b ++ (t ++ r)) (x :: xs)

/-- A member of an object: a string, a colon and a value. -/
inductive Member {α : Type} (Kind : Bytes → α → Prop) : Bytes → String × α → Prop
  | mk {t b b' r : Bytes} {key : String} {x : α} (name : Body t key.toList) (blank : Blank b)
    (blank' : Blank b') (value : Kind r x) :
    Member Kind (0x22 :: (t ++ 0x22 :: (b ++ 0x3A :: (b' ++ r)))) (key, x)

/-- What spells a value without parts. -/
inductive Scalar : Bytes → Json → Prop
  | null : Scalar [0x6E, 0x75, 0x6C, 0x6C] .null
  | true : Scalar [0x74, 0x72, 0x75, 0x65] (.bool true)
  | false : Scalar [0x66, 0x61, 0x6C, 0x73, 0x65] (.bool false)
  | text {t : Bytes} {s : String} (body : Body t s.toList) : Scalar (0x22 :: (t ++ [0x22])) (.str s)
  | number {n : Numeral} {v : Json} (wellFormed : n.WellFormed)
      (value : n.value? Bool.false = some v) :
    Scalar n.text v
  | negative {n : Numeral} {v : Json} (wellFormed : n.WellFormed)
    (value : n.value? Bool.true = some v) : Scalar (0x2D :: n.text) v

/-- What spells a value in which arrays and objects nest no deeper than a bound.  The fields
    of an object are gathered from its members: of a repeated key the last value counts. -/
def Spells : Nat → Bytes → Json → Prop
  | 0, t, v => Scalar t v
  | depth + 1, t, v =>
    Scalar t v
    ∨ (∃ r items, Listed (Spells depth) 0x5D r items ∧ t = 0x5B :: r ∧ v = .arr items)
    ∨ ∃ r members fields, Listed (Member (Spells depth)) 0x7D r members
        ∧ Fields.Gathers members fields ∧ t = 0x7B :: r ∧ v = .obj fields

/-- A document: a value with blanks around it. -/
def Document (raw : Bytes) (v : Json) : Prop :=
  ∃ b t b', Blank b ∧ Spells maxDepth t v ∧ Blank b' ∧ raw = b ++ (t ++ b')

/-! ## Blanks -/

variable {b t s r rest : Bytes} {v : Json} {depth : Nat}

/-- What begins with no blank. -/
def NoBlank (s : Bytes) : Prop :=
  ∀ x ∈ s.head?, isSpace x = false

theorem Blank.nil : Blank [] := nofun

theorem noBlank_cons_iff {x : UInt8} : NoBlank (x :: s) ↔ isSpace x = false := by
  constructor
  · intro h
    exact h x rfl
  · intro h y hy
    obtain rfl : x = y := Option.some.inj hy
    exact h

/-- Blanks in front are passed over. -/
theorem skipSpace_append (hb : Blank b) (s : Bytes) : skipSpace (b ++ s) = skipSpace s := by
  induction b with
  | nil => rfl
  | cons x b ih =>
      obtain ⟨hx, hrest⟩ := List.forall_mem_cons.mp hb
      rw [List.cons_append, skipSpace, List.dropWhile_cons, if_pos hx]
      exact ih hrest

/-- Where there is no blank nothing is passed over. -/
theorem skipSpace_of_noBlank (h : NoBlank s) : skipSpace s = s := by
  cases s with
  | nil => rfl
  | cons x s =>
      rw [skipSpace, List.dropWhile_cons, noBlank_cons_iff.mp h]
      rfl

/-- Every input is blanks and then something else. -/
theorem exists_blank (s : Bytes) : ∃ b, Blank b ∧ s = b ++ skipSpace s ∧ NoBlank (skipSpace s) := by
  refine ⟨s.takeWhile isSpace, ?_, List.takeWhile_append_dropWhile.symm, ?_⟩
  · intro x hx
    exact List.all_eq_true.mp List.all_takeWhile x hx
  · intro x hx
    have hfirst := List.head?_dropWhile_not isSpace s
    rw [skipSpace] at hx
    rw [show (s.dropWhile isSpace).head? = some x from hx] at hfirst
    exact hfirst

/-! ## Documents are text -/

open Utf8 (Encoded encoded_of_small)

theorem Blank.encoded (h : Blank b) : Encoded b := by
  refine encoded_of_small (fun x hx => ?_)
  have hspace := h x hx
  simp only [isSpace, Bool.or_eq_true, decide_eq_true_eq] at hspace
  rcases hspace with ((rfl | rfl) | rfl) | rfl
  all_goals decide

theorem Digits.encoded (h : Digits t) : Encoded t :=
  encoded_of_small (fun x hx => Nat.lt_of_le_of_lt (h x hx).2 (by decide))

/-- Exponents are UTF-8. -/
theorem Exponent.WellFormed.encoded {e : Exponent} (h : e.WellFormed) : Encoded e.text := by
  have hmark : e.mark.toNat < 0x80 := by
    rcases h.mark with hmark | hmark
    · rw [hmark]
      decide
    · rw [hmark]
      decide
  have hsign : Encoded e.sign := by
    rcases h.sign with hsign | hsign | hsign
    · rw [hsign]
      exact ⟨[], rfl⟩
    · rw [hsign]
      exact ⟨['+'], rfl⟩
    · rw [hsign]
      exact ⟨['-'], rfl⟩
  exact (hsign.append h.digits.encoded).cons hmark

/-- Numerals are UTF-8. -/
theorem Numeral.WellFormed.encoded {n : Numeral} (h : n.WellFormed) : Encoded n.text := by
  refine h.digits.encoded.append (Encoded.append ?_ ?_)
  · have hfraction := h.fraction
    cases hf : n.fraction with
    | none => exact ⟨[], rfl⟩
    | some t => exact (hfraction t hf).2.encoded.cons (by decide)
  · have hexponent := h.exponent
    cases he : n.exponent with
    | none => exact ⟨[], rfl⟩
    | some e => exact (hexponent e he).encoded

/-- Four digits of base sixteen are UTF-8. -/
theorem encoded_of_hexQuad? {h₁ h₂ h₃ h₄ : UInt8} {n : Nat} (h : hexQuad? h₁ h₂ h₃ h₄ = some n) :
    Encoded [h₁, h₂, h₃, h₄] := by
  unfold hexQuad? at h
  split at h
  · next hh₁ hh₂ hh₃ hh₄ =>
      refine encoded_of_small ?_
      simp only [List.forall_mem_cons, List.not_mem_nil, false_implies, implies_true, and_true]
      exact ⟨(Hex.range_of_value? hh₁).2, (Hex.range_of_value? hh₂).2,
        (Hex.range_of_value? hh₃).2, (Hex.range_of_value? hh₄).2⟩
  · cases h

/-- Escapes are UTF-8. -/
theorem Escape.encoded {e : Bytes} {c : Char} (h : Escape e c) : Encoded e := by
  cases h with
  | @short letter c listed =>
      have hall : ∀ p ∈ shortEscapes, p.1.toNat < 0x80 := by decide
      exact encoded_of_small (List.forall_mem_singleton.mpr (hall _ listed))
  | unicode quad whole => exact (encoded_of_hexQuad? quad).cons (by decide)
  | pair quad isHigh quad' isLow =>
      have hlow := ((encoded_of_hexQuad? quad').cons (b := 0x75) (by decide)).cons (b := 0x5C)
        (by decide)
      exact ((encoded_of_hexQuad? quad).append hlow).cons (by decide)

/-- Between its quotes a string is UTF-8. -/
theorem Body.encoded {cs : List Char} (h : Body t cs) : Encoded t := by
  induction h with
  | nil => exact ⟨[], rfl⟩
  | @cons p t c cs piece body ih =>
      refine Encoded.append ?_ ih
      cases piece with
      | plain printable quote backslash => exact ⟨[c], (List.append_nil _).symm⟩
      | escape h => exact h.encoded.cons (by decide)

/-- Scalars are UTF-8. -/
theorem Scalar.encoded (h : Scalar t v) : Encoded t := by
  cases h with
  | null => exact ⟨['n', 'u', 'l', 'l'], rfl⟩
  | true => exact ⟨['t', 'r', 'u', 'e'], rfl⟩
  | false => exact ⟨['f', 'a', 'l', 's', 'e'], rfl⟩
  | text body => exact (body.encoded.append ⟨['"'], rfl⟩).cons (by decide)
  | number wellFormed value => exact wellFormed.encoded
  | negative wellFormed value => exact wellFormed.encoded.cons (by decide)

section Lists

variable {α : Type} {Kind : Bytes → α → Prop} {close : UInt8} {xs : List α}

/-- The rest of a list is UTF-8 if its items are. -/
theorem Further.encoded (hkind : ∀ {t x}, Kind t x → Encoded t) (hclose : close.toNat < 0x80)
    (h : Further Kind close r xs) : Encoded r := by
  induction h with
  | done blank =>
      exact blank.encoded.append (encoded_of_small (List.forall_mem_singleton.mpr hclose))
  | more blank blank' item further ih =>
      exact blank.encoded.append
        ((blank'.encoded.append ((hkind item).append ih)).cons (by decide))

/-- A list is UTF-8 if its items are. -/
theorem Listed.encoded (hkind : ∀ {t x}, Kind t x → Encoded t) (hclose : close.toNat < 0x80)
    (h : Listed Kind close r xs) : Encoded r := by
  cases h with
  | empty blank =>
      exact blank.encoded.append (encoded_of_small (List.forall_mem_singleton.mpr hclose))
  | items blank item further =>
      exact blank.encoded.append ((hkind item).append (further.encoded hkind hclose))

/-- A field is UTF-8 if its value is. -/
theorem Member.encoded {p : String × α} (hkind : ∀ {t x}, Kind t x → Encoded t)
    (h : Member Kind t p) : Encoded t := by
  cases h with
  | mk name blank blank' value =>
      have hvalue := (blank'.encoded.append (hkind value)).cons (b := 0x3A) (by decide)
      have hrest := (blank.encoded.append hvalue).cons (b := 0x22) (by decide)
      exact (name.encoded.append hrest).cons (by decide)

end Lists

/-- Whatever spells a value is UTF-8. -/
theorem Spells.encoded (h : Spells depth t v) : Encoded t := by
  induction depth generalizing t v with
  | zero => exact Scalar.encoded h
  | succ depth ih =>
      rcases h with h | ⟨r, items, hr, rfl, -⟩ | ⟨r, members, fields, hr, -, rfl, -⟩
      · exact h.encoded
      · exact (hr.encoded ih (by decide)).cons (by decide)
      · exact (hr.encoded (fun hm => hm.encoded ih) (by decide)).cons (by decide)

/-- A document is the text of some characters: what is no UTF-8 is no document. -/
theorem Document.encoded {raw : Bytes} (h : Document raw v) : ∃ text, raw = Utf8.encode text := by
  obtain ⟨b, t, b', hb, ht, hb', rfl⟩ := h
  obtain ⟨cs, hcs⟩ := hb.encoded.append (ht.encoded.append hb'.encoded)
  exact ⟨String.ofList cs, hcs.trans (Utf8.encode_ofList cs).symm⟩

end Json
end PhaseHost
