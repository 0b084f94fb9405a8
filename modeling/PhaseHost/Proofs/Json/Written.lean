import PhaseHost.Proofs.Decimal.Shortest
import PhaseHost.Proofs.Json.Forms
import PhaseHost.Proofs.Json.Printed

/-! # What is written has the form of a value

    Not every value is read back as it was written: the shortest digits of a binary64 number
    may give another one, and a value may nest too deep to be read.  But whatever the value,

    * what is written for it has the form of a value, numbers included;
    * no control character is written, so it takes one line.

    A binary64 number is written as a numeral, however its point is placed.  That its digits
    begin with no zero is where it matters that every number has digits. -/

namespace PhaseHost.Json

open Utf8 (encodeChars encodeChars_cons encodeChars_append)
open Decimal (Scaled digitChars)

/-! ## Digits -/

/-- A character that is a decimal digit. -/
def DigitChar (c : Char) : Prop :=
  0x30 ≤ c.toNat ∧ c.toNat ≤ 0x39

variable {cs ds : List Char} {c : Char} {t t' : Bytes} {v : Json}

/-- A digit is written as one byte, which is a digit of the format. -/
theorem DigitChar.byte (h : DigitChar c) : ∃ x, String.utf8EncodeChar c = [x] ∧ IsDigit x := by
  obtain ⟨lead, conts, hencode, -, ⟨hsame, -, rfl⟩ | ⟨-, hlarge⟩⟩ := encodeChar_shape c
  · exact ⟨lead, hencode, by rw [IsDigit, hsame]; exact h⟩
  · have := h.2
    omega

/-- The digits of a number are digits. -/
theorem digitChar_of_mem {n : Nat} (h : c ∈ digitChars n) : DigitChar c := by
  have hdigit := Nat.isDigit_of_mem_toDigits (by decide) (by decide) h
  rw [Char.isDigit, Bool.and_eq_true, decide_eq_true_eq, decide_eq_true_eq] at hdigit
  exact ⟨UInt32.le_iff_toNat_le.mp hdigit.1, UInt32.le_iff_toNat_le.mp hdigit.2⟩

/-- Characters that are digits are bytes that are digits. -/
theorem digits_encodeChars (h : ∀ c ∈ cs, DigitChar c) : Digits (encodeChars cs) := by
  induction cs with
  | nil => exact nofun
  | cons c cs ih =>
      obtain ⟨hc, hcs⟩ := List.forall_mem_cons.mp h
      obtain ⟨x, hx, hdigit⟩ := hc.byte
      rw [encodeChars_ascii hx]
      exact (ih hcs).cons hdigit

/-- Something is written for some characters. -/
theorem encodeChars_ne_nil (h : cs ≠ []) : encodeChars cs ≠ [] := by
  obtain ⟨c, cs, rfl⟩ := List.exists_cons_of_ne_nil h
  obtain ⟨lead, conts, hencode, -⟩ := encodeChar_shape c
  rw [encodeChars_cons, hencode]
  exact nofun

/-- Every number has a digit. -/
theorem digitChars_ne_nil (n : Nat) : digitChars n ≠ [] := by
  intro h
  refine (digits_digitBytes n).2.1 ?_
  rw [digitBytes, h]
  rfl

/-- Only zero begins with the digit zero. -/
theorem eq_zero_of_head {n : Nat} (h : (encodeChars (digitChars n)).head? = some 0x30) : n = 0 :=
  (digits_digitBytes n).2.2 h

theorem digitChars_zero : digitChars 0 = ['0'] := rfl

/-! ## Binary64 numbers -/

/-- A text is the text of a numeral. -/
def IsNumeral (t : Bytes) : Prop :=
  ∃ n : Numeral, n.WellFormed ∧ t = n.text

/-- Digits, a point and digits are a numeral. -/
theorem isNumeral_fraction (hcs : ∀ c ∈ cs, DigitChar c) (hne : cs ≠ [])
    (hlead : (encodeChars cs).head? = some 0x30 → encodeChars cs = [0x30])
    (hds : ∀ c ∈ ds, DigitChar c) (hne' : ds ≠ []) :
    IsNumeral (encodeChars (cs ++ '.' :: ds)) := by
  refine ⟨⟨encodeChars cs, some (encodeChars ds), none⟩,
    ⟨digits_encodeChars hcs, encodeChars_ne_nil hne, hlead, ?_, nofun⟩, ?_⟩
  · intro t ht
    obtain rfl := Option.some.inj ht
    exact ⟨encodeChars_ne_nil hne', digits_encodeChars hds⟩
  · rw [encodeChars_append, encodeChars_ascii (x := 0x2E) rfl]
    exact congrArg (fun rest => encodeChars cs ++ 0x2E :: rest) (List.append_nil _).symm

/-- A text that stands before an exponent: one digit, perhaps with a fraction. -/
def IsMantissa (cs : List Char) : Prop :=
  ∃ x fraction, IsDigit x ∧ FractionWellFormed fraction
    ∧ encodeChars cs = x :: fractionText fraction

/-- One digit is a mantissa. -/
theorem isMantissa_one (hc : DigitChar c) : IsMantissa [c] := by
  obtain ⟨x, hx, hdigit⟩ := hc.byte
  exact ⟨x, none, hdigit, nofun, encodeChars_ascii hx⟩

/-- A digit, a point and digits are a mantissa. -/
theorem isMantissa_more (hc : DigitChar c) (hcs : ∀ c ∈ cs, DigitChar c) (hne : cs ≠ []) :
    IsMantissa (c :: '.' :: cs) := by
  obtain ⟨x, hx, hdigit⟩ := hc.byte
  refine ⟨x, some (encodeChars cs), hdigit, ?_, ?_⟩
  · intro t ht
    obtain rfl := Option.some.inj ht
    exact ⟨encodeChars_ne_nil hne, digits_encodeChars hcs⟩
  · rw [encodeChars_ascii hx, encodeChars_ascii (x := 0x2E) rfl]
    rfl

/-- A mantissa and a signed exponent make a numeral. -/
theorem isNumeral_exponent (hcs : IsMantissa cs) (n : Nat) {sign : Char}
    (hsign : sign = '+' ∨ sign = '-') :
    IsNumeral (encodeChars (cs ++ 'e' :: sign :: digitChars n)) := by
  obtain ⟨x, fraction, hx, hfraction, hbytes⟩ := hcs
  obtain ⟨y, hy, hplus⟩ : ∃ y, String.utf8EncodeChar sign = [y] ∧ (y = 0x2B ∨ y = 0x2D) := by
    rcases hsign with rfl | rfl
    · exact ⟨0x2B, rfl, Or.inl rfl⟩
    · exact ⟨0x2D, rfl, Or.inr rfl⟩
  have hexponent : Exponent.WellFormed ⟨0x65, [y], digitBytes n⟩ := by
    obtain ⟨hdigits, hne, -⟩ := digits_digitBytes n
    refine ⟨Or.inl rfl, ?_, hdigits, hne⟩
    rcases hplus with rfl | rfl
    · exact Or.inr (Or.inl rfl)
    · exact Or.inr (Or.inr rfl)
  refine ⟨⟨[x], fraction, some ⟨0x65, [y], digitBytes n⟩⟩,
    ⟨List.forall_mem_singleton.mpr hx, nofun, ?_, hfraction, ?_⟩, ?_⟩
  · intro hhead
    obtain rfl := Option.some.inj hhead
    rfl
  · intro e he
    obtain rfl := Option.some.inj he
    exact hexponent
  · rw [encodeChars_append, hbytes, encodeChars_ascii (x := 0x65) rfl, encodeChars_ascii hy]
    rfl

/-- What begins with digits begins as they do. -/
theorem head?_encodeChars_append (h : cs ≠ []) (ds : List Char) :
    (encodeChars (cs ++ ds)).head? = (encodeChars cs).head? := by
  rw [encodeChars_append, List.head?_append_of_ne_nil _ (encodeChars_ne_nil h)]

/-- The digits of a decimal: a zero is in front only if it is all there is. -/
structure Leading (ds : List Char) : Prop where
  digits : ∀ c ∈ ds, DigitChar c
  nonempty : ds ≠ []
  zero : (encodeChars ds).head? = some 0x30 → ds = ['0']

/-- The digits of a number have no needless zero in front. -/
theorem leading_digitChars (n : Nat) : Leading (digitChars n) :=
  ⟨fun _ hc => digitChar_of_mem hc, digitChars_ne_nil n,
    fun hhead => by rw [eq_zero_of_head hhead, digitChars_zero]⟩

theorem digitChar_nought : DigitChar '0' :=
  ⟨by decide, by decide⟩

/-- Zeros are digits. -/
theorem digitChar_of_mem_noughts {n : Nat} (h : c ∈ List.replicate n '0') : DigitChar c := by
  rw [List.eq_of_mem_replicate h]
  exact digitChar_nought

/-- A number below one: a zero, and all digits behind the point. -/
theorem Leading.below (h : Leading ds) (zeros : Nat) :
    IsNumeral (encodeChars ('0' :: '.' :: (List.replicate zeros '0' ++ ds))) := by
  have hall : ∀ c ∈ List.replicate zeros '0' ++ ds, DigitChar c :=
    List.forall_mem_append.mpr ⟨fun _ hc => digitChar_of_mem_noughts hc, h.digits⟩
  have hne : List.replicate zeros '0' ++ ds ≠ [] :=
    fun hnil => h.nonempty (List.append_eq_nil_iff.mp hnil).2
  exact isNumeral_fraction (List.forall_mem_singleton.mpr digitChar_nought) nofun (fun _ => rfl)
    hall hne

/-- A whole number: zeros up to the point, none of them behind a zero. -/
theorem Leading.whole (h : Leading ds) {zeros : Nat} (hzero : ds = ['0'] → zeros = 0) :
    IsNumeral (encodeChars (ds ++ List.replicate zeros '0' ++ ['.', '0'])) := by
  have hall : ∀ c ∈ ds ++ List.replicate zeros '0', DigitChar c :=
    List.forall_mem_append.mpr ⟨h.digits, fun _ hc => digitChar_of_mem_noughts hc⟩
  have hne : ds ++ List.replicate zeros '0' ≠ [] :=
    fun hnil => h.nonempty (List.append_eq_nil_iff.mp hnil).1
  refine isNumeral_fraction hall hne ?_ (List.forall_mem_singleton.mpr digitChar_nought) nofun
  intro hhead
  rw [head?_encodeChars_append h.nonempty] at hhead
  have hone := h.zero hhead
  rw [hone, hzero hone]
  rfl

/-- The point is among the digits. -/
theorem Leading.within (h : Leading ds) {n : Nat} (hn : n + 1 < ds.length) :
    IsNumeral (encodeChars (ds.take (n + 1) ++ '.' :: ds.drop (n + 1))) := by
  obtain ⟨c, rest, rfl⟩ := List.exists_cons_of_ne_nil h.nonempty
  have htake : List.take (n + 1) (c :: rest) ≠ [] := nofun
  refine isNumeral_fraction (fun c hc => h.digits c (List.mem_of_mem_take hc)) htake ?_
    (fun c hc => h.digits c (List.mem_of_mem_drop hc)) ?_
  · intro hhead
    rw [← head?_encodeChars_append htake (List.drop (n + 1) (c :: rest)),
      List.take_append_drop] at hhead
    rw [h.zero hhead] at hn
    exact absurd hn (Nat.not_lt.mpr (Nat.le_add_left 1 n))
  · intro hdrop
    exact Nat.not_le.mpr hn (List.drop_eq_nil_iff.mp hdrop)

/-- However its point is placed, a decimal is written as a numeral. -/
theorem isNumeral_write (d : Scaled) (hzero : d.digits = 0 → d.exponent = 0) :
    IsNumeral (encodeChars (floatLayout.write d)) := by
  have hlead := leading_digitChars d.digits
  have hnought : digitChars d.digits = ['0'] → d.exponent = 0 := by
    intro h
    refine hzero (eq_zero_of_head ?_)
    rw [h]
    rfl
  simp only [Decimal.Layout.write]
  generalize digitChars d.digits = ds at hlead hnought ⊢
  generalize horder : d.exponent + (ds.length : Int) - 1 = order
  split
  · split
    · exact hlead.below _
    · split
      · refine hlead.whole (fun hone => ?_)
        rw [hone, hnought hone] at horder
        rw [hone, ← horder]
        rfl
      · next hshort => exact hlead.within (Nat.not_le.mp hshort)
  · -- beyond all of that: a mantissa and an exponent
    split
    · exact absurd rfl hlead.nonempty
    · have hone := isMantissa_one (hlead.digits _ (List.mem_singleton.mpr rfl))
      split
      · exact isNumeral_exponent hone _ (Or.inr rfl)
      · exact isNumeral_exponent hone _ (Or.inl rfl)
    · next c rest hrest =>
      obtain ⟨hc, hcs⟩ := List.forall_mem_cons.mp hlead.digits
      have hmore := isMantissa_more hc hcs (fun h => hrest (h ▸ rfl))
      split
      · exact isNumeral_exponent hmore _ (Or.inr rfl)
      · exact isNumeral_exponent hmore _ (Or.inl rfl)

/-- A binary64 number has the form of a value, and so have infinities and non-numbers. -/
theorem looseScalar_float (bits : UInt64) : LooseScalar (encodeChars (chars (.float bits))) := by
  show LooseScalar (encodeChars (floatChars bits))
  rw [floatChars]
  split
  · exact .null
  · next hfinite =>
    -- the digits are zero for zero only, and its exponent is zero too
    obtain ⟨n, hn, hbytes⟩ : IsNumeral
        (encodeChars (floatLayout.write (Decimal.Parts.ofBits bits).magnitude.shortest)) := by
      refine isNumeral_write _ (fun hdigits => ?_)
      by_cases hzero : (Decimal.Parts.ofBits bits).magnitude.mantissa = 0
      · rw [Decimal.Binary.shortest, if_pos hzero]
      · exact absurd hdigits (Decimal.digits_shortest (Decimal.positive_magnitude hfinite hzero))
    split
    · rw [encodeChars_ascii (x := 0x2D) rfl, hbytes]
      exact .negative hn
    · rw [hbytes]
      exact .number hn

/-! ## Values -/

/-- A written integer is a number of the format. -/
theorem looseScalar_int (i : Int) : LooseScalar (encodeChars (chars (.int i))) := by
  cases i with
  | ofNat n =>
      have hbytes : encodeChars (chars (.int (.ofNat n))) = (numeral n).text :=
        (text_numeral n).symm
      rw [hbytes]
      exact .number (wellFormed_numeral n)
  | negSucc n =>
      have hbytes : encodeChars (chars (.int (.negSucc n))) = 0x2D :: (numeral (n + 1)).text := by
        rw [text_numeral]
        exact encodeChars_ascii rfl
      rw [hbytes]
      exact .negative (wellFormed_numeral (n + 1))

/-- A value without parts. -/
def Plain : Json → Prop
  | .arr _ => False
  | .obj _ => False
  | _ => True

/-- A value without parts is written in the form of one. -/
theorem looseScalar_chars (h : v.Plain) : LooseScalar (encodeChars (chars v)) := by
  cases v with
  | null => exact .null
  | bool b =>
      cases b with
      | true => exact .true
      | false => exact .false
  | int i => exact looseScalar_int i
  | float bits => exact looseScalar_float bits
  | str s => exact (scalar_str s).loose
  | arr items => exact h.elim
  | obj fields => exact h.elim

/-- What a value has whenever its parts have it, all values have. -/
@[elab_as_elim]
theorem induction {P : Json → Prop} (plain : ∀ v, Plain v → P v)
    (arr : ∀ items, (∀ v ∈ items, P v) → P (.arr items))
    (obj : ∀ fields, (∀ p ∈ fields, P p.2) → P (.obj fields)) (v : Json) : P v :=
  @Json.rec P (fun items => ∀ v ∈ items, P v) (fun fields => ∀ p ∈ fields, P p.2) (fun p => P p.2)
    (plain _ trivial) (fun _ => plain _ trivial) (fun _ => plain _ trivial)
    (fun _ => plain _ trivial) (fun _ => plain _ trivial) arr obj
    nofun (fun _ _ hv hitems => List.forall_mem_cons.mpr ⟨hv, hitems⟩)
    nofun (fun _ _ hp hfields => List.forall_mem_cons.mpr ⟨hp, hfields⟩)
    (fun _ _ hv => hv) v

/-- **WHAT IS WRITTEN HAS THE FORM OF A VALUE**, whatever the value. -/
theorem formed_chars (v : Json) : Formed (encodeChars (chars v)) := by
  induction v using induction with
  | plain v hplain => exact ⟨1, Or.inl (looseScalar_chars hplain)⟩
  | arr items ih =>
      -- any kind of text can be listed, here it is "has the form of a value"
      obtain ⟨r, hr, hbytes⟩ : ∃ r, Listed (fun t (_ : Json) => Formed t) 0x5D r (items.map id)
          ∧ encodeChars (chars (.arr (items.map id))) = 0x5B :: r := listed_itemChars items ih
      rw [List.map_id] at hbytes
      rw [hbytes]
      exact formed_of_items hr (fun h => h)
  | obj fields ih =>
      obtain ⟨r, hr, hbytes⟩ : ∃ r, Listed (Member (fun t (_ : Json) => Formed t)) 0x7D r fields
          ∧ encodeChars (chars (.obj fields)) = 0x7B :: r := listed_fieldChars ih
      rw [hbytes]
      exact formed_of_members hr (fun h => h.loose (fun h => h))

/-! ## No control characters -/

/-- There is no control character among the bytes. -/
def Printable (t : Bytes) : Prop :=
  ∀ x ∈ t, 0x20 ≤ x.toNat

instance (t : Bytes) : Decidable (Printable t) :=
  List.decidableBAll (fun x : UInt8 => 0x20 ≤ x.toNat) t

theorem Printable.nil : Printable [] :=
  nofun

theorem Printable.cons {x : UInt8} (hx : 0x20 ≤ x.toNat) (ht : Printable t) : Printable (x :: t) :=
  List.forall_mem_cons.mpr ⟨hx, ht⟩

/-- Printable texts may stand behind each other. -/
theorem Printable.append (ht : Printable t) (ht' : Printable t') : Printable (t ++ t') :=
  List.forall_mem_append.mpr ⟨ht, ht'⟩

theorem Digits.printable (h : Digits t) : Printable t :=
  fun x hx => Nat.le_trans (by decide) (h x hx).1

/-- Exponents are printable. -/
theorem Exponent.WellFormed.printable {e : Exponent} (h : e.WellFormed) : Printable e.text := by
  refine .cons ?_ (.append ?_ h.digits.printable)
  · rcases h.mark with hmark | hmark
    · rw [hmark]; decide
    · rw [hmark]; decide
  · rcases h.sign with hsign | hsign | hsign
    · rw [hsign]; exact .nil
    · rw [hsign]; exact .cons (by decide) .nil
    · rw [hsign]; exact .cons (by decide) .nil

/-- Numerals are printable. -/
theorem Numeral.WellFormed.printable {n : Numeral} (h : n.WellFormed) : Printable n.text := by
  obtain ⟨whole, fraction, exponent⟩ := n
  refine .append h.digits.printable (.append ?_ ?_)
  · cases fraction with
    | none => exact .nil
    | some t => exact .cons (by decide) (h.fraction t rfl).2.printable
  · cases exponent with
    | none => exact .nil
    | some e => exact (h.exponent e rfl).printable

/-- Four digits of base sixteen are printable. -/
theorem printable_of_hexQuad? {h₁ h₂ h₃ h₄ : UInt8} {n : Nat} (h : hexQuad? h₁ h₂ h₃ h₄ = some n) :
    Printable [h₁, h₂, h₃, h₄] := by
  unfold hexQuad? at h
  split at h
  · next hv₁ hv₂ hv₃ hv₄ =>
    exact .cons (Hex.range_of_value? hv₁).1 <| .cons (Hex.range_of_value? hv₂).1 <|
      .cons (Hex.range_of_value? hv₃).1 <| .cons (Hex.range_of_value? hv₄).1 .nil
  · cases h

/-- Between its quotes a string is printable, since control characters have to be escaped. -/
theorem LooseBody.printable (h : LooseBody t) : Printable t := by
  induction h with
  | nil => exact .nil
  | plain ordinary body ih => exact .cons ordinary.1 ih
  | short listed body ih =>
      have hletters : Printable (shortEscapes.map Prod.fst) := by decide
      exact .cons (by decide) (.cons (hletters _ listed) ih)
  | unicode quad body ih =>
      exact .cons (by decide) (.cons (by decide) ((printable_of_hexQuad? quad).append ih))

/-- Scalars are printable. -/
theorem LooseScalar.printable (h : LooseScalar t) : Printable t := by
  cases h with
  | null => decide
  | true => decide
  | false => decide
  | text body => exact .cons (by decide) (body.printable.append (.cons (by decide) .nil))
  | number wellFormed => exact wellFormed.printable
  | negative wellFormed => exact .cons (by decide) wellFormed.printable

/-- A quoted text is printable. -/
theorem printable_quote (key : String) : Printable (encodeChars (quote key)) :=
  (scalar_str key).loose.printable

/-- A list is printable if its items are. -/
theorem printable_itemChars {items : List Json}
    (h : ∀ v ∈ items, Printable (encodeChars (chars v))) :
    Printable (encodeChars (itemChars items)) := by
  induction items with
  | nil => decide
  | cons v items ih =>
      obtain ⟨hv, hitems⟩ := List.forall_mem_cons.mp h
      rw [itemChars, encodeChars_ascii (x := 0x2C) rfl, encodeChars_append]
      exact .cons (by decide) (hv.append (ih hitems))

/-- An object is printable if its values are. -/
theorem printable_fieldChars {fields : List (String × Json)}
    (h : ∀ p ∈ fields, Printable (encodeChars (chars p.2))) :
    Printable (encodeChars (fieldChars fields)) := by
  induction fields with
  | nil => decide
  | cons p fields ih =>
      obtain ⟨key, v⟩ := p
      obtain ⟨hv, hfields⟩ := List.forall_mem_cons.mp h
      rw [fieldChars, encodeChars_ascii (x := 0x2C) rfl, encodeChars_append,
        encodeChars_ascii (x := 0x3A) rfl, encodeChars_append]
      exact .cons (by decide)
        ((printable_quote key).append (.cons (by decide) (hv.append (ih hfields))))

/-- **NO CONTROL CHARACTER IS WRITTEN**, whatever the texts in a value. -/
theorem printable_chars (v : Json) : Printable (encodeChars (chars v)) := by
  induction v using induction with
  | plain v hplain => exact (looseScalar_chars hplain).printable
  | arr items ih =>
      cases items with
      | nil => decide
      | cons v items =>
          obtain ⟨hv, hitems⟩ := List.forall_mem_cons.mp ih
          rw [chars, encodeChars_ascii (x := 0x5B) rfl, encodeChars_append]
          exact .cons (by decide) (hv.append (printable_itemChars hitems))
  | obj fields ih =>
      cases fields with
      | nil => decide
      | cons p fields =>
          obtain ⟨key, v⟩ := p
          obtain ⟨hv, hfields⟩ := List.forall_mem_cons.mp ih
          rw [chars, encodeChars_ascii (x := 0x7B) rfl, encodeChars_append,
            encodeChars_ascii (x := 0x3A) rfl, encodeChars_append]
          have hrest := hv.append (printable_fieldChars hfields)
          exact .cons (by decide) ((printable_quote key).append (.cons (by decide) hrest))

/-! ## Texts -/

/-- What is written for a value has the form of a value. -/
theorem formed_render (v : Json) : Formed (Utf8.encode v.render) := by
  rw [render, Utf8.encode_ofList]
  exact formed_chars v

/-- What is written for a value takes one line. -/
theorem no_lineFeed_render (v : Json) : 0x0A ∉ Utf8.encode v.render := by
  rw [render, Utf8.encode_ofList]
  intro hmem
  exact absurd (printable_chars v 0x0A hmem) (by decide)

end PhaseHost.Json
