import PhaseHost.Json.Number

/-! # Numerals

    The text of a number without its sign: digits, perhaps a fraction behind a point,
    perhaps an exponent behind a mark.  Its digits are absorbed into a significand as
    long as it stays within sixty-four bits, and those that are left count towards the
    exponent.

    The reader takes exactly the numerals, with the value that they have by this account;
    one whose magnitude is beyond binary64 has none. -/

namespace PhaseHost.Json

/-! ## Digits -/

/-- A decimal digit. -/
def IsDigit (b : UInt8) : Prop :=
  0x30 ≤ b.toNat ∧ b.toNat ≤ 0x39

instance (b : UInt8) : Decidable (IsDigit b) :=
  inferInstanceAs (Decidable (_ ∧ _))

/-- The value of a digit. -/
def digitValue (b : UInt8) : Nat :=
  b.toNat - 48

/-- Digits in a row. -/
def Digits (t : Bytes) : Prop :=
  ∀ b ∈ t, IsDigit b

/-- Nothing that could go on with digits. -/
def NoDigit (rest : Bytes) : Prop :=
  ∀ b ∈ rest.head?, ¬ IsDigit b

variable {b : UInt8} {t t' rest rest' s r : Bytes} {v : Json} {negative : Bool}
  {m limit value count : Nat} {start : Int}

theorem digit?_of_isDigit (h : IsDigit b) : digit? b = some (digitValue b) :=
  if_pos ⟨UInt8.le_iff_toNat_le.mpr h.1, UInt8.le_iff_toNat_le.mpr h.2⟩

theorem digit?_of_not (h : ¬ IsDigit b) : digit? b = none :=
  if_neg (fun hb => h (hb.imp UInt8.le_iff_toNat_le.mp UInt8.le_iff_toNat_le.mp))

/-- The reader takes a byte for a digit if it is one. -/
theorem isSome_digit?_iff : (digit? b).isSome = true ↔ IsDigit b := by
  by_cases h : IsDigit b
  · rw [digit?_of_isDigit h]
    exact ⟨fun _ => h, fun _ => rfl⟩
  · rw [digit?_of_not h]
    exact ⟨nofun, fun h' => absurd h' h⟩

/-- A digit is worth nine at most. -/
theorem digitValue_le (h : IsDigit b) : digitValue b ≤ 9 := by
  have := h.2
  rw [digitValue]
  omega

theorem Digits.cons (hb : IsDigit b) (ht : Digits t) : Digits (b :: t) :=
  List.forall_mem_cons.mpr ⟨hb, ht⟩

theorem Digits.head (h : Digits (b :: t)) : IsDigit b :=
  h b List.mem_cons_self

theorem Digits.tail (h : Digits (b :: t)) : Digits t :=
  fun c hc => h c (List.mem_cons_of_mem b hc)

theorem noDigit_nil : NoDigit [] := nofun

theorem noDigit_cons_iff : NoDigit (b :: rest) ↔ ¬ IsDigit b := by
  constructor
  · intro h
    exact h b rfl
  · intro h c hc
    obtain rfl : b = c := Option.some.inj hc
    exact h

/-- Where no digit comes next, none is seen. -/
theorem peekDigit?_of_noDigit (h : NoDigit rest) : peekDigit? rest = none := by
  cases rest with
  | nil => rfl
  | cons b rest => exact digit?_of_not (noDigit_cons_iff.mp h)

/-- Every input is digits and then something else. -/
theorem exists_digits (s : Bytes) : ∃ t rest, s = t ++ rest ∧ Digits t ∧ NoDigit rest := by
  induction s with
  | nil => exact ⟨[], [], rfl, nofun, noDigit_nil⟩
  | cons b s ih =>
      by_cases hb : IsDigit b
      · obtain ⟨t, rest, rfl, ht, hrest⟩ := ih
        exact ⟨b :: t, rest, rfl, ht.cons hb, hrest⟩
      · exact ⟨[], b :: s, rfl, nofun, noDigit_cons_iff.mpr hb⟩

/-- All digits are passed over, and nothing behind them. -/
theorem dropDigits_append (ht : Digits t) (hrest : NoDigit rest) :
    dropDigits (t ++ rest) = rest := by
  induction t with
  | nil =>
      cases rest with
      | nil => rfl
      | cons b rest =>
          have hb : ¬ (digit? b).isSome = true :=
            fun h => noDigit_cons_iff.mp hrest (isSome_digit?_iff.mp h)
          exact List.dropWhile_cons_of_neg hb
  | cons b t ih =>
      have hb : (digit? b).isSome = true := isSome_digit?_iff.mpr ht.head
      rw [List.cons_append, dropDigits, List.dropWhile_cons, if_pos hb]
      exact ih ht.tail

/-- Absorb digits into a number as long as it stays within a limit: the number, and how
    many digits it has absorbed. -/
def absorb (limit value : Nat) : Bytes → Nat × Nat
  | [] => (value, 0)
  | b :: t =>
    if limit < value * 10 + digitValue b then (value, 0)
    else ((absorb limit (value * 10 + digitValue b) t).1,
      (absorb limit (value * 10 + digitValue b) t).2 + 1)

/-- No more digits are absorbed than there are. -/
theorem absorb_le (limit value : Nat) (t : Bytes) : (absorb limit value t).2 ≤ t.length := by
  induction t generalizing value with
  | nil => exact Nat.le_refl 0
  | cons b t ih =>
      simp only [absorb]
      split
      · exact Nat.zero_le _
      · exact Nat.succ_le_succ (ih _)

/-- Taking digits below a limit absorbs what fits and leaves the other digits where they are. -/
theorem takeDigits_append (limit value count : Nat) (ht : Digits t) (hrest : NoDigit rest) :
    takeDigits limit value count (t ++ rest)
      = ((absorb limit value t).1, count + (absorb limit value t).2,
        t.drop (absorb limit value t).2 ++ rest) := by
  induction t generalizing value count with
  | nil =>
      cases rest with
      | nil => rfl
      | cons b rest =>
          show takeDigits limit value count (b :: rest) = _
          rw [takeDigits, digit?_of_not (noDigit_cons_iff.mp hrest)]
          rfl
  | cons b t ih =>
      show takeDigits limit value count (b :: (t ++ rest)) = _
      rw [takeDigits, digit?_of_isDigit ht.head, absorb]
      by_cases hlimit : limit < value * 10 + digitValue b
      · simp only [if_pos hlimit]
        rfl
      · simp only [if_neg hlimit, ih _ _ ht.tail]
        rw [Nat.add_assoc, Nat.add_comm 1, List.drop_succ_cons]

/-- Digits are left over exactly if not all were absorbed. -/
theorem peekDigit?_drop (ht : Digits t) (hrest : NoDigit rest) (k : Nat) :
    (peekDigit? (t.drop k ++ rest) = none ↔ t.length ≤ k) := by
  constructor
  · intro h
    refine Nat.le_of_not_lt (fun hk => ?_)
    rw [List.drop_eq_getElem_cons hk] at h
    have hdigit : digit? t[k] = none := h
    rw [digit?_of_isDigit (ht _ (List.getElem_mem hk))] at hdigit
    exact nomatch hdigit
  · intro h
    rw [List.drop_eq_nil_of_le h]
    exact peekDigit?_of_noDigit hrest

theorem Digits.drop (ht : Digits t) (k : Nat) : Digits (t.drop k) :=
  fun b hb => ht b (List.mem_of_mem_drop hb)

/-- What is left of digits once what could be absorbed was. -/
theorem takeDigits_cases (limit value : Nat) (ht : Digits t) (hrest : NoDigit rest)
    (count : Nat) :
    ((absorb limit value t).2 = t.length
      ∧ takeDigits limit value count (t ++ rest)
        = ((absorb limit value t).1, count + (absorb limit value t).2, rest)
      ∧ peekDigit? rest = none)
    ∨ (absorb limit value t).2 < t.length
      ∧ ∃ left d, takeDigits limit value count (t ++ rest)
          = ((absorb limit value t).1, count + (absorb limit value t).2, left)
        ∧ peekDigit? left = some d ∧ dropDigits left = rest
        ∧ left.length = t.length - (absorb limit value t).2 + rest.length := by
  have htake := takeDigits_append limit value count ht hrest
  have hle := absorb_le limit value t
  generalize absorb limit value t = a at htake hle ⊢
  rcases Nat.lt_or_ge a.2 t.length with hlt | hge
  · cases hpeek : peekDigit? (t.drop a.2 ++ rest) with
    | none => exact absurd ((peekDigit?_drop ht hrest a.2).mp hpeek) (Nat.not_le.mpr hlt)
    | some d =>
        exact Or.inr ⟨hlt, _, d, htake, hpeek, dropDigits_append (ht.drop a.2) hrest, by
          rw [List.length_append, List.length_drop]⟩
  · refine Or.inl ⟨Nat.le_antisymm hle hge, ?_, peekDigit?_of_noDigit hrest⟩
    rw [htake, List.drop_eq_nil_of_le hge, List.nil_append]

/-! ## Exponents -/

/-- The value of a significand with an exponent, if binary64 has room for it. -/
def floatValue? (negative : Bool) (significand : Nat) (exponent : Int) : Option Json :=
  (magnitude? significand exponent).map (signed negative)

/-- The value with an exponent in digits.  An exponent too large to count leaves zero, or
    nothing that could be held. -/
def exponentValue? (negative : Bool) (significand : Nat) (start : Int) (down : Bool)
    (digits : Bytes) : Option Json :=
  let e := absorb exponentMax 0 digits
  if e.2 = digits.length then
    floatValue? negative significand (if down then start - e.1 else start + e.1)
  else if significand ≠ 0 ∧ ¬ down then none else some (signed negative 0.0)

/-- A float is made exactly if significand and exponent have a value. -/
theorem makeFloat_eq_ok_iff {exponent : Int} :
    makeFloat negative m exponent rest = .ok (v, r)
      ↔ r = rest ∧ floatValue? negative m exponent = some v := by
  rw [makeFloat, floatValue?]
  cases magnitude? m exponent with
  | none => exact ⟨nofun, fun h => nomatch h.2⟩
  | some f =>
      constructor
      · intro h
        cases h
        exact ⟨rfl, rfl⟩
      · rintro ⟨rfl, h⟩
        cases h
        rfl

/-- One digit always fits. -/
theorem absorb_digit (hb : IsDigit b) (hlimit : 9 ≤ limit) :
    absorb limit 0 (b :: t)
      = ((absorb limit (digitValue b) t).1, (absorb limit (digitValue b) t).2 + 1) := by
  have hvalue := digitValue_le hb
  rw [absorb, if_neg (by omega), Nat.zero_mul, Nat.zero_add]

/-- An exponent behind its mark and sign is read to the end of its digits. -/
theorem scanExponent_eq_ok_iff {down : Bool} (hsign : exponentSign s = (down, t ++ rest))
    (ht : Digits t) (hrest : NoDigit rest) :
    scanExponent negative m start s = .ok (v, r)
      ↔ t ≠ [] ∧ r = rest ∧ exponentValue? negative m start down t = some v := by
  simp only [scanExponent, hsign]
  cases t with
  | nil =>
      refine ⟨fun h => ?_, fun h => absurd rfl h.1⟩
      cases rest with
      | nil => cases h
      | cons b rest =>
          simp only [List.nil_append, digit?_of_not (noDigit_cons_iff.mp hrest)] at h
          cases h
  | cons d t =>
      have hcount := absorb_digit (t := t) ht.head (show 9 ≤ exponentMax by decide)
      simp only [List.cons_append, digit?_of_isDigit ht.head, exponentValue?, hcount]
      rcases takeDigits_cases exponentMax (digitValue d) ht.tail hrest 1 with
        ⟨hall, htake, hpeek⟩ | ⟨hsome, left, d', htake, hpeek, hdrop, -⟩
      · have heq : (absorb exponentMax (digitValue d) t).2 + 1 = (d :: t).length := by
          rw [hall, List.length_cons]
        simp only [htake, hpeek, makeFloat_eq_ok_iff]
        rw [if_pos heq]
        exact ⟨fun h => ⟨List.cons_ne_nil d t, h⟩, fun h => h.2⟩
      · have hne : ¬ (absorb exponentMax (digitValue d) t).2 + 1 = (d :: t).length := by
          rw [List.length_cons]
          omega
        simp only [htake, hpeek, hdrop]
        rw [if_neg hne]
        by_cases hout : m ≠ 0 ∧ ¬ down = true
        · rw [if_pos hout, if_pos hout]
          constructor
          · intro h
            cases h
          · rintro ⟨-, -, h⟩
            cases h
        · rw [if_neg hout, if_neg hout]
          constructor
          · intro h
            cases h
            exact ⟨List.cons_ne_nil d t, rfl, rfl⟩
          · rintro ⟨-, rfl, h⟩
            cases h
            rfl

/-- The text of an exponent. -/
structure Exponent where
  mark : UInt8
  sign : Bytes
  digits : Bytes

namespace Exponent

structure WellFormed (e : Exponent) : Prop where
  mark : e.mark = 0x65 ∨ e.mark = 0x45
  sign : e.sign = [] ∨ e.sign = [0x2B] ∨ e.sign = [0x2D]
  digits : Digits e.digits
  nonempty : e.digits ≠ []

def text (e : Exponent) : Bytes :=
  e.mark :: (e.sign ++ e.digits)

/-- Whether it makes the number smaller. -/
def down (e : Exponent) : Bool :=
  e.sign = [0x2D]

end Exponent

/-- The sign of an exponent is taken off, whatever comes next. -/
theorem exists_exponentSign (s : Bytes) :
    ∃ sign s', s = sign ++ s' ∧ (sign = [] ∨ sign = [0x2B] ∨ sign = [0x2D])
      ∧ exponentSign s = (decide (sign = [0x2D]), s') := by
  unfold exponentSign
  split
  · exact ⟨[0x2B], _, rfl, Or.inr (Or.inl rfl), rfl⟩
  · exact ⟨[0x2D], _, rfl, Or.inr (Or.inr rfl), rfl⟩
  · exact ⟨[], _, rfl, Or.inl rfl, rfl⟩

/-- The sign of an exponent is read off in front of its digits. -/
theorem Exponent.WellFormed.exponentSign {e : Exponent} (h : e.WellFormed) (rest : Bytes) :
    exponentSign (e.sign ++ (e.digits ++ rest)) = (e.down, e.digits ++ rest) := by
  obtain ⟨mark, sign, digits⟩ := e
  obtain ⟨d, t, rfl⟩ := List.exists_cons_of_ne_nil h.nonempty
  have hd : IsDigit d := h.digits.head
  rcases h.sign with rfl | rfl | rfl
  · have hplus : d ≠ 0x2B := by
      rintro rfl
      exact absurd hd.1 (by decide)
    have hminus : d ≠ 0x2D := by
      rintro rfl
      exact absurd hd.1 (by decide)
    show Json.exponentSign (d :: (t ++ rest)) = (false, d :: (t ++ rest))
    rw [Json.exponentSign]
    · intro s hs
      exact hplus (List.cons.inj hs).1
    · intro s hs
      exact hminus (List.cons.inj hs).1
  · rfl
  · rfl

/-- What may come behind a number, so that nothing of it counts towards the number. -/
def Stops (rest : Bytes) : Prop :=
  ∀ b ∈ rest.head?, ¬ IsDigit b ∧ b ≠ 0x2E ∧ b ≠ 0x65 ∧ b ≠ 0x45

/-- A number does not go on where it stops. -/
theorem Stops.noDigit (h : Stops r) : NoDigit r :=
  fun b hb => (h b hb).1

/-- The text of an exponent, if there is one. -/
def exponentText : Option Exponent → Bytes
  | none => []
  | some e => e.text

/-- The value of a significand with what its exponent says, if there is one. -/
def scaledValue? (negative : Bool) (significand : Nat) (start : Int) :
    Option Exponent → Option Json
  | none => floatValue? negative significand start
  | some e => exponentValue? negative significand start e.down e.digits

/-- What is read behind the mark is an exponent, and the value is scaled by it. -/
theorem exponent_of_scanExponent {mark : UInt8} (hmark : mark = 0x65 ∨ mark = 0x45)
    (h : scanExponent negative m start s = .ok (v, r)) :
    ∃ e : Exponent, e.WellFormed ∧ mark :: s = e.text ++ r
      ∧ scaledValue? negative m start (some e) = some v := by
  obtain ⟨sign, s', rfl, hsign, heq⟩ := exists_exponentSign s
  obtain ⟨t, rest, rfl, ht, hrest⟩ := exists_digits s'
  obtain ⟨hne, rfl, hv⟩ := (scanExponent_eq_ok_iff heq ht hrest).mp h
  refine ⟨⟨mark, sign, t⟩, ⟨hmark, hsign, ht, hne⟩, ?_, hv⟩
  rw [Exponent.text, List.cons_append, List.append_assoc]

/-- Every exponent is read behind its mark. -/
theorem scanExponent_of_exponent {e : Exponent} (he : e.WellFormed) (hr : NoDigit r)
    (hv : scaledValue? negative m start (some e) = some v) :
    scanExponent negative m start (e.sign ++ (e.digits ++ r)) = .ok (v, r) :=
  (scanExponent_eq_ok_iff (he.exponentSign r) he.digits hr).mpr ⟨he.nonempty, rfl, hv⟩

/-- What is read behind the digits is an exponent or nothing. -/
theorem exponent_of_scanAfterDigits (h : scanAfterDigits negative m start s = .ok (v, r)) :
    ∃ e, (∀ x ∈ e, Exponent.WellFormed x) ∧ s = exponentText e ++ r
      ∧ scaledValue? negative m start e = some v := by
  unfold scanAfterDigits at h
  split at h
  · obtain ⟨e, he, hs, hv⟩ := exponent_of_scanExponent (Or.inl rfl) h
    exact ⟨some e, fun x hx => Option.some.inj hx ▸ he, hs, hv⟩
  · obtain ⟨e, he, hs, hv⟩ := exponent_of_scanExponent (Or.inr rfl) h
    exact ⟨some e, fun x hx => Option.some.inj hx ▸ he, hs, hv⟩
  · obtain ⟨rfl, hv⟩ := makeFloat_eq_ok_iff.mp h
    exact ⟨none, nofun, rfl, hv⟩

/-- An exponent, or none, is read behind the digits. -/
theorem scanAfterDigits_of_exponent {e : Option Exponent} (he : ∀ x ∈ e, Exponent.WellFormed x)
    (hr : Stops r) (hv : scaledValue? negative m start e = some v) :
    scanAfterDigits negative m start (exponentText e ++ r) = .ok (v, r) := by
  cases e with
  | none =>
      have hfloat : makeFloat negative m start r = .ok (v, r) :=
        makeFloat_eq_ok_iff.mpr ⟨rfl, hv⟩
      show scanAfterDigits negative m start r = _
      rw [scanAfterDigits]
      · exact hfloat
      · rintro rest rfl
        exact (hr 0x65 rfl).2.2.1 rfl
      · rintro rest rfl
        exact (hr 0x45 rfl).2.2.2 rfl
  | some e =>
      have hwell := he e rfl
      have hscan := scanExponent_of_exponent hwell hr.noDigit hv
      show scanAfterDigits negative m start (e.mark :: (e.sign ++ e.digits ++ r)) = _
      rw [List.append_assoc]
      rcases hwell.mark with hmark | hmark
      · rw [hmark]
        exact hscan
      · rw [hmark]
        exact hscan

/-! ## Fractions -/

/-- A fraction absorbs what it can and is read to the end of its digits. -/
theorem scanFraction_append (ht : Digits t) (hrest : NoDigit rest) (hne : t ≠ []) :
    scanFraction negative m start (t ++ rest)
      = scanAfterDigits negative (absorb significandMax m t).1
          (start - (absorb significandMax m t).2) rest := by
  rcases takeDigits_cases significandMax m ht hrest 0 with
    ⟨hall, htake, hpeek⟩ | ⟨hsome, left, d, htake, hpeek, hdrop, -⟩
  · have hcount : ¬ 0 + (absorb significandMax m t).2 = 0 := by
      have hpos := List.length_pos_iff.mpr hne
      omega
    simp only [scanFraction, htake, hpeek]
    rw [if_neg hcount, Nat.zero_add]
  · simp only [scanFraction, htake, hpeek, hdrop, Nat.zero_add]

/-- There is no fraction without a digit. -/
theorem scanFraction_nil (negative : Bool) (m : Nat) (start : Int) (hrest : NoDigit rest) :
    ∃ fault, scanFraction negative m start rest = .error fault := by
  have htake : takeDigits significandMax m 0 ([] ++ rest) = (m, 0, rest) :=
    takeDigits_append significandMax m 0 (t := []) nofun hrest
  rw [List.nil_append] at htake
  simp only [scanFraction, htake, peekDigit?_of_noDigit hrest]
  exact ⟨_, if_pos trivial⟩

/-- The text of a fraction, if there is one. -/
def fractionText : Option Bytes → Bytes
  | none => []
  | some t => 0x2E :: t

/-- What may come behind the digits of a number: a fraction, and then an exponent. -/
def scanTail (negative : Bool) (m : Nat) (start : Int) (s : Bytes) : Except Fault (Json × Bytes) :=
  match s with
  | 0x2E :: after => scanFraction negative m start after
  | rest => scanAfterDigits negative m start rest

/-- The value of a significand with what its fraction and exponent say. -/
def tailValue? (negative : Bool) (m : Nat) (start : Int) (fraction : Option Bytes)
    (exponent : Option Exponent) : Option Json :=
  scaledValue? negative (absorb significandMax m (fraction.getD [])).1
    (start - (absorb significandMax m (fraction.getD [])).2) exponent

/-- A fraction that is there has digits. -/
def FractionWellFormed (fraction : Option Bytes) : Prop :=
  ∀ t ∈ fraction, t ≠ [] ∧ Digits t

/-- What is read behind the point is a fraction and perhaps an exponent, and it gives the value.
    -/
theorem tail_of_scanFraction (h : scanFraction negative m start s = .ok (v, r)) :
    ∃ t e, FractionWellFormed (some t) ∧ (∀ x ∈ e, Exponent.WellFormed x)
      ∧ s = t ++ (exponentText e ++ r) ∧ tailValue? negative m start (some t) e = some v := by
  obtain ⟨t, rest, rfl, ht, hrest⟩ := exists_digits s
  by_cases hne : t = []
  · subst hne
    obtain ⟨fault, hfault⟩ := scanFraction_nil negative m start hrest
    rw [List.nil_append, hfault] at h
    exact nomatch h
  · rw [scanFraction_append ht hrest hne] at h
    obtain ⟨e, he, rfl, hv⟩ := exponent_of_scanAfterDigits h
    refine ⟨t, e, ?_, he, rfl, hv⟩
    intro t' ht'
    obtain rfl := Option.some.inj ht'
    exact ⟨hne, ht⟩

/-- No digit comes next where an exponent does, or where the number stops. -/
theorem noDigit_exponentText {e : Option Exponent} (he : ∀ x ∈ e, Exponent.WellFormed x)
    (hr : Stops r) : NoDigit (exponentText e ++ r) := by
  cases e with
  | none => exact hr.noDigit
  | some e =>
      have hmark : ¬ IsDigit e.mark := by
        rintro ⟨-, hle⟩
        rcases (he e rfl).mark with hmark | hmark
        · rw [hmark] at hle
          exact absurd hle (by decide)
        · rw [hmark] at hle
          exact absurd hle (by decide)
      exact noDigit_cons_iff.mpr hmark

/-- A fraction and perhaps an exponent are read behind the point, with their value. -/
theorem scanFraction_of_tail {e : Option Exponent} (ht : FractionWellFormed (some t))
    (he : ∀ x ∈ e, Exponent.WellFormed x) (hr : Stops r)
    (hv : tailValue? negative m start (some t) e = some v) :
    scanFraction negative m start (t ++ (exponentText e ++ r)) = .ok (v, r) := by
  obtain ⟨hne, hdigits⟩ := ht t rfl
  rw [scanFraction_append hdigits (noDigit_exponentText he hr) hne]
  exact scanAfterDigits_of_exponent he hr hv

/-- Without a point there is no fraction to be read. -/
theorem scanTail_of_ne (h : ∀ rest, s ≠ 0x2E :: rest) :
    scanTail negative m start s = scanAfterDigits negative m start s := by
  unfold scanTail
  split
  · exact absurd rfl (h _)
  · rfl

/-- What is read behind the whole digits is a fraction or none, and an exponent or none. -/
theorem tail_of_scanTail (h : scanTail negative m start s = .ok (v, r)) :
    ∃ fraction e, FractionWellFormed fraction ∧ (∀ x ∈ e, Exponent.WellFormed x)
      ∧ s = fractionText fraction ++ (exponentText e ++ r)
      ∧ tailValue? negative m start fraction e = some v := by
  unfold scanTail at h
  split at h
  · obtain ⟨t, e, ht, he, hs, hv⟩ := tail_of_scanFraction h
    exact ⟨some t, e, ht, he, congrArg (List.cons 0x2E) hs, hv⟩
  · obtain ⟨e, he, hs, hv⟩ := exponent_of_scanAfterDigits h
    refine ⟨none, e, nofun, he, hs, ?_⟩
    show scaledValue? negative m (start - (0 : Nat)) e = some v
    rw [Int.natCast_zero, Int.sub_zero]
    exact hv

/-- An exponent begins with no point. -/
theorem exponentText_ne_point {e : Option Exponent} (he : ∀ x ∈ e, Exponent.WellFormed x)
    (hr : Stops r) : exponentText e ++ r ≠ 0x2E :: rest := by
  intro heq
  cases e with
  | none => exact (hr 0x2E (by rw [show r = _ from heq]; rfl)).2.1 rfl
  | some e =>
      have hmark : e.mark = 0x2E := (List.cons.inj heq).1
      rcases (he e rfl).mark with h | h
      · exact absurd (h.symm.trans hmark) (by decide)
      · exact absurd (h.symm.trans hmark) (by decide)

/-- No digit comes next where a fraction or an exponent does. -/
theorem noDigit_tail {fraction : Option Bytes} {e : Option Exponent}
    (he : ∀ x ∈ e, Exponent.WellFormed x) (hr : Stops r) :
    NoDigit (fractionText fraction ++ (exponentText e ++ r)) := by
  cases fraction with
  | none => exact noDigit_exponentText he hr
  | some t => exact noDigit_cons_iff.mpr (fun h => absurd h.1 (by decide))

/-- Whatever fraction and exponent there are, they are read behind the whole digits. -/
theorem scanTail_of_tail {fraction : Option Bytes} {e : Option Exponent}
    (ht : FractionWellFormed fraction) (he : ∀ x ∈ e, Exponent.WellFormed x) (hr : Stops r)
    (hv : tailValue? negative m start fraction e = some v) :
    scanTail negative m start (fractionText fraction ++ (exponentText e ++ r)) = .ok (v, r) := by
  cases fraction with
  | some t => exact scanFraction_of_tail ht he hr hv
  | none =>
      have hv' : scaledValue? negative m (start - (0 : Nat)) e = some v := hv
      rw [Int.natCast_zero, Int.sub_zero] at hv'
      show scanTail negative m start (exponentText e ++ r) = _
      rw [scanTail_of_ne (fun _ => exponentText_ne_point he hr)]
      exact scanAfterDigits_of_exponent he hr hv'

/-! ## Numerals -/

/-- The text of a number without its sign. -/
structure Numeral where
  whole : Bytes
  fraction : Option Bytes
  exponent : Option Exponent

namespace Numeral

structure WellFormed (n : Numeral) : Prop where
  digits : Digits n.whole
  nonempty : n.whole ≠ []
  /-- Only zero itself begins with a zero. -/
  leading : n.whole.head? = some 0x30 → n.whole = [0x30]
  fraction : FractionWellFormed n.fraction
  exponent : ∀ e ∈ n.exponent, e.WellFormed

def text (n : Numeral) : Bytes :=
  n.whole ++ (fractionText n.fraction ++ exponentText n.exponent)

/-- The text of a numeral begins with a digit. -/
theorem WellFormed.exists_head {n : Numeral} (h : n.WellFormed) :
    ∃ x t, n.text = x :: t ∧ IsDigit x := by
  obtain ⟨x, whole, hwhole⟩ := List.exists_cons_of_ne_nil h.nonempty
  have hdigits := h.digits
  rw [hwhole] at hdigits
  exact ⟨x, _, by rw [text, hwhole, List.cons_append], hdigits.head⟩

/-- The value of a numeral behind its sign, if there is one: an exact integer if the digits
    are all there is and all of them were absorbed, and binary64 otherwise. -/
def value? (negative : Bool) (n : Numeral) : Option Json :=
  let whole := absorb significandMax 0 n.whole
  if whole.2 = n.whole.length ∧ n.fraction = none ∧ n.exponent = none then
    some (makeInteger negative whole.1)
  else tailValue? negative whole.1 (n.whole.length - whole.2) n.fraction n.exponent

end Numeral

/-- A number without its sign, from its digits on. -/
def scanWhole (negative : Bool) (whole rest : Bytes) : Except Fault (Json × Bytes) :=
  let w := absorb significandMax 0 whole
  if w.2 = whole.length then scanAfterInteger negative w.1 rest
  else scanTail negative w.1 (whole.length - w.2) rest

/-- A digit other than zero is worth something. -/
theorem digitValue_pos (hb : IsDigit b) (hne : b ≠ 0x30) : ∃ d, digitValue b = d + 1 := by
  have hnat : b.toNat ≠ 48 := fun h => hne (UInt8.toNat_inj.mp h)
  have hlow := hb.1
  exact ⟨b.toNat - 49, by rw [digitValue]; omega⟩

/-- Digits that are too many are only counted. -/
theorem scanLong_of_drop {k : Nat} (hdrop : dropDigits s = rest)
    (hlength : s.length = k + rest.length) :
    scanLong negative m s = scanTail negative m k rest := by
  have hexponent : (s.length : Int) - rest.length = k := by omega
  simp only [scanLong, hdrop, hexponent]
  rfl

/-- The whole digits are read as one, if they have no needless zero in front. -/
theorem scanUnsigned_append (ht : Digits t) (hne : t ≠ []) (hrest : NoDigit rest)
    (hlead : t.head? = some 0x30 → t = [0x30]) :
    scanUnsigned negative (t ++ rest) = scanWhole negative t rest := by
  obtain ⟨d, t, rfl⟩ := List.exists_cons_of_ne_nil hne
  by_cases hzero : d = 0x30
  · subst hzero
    obtain ⟨-, rfl⟩ := List.cons.inj (hlead rfl)
    have hdigit : digit? 0x30 = some 0 := rfl
    have habsorb : absorb significandMax 0 [0x30] = (0, 1) := rfl
    have hpeek := peekDigit?_of_noDigit hrest
    simp only [scanWhole, habsorb, List.cons_append, List.nil_append, scanUnsigned, hdigit, hpeek]
    exact (if_pos rfl).symm
  · obtain ⟨k, hk⟩ := digitValue_pos ht.head hzero
    have hcount := absorb_digit (t := t) ht.head (show 9 ≤ significandMax by decide)
    simp only [scanWhole, hcount, List.cons_append, scanUnsigned, digit?_of_isDigit ht.head, hk]
    rcases takeDigits_cases significandMax (k + 1) ht.tail hrest 1 with
      ⟨hall, htake, hpeek⟩ | ⟨hsome, left, d', htake, hpeek, hdrop, hleft⟩
    · have heq : (absorb significandMax (k + 1) t).2 + 1 = (d :: t).length := by
        rw [hall, List.length_cons]
      simp only [htake, hpeek]
      rw [if_pos heq]
    · have hlt : ¬ (absorb significandMax (k + 1) t).2 + 1 = (d :: t).length := by
        rw [List.length_cons]
        omega
      simp only [htake, hpeek]
      rw [if_neg hlt, scanLong_of_drop hdrop hleft, List.length_cons]
      congr 1
      omega

/-- A number that stops behind its whole digits is an integer. -/
theorem scanAfterInteger_of_stops (hr : Stops r) :
    scanAfterInteger negative m r = .ok (makeInteger negative m, r) := by
  unfold scanAfterInteger
  split
  · exact absurd rfl (hr 0x2E rfl).2.1
  · exact absurd rfl (hr 0x65 rfl).2.2.1
  · exact absurd rfl (hr 0x45 rfl).2.2.2
  · rfl

/-- Whatever makes a number binary64 is read alike behind exact digits and behind others. -/
theorem scanAfterInteger_of_tail {fraction : Option Bytes} {e : Option Exponent}
    (he : ∀ x ∈ e, Exponent.WellFormed x) (hne : ¬ (fraction = none ∧ e = none)) :
    scanAfterInteger negative m (fractionText fraction ++ (exponentText e ++ r))
      = scanTail negative m 0 (fractionText fraction ++ (exponentText e ++ r)) := by
  cases fraction with
  | some t => rfl
  | none =>
      cases e with
      | none => exact absurd ⟨rfl, rfl⟩ hne
      | some e =>
          show scanAfterInteger negative m (e.mark :: (e.sign ++ e.digits ++ r))
            = scanTail negative m 0 (e.mark :: (e.sign ++ e.digits ++ r))
          rcases (he e rfl).mark with hmark | hmark
          · rw [hmark]
            rfl
          · rw [hmark]
            rfl

/-- Behind the whole digits of a number comes nothing, and then it is an integer, or a fraction or
    an exponent, and then it is a float. -/
theorem tail_of_scanAfterInteger (h : scanAfterInteger negative m s = .ok (v, r)) :
    ∃ fraction e, FractionWellFormed fraction ∧ (∀ x ∈ e, Exponent.WellFormed x)
      ∧ s = fractionText fraction ++ (exponentText e ++ r)
      ∧ ((fraction = none ∧ e = none ∧ v = makeInteger negative m)
        ∨ ¬ (fraction = none ∧ e = none) ∧ tailValue? negative m 0 fraction e = some v) := by
  have hexponent : ∀ {mark s}, (mark = 0x65 ∨ mark = 0x45) →
      scanExponent negative m 0 s = .ok (v, r) →
      ∃ fraction e, FractionWellFormed fraction ∧ (∀ x ∈ e, Exponent.WellFormed x)
        ∧ mark :: s = fractionText fraction ++ (exponentText e ++ r)
        ∧ ((fraction = none ∧ e = none ∧ v = makeInteger negative m)
          ∨ ¬ (fraction = none ∧ e = none) ∧ tailValue? negative m 0 fraction e = some v) := by
    intro mark s hmark h
    obtain ⟨e, he, hs, hv⟩ := exponent_of_scanExponent hmark h
    refine ⟨none, some e, nofun, ?_, hs, Or.inr ⟨fun hboth => (nomatch hboth.2), hv⟩⟩
    intro x hx
    obtain rfl := Option.some.inj hx
    exact he
  unfold scanAfterInteger at h
  split at h
  · obtain ⟨t, e, ht, he, hs, hv⟩ := tail_of_scanFraction h
    exact ⟨some t, e, ht, he, congrArg (List.cons 0x2E) hs,
      Or.inr ⟨fun hboth => (nomatch hboth.1), hv⟩⟩
  · exact hexponent (Or.inl rfl) h
  · exact hexponent (Or.inr rfl) h
  · cases h
    exact ⟨none, none, nofun, nofun, rfl, Or.inl ⟨rfl, rfl, rfl⟩⟩

/-- **EVERY NUMERAL WITH A VALUE IS READ**, if nothing behind it could go on with it. -/
theorem scanUnsigned_of_numeral {n : Numeral} (hn : n.WellFormed) (hr : Stops r)
    (hv : n.value? negative = some v) : scanUnsigned negative (n.text ++ r) = .ok (v, r) := by
  have hrest : NoDigit (fractionText n.fraction ++ (exponentText n.exponent ++ r)) :=
    noDigit_tail hn.exponent hr
  rw [Numeral.text, List.append_assoc, List.append_assoc,
    scanUnsigned_append hn.digits hn.nonempty hrest hn.leading, scanWhole]
  rw [Numeral.value?] at hv
  generalize absorb significandMax 0 n.whole = w at hv ⊢
  by_cases hall : w.2 = n.whole.length
  · rw [if_pos hall]
    by_cases hnone : n.fraction = none ∧ n.exponent = none
    · rw [if_pos ⟨hall, hnone⟩] at hv
      obtain rfl := Option.some.inj hv
      rw [hnone.1, hnone.2]
      exact scanAfterInteger_of_stops hr
    · rw [if_neg (fun h => hnone h.2)] at hv
      rw [hall, Int.sub_self] at hv
      rw [scanAfterInteger_of_tail hn.exponent hnone]
      exact scanTail_of_tail hn.fraction hn.exponent hr hv
  · rw [if_neg (fun h => hall h.1)] at hv
    rw [if_neg hall]
    exact scanTail_of_tail hn.fraction hn.exponent hr hv

/-- **WHAT IS READ AS A NUMBER IS A NUMERAL** with the value that was read. -/
theorem numeral_of_scanUnsigned (h : scanUnsigned negative s = .ok (v, r)) :
    ∃ n : Numeral, n.WellFormed ∧ s = n.text ++ r ∧ n.value? negative = some v := by
  obtain ⟨t, rest, rfl, ht, hrest⟩ := exists_digits s
  have hne : t ≠ [] := by
    rintro rfl
    cases rest with
    | nil => exact nomatch h
    | cons b rest =>
        simp only [List.nil_append, scanUnsigned, digit?_of_not (noDigit_cons_iff.mp hrest)] at h
        cases h
  have hlead : t.head? = some 0x30 → t = [0x30] := by
    intro hhead
    obtain ⟨d, t, rfl⟩ := List.exists_cons_of_ne_nil hne
    obtain rfl : d = 0x30 := Option.some.inj hhead
    cases t with
    | nil => rfl
    | cons d t =>
        have hzero : digit? 0x30 = some 0 := rfl
        have hpeek : peekDigit? (d :: (t ++ rest)) = some (digitValue d) :=
          digit?_of_isDigit ht.tail.head
        simp only [List.cons_append, scanUnsigned, hzero, hpeek] at h
        cases h
  rw [scanUnsigned_append ht hne hrest hlead, scanWhole] at h
  by_cases hall : (absorb significandMax 0 t).2 = t.length
  · rw [if_pos hall] at h
    obtain ⟨fraction, e, hf, he, rfl, hv⟩ := tail_of_scanAfterInteger h
    refine ⟨⟨t, fraction, e⟩, ⟨ht, hne, hlead, hf, he⟩, ?_, ?_⟩
    · rw [Numeral.text, List.append_assoc, List.append_assoc]
    · rw [Numeral.value?]
      rcases hv with ⟨hf, he, hv⟩ | ⟨hnone, hv⟩
      · rw [if_pos ⟨hall, hf, he⟩, hv]
      · rw [if_neg (fun h => hnone h.2), hall, Int.sub_self]
        exact hv
  · rw [if_neg hall] at h
    obtain ⟨fraction, e, hf, he, rfl, hv⟩ := tail_of_scanTail h
    refine ⟨⟨t, fraction, e⟩, ⟨ht, hne, hlead, hf, he⟩, ?_, ?_⟩
    · rw [Numeral.text, List.append_assoc, List.append_assoc]
    · rw [Numeral.value?, if_neg (fun h => hall h.1)]
      exact hv

end PhaseHost.Json
