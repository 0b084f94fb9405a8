import Mathlib.Algebra.Group.Int.Defs
import Mathlib.Algebra.Group.Nat.Defs
import PhaseHost.Json.Printer
import PhaseHost.Proofs.Json.Documents
import PhaseHost.Proofs.Json.Records

/-! # What is written is read back

    The text of a value spells that value: strings by the escapes they are written with,
    integers digit by digit, arrays and objects without blanks.

    Binary64 numbers are left out: the shortest digits of a number need not give the same
    number back.  So are integers beyond sixty-four bits, which no text spells exactly.

    An object is written in the order that its fields have, and spells the fields in the
    order of their keys; so what is said of lists and objects is said for parts whose text
    spells something, be it themselves or not. -/

namespace PhaseHost.Json

open Utf8 (encodeChars encodeChars_cons encodeChars_append)

/-! ## Strings -/

/-- A character of ASCII is written as its byte. -/
theorem encodeChars_ascii {c : Char} {cs : List Char} {x : UInt8}
    (h : String.utf8EncodeChar c = [x]) : encodeChars (c :: cs) = x :: encodeChars cs := by
  rw [encodeChars_cons, h, List.singleton_append]

/-- A digit of base sixteen is one byte, and it is read with its value. -/
theorem value?_digit {d : Nat} (h : d < 16) :
    ∃ x, String.utf8EncodeChar (Hex.digit d) = [x] ∧ Hex.value? x.toNat = some d := by
  have hall : ∀ k : Fin 16, String.utf8EncodeChar (Hex.digit k.val)
        = [UInt8.ofNat (Hex.digit k.val).toNat]
      ∧ Hex.value? (UInt8.ofNat (Hex.digit k.val).toNat).toNat = some k.val := by
    decide
  exact ⟨_, hall ⟨d, h⟩⟩

/-- Control characters without a letter of their own are written in base sixteen. -/
theorem escape_control {n : Nat} (h : n < 0x20) :
    Escape (encodeChars ['u', '0', '0', Hex.digit (n / 16), Hex.digit (n % 16)])
      (Char.ofNat n) := by
  obtain ⟨x, hx, hvalue⟩ := value?_digit (d := n / 16) (by omega)
  obtain ⟨y, hy, hvalue'⟩ := value?_digit (d := n % 16) (by omega)
  have hbytes : encodeChars ['u', '0', '0', Hex.digit (n / 16), Hex.digit (n % 16)]
      = [0x75, 0x30, 0x30, x, y] := by
    rw [encodeChars_ascii (x := 0x75) rfl, encodeChars_ascii (x := 0x30) rfl,
      encodeChars_ascii (x := 0x30) rfl, encodeChars_ascii hx, encodeChars_ascii hy]
    rfl
  have hzero : Hex.value? (0x30 : UInt8).toNat = some 0 := rfl
  have hquad : hexQuad? 0x30 0x30 x y = some n := by
    simp only [hexQuad?, hzero, hvalue, hvalue', Option.some.injEq]
    omega
  rw [hbytes]
  exact .unicode hquad (Or.inl (by omega))

/-- A character is written as one piece. -/
theorem piece_escape (c : Char) : Piece (encodeChars (escape c)) c := by
  have hshort : ∀ {letter : Char} {x : UInt8} {c : Char}, String.utf8EncodeChar letter = [x] →
      (x, c) ∈ shortEscapes → Piece (encodeChars ['\\', letter]) c := by
    intro letter x c hletter hlisted
    have hbytes : encodeChars ['\\', letter] = [0x5C, x] := by
      rw [encodeChars_ascii (x := 0x5C) rfl, encodeChars_ascii hletter]
      rfl
    rw [hbytes]
    exact .escape (.short hlisted)
  unfold escape
  split
  · exact hshort (x := 0x22) rfl (by decide)
  · exact hshort (x := 0x5C) rfl (by decide)
  · exact hshort (x := 0x62) rfl (by decide)
  · exact hshort (x := 0x74) rfl (by decide)
  · exact hshort (x := 0x6E) rfl (by decide)
  · exact hshort (x := 0x66) rfl (by decide)
  · exact hshort (x := 0x72) rfl (by decide)
  · next hquote hback _ _ _ _ _ =>
      split
      · next hlow =>
          have hescape := escape_control hlow
          rw [Char.ofNat_toNat] at hescape
          rw [encodeChars_ascii (x := 0x5C) rfl]
          exact .escape hescape
      · next hlow =>
          rw [encodeChars_cons, Utf8.encodeChars_nil, List.append_nil]
          exact .plain (Nat.le_of_not_lt hlow) hquote hback

/-- Escaped characters are the inside of a string. -/
theorem body_escape (cs : List Char) : Body (encodeChars (cs.flatMap escape)) cs := by
  induction cs with
  | nil => exact .nil
  | cons c cs ih =>
      rw [List.flatMap_cons, encodeChars_append]
      exact .cons (piece_escape c) ih

/-- The bytes of a string with its quotes. -/
theorem encodeChars_quote (s : String) :
    encodeChars (quote s) = 0x22 :: (encodeChars (s.toList.flatMap escape) ++ [0x22]) := by
  rw [quote, encodeChars_ascii (x := 0x22) rfl, encodeChars_append]
  rfl

/-- A quoted text spells its string. -/
theorem scalar_str (s : String) : Scalar (encodeChars (chars (.str s))) (.str s) := by
  show Scalar (encodeChars (quote s)) _
  rw [encodeChars_quote]
  exact .text (body_escape s.toList)

/-! ## Integers -/

/-- A digit of base ten is one byte. -/
theorem digit_digitChar {d : Nat} (h : d < 10) :
    ∃ x, String.utf8EncodeChar d.digitChar = [x] ∧ IsDigit x ∧ digitValue x = d := by
  have hall : ∀ k : Fin 10, String.utf8EncodeChar k.val.digitChar
        = [UInt8.ofNat k.val.digitChar.toNat]
      ∧ IsDigit (UInt8.ofNat k.val.digitChar.toNat)
      ∧ digitValue (UInt8.ofNat k.val.digitChar.toNat) = k.val := by
    decide
  exact ⟨_, hall ⟨d, h⟩⟩

/-- The digits of a number as bytes. -/
def digitBytes (n : Nat) : Bytes :=
  encodeChars (Decimal.digitChars n)

/-- A number below ten is its digit; any other is the digits of its tenth and one more. -/
theorem digitBytes_cases (n : Nat) : ∃ x, IsDigit x ∧ digitValue x = n % 10
    ∧ (n < 10 ∧ digitBytes n = [x] ∨ 10 ≤ n ∧ digitBytes n = digitBytes (n / 10) ++ [x]) := by
  obtain ⟨x, hx, hdigit, hvalue⟩ := digit_digitChar (Nat.mod_lt n (show 10 > 0 by decide))
  have hone : encodeChars [(n % 10).digitChar] = [x] := by
    rw [encodeChars_ascii hx]
    rfl
  refine ⟨x, hdigit, hvalue, ?_⟩
  rw [digitBytes, Decimal.digitChars, Nat.toDigits_eq_if (by decide)]
  by_cases h : n < 10
  · rw [if_pos h]
    rw [Nat.mod_eq_of_lt h] at hone
    exact Or.inl ⟨h, hone⟩
  · rw [if_neg h, encodeChars_append, hone]
    exact Or.inr ⟨Nat.le_of_not_lt h, rfl⟩

/-- The digits of a number are digits, one at least, and only zero begins with a zero. -/
theorem digits_digitBytes (n : Nat) : Digits (digitBytes n) ∧ digitBytes n ≠ []
    ∧ ((digitBytes n).head? = some 0x30 → n = 0) := by
  induction n using Nat.strongRecOn with
  | ind n ih =>
      obtain ⟨x, hx, hvalue, ⟨hlt, hbytes⟩ | ⟨hge, hbytes⟩⟩ := digitBytes_cases n
      · rw [hbytes]
        refine ⟨List.forall_mem_singleton.mpr hx, nofun, ?_⟩
        intro hhead
        obtain rfl : x = 0x30 := Option.some.inj hhead
        have hzero : digitValue 0x30 = 0 := rfl
        omega
      · obtain ⟨hdigits, hne, hhead⟩ := ih (n / 10) (by omega)
        rw [hbytes]
        refine ⟨List.forall_mem_append.mpr ⟨hdigits, List.forall_mem_singleton.mpr hx⟩, ?_, ?_⟩
        · exact fun h => hne (List.append_eq_nil_iff.mp h).1
        · intro h
          obtain ⟨y, ys, hys⟩ := List.exists_cons_of_ne_nil hne
          rw [hys] at h hhead
          have hzero : n / 10 = 0 := hhead h
          omega

/-- Digits that fit are absorbed before those behind them. -/
theorem absorb_append {limit value m : Nat} {t t' : Bytes}
    (h : absorb limit value t = (m, t.length)) :
    absorb limit value (t ++ t') = ((absorb limit m t').1, t.length + (absorb limit m t').2) := by
  induction t generalizing value with
  | nil =>
      obtain ⟨rfl, -⟩ := Prod.mk.inj h
      rw [List.nil_append, List.length_nil, Nat.zero_add]
  | cons b t ih =>
      simp only [absorb, List.cons_append, List.length_cons] at h ⊢
      split at h
      · cases (Prod.mk.inj h).2
      · next hlimit =>
          obtain ⟨hvalue, hcount⟩ := Prod.mk.inj h
          have hall := ih (Prod.ext hvalue (Nat.succ.inj hcount))
          rw [if_neg hlimit, hall, Nat.add_right_comm]

/-- All digits of a number within the limit are absorbed, and they make the number. -/
theorem absorb_digitBytes {limit n : Nat} (h : n ≤ limit) :
    absorb limit 0 (digitBytes n) = (n, (digitBytes n).length) := by
  induction n using Nat.strongRecOn with
  | ind n ih =>
      obtain ⟨x, hx, hvalue, ⟨hlt, hbytes⟩ | ⟨hge, hbytes⟩⟩ := digitBytes_cases n
      · rw [hbytes, absorb, if_neg (by omega), Nat.zero_mul, Nat.zero_add, hvalue,
          Nat.mod_eq_of_lt hlt]
        rfl
      · have htenth := ih (n / 10) (by omega) (by omega)
        have hnext : n / 10 * 10 + digitValue x = n := by omega
        rw [hbytes, absorb_append htenth, absorb, hnext, if_neg (by omega), List.length_append]
        rfl

/-- The numeral of a natural number. -/
def numeral (n : Nat) : Numeral :=
  ⟨digitBytes n, none, none⟩

/-- The numeral of a number has its digits for a text. -/
theorem text_numeral (n : Nat) : (numeral n).text = digitBytes n :=
  List.append_nil _

/-- The numeral of a number has no needless zero. -/
theorem wellFormed_numeral (n : Nat) : (numeral n).WellFormed := by
  obtain ⟨hdigits, hne, hhead⟩ := digits_digitBytes n
  refine ⟨hdigits, hne, ?_, nofun, nofun⟩
  intro h
  rw [hhead h]
  rfl

/-- The numeral of a number that fits has the number for its value. -/
theorem value?_numeral {negative : Bool} {n : Nat} (h : n ≤ significandMax) :
    (numeral n).value? negative = some (makeInteger negative n) := by
  have habsorb := absorb_digitBytes h
  have hall : (absorb significandMax 0 (numeral n).whole).2 = (numeral n).whole.length :=
    congrArg Prod.snd habsorb
  have hvalue : (absorb significandMax 0 (numeral n).whole).1 = n := congrArg Prod.fst habsorb
  rw [Numeral.value?, if_pos ⟨hall, rfl, rfl⟩, hvalue]

/-- The integers that are written so that they are read back. -/
def IsExact (i : Int) : Prop :=
  -(2 ^ 63) ≤ i ∧ i < 2 ^ 64

/-- An exact integer is spelled by what is written for it. -/
theorem scalar_int {i : Int} (h : IsExact i) : Scalar (encodeChars (chars (.int i))) (.int i) := by
  cases i with
  | ofNat n =>
      have hn : n ≤ significandMax := by
        have h₂ : (n : Int) < 2 ^ 64 := h.2
        rw [significandMax]
        omega
      have hscalar := Scalar.number (wellFormed_numeral n) (value?_numeral hn)
      rw [text_numeral] at hscalar
      exact hscalar
  | negSucc n =>
      have hsmall : n + 1 ≤ 2 ^ 63 := by
        have h₁ : -(2 ^ 63) ≤ Int.negSucc n := h.1
        omega
      have hn : n + 1 ≤ significandMax := by
        rw [significandMax]
        omega
      have hvalue : makeInteger true (n + 1) = .int (Int.negSucc n) := by
        rw [makeInteger, if_pos rfl, if_neg (by omega)]
        rfl
      have hscalar := Scalar.negative (wellFormed_numeral (n + 1)) (value?_numeral hn)
      rw [text_numeral, hvalue] at hscalar
      have hbytes : encodeChars (chars (.int (Int.negSucc n))) = 0x2D :: digitBytes (n + 1) :=
        encodeChars_ascii rfl
      rw [hbytes]
      exact hscalar

/-! ## Lists -/

variable {depth : Nat} {v : Json} {Kind : Bytes → Json → Prop}

/-- What is written for further parts of an array lists them, as texts of any kind. -/
theorem further_itemChars {α : Type} (xs : List α) {written spelled : α → Json}
    (h : ∀ x ∈ xs, Kind (encodeChars (chars (written x))) (spelled x)) :
    Further Kind 0x5D (encodeChars (itemChars (xs.map written))) (xs.map spelled) := by
  induction xs with
  | nil => exact .done Blank.nil
  | cons x xs ih =>
      obtain ⟨hx, hxs⟩ := List.forall_mem_cons.mp h
      have hbytes : encodeChars (itemChars ((x :: xs).map written))
          = [] ++ 0x2C :: ([] ++ (encodeChars (chars (written x))
              ++ encodeChars (itemChars (xs.map written)))) := by
        rw [List.map_cons, itemChars, encodeChars_ascii (x := 0x2C) rfl, encodeChars_append]
        rfl
      rw [hbytes]
      exact .more Blank.nil Blank.nil hx (ih hxs)

/-- What is written for an array lists its items. -/
theorem listed_itemChars {α : Type} (xs : List α) {written spelled : α → Json}
    (h : ∀ x ∈ xs, Kind (encodeChars (chars (written x))) (spelled x)) :
    ∃ r, Listed Kind 0x5D r (xs.map spelled)
      ∧ encodeChars (chars (.arr (xs.map written))) = 0x5B :: r := by
  cases xs with
  | nil => exact ⟨[0x5D], .empty Blank.nil, rfl⟩
  | cons x xs =>
      obtain ⟨hx, hxs⟩ := List.forall_mem_cons.mp h
      refine ⟨_, .items Blank.nil hx (further_itemChars xs hxs), ?_⟩
      rw [List.map_cons, chars, encodeChars_ascii (x := 0x5B) rfl, encodeChars_append]
      rfl

/-- An array is written so that it spells what its parts spell. -/
theorem spells_arr {α : Type} (xs : List α) {written spelled : α → Json}
    (h : ∀ x ∈ xs, Spells depth (encodeChars (chars (written x))) (spelled x)) :
    Spells (depth + 1) (encodeChars (chars (.arr (xs.map written)))) (.arr (xs.map spelled)) := by
  obtain ⟨r, hr, hbytes⟩ := listed_itemChars xs h
  exact Or.inr (Or.inl ⟨r, _, hr, hbytes, rfl⟩)

/-- A field is written as a member. -/
theorem member_quote {key : String} (h : Kind (encodeChars (chars v)) v) :
    Member Kind (encodeChars (quote key ++ ':' :: chars v)) (key, v) := by
  have hbytes : encodeChars (quote key ++ ':' :: chars v)
      = 0x22 :: (encodeChars (key.toList.flatMap escape)
          ++ 0x22 :: ([] ++ 0x3A :: ([] ++ encodeChars (chars v)))) := by
    rw [encodeChars_append, encodeChars_quote, encodeChars_ascii (x := 0x3A) rfl]
    simp only [List.cons_append, List.append_assoc, List.nil_append]
  rw [hbytes]
  exact .mk (body_escape key.toList) Blank.nil Blank.nil h

/-- What is written behind the first field lists the others. -/
theorem further_fieldChars {pairs : List (String × Json)}
    (h : ∀ p ∈ pairs, Kind (encodeChars (chars p.2)) p.2) :
    Further (Member Kind) 0x7D (encodeChars (fieldChars pairs)) pairs := by
  induction pairs with
  | nil => exact .done Blank.nil
  | cons p pairs ih =>
      obtain ⟨key, v⟩ := p
      obtain ⟨hv, hpairs⟩ := List.forall_mem_cons.mp h
      have hbytes : encodeChars (fieldChars ((key, v) :: pairs))
          = [] ++ 0x2C :: ([] ++ (encodeChars (quote key ++ ':' :: chars v)
              ++ encodeChars (fieldChars pairs))) := by
        rw [fieldChars, encodeChars_ascii (x := 0x2C) rfl, ← encodeChars_append, List.append_assoc]
        rfl
      rw [hbytes]
      exact .more Blank.nil Blank.nil (member_quote hv) (ih hpairs)

/-- The fields of an object are written as members, in the order they have. -/
theorem listed_fieldChars {pairs : List (String × Json)}
    (h : ∀ p ∈ pairs, Kind (encodeChars (chars p.2)) p.2) :
    ∃ r, Listed (Member Kind) 0x7D r pairs
      ∧ encodeChars (chars (.obj pairs)) = 0x7B :: r := by
  cases pairs with
  | nil => exact ⟨[0x7D], .empty Blank.nil, rfl⟩
  | cons p pairs =>
      obtain ⟨key, v⟩ := p
      obtain ⟨hv, hpairs⟩ := List.forall_mem_cons.mp h
      refine ⟨_, .items Blank.nil (member_quote hv) (further_fieldChars hpairs), ?_⟩
      rw [chars, encodeChars_ascii (x := 0x7B) rfl, List.nil_append, ← encodeChars_append,
        List.append_assoc]
      rfl

/-- Whatever the order in which fields are written, they spell the object that has them. -/
theorem spells_obj {pairs : List (String × Json)}
    (h : ∀ p ∈ pairs, Spells depth (encodeChars (chars p.2)) p.2) :
    Spells (depth + 1) (encodeChars (chars (.obj pairs))) (ofPairs pairs) := by
  obtain ⟨r, hr, hbytes⟩ := listed_fieldChars h
  exact Or.inr (Or.inr ⟨r, pairs, _, hr, Fields.gathers_ofList pairs, hbytes, rfl⟩)

/-! ## Values -/

/-- A value without parts that is written exactly. -/
def ExactScalar : Json → Prop
  | .null => True
  | .bool _ => True
  | .str _ => True
  | .int i => IsExact i
  | _ => False

/-- A value that is written exactly, and nests no deeper than a bound. -/
def Exact : Nat → Json → Prop
  | depth + 1, .arr items => ∀ v ∈ items, Exact depth v
  | depth + 1, .obj fields => Fields.Ascending fields ∧ ∀ p ∈ fields, Exact depth p.2
  | _, v => ExactScalar v

theorem exact_str (s : String) : Exact depth (.str s) := by
  cases depth with
  | zero => exact trivial
  | succ depth => exact trivial

/-- A number of thirty-two bits is written exactly. -/
theorem exact_uint32 (n : UInt32) : Exact depth (ofNat n.toNat) := by
  have hexact : IsExact (n.toNat : Int) := by
    have hlt := n.toNat_lt
    rw [IsExact]
    omega
  cases depth with
  | zero => exact hexact
  | succ depth => exact hexact

/-- An object that is made of fields which are written exactly is written exactly. -/
theorem exact_ofPairs {pairs : List (String × Json)} (h : ∀ p ∈ pairs, Exact depth p.2) :
    Exact (depth + 1) (ofPairs pairs) :=
  ⟨Fields.ascending_ofList pairs, fun p hp => h p (Fields.mem_of_mem_ofList hp)⟩

/-- Exact scalars are spelled by what is written for them. -/
theorem scalar_of_exactScalar (h : ExactScalar v) : Scalar (encodeChars (chars v)) v := by
  cases v with
  | null => exact .null
  | bool b =>
      cases b with
      | true => exact .true
      | false => exact .false
  | str s => exact scalar_str s
  | int i => exact scalar_int h
  | float bits => exact h.elim
  | arr items => exact h.elim
  | obj fields => exact h.elim

/-- **WHAT IS WRITTEN SPELLS THE VALUE** it was written for. -/
theorem spells_chars (h : Exact depth v) : Spells depth (encodeChars (chars v)) v := by
  induction depth generalizing v with
  | zero =>
      have hscalar : ExactScalar v := by
        cases v with
        | arr items => exact h
        | obj fields => exact h
        | null => exact h
        | bool b => exact h
        | int i => exact h
        | float bits => exact h
        | str s => exact h
      exact scalar_of_exactScalar hscalar
  | succ depth ih =>
      cases v with
      | arr items =>
          have hitems : Spells (depth + 1) (encodeChars (chars (.arr (items.map id))))
              (.arr (items.map id)) :=
            spells_arr items (fun v hv => ih (h v hv))
          rwa [List.map_id] at hitems
      | obj fields =>
          have hfields := spells_obj (fun p hp => ih (h.2 p hp))
          rwa [ofPairs, Fields.ofList_eq_self h.1] at hfields
      | null => exact (scalar_of_exactScalar (v := .null) h).spells
      | bool b => exact (scalar_of_exactScalar (v := .bool b) h).spells
      | int i => exact (scalar_of_exactScalar (v := .int i) h).spells
      | float bits => exact (scalar_of_exactScalar (v := .float bits) h).spells
      | str s => exact (scalar_of_exactScalar (v := .str s) h).spells

/-- What spells a value is a document of it. -/
theorem document_of_spells {t : Bytes} (h : Spells maxDepth t v) : Document t v :=
  ⟨[], t, [], Blank.nil, h, Blank.nil, (List.append_nil t).symm⟩

/-- What is written for a value is a document of that value. -/
theorem document_render (h : Exact maxDepth v) : Document (Utf8.encode v.render) v := by
  rw [render, Utf8.encode_ofList]
  exact document_of_spells (spells_chars h)

end PhaseHost.Json
