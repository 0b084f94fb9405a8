import PhaseHost.Json.Reader
import PhaseHost.Proofs.Text.Utf8

/-! # Strings

    A string is characters in a row, each as it is or as an escape.  The reader works on
    bytes and looks at their characters only at the end, so a character may come about in
    two ways, and it has to be seen that they do not mix: no character is put together
    from raw bytes and an escape. -/

namespace PhaseHost.Json

/-! ## The format -/

/-- The letters that escape a character, each with its character. -/
def shortEscapes : List (UInt8 × Char) :=
  [(0x22, '"'), (0x5C, '\\'), (0x2F, '/'), (0x62, '\x08'), (0x66, '\x0c'), (0x6E, '\n'),
    (0x72, '\r'), (0x74, '\t')]

/-- An escape, from behind its backslash, and the character it stands for. -/
inductive Escape : Bytes → Char → Prop
  | short {letter : UInt8} {c : Char} (listed : (letter, c) ∈ shortEscapes) : Escape [letter] c
  | unicode {h₁ h₂ h₃ h₄ : UInt8} {n : Nat} (quad : hexQuad? h₁ h₂ h₃ h₄ = some n)
    (whole : n < 0xD800 ∨ 0xDFFF < n) : Escape [0x75, h₁, h₂, h₃, h₄] (Char.ofNat n)
  /-- A character beyond the basic plane takes two halves. -/
  | pair {h₁ h₂ h₃ h₄ l₁ l₂ l₃ l₄ : UInt8} {high low : Nat}
    (quad : hexQuad? h₁ h₂ h₃ h₄ = some high) (isHigh : 0xD800 ≤ high ∧ high ≤ 0xDBFF)
    (quad' : hexQuad? l₁ l₂ l₃ l₄ = some low) (isLow : 0xDC00 ≤ low ∧ low ≤ 0xDFFF) :
    Escape [0x75, h₁, h₂, h₃, h₄, 0x5C, 0x75, l₁, l₂, l₃, l₄]
      (Char.ofNat (0x10000 + (high - 0xD800) * 0x400 + (low - 0xDC00)))

/-- The text of one character within a string. -/
inductive Piece : Bytes → Char → Prop
  | plain {c : Char} (printable : 0x20 ≤ c.toNat) (quote : c ≠ '"') (backslash : c ≠ '\\') :
    Piece (String.utf8EncodeChar c) c
  | escape {e : Bytes} {c : Char} (h : Escape e c) : Piece (0x5C :: e) c

/-- The text between the quotes of a string, and its characters. -/
inductive Body : Bytes → List Char → Prop
  | nil : Body [] []
  | cons {p t : Bytes} {c : Char} {cs : List Char} (piece : Piece p c) (body : Body t cs) :
    Body (p ++ t) (c :: cs)

variable {e t out acc s rest bytes : Bytes} {c : Char} {cs : List Char}

/-! ## Escapes -/

/-- Four hexadecimal digits are read, and nothing else. -/
theorem scanHexQuad_eq_ok_iff {n : Nat} :
    scanHexQuad s = .ok (n, rest)
      ↔ ∃ h₁ h₂ h₃ h₄, hexQuad? h₁ h₂ h₃ h₄ = some n ∧ s = h₁ :: h₂ :: h₃ :: h₄ :: rest := by
  constructor
  · intro h
    unfold scanHexQuad at h
    split at h
    · next h₁ h₂ h₃ h₄ rest' =>
        cases hquad : hexQuad? h₁ h₂ h₃ h₄ with
        | none =>
            rw [hquad] at h
            cases h
        | some k =>
            rw [hquad] at h
            cases h
            exact ⟨h₁, h₂, h₃, h₄, hquad, rfl⟩
    · cases h
  · rintro ⟨h₁, h₂, h₃, h₄, hquad, rfl⟩
    simp only [scanHexQuad, hquad]

theorem lowSurrogate_of_scan {high : Nat} (h : scanLowSurrogate high s = .ok (bytes, rest)) :
    ∃ l₁ l₂ l₃ l₄ low, hexQuad? l₁ l₂ l₃ l₄ = some low ∧ (0xDC00 ≤ low ∧ low ≤ 0xDFFF)
      ∧ s = 0x5C :: 0x75 :: l₁ :: l₂ :: l₃ :: l₄ :: rest
      ∧ bytes = codePoint (0x10000 + (high - 0xD800) * 0x400 + (low - 0xDC00)) := by
  unfold scanLowSurrogate at h
  split at h
  · cases h
  · cases h
  · next s' =>
      cases hscan : scanHexQuad s' with
      | error fault =>
          rw [hscan] at h
          cases h
      | ok p =>
          obtain ⟨low, rest'⟩ := p
          rw [hscan] at h
          obtain ⟨l₁, l₂, l₃, l₄, hquad, rfl⟩ := scanHexQuad_eq_ok_iff.mp hscan
          replace h : (if 0xDC00 ≤ low ∧ low ≤ 0xDFFF then
              .ok (codePoint (0x10000 + (high - 0xD800) * 0x400 + (low - 0xDC00)), rest')
            else .error (.taken .loneSurrogate rest') : Except Fault _) = _ := h
          split at h
          · next hlow =>
              obtain ⟨rfl, rfl⟩ := Prod.mk.inj (Except.ok.inj h)
              exact ⟨l₁, l₂, l₃, l₄, low, hquad, hlow, rfl, rfl⟩
          · cases h
  · cases h
  · cases h

/-- What is read behind `u` is an escape of one character. -/
theorem escape_of_scanUnicode (h : scanUnicode s = .ok (bytes, rest)) :
    ∃ e c, Escape (0x75 :: e) c ∧ s = e ++ rest ∧ bytes = String.utf8EncodeChar c := by
  cases hscan : scanHexQuad s with
  | error fault =>
      rw [scanUnicode, hscan] at h
      cases h
  | ok p =>
      obtain ⟨n, rest'⟩ := p
      obtain ⟨h₁, h₂, h₃, h₄, hquad, rfl⟩ := scanHexQuad_eq_ok_iff.mp hscan
      rw [scanUnicode, hscan] at h
      replace h : (if 0xDC00 ≤ n ∧ n ≤ 0xDFFF then .error (.taken .loneSurrogate rest')
        else if 0xD800 ≤ n ∧ n ≤ 0xDBFF then scanLowSurrogate n rest'
        else .ok (codePoint n, rest') : Except Fault _) = _ := h
      split at h
      · cases h
      · next hlow =>
          split at h
          · next hhigh =>
              obtain ⟨l₁, l₂, l₃, l₄, low, hquad', hlow', rfl, hbytes⟩ := lowSurrogate_of_scan h
              exact ⟨_, _, .pair hquad hhigh hquad' hlow', rfl, hbytes⟩
          · next hhigh =>
              obtain ⟨rfl, rfl⟩ := Prod.mk.inj (Except.ok.inj h)
              exact ⟨_, _, .unicode hquad (by omega), rfl, rfl⟩

/-- A byte that is seen as a character is the byte of that character. -/
theorem eq_of_ofUInt8 {b : UInt8} {c : Char} (h : Char.ofUInt8 b = c) :
    b = UInt8.ofNat c.toNat := by
  rw [← h]
  exact UInt8.toNat_inj.mp (Utf8.toNat_byte b.toNat_lt).symm

/-- A letter of a short escape is read as its character. -/
theorem encode_short {letter : UInt8} (h : (letter, c) ∈ shortEscapes) (rest : Bytes) :
    scanEscape (letter :: rest) = .ok (String.utf8EncodeChar c, rest) := by
  simp only [shortEscapes, List.mem_cons, Prod.mk.injEq, List.not_mem_nil, or_false] at h
  rcases h with ⟨rfl, rfl⟩ | ⟨rfl, rfl⟩ | ⟨rfl, rfl⟩ | ⟨rfl, rfl⟩ | ⟨rfl, rfl⟩ | ⟨rfl, rfl⟩
    | ⟨rfl, rfl⟩ | ⟨rfl, rfl⟩
  all_goals rfl

/-- What is read as an escape is one. -/
theorem escape_of_scanEscape (h : scanEscape s = .ok (bytes, rest)) :
    ∃ e c, Escape e c ∧ s = e ++ rest ∧ bytes = String.utf8EncodeChar c := by
  cases s with
  | nil => cases h
  | cons b s =>
      have hshort : ∀ {c}, (b, c) ∈ shortEscapes →
          ∃ e c, Escape e c ∧ b :: s = e ++ rest ∧ bytes = String.utf8EncodeChar c := by
        intro c hlisted
        rw [encode_short hlisted] at h
        cases h
        exact ⟨[b], c, .short hlisted, rfl, rfl⟩
      unfold scanEscape at h
      simp only at h
      split at h
      · next hb => exact hshort (c := '"') (eq_of_ofUInt8 hb ▸ by decide)
      · next hb => exact hshort (c := '\\') (eq_of_ofUInt8 hb ▸ by decide)
      · next hb => exact hshort (c := '/') (eq_of_ofUInt8 hb ▸ by decide)
      · next hb => exact hshort (c := '\x08') (eq_of_ofUInt8 hb ▸ by decide)
      · next hb => exact hshort (c := '\x0c') (eq_of_ofUInt8 hb ▸ by decide)
      · next hb => exact hshort (c := '\n') (eq_of_ofUInt8 hb ▸ by decide)
      · next hb => exact hshort (c := '\r') (eq_of_ofUInt8 hb ▸ by decide)
      · next hb => exact hshort (c := '\t') (eq_of_ofUInt8 hb ▸ by decide)
      · next hb =>
          obtain ⟨e, c, hescape, rfl, hbytes⟩ := escape_of_scanUnicode h
          have hu : b = 0x75 := eq_of_ofUInt8 hb
          exact ⟨0x75 :: e, c, hescape, by rw [hu, List.cons_append], hbytes⟩
      · cases h

/-- Every escape is read. -/
theorem scanEscape_of_escape (h : Escape e c) (rest : Bytes) :
    scanEscape (e ++ rest) = .ok (String.utf8EncodeChar c, rest) := by
  cases h with
  | short listed => exact encode_short listed rest
  | @unicode h₁ h₂ h₃ h₄ n quad whole =>
      have hscan : scanHexQuad (h₁ :: h₂ :: h₃ :: h₄ :: rest) = .ok (n, rest) :=
        scanHexQuad_eq_ok_iff.mpr ⟨h₁, h₂, h₃, h₄, quad, rfl⟩
      show scanUnicode (h₁ :: h₂ :: h₃ :: h₄ :: rest) = _
      rw [scanUnicode, hscan]
      show (if _ then _ else if _ then _ else _ : Except Fault (Bytes × Bytes)) = _
      rw [if_neg (by omega), if_neg (by omega)]
      rfl
  | @pair h₁ h₂ h₃ h₄ l₁ l₂ l₃ l₄ high low quad isHigh quad' isLow =>
      have hscan : ∀ s, scanHexQuad (h₁ :: h₂ :: h₃ :: h₄ :: s) = .ok (high, s) :=
        fun s => scanHexQuad_eq_ok_iff.mpr ⟨h₁, h₂, h₃, h₄, quad, rfl⟩
      have hscan' : scanHexQuad (l₁ :: l₂ :: l₃ :: l₄ :: rest) = .ok (low, rest) :=
        scanHexQuad_eq_ok_iff.mpr ⟨l₁, l₂, l₃, l₄, quad', rfl⟩
      show scanUnicode (h₁ :: h₂ :: h₃ :: h₄ :: 0x5C :: 0x75 :: l₁ :: l₂ :: l₃ :: l₄ :: rest) = _
      rw [scanUnicode, hscan]
      show (if _ then _ else if _ then _ else _ : Except Fault (Bytes × Bytes)) = _
      rw [if_neg (by omega), if_pos isHigh]
      show (scanHexQuad _ >>= _) = _
      rw [hscan']
      exact if_pos isLow

/-! ## What the bytes of a character look like -/

/-- A byte that continues a character. -/
def Continues (b : UInt8) : Prop :=
  0x80 ≤ b.toNat ∧ b.toNat < 0xC0

/-- A character is one byte with its number, or a first byte and others that continue it. -/
theorem encodeChar_shape (c : Char) : ∃ lead conts, String.utf8EncodeChar c = lead :: conts
    ∧ (∀ k ∈ conts, Continues k)
    ∧ (lead.toNat = c.toNat ∧ c.toNat < 0x80 ∧ conts = []
      ∨ 0xC0 ≤ lead.toNat ∧ 0x80 ≤ c.toNat) := by
  have hvalid := Utf8.toNat_valid c
  have hval : c.val.toNat = c.toNat := rfl
  have hcont : ∀ n, Continues (UInt8.ofNat (n % 64 + 128)) := by
    intro n
    rw [Continues, Utf8.toNat_byte (by omega)]
    omega
  simp only [String.utf8EncodeChar, hval]
  by_cases h₁ : c.toNat ≤ 127
  · rw [if_pos h₁]
    exact ⟨_, _, rfl, nofun, Or.inl ⟨Utf8.toNat_byte (by omega), by omega, rfl⟩⟩
  · rw [if_neg h₁]
    by_cases h₂ : c.toNat ≤ 2047
    · rw [if_pos h₂]
      refine ⟨_, _, rfl, List.forall_mem_singleton.mpr (hcont _), Or.inr ⟨?_, by omega⟩⟩
      rw [Utf8.toNat_byte (by omega)]
      omega
    · rw [if_neg h₂]
      by_cases h₃ : c.toNat ≤ 65535
      · rw [if_pos h₃]
        refine ⟨_, _, rfl, List.forall_mem_cons.mpr ⟨hcont _,
          List.forall_mem_singleton.mpr (hcont _)⟩, Or.inr ⟨?_, by omega⟩⟩
        rw [Utf8.toNat_byte (by omega)]
        omega
      · rw [if_neg h₃]
        refine ⟨_, _, rfl, List.forall_mem_cons.mpr ⟨hcont _, List.forall_mem_cons.mpr ⟨hcont _,
          List.forall_mem_singleton.mpr (hcont _)⟩⟩, Or.inr ⟨?_, by omega⟩⟩
        rw [Utf8.toNat_byte (by omega)]
        omega

/-! ## The bytes between the quotes -/

/-- A byte that stands for itself. -/
def Ordinary (b : UInt8) : Prop :=
  0x20 ≤ b.toNat ∧ b ≠ 0x22 ∧ b ≠ 0x5C

/-- The bytes between the quotes, and those they stand for. -/
inductive Raw : Bytes → Bytes → Prop
  | nil : Raw [] []
  | plain {b : UInt8} {t out : Bytes} (ordinary : Ordinary b) (raw : Raw t out) :
    Raw (b :: t) (b :: out)
  | escape {e t out : Bytes} {c : Char} (h : Escape e c) (raw : Raw t out) :
    Raw (0x5C :: (e ++ t)) (String.utf8EncodeChar c ++ out)

/-- What is read as a string is one up to its quote. -/
theorem raw_of_scan {n : Nat} (h : scanStringBytes n acc s = .ok (bytes, rest)) :
    ∃ t out, Raw t out ∧ s = t ++ 0x22 :: rest ∧ bytes = acc.reverse ++ out := by
  induction n generalizing acc s with
  | zero => cases h
  | succ n ih =>
      cases s with
      | nil => cases h
      | cons b s =>
          simp only [scanStringBytes] at h
          split at h
          · next hquote =>
              cases h
              exact ⟨[], [], .nil, by rw [hquote, List.nil_append], (List.append_nil _).symm⟩
          · next hquote =>
              split at h
              · next hback =>
                  cases hescape : scanEscape s with
                  | error fault =>
                      rw [hescape] at h
                      cases h
                  | ok p =>
                      obtain ⟨bs, s'⟩ := p
                      rw [hescape] at h
                      obtain ⟨e, c, he, rfl, rfl⟩ := escape_of_scanEscape hescape
                      obtain ⟨t, out, hraw, rfl, rfl⟩ := ih h
                      refine ⟨0x5C :: (e ++ t), _, .escape he hraw, ?_, ?_⟩
                      · rw [hback, List.cons_append, List.append_assoc]
                      · rw [List.reverse_append, List.reverse_reverse, List.append_assoc]
              · next hback =>
                  split at h
                  · cases h
                  · next hcontrol =>
                      obtain ⟨t, out, hraw, rfl, rfl⟩ := ih h
                      have hlow : 0x20 ≤ b.toNat :=
                        UInt8.le_iff_toNat_le.mp (UInt8.not_lt.mp hcontrol)
                      refine ⟨b :: t, b :: out, .plain ⟨hlow, hquote, hback⟩ hraw, rfl, ?_⟩
                      rw [List.reverse_cons, List.append_assoc, List.singleton_append]

/-- A string is read up to its quote. -/
theorem scan_of_raw (h : Raw t out) : ∀ {n acc}, t.length < n →
    scanStringBytes n acc (t ++ 0x22 :: rest) = .ok (acc.reverse ++ out, rest) := by
  induction h with
  | nil =>
      intro n acc hn
      obtain ⟨n, rfl⟩ := Nat.exists_eq_succ_of_ne_zero (Nat.ne_of_gt hn)
      rw [List.append_nil]
      rfl
  | @plain b t out hb hraw ih =>
      intro n acc hn
      obtain ⟨n, rfl⟩ := Nat.exists_eq_succ_of_ne_zero (Nat.ne_of_gt (Nat.zero_lt_of_lt hn))
      have hlow : ¬ b < 0x20 := UInt8.not_lt.mpr (UInt8.le_iff_toNat_le.mpr hb.1)
      rw [List.cons_append, scanStringBytes, if_neg hb.2.1, if_neg hb.2.2, if_neg hlow,
        ih (Nat.lt_of_succ_lt_succ hn), List.reverse_cons, List.append_assoc,
        List.singleton_append]
  | @escape e t out c he hraw ih =>
      intro n acc hn
      obtain ⟨n, rfl⟩ := Nat.exists_eq_succ_of_ne_zero (Nat.ne_of_gt (Nat.zero_lt_of_lt hn))
      have hshort : t.length < n := by
        rw [List.length_cons, List.length_append] at hn
        omega
      rw [List.cons_append, List.append_assoc, scanStringBytes, if_neg (by decide), if_pos rfl,
        scanEscape_of_escape he]
      simp only [ih hshort, List.reverse_append, List.reverse_reverse, List.append_assoc]

/-! ## Bytes and characters -/

theorem ordinary_of_plain (printable : 0x20 ≤ c.toNat) (quote : c ≠ '"') (backslash : c ≠ '\\') :
    ∀ b ∈ String.utf8EncodeChar c, Ordinary b := by
  obtain ⟨lead, conts, hencode, hconts, hlead⟩ := encodeChar_shape c
  rw [hencode]
  refine List.forall_mem_cons.mpr ⟨?_, ?_⟩
  · rcases hlead with ⟨hsame, -, -⟩ | ⟨hlarge, -⟩
    · refine ⟨by omega, ?_, ?_⟩
      · rintro rfl
        exact quote (Char.toNat_inj.mp hsame.symm)
      · rintro rfl
        exact backslash (Char.toNat_inj.mp hsame.symm)
    · refine ⟨by omega, ?_, ?_⟩
      · rintro rfl
        exact absurd hlarge (by decide)
      · rintro rfl
        exact absurd hlarge (by decide)
  · intro k hk
    obtain ⟨hlow, hhigh⟩ := hconts k hk
    refine ⟨by omega, ?_, ?_⟩
    · rintro rfl
      exact absurd hlow (by decide)
    · rintro rfl
      exact absurd hlow (by decide)

theorem Raw.append_ordinary (hb : ∀ b ∈ bytes, Ordinary b) (h : Raw t out) :
    Raw (bytes ++ t) (bytes ++ out) := by
  induction bytes with
  | nil => exact h
  | cons b bytes ih =>
      obtain ⟨hb, hrest⟩ := List.forall_mem_cons.mp hb
      exact .plain hb (ih hrest)

/-- Characters one after another are bytes one after another. -/
theorem Body.raw (h : Body t cs) : Raw t (Utf8.encodeChars cs) := by
  induction h with
  | nil => exact .nil
  | cons piece body ih =>
      rw [Utf8.encodeChars_cons]
      cases piece with
      | plain printable quote backslash =>
          exact Raw.append_ordinary (ordinary_of_plain printable quote backslash) ih
      | escape he => exact .escape he ih

/-- Bytes that continue a character are taken as they are: no escape gives such bytes first. -/
theorem Raw.of_conts {conts : Bytes} (hconts : ∀ k ∈ conts, Continues k)
    (h : Raw t (conts ++ out)) : ∃ t', t = conts ++ t' ∧ Raw t' out := by
  induction conts generalizing t with
  | nil => exact ⟨t, rfl, h⟩
  | cons k conts ih =>
      obtain ⟨hk, hrest⟩ := List.forall_mem_cons.mp hconts
      generalize hout : k :: conts ++ out = out' at h
      cases h with
      | nil => cases hout
      | @plain b t out' hb hraw =>
          obtain ⟨rfl, rfl⟩ := List.cons.inj hout
          obtain ⟨t', rfl, hraw'⟩ := ih hrest hraw
          exact ⟨t', rfl, hraw'⟩
      | @escape e t out' c he hraw =>
          obtain ⟨lead, conts', hencode, -, hlead⟩ := encodeChar_shape c
          rw [hencode] at hout
          obtain rfl : k = lead := (List.cons.inj hout).1
          obtain ⟨hlow, hhigh⟩ := hk
          rcases hlead with ⟨hsame, hsmall, -⟩ | ⟨hlarge, -⟩
          · omega
          · omega

/-- Bytes that stand for a text are the text of a string, character by character. -/
theorem Raw.body (h : Raw t (Utf8.encodeChars cs)) : Body t cs := by
  induction cs generalizing t with
  | nil =>
      generalize hout : Utf8.encodeChars [] = out at h
      cases h with
      | nil => exact .nil
      | plain hb hraw => cases hout
      | @escape e t out c he hraw =>
          obtain ⟨lead, conts, hencode, -, -⟩ := encodeChar_shape c
          rw [hencode] at hout
          cases hout
  | cons c cs ih =>
      generalize hout : Utf8.encodeChars (c :: cs) = out at h
      rw [Utf8.encodeChars_cons] at hout
      cases h with
      | nil =>
          obtain ⟨lead, conts, hencode, -, -⟩ := encodeChar_shape c
          rw [hencode] at hout
          cases hout
      | @plain b t out hb hraw =>
          obtain ⟨lead, conts, hencode, hconts, hlead⟩ := encodeChar_shape c
          rw [hencode] at hout
          obtain ⟨rfl, rfl⟩ := List.cons.inj hout
          obtain ⟨t', rfl, hraw'⟩ := hraw.of_conts hconts
          have hplain : Piece (String.utf8EncodeChar c) c := by
            rcases hlead with ⟨hsame, -, -⟩ | ⟨-, hlarge⟩
            · refine .plain (hsame ▸ hb.1) ?_ ?_
              · rintro rfl
                exact hb.2.1 (UInt8.toNat_inj.mp hsame)
              · rintro rfl
                exact hb.2.2 (UInt8.toNat_inj.mp hsame)
            · refine .plain (by omega) ?_ ?_
              · rintro rfl
                exact absurd hlarge (by decide)
              · rintro rfl
                exact absurd hlarge (by decide)
          rw [hencode] at hplain
          exact .cons hplain (ih hraw')
      | @escape e t out c' he hraw =>
          obtain ⟨rfl, rfl⟩ := Utf8.encode_char_append hout
          exact .cons (.escape he) (ih hraw)

/-- **STRINGS ARE READ AS WRITTEN**, character by character, up to their closing quote. -/
theorem scanString_eq_ok_iff {text : String} :
    scanString s = .ok (text, rest) ↔ ∃ t, Body t text.toList ∧ s = t ++ 0x22 :: rest := by
  constructor
  · intro h
    cases hscan : scanStringBytes (s.length + 1) [] s with
    | error fault =>
        rw [scanString, hscan] at h
        cases h
    | ok p =>
        obtain ⟨bytes, rest'⟩ := p
        obtain ⟨t, out, hraw, hs, hbytes⟩ := raw_of_scan hscan
        cases hdecode : Utf8.decode? bytes with
        | none =>
            simp only [scanString, hscan, bind, Except.bind, hdecode] at h
            cases h
        | some text' =>
            simp only [scanString, hscan, bind, Except.bind, hdecode] at h
            cases h
            obtain rfl : out = Utf8.encode text :=
              hbytes.symm.trans (Utf8.decode?_eq_some_iff.mp hdecode)
            exact ⟨t, hraw.body, hs⟩
  · rintro ⟨t, hbody, rfl⟩
    have hlength : t.length < (t ++ 0x22 :: rest).length + 1 := by
      rw [List.length_append]
      omega
    have hdecode :
        Utf8.decode? (([] : Bytes).reverse ++ Utf8.encodeChars text.toList) = some text :=
      Utf8.decode?_eq_some_iff.mpr rfl
    simp only [scanString, scan_of_raw hbody.raw hlength, bind, Except.bind, hdecode]

end PhaseHost.Json
