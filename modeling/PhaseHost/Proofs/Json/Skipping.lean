import PhaseHost.Proofs.Json.Forms

/-! # Values are passed over by their form

    A value that nobody reads is passed over without being built.  What is passed over is
    exactly what has the form of a value.

    The proof goes as it does for reading: one list passes over what another reads, so what
    is known of readers and the lists they take can be used again. -/

namespace PhaseHost.Json

variable {b t s r rest : Bytes} {depth : Nat} {u : Unit}

/-! ## Readers that have nothing to say -/

/-- One passes over what another takes, without its value. -/
def Skips {α : Type} (skip : Bytes → Option Bytes) (scan : Scanner α) : Prop :=
  ∀ s, skip s = (scan s).toOption.map Prod.snd

/-- Passing over is a reader that gives nothing. -/
theorem skips_passOver (skip : Bytes → Option Bytes) : Skips skip (passOver skip) := by
  intro s
  unfold passOver
  cases skip s with
  | none => rfl
  | some rest => rfl

theorem passOver_eq_ok_iff {skip : Bytes → Option Bytes} :
    passOver skip s = .ok (u, rest) ↔ skip s = some rest := by
  unfold passOver
  cases skip s with
  | none => exact ⟨nofun, nofun⟩
  | some rest' =>
      constructor
      · intro h
        cases h
        rfl
      · intro h
        cases h
        rfl

/-! ## Strings are passed over -/

/-- The letters that may stand behind a backslash. -/
theorem mem_letters_iff {x : UInt8} :
    Char.ofUInt8 x ∈ ['"', '\\', '/', 'b', 'f', 'n', 'r', 't'] ↔ x ∈ shortEscapes.map Prod.fst := by
  constructor
  · intro h
    simp only [List.mem_cons, List.not_mem_nil, or_false] at h
    rcases h with h | h | h | h | h | h | h | h
    all_goals
      rw [eq_of_ofUInt8 h]
      decide
  · intro h
    simp only [shortEscapes, List.map_cons, List.map_nil, List.mem_cons, List.not_mem_nil,
      or_false] at h
    rcases h with rfl | rfl | rfl | rfl | rfl | rfl | rfl | rfl
    all_goals decide

/-- An escape is passed over if it is a letter that stands for a character, or four digits of base
    sixteen. -/
theorem skipEscape_eq_some_iff :
    skipEscape s = some rest ↔ (∃ x ∈ shortEscapes.map Prod.fst, s = x :: rest)
      ∨ ∃ h₁ h₂ h₃ h₄ n, hexQuad? h₁ h₂ h₃ h₄ = some n
          ∧ s = 0x75 :: h₁ :: h₂ :: h₃ :: h₄ :: rest := by
  constructor
  · intro h
    cases s with
    | nil => cases h
    | cons x s =>
        simp only [skipEscape] at h
        split at h
        · next hx =>
            obtain rfl : x = 0x75 := eq_of_ofUInt8 hx
            cases hscan : scanHexQuad s with
            | error fault =>
                rw [hscan] at h
                cases h
            | ok p =>
                obtain ⟨n, rest'⟩ := p
                rw [hscan] at h
                cases h
                obtain ⟨h₁, h₂, h₃, h₄, hquad, rfl⟩ := scanHexQuad_eq_ok_iff.mp hscan
                exact Or.inr ⟨h₁, h₂, h₃, h₄, n, hquad, rfl⟩
        · split at h
          · next hletter =>
              cases h
              exact Or.inl ⟨x, mem_letters_iff.mp hletter, rfl⟩
          · cases h
  · rintro (⟨x, hlisted, rfl⟩ | ⟨h₁, h₂, h₃, h₄, n, hquad, rfl⟩)
    · have hletter := mem_letters_iff.mpr hlisted
      simp only [skipEscape]
      split
      · next hx =>
          rw [hx] at hletter
          exact absurd hletter (by decide)
      · exact if_pos hletter
    · have hscan : scanHexQuad (h₁ :: h₂ :: h₃ :: h₄ :: rest) = .ok (n, rest) :=
        scanHexQuad_eq_ok_iff.mpr ⟨h₁, h₂, h₃, h₄, hquad, rfl⟩
      have hchar : Char.ofUInt8 0x75 = 'u' := rfl
      simp only [skipEscape, hchar, hscan]

/-- What is passed over as a string is a loose one. -/
theorem loose_of_skipString {n : Nat} (h : skipString n s = some rest) :
    ∃ t, LooseBody t ∧ s = t ++ 0x22 :: rest := by
  induction n generalizing s with
  | zero => cases h
  | succ n ih =>
      cases s with
      | nil => cases h
      | cons x s =>
          simp only [skipString] at h
          split at h
          · next hquote =>
              cases h
              exact ⟨[], .nil, by rw [hquote, List.nil_append]⟩
          · next hquote =>
              split at h
              · next hback =>
                  obtain ⟨s', hescape, hrest⟩ := Option.bind_eq_some_iff.mp h
                  obtain ⟨t, ht, rfl⟩ := ih hrest
                  rw [hback]
                  rcases skipEscape_eq_some_iff.mp hescape with
                    ⟨y, hlisted, rfl⟩ | ⟨h₁, h₂, h₃, h₄, k, hquad, rfl⟩
                  · exact ⟨_, .short hlisted ht, rfl⟩
                  · exact ⟨_, .unicode hquad ht, rfl⟩
              · next hback =>
                  split at h
                  · cases h
                  · next hcontrol =>
                      obtain ⟨t, ht, rfl⟩ := ih h
                      have hlow : 0x20 ≤ x.toNat :=
                        UInt8.le_iff_toNat_le.mp (UInt8.not_lt.mp hcontrol)
                      exact ⟨_, .plain ⟨hlow, hquote, hback⟩ ht, rfl⟩

/-- Every loose string is passed over. -/
theorem skipString_of_loose (h : LooseBody t) : ∀ {n}, t.length < n →
    skipString n (t ++ 0x22 :: rest) = some rest := by
  induction h with
  | nil =>
      intro n hn
      obtain ⟨n, rfl⟩ := Nat.exists_eq_succ_of_ne_zero (Nat.ne_of_gt hn)
      rfl
  | @plain x t hx ht ih =>
      intro n hn
      obtain ⟨n, rfl⟩ := Nat.exists_eq_succ_of_ne_zero (Nat.ne_of_gt (Nat.zero_lt_of_lt hn))
      have hlow : ¬ x < 0x20 := UInt8.not_lt.mpr (UInt8.le_iff_toNat_le.mpr hx.1)
      rw [List.cons_append, skipString, if_neg hx.2.1, if_neg hx.2.2, if_neg hlow,
        ih (Nat.lt_of_succ_lt_succ hn)]
  | @short x t hlisted ht ih =>
      intro n hn
      obtain ⟨n, rfl⟩ := Nat.exists_eq_succ_of_ne_zero (Nat.ne_of_gt (Nat.zero_lt_of_lt hn))
      have hescape : skipEscape (x :: (t ++ 0x22 :: rest)) = some (t ++ 0x22 :: rest) :=
        skipEscape_eq_some_iff.mpr (Or.inl ⟨x, hlisted, rfl⟩)
      simp only [List.length_cons] at hn
      rw [List.cons_append, List.cons_append, skipString, if_neg (by decide), if_pos rfl, hescape,
        Option.bind_some, ih (by omega)]
  | @unicode h₁ h₂ h₃ h₄ k t hquad ht ih =>
      intro n hn
      obtain ⟨n, rfl⟩ := Nat.exists_eq_succ_of_ne_zero (Nat.ne_of_gt (Nat.zero_lt_of_lt hn))
      have hescape : skipEscape (0x75 :: h₁ :: h₂ :: h₃ :: h₄ :: (t ++ 0x22 :: rest))
          = some (t ++ 0x22 :: rest) :=
        skipEscape_eq_some_iff.mpr (Or.inr ⟨h₁, h₂, h₃, h₄, k, hquad, rfl⟩)
      simp only [List.length_cons] at hn
      simp only [List.cons_append]
      rw [skipString, if_neg (by decide), if_pos rfl, hescape, Option.bind_some, ih (by omega)]

/-- Pass over the name of a member, from behind its opening quote. -/
def skipName (s : Bytes) : Option Bytes :=
  skipString (s.length + 1) s

theorem length_lt_append (t rest : Bytes) : t.length < (t ++ rest).length + 1 := by
  rw [List.length_append]
  omega

/-- A name is passed over exactly if it is a loose string. -/
theorem skipName_eq_some_iff :
    skipName s = some rest ↔ ∃ t, LooseBody t ∧ s = t ++ 0x22 :: rest := by
  constructor
  · exact loose_of_skipString
  · rintro ⟨t, ht, rfl⟩
    exact skipString_of_loose ht (length_lt_append t (0x22 :: rest))

/-- Names are taken as loosely as strings. -/
theorem takesNames_loose : TakesNames (passOver skipName) (fun t _ => LooseBody t) :=
  passOver_eq_ok_iff.trans skipName_eq_some_iff

/-! ## Numbers are passed over -/

/-- The first of some digits is seen. -/
theorem peekDigit?_append (ht : Digits t) (hne : t ≠ []) (rest : Bytes) :
    ∃ d, peekDigit? (t ++ rest) = some d := by
  obtain ⟨d, t, rfl⟩ := List.exists_cons_of_ne_nil hne
  exact ⟨_, digit?_of_isDigit ht.head⟩

/-- Where a digit is seen there are digits. -/
theorem ne_nil_of_peekDigit? {d : Nat} (h : peekDigit? (t ++ rest) = some d)
    (hrest : NoDigit rest) : t ≠ [] := by
  rintro rfl
  rw [List.nil_append, peekDigit?_of_noDigit hrest] at h
  cases h

/-- What is passed over behind the digits is an exponent or nothing. -/
theorem exponent_of_skipExponent (h : skipExponent s = some rest) :
    ∃ e, (∀ x ∈ e, Exponent.WellFormed x) ∧ s = exponentText e ++ rest := by
  cases s with
  | nil =>
      cases h
      exact ⟨none, nofun, rfl⟩
  | cons x s =>
      simp only [skipExponent] at h
      split at h
      · next hmark =>
          obtain ⟨sign, s', rfl, hsign, heq⟩ := exists_exponentSign s
          obtain ⟨t, rest', rfl, ht, hrest⟩ := exists_digits s'
          rw [heq] at h
          obtain ⟨d, hpeek, hdrop⟩ := Option.map_eq_some_iff.mp h
          have hne := ne_nil_of_peekDigit? hpeek hrest
          rw [dropDigits_append ht hrest] at hdrop
          subst hdrop
          refine ⟨some ⟨x, sign, t⟩, ?_, ?_⟩
          · intro y hy
            obtain rfl := Option.some.inj hy
            exact ⟨hmark, hsign, ht, hne⟩
          · simp only [exponentText, Exponent.text, List.cons_append, List.append_assoc]
      · cases h
        exact ⟨none, nofun, rfl⟩

/-- An exponent, or none, is passed over. -/
theorem skipExponent_of_exponent {e : Option Exponent} (he : ∀ x ∈ e, Exponent.WellFormed x)
    (hr : Stops rest) : skipExponent (exponentText e ++ rest) = some rest := by
  cases e with
  | none =>
      cases rest with
      | nil => rfl
      | cons x rest =>
          obtain ⟨-, -, hlower, hupper⟩ := hr x rfl
          exact if_neg (not_or.mpr ⟨hlower, hupper⟩)
  | some e =>
      have hwell := he e rfl
      obtain ⟨d, hpeek⟩ := peekDigit?_append hwell.digits hwell.nonempty rest
      show skipExponent (e.mark :: (e.sign ++ e.digits ++ rest)) = _
      simp only [skipExponent, if_pos hwell.mark, List.append_assoc, hwell.exponentSign, hpeek,
        Option.map_some, dropDigits_append hwell.digits hr.noDigit]

/-- What is passed over behind the digits of a number. -/
def skipTail (s : Bytes) : Option Bytes :=
  match s with
  | 0x2E :: after => (peekDigit? after).bind (fun _ => skipExponent (dropDigits after))
  | rest => skipExponent rest

/-- What is passed over behind the whole digits is a fraction or none, and an exponent or none. -/
theorem tail_of_skipTail (h : skipTail s = some rest) :
    ∃ fraction e, FractionWellFormed fraction ∧ (∀ x ∈ e, Exponent.WellFormed x)
      ∧ s = fractionText fraction ++ (exponentText e ++ rest) := by
  unfold skipTail at h
  split at h
  · next after =>
      obtain ⟨t, rest', rfl, ht, hrest⟩ := exists_digits after
      obtain ⟨d, hpeek, hexponent⟩ := Option.bind_eq_some_iff.mp h
      have hne := ne_nil_of_peekDigit? hpeek hrest
      rw [dropDigits_append ht hrest] at hexponent
      obtain ⟨e, he, rfl⟩ := exponent_of_skipExponent hexponent
      refine ⟨some t, e, ?_, he, rfl⟩
      intro t' ht'
      obtain rfl := Option.some.inj ht'
      exact ⟨hne, ht⟩
  · obtain ⟨e, he, hs⟩ := exponent_of_skipExponent h
    exact ⟨none, e, nofun, he, hs⟩

/-- Whatever fraction and exponent there are, they are passed over. -/
theorem skipTail_of_tail {fraction : Option Bytes} {e : Option Exponent}
    (ht : FractionWellFormed fraction) (he : ∀ x ∈ e, Exponent.WellFormed x) (hr : Stops rest) :
    skipTail (fractionText fraction ++ (exponentText e ++ rest)) = some rest := by
  have hexponent := skipExponent_of_exponent he hr
  cases fraction with
  | some t =>
      obtain ⟨hne, hdigits⟩ := ht t rfl
      have hdrop := dropDigits_append hdigits (noDigit_exponentText he hr)
      obtain ⟨d, hpeek⟩ := peekDigit?_append hdigits hne (exponentText e ++ rest)
      show (peekDigit? (t ++ (exponentText e ++ rest))).bind
        (fun _ => skipExponent (dropDigits (t ++ (exponentText e ++ rest)))) = _
      rw [hpeek, Option.bind_some, hdrop, hexponent]
  | none =>
      show skipTail (exponentText e ++ rest) = _
      unfold skipTail
      split
      · next heq => exact absurd heq (exponentText_ne_point he hr)
      · exact hexponent

/-- A number is passed over from its first digit to its end. -/
theorem skipNumber_append (ht : Digits t) (hne : t ≠ []) (hrest : NoDigit rest) :
    skipNumber (t ++ rest) = if t.head? = some 0x30 ∧ t ≠ [0x30] then none else skipTail rest := by
  obtain ⟨d, t, rfl⟩ := List.exists_cons_of_ne_nil hne
  have hzero : digitValue d = 0 ↔ d = 0x30 := by
    constructor
    · intro hvalue
      refine Decidable.byContradiction (fun hd => ?_)
      obtain ⟨k, hk⟩ := digitValue_pos ht.head hd
      omega
    · rintro rfl
      rfl
  have hpeek : (peekDigit? (t ++ rest)).isSome = true ↔ t ≠ [] := by
    by_cases hnil : t = []
    · rw [hnil, List.nil_append, peekDigit?_of_noDigit hrest]
      exact ⟨nofun, fun h => absurd rfl h⟩
    · obtain ⟨k, hk⟩ := peekDigit?_append ht.tail hnil rest
      rw [hk]
      exact ⟨fun _ => hnil, fun _ => rfl⟩
  have hlead : (d :: t).head? = some 0x30 ∧ d :: t ≠ [0x30]
      ↔ digitValue d = 0 ∧ (peekDigit? (t ++ rest)).isSome = true := by
    rw [hzero, hpeek, List.head?_cons, Option.some.injEq]
    refine and_congr_right ?_
    rintro rfl
    rw [ne_eq, ne_eq, List.cons.injEq, and_iff_right rfl]
  simp only [List.cons_append, skipNumber, digit?_of_isDigit ht.head,
    dropDigits_append ht.tail hrest, hlead]
  rfl

/-- What is passed over as a number is a numeral. -/
theorem numeral_of_skipNumber (h : skipNumber s = some rest) :
    ∃ n : Numeral, n.WellFormed ∧ s = n.text ++ rest := by
  obtain ⟨t, rest', rfl, ht, hrest⟩ := exists_digits s
  have hne : t ≠ [] := by
    rintro rfl
    cases rest' with
    | nil => cases h
    | cons x rest' =>
        simp only [List.nil_append, skipNumber, digit?_of_not (noDigit_cons_iff.mp hrest)] at h
        cases h
  rw [skipNumber_append ht hne hrest] at h
  split at h
  · cases h
  · next hlead =>
      obtain ⟨fraction, e, hfraction, he, rfl⟩ := tail_of_skipTail h
      refine ⟨⟨t, fraction, e⟩, ⟨ht, hne, ?_, hfraction, he⟩, ?_⟩
      · intro hhead
        exact Decidable.byContradiction (fun hother => hlead ⟨hhead, hother⟩)
      · rw [Numeral.text, List.append_assoc, List.append_assoc]

/-- Every numeral is passed over, whatever its value. -/
theorem skipNumber_of_numeral {n : Numeral} (hn : n.WellFormed) (hr : Stops rest) :
    skipNumber (n.text ++ rest) = some rest := by
  have hrest : NoDigit (fractionText n.fraction ++ (exponentText n.exponent ++ rest)) :=
    noDigit_tail hn.exponent hr
  have hlead : ¬ (n.whole.head? = some 0x30 ∧ n.whole ≠ [0x30]) :=
    fun h => h.2 (hn.leading h.1)
  rw [Numeral.text, List.append_assoc, List.append_assoc,
    skipNumber_append hn.digits hn.nonempty hrest, if_neg hlead]
  exact skipTail_of_tail hn.fraction hn.exponent hr

/-! ## Lists are passed over -/

/-- A list is passed over as it is read. -/
theorem skipSeries_eq {α : Type} {close : UInt8} {part : Bytes → Option Bytes} {scan : Scanner α}
    (h : Skips part scan) (n : Nat) (isFirst : Bool) (acc : List α) :
    skipSeries close part n isFirst s
      = (scanSeries close scan n isFirst acc s).map Prod.snd := by
  induction n generalizing isFirst acc s with
  | zero => rfl
  | succ n ih =>
      simp only [skipSeries, scanSeries]
      cases skipSpace s with
      | nil => rfl
      | cons x rest =>
          simp only
          split
          · rfl
          · split
            · rw [h (x :: rest)]
              cases scan (x :: rest) with
              | error fault => rfl
              | ok p => exact ih false (p.1 :: acc)
            · split
              · cases skipSpace rest with
                | nil => rfl
                | cons y rest =>
                    simp only
                    split
                    · rfl
                    · rw [h (y :: rest)]
                      cases scan (y :: rest) with
                      | error fault => rfl
                      | ok p => exact ih false (p.1 :: acc)
              · rfl

theorem skips_colon : Skips skipColon scanColon := by
  intro s
  unfold skipColon scanColon
  cases skipSpace s with
  | nil => rfl
  | cons x rest =>
      simp only
      split
      · rfl
      · rfl

/-- A member, as one reads it to pass over it. -/
def scanLooseMember (value : Scanner Unit) : Scanner (Unit × Unit) :=
  scanPair (passOver skipName) (fun _ => value)

/-- A field is passed over as it is read, if its value is. -/
theorem skips_member {value : Bytes → Option Bytes} {scan : Scanner Unit} (h : Skips value scan) :
    Skips (skipMember value) (scanLooseMember scan) := by
  intro s
  cases s with
  | nil => rfl
  | cons x s =>
      by_cases hx : x = 0x22
      · subst hx
        have hname := skips_passOver skipName s
        rw [scanLooseMember, scanPair_quote, skipMember, if_pos rfl]
        show (skipName s).bind _ = _
        rw [hname]
        cases passOver skipName s with
        | error fault => rfl
        | ok p =>
            have hcolon := skips_colon p.2
            show (skipColon p.2).bind value = _
            rw [hcolon]
            simp only [bind, Except.bind]
            cases scanColon p.2 with
            | error fault => rfl
            | ok q =>
                show value q.2 = _
                rw [h q.2]
                simp only
                cases scan q.2 with
                | error fault => rfl
                | ok y => rfl
      · obtain ⟨fault, hfault⟩ := scanPair_of_ne (passOver skipName) (fun _ => scan) s hx
        rw [scanLooseMember, hfault, skipMember, if_neg hx]
        rfl

/-! ## Values are passed over -/

variable {n : Nat} {word : Bytes}

/-- A word is passed over letter by letter. -/
theorem skipWord_eq_some_iff : skipWord word s = some rest ↔ s = word ++ rest := by
  constructor
  · intro h
    cases hscan : scanWord word .null s with
    | error fault =>
        rw [skipWord, hscan] at h
        cases h
    | ok p =>
        obtain ⟨v, rest'⟩ := p
        rw [skipWord, hscan] at h
        cases h
        exact (scanWord_eq_ok_iff.mp hscan).2
  · rintro rfl
    have hscan : scanWord word .null (word ++ rest) = .ok (.null, rest) :=
      scanWord_eq_ok_iff.mpr ⟨rfl, rfl⟩
    rw [skipWord, hscan]

/-- Blanks in front of a value do not matter. -/
theorem skipValue_blank (hb : Blank b) : skipValue n (b ++ s) = skipValue n s := by
  cases n with
  | zero => rfl
  | succ n =>
      unfold skipValue
      rw [skipSpace_append hb]

theorem passOver_blank (hb : Blank b) (h : passOver (skipValue n) s = .ok (u, rest)) :
    passOver (skipValue n) (b ++ s) = .ok (u, rest) := by
  rw [passOver_eq_ok_iff] at h ⊢
  rw [skipValue_blank hb, h]

/-- A digit begins a number that is passed over. -/
theorem skipValue_digit {x : UInt8} (hx : IsDigit x) :
    skipValue (n + 1) (x :: s) = skipNumber (x :: s) := by
  have hblank : skipSpace (x :: s) = x :: s :=
    skipSpace_of_noBlank (noBlank_cons_iff.mpr (isSpace_of_isDigit hx))
  have hother : ∀ {c : Char}, Char.ofUInt8 x = c → IsDigit (UInt8.ofNat c.toNat) := by
    intro c hc
    exact eq_of_ofUInt8 hc ▸ hx
  unfold skipValue
  simp only [hblank]
  split
  · next hc => exact absurd (hother hc) (by decide)
  · next hc => exact absurd (hother hc) (by decide)
  · next hc => exact absurd (hother hc) (by decide)
  · next hc => exact absurd (hother hc) (by decide)
  · next hc => exact absurd (hother hc) (by decide)
  · next hc => exact absurd (hother hc) (by decide)
  · next hc => exact absurd (hother hc) (by decide)
  · rfl

/-- Every loose scalar is passed over. -/
theorem skipValue_of_scalar (h : LooseScalar t) (hr : Stops rest) :
    skipValue (n + 1) (t ++ rest) = some rest := by
  cases h with
  | null =>
      unfold skipValue
      exact skipWord_eq_some_iff.mpr rfl
  | true =>
      unfold skipValue
      exact skipWord_eq_some_iff.mpr rfl
  | false =>
      unfold skipValue
      exact skipWord_eq_some_iff.mpr rfl
  | @text t body =>
      rw [List.cons_append, List.append_assoc]
      unfold skipValue
      exact skipName_eq_some_iff.mpr ⟨t, body, rfl⟩
  | @number k wellFormed =>
      have hskip := skipNumber_of_numeral wellFormed hr
      obtain ⟨x, t, htext, hx⟩ := wellFormed.exists_head
      rw [htext] at hskip ⊢
      exact (skipValue_digit hx).trans hskip
  | negative wellFormed =>
      unfold skipValue
      exact skipNumber_of_numeral wellFormed hr

/-- A scalar begins as a value does. -/
theorem LooseScalar.begins (h : LooseScalar t) : ∃ x t', t = x :: t' ∧ Begins x := by
  cases h with
  | null => exact ⟨_, _, rfl, rfl, by decide, by decide, by decide⟩
  | true => exact ⟨_, _, rfl, rfl, by decide, by decide, by decide⟩
  | false => exact ⟨_, _, rfl, rfl, by decide, by decide, by decide⟩
  | text body => exact ⟨_, _, rfl, rfl, by decide, by decide, by decide⟩
  | number wellFormed =>
      obtain ⟨x, t, htext, hx⟩ := wellFormed.exists_head
      exact ⟨x, t, htext, begins_of_isDigit hx⟩
  | negative wellFormed => exact ⟨_, _, rfl, rfl, by decide, by decide, by decide⟩

/-- A value begins with a byte that tells it from the end of a list. -/
theorem Form.begins (h : Form depth t u) : ∃ x t', t = x :: t' ∧ Begins x := by
  cases depth with
  | zero => exact h.elim
  | succ depth =>
      rcases h with h | ⟨r, items, -, rfl⟩ | ⟨r, members, -, rfl⟩
      · exact h.begins
      · exact ⟨_, _, rfl, rfl, by decide, by decide, by decide⟩
      · exact ⟨_, _, rfl, rfl, by decide, by decide, by decide⟩

/-- What is passed over as a value is a scalar, or it is passed over as an array or an object. -/
theorem cases_of_skipValue (h : skipValue (n + 1) s = some rest) :
    ∃ b s', Blank b ∧ s = b ++ s'
      ∧ ((∃ t, LooseScalar t ∧ s' = t ++ rest)
        ∨ (∃ r, s' = 0x5B :: r ∧ skipSeries 0x5D (skipValue n) (r.length + 1) true r = some rest)
        ∨ ∃ r, s' = 0x7B :: r
            ∧ skipSeries 0x7D (skipMember (skipValue n)) (r.length + 1) true r = some rest) := by
  obtain ⟨b, hb, hs, -⟩ := exists_blank s
  refine ⟨b, skipSpace s, hb, hs, ?_⟩
  unfold skipValue at h
  generalize skipSpace s = s' at h
  cases s' with
  | nil => cases h
  | cons x s' =>
      have hword : ∀ {c : Char} {word}, Char.ofUInt8 x = c →
          LooseScalar (UInt8.ofNat c.toNat :: word) → skipWord word s' = some rest →
          ∃ t, LooseScalar t ∧ x :: s' = t ++ rest := by
        intro c word hc hscalar hskip
        rw [eq_of_ofUInt8 hc, skipWord_eq_some_iff.mp hskip]
        exact ⟨_, hscalar, rfl⟩
      simp only at h
      split at h
      · next hc => exact Or.inl (hword hc .null h)
      · next hc => exact Or.inl (hword hc .true h)
      · next hc => exact Or.inl (hword hc .false h)
      · next hc =>
          obtain ⟨t, body, rfl⟩ := skipName_eq_some_iff.mp h
          refine Or.inl ⟨_, .text body, ?_⟩
          rw [List.cons_append, List.append_assoc, List.singleton_append, eq_of_ofUInt8 hc]
          rfl
      · next hc =>
          obtain ⟨k, hk, rfl⟩ := numeral_of_skipNumber h
          rw [eq_of_ofUInt8 hc]
          exact Or.inl ⟨_, .negative hk, rfl⟩
      · next hc =>
          rw [eq_of_ofUInt8 hc]
          exact Or.inr (Or.inl ⟨s', rfl, h⟩)
      · next hc =>
          rw [eq_of_ofUInt8 hc]
          exact Or.inr (Or.inr ⟨s', rfl, h⟩)
      · obtain ⟨k, hk, hs'⟩ := numeral_of_skipNumber h
        exact Or.inl ⟨_, .number hk, hs'⟩

/-- What is passed over is a value by its form, as deep as the bound lets it be. -/
theorem takes_skipValue (n : Nat) : Takes (passOver (skipValue n)) (Form n) := by
  induction n with
  | zero => exact ⟨nofun, fun h => h.elim, fun h => h.elim⟩
  | succ n ih =>
      have hmember : Takes (scanLooseMember (passOver (skipValue n))) (LooseMember (Form n)) :=
        takes_pair takesNames_loose (fun _ => ih)
          (fun hb h hstops => passOver_blank hb (ih.complete h hstops))
      refine ⟨?_, ?_, Form.begins⟩
      · intro s u rest h
        obtain ⟨b, s', hb, rfl, ⟨t, ht, rfl⟩ | ⟨r, rfl, hskip⟩ | ⟨r, rfl, hskip⟩⟩ :=
          cases_of_skipValue (passOver_eq_ok_iff.mp h)
        · exact ⟨b, t, hb, Or.inl ht, rfl⟩
        · rw [skipSeries_eq (skips_passOver _) _ _ []] at hskip
          obtain ⟨⟨items, rest'⟩, hseries, rfl⟩ := Option.map_eq_some_iff.mp hskip
          obtain ⟨r', hr, rfl⟩ := listed_of_scanSeries ih hseries
          exact ⟨b, _, hb, Or.inr (Or.inl ⟨r', items, hr, rfl⟩), rfl⟩
        · rw [skipSeries_eq (skips_member (skips_passOver _)) _ _ []] at hskip
          obtain ⟨⟨members, rest'⟩, hseries, rfl⟩ := Option.map_eq_some_iff.mp hskip
          obtain ⟨r', hr, rfl⟩ := listed_of_scanSeries hmember hseries
          exact ⟨b, _, hb, Or.inr (Or.inr ⟨r', members, hr, rfl⟩), rfl⟩
      · intro t u rest h hstops
        refine passOver_eq_ok_iff.mpr ?_
        rcases h with h | ⟨r, items, hr, rfl⟩ | ⟨r, members, hr, rfl⟩
        · exact skipValue_of_scalar h hstops
        · exact (skipSeries_eq (skips_passOver _) _ _ []).trans
            (congrArg (Option.map Prod.snd) (scanSeries_of_listed ih (Or.inl rfl) hr
              (length_lt_append r rest)))
        · exact (skipSeries_eq (skips_member (skips_passOver _)) _ _ []).trans
            (congrArg (Option.map Prod.snd) (scanSeries_of_listed hmember (Or.inr rfl) hr
              (length_lt_append r rest)))

/-- Every form of a value is passed over, at any depth. -/
theorem scanIgnored_of_formed (hb : Blank b) (h : Formed t) (hstops : Stops rest) :
    scanIgnored (b ++ (t ++ rest)) = .ok (u, rest) := by
  obtain ⟨depth, h⟩ := h
  have hbound : t.length < (b ++ (t ++ rest)).length + 1 := by
    simp only [List.length_append]
    omega
  exact passOver_blank hb ((takes_skipValue _).complete (h.of_length hbound) hstops)

/-- **VALUES ARE PASSED OVER BY THEIR FORM**, at any depth. -/
theorem takes_scanIgnored : Takes scanIgnored (fun t (_ : Unit) => Formed t) where
  sound := by
    intro s u rest h
    obtain ⟨b, t, hb, ht, hs⟩ := (takes_skipValue _).sound h
    exact ⟨b, t, hb, ⟨_, ht⟩, hs⟩
  complete := scanIgnored_of_formed Blank.nil
  begins := by
    rintro t u ⟨depth, h⟩
    exact h.begins

end PhaseHost.Json
