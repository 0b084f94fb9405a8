import PhaseHost.Proofs.Json.Lists

/-! # Documents are read as spelled

    Of all byte sequences the reader takes exactly the documents, each with the value it
    spells.  The proof is by induction on the depth that remains: a list of values is read
    as a list of its kind as soon as values that are less deep are read as spelled. -/

namespace PhaseHost.Json

variable {b t s r rest word : Bytes} {v v' : Json} {depth : Nat}

theorem scanWord_eq_ok_iff : scanWord word v s = .ok (v', rest) ↔ v' = v ∧ s = word ++ rest := by
  induction word generalizing s with
  | nil =>
      constructor
      · intro h
        cases h
        exact ⟨rfl, rfl⟩
      · rintro ⟨rfl, rfl⟩
        rfl
  | cons w word ih =>
      cases s with
      | nil => exact ⟨nofun, fun h => nomatch h.2⟩
      | cons x s =>
          rw [scanWord]
          by_cases hx : x = w
          · subst hx
            rw [if_pos rfl, ih]
            constructor
            · rintro ⟨rfl, rfl⟩
              exact ⟨rfl, rfl⟩
            · rintro ⟨rfl, h⟩
              exact ⟨rfl, (List.cons.inj h).2⟩
          · rw [if_neg hx]
            exact ⟨nofun, fun h => absurd (List.cons.inj h.2).1 hx⟩

theorem scanValue_blank (hb : Blank b) : scanValue depth (b ++ s) = scanValue depth s := by
  unfold scanValue
  rw [skipSpace_append hb]

theorem isSpace_of_isDigit {x : UInt8} (hx : IsDigit x) : isSpace x = false :=
  Bool.eq_false_iff.mpr (fun hspace => (not_isDigit_of_isSpace hspace).1 hx)

/-- A digit begins a number. -/
theorem scanValue_digit {x : UInt8} (hx : IsDigit x) :
    scanValue depth (x :: s) = scanUnsigned false (x :: s) := by
  have hblank : skipSpace (x :: s) = x :: s :=
    skipSpace_of_noBlank (noBlank_cons_iff.mpr (isSpace_of_isDigit hx))
  -- none of the other characters that begin a value is a digit
  have hother : ∀ {c : Char}, Char.ofUInt8 x = c → IsDigit (UInt8.ofNat c.toNat) := by
    intro c hc
    exact eq_of_ofUInt8 hc ▸ hx
  unfold scanValue
  simp only [hblank, digit?_of_isDigit hx]
  split
  · next hc => exact absurd (hother hc) (by decide)
  · next hc => exact absurd (hother hc) (by decide)
  · next hc => exact absurd (hother hc) (by decide)
  · next hc => exact absurd (hother hc) (by decide)
  · next hc => exact absurd (hother hc) (by decide)
  · next hc => exact absurd (hother hc) (by decide)
  · next hc => exact absurd (hother hc) (by decide)
  · rfl

/-- A scalar is read at any depth. -/
theorem scanValue_of_scalar (h : Scalar t v) (hr : Stops rest) :
    scanValue depth (t ++ rest) = .ok (v, rest) := by
  cases h with
  | null =>
      unfold scanValue
      exact scanWord_eq_ok_iff.mpr ⟨rfl, rfl⟩
  | true =>
      unfold scanValue
      exact scanWord_eq_ok_iff.mpr ⟨rfl, rfl⟩
  | false =>
      unfold scanValue
      exact scanWord_eq_ok_iff.mpr ⟨rfl, rfl⟩
  | @text t s body =>
      have hscan : scanString (t ++ 0x22 :: rest) = .ok (s, rest) :=
        scanString_eq_ok_iff.mpr ⟨t, body, rfl⟩
      rw [List.cons_append, List.append_assoc]
      have hskip : skipSpace (0x22 :: (t ++ 0x22 :: rest)) = 0x22 :: (t ++ 0x22 :: rest) := rfl
      have hchar : Char.ofUInt8 0x22 = '"' := rfl
      unfold scanValue
      simp only [List.singleton_append, hskip, hchar, hscan]
  | @number n v wellFormed value =>
      have hscan := scanUnsigned_of_numeral wellFormed hr value
      obtain ⟨x, t, htext, hx⟩ := wellFormed.exists_head
      rw [htext] at hscan ⊢
      exact (scanValue_digit hx).trans hscan
  | negative wellFormed value =>
      unfold scanValue
      exact scanUnsigned_of_numeral wellFormed hr value

theorem ok_of_toOption {ε α : Type} {e : Except ε α} {x : α} (h : e.toOption = some x) :
    e = .ok x := by
  cases e with
  | ok y => exact congrArg Except.ok (Option.some.inj h)
  | error fault => cases h

/-- An array is read if its items are. -/
theorem scanValue_of_array {items : List Json} (h : Takes (scanValue depth) (Spells depth))
    (hr : Listed (Spells depth) 0x5D r items) :
    scanValue (depth + 1) (0x5B :: (r ++ rest)) = .ok (.arr items, rest) := by
  have hlength : r.length < (r ++ rest).length + 1 := by
    rw [List.length_append]
    omega
  have hscan : scanItems (scanValue depth) ((r ++ rest).length + 1) true [] (r ++ rest)
      = .ok (items, rest) :=
    ok_of_toOption ((scanItems_toOption true).trans
      (scanSeries_of_listed h (Or.inl rfl) hr hlength))
  have hskip : skipSpace (0x5B :: (r ++ rest)) = 0x5B :: (r ++ rest) := rfl
  have hchar : Char.ofUInt8 0x5B = '[' := rfl
  unfold scanValue
  simp only [hskip, hchar, hscan]

/-- An object is read if its values are. -/
theorem scanValue_of_object {members fields : List (String × Json)}
    (h : Takes (scanValue depth) (Spells depth))
    (hr : Listed (Member (Spells depth)) 0x7D r members)
    (hgathers : Fields.Gathers members fields) :
    scanValue (depth + 1) (0x7B :: (r ++ rest)) = .ok (.obj fields, rest) := by
  have hlength : r.length < (r ++ rest).length + 1 := by
    rw [List.length_append]
    omega
  have hmember := takes_member h (fun hb => scanValue_blank hb)
  have hscan : scanFields (fun _ => scanValue depth) ((r ++ rest).length + 1) true [] (r ++ rest)
      = .ok (members, rest) :=
    ok_of_toOption ((scanFields_toOption true).trans
      (scanSeries_of_listed hmember (Or.inr rfl) hr hlength))
  have hskip : skipSpace (0x7B :: (r ++ rest)) = 0x7B :: (r ++ rest) := rfl
  have hchar : Char.ofUInt8 0x7B = '\x7b' := rfl
  unfold scanValue
  simp only [hskip, hchar, hscan, Fields.gathers_iff.mp hgathers]
  rfl

theorem Scalar.spells (h : Scalar t v) : Spells depth t v := by
  cases depth with
  | zero => exact h
  | succ depth => exact Or.inl h

/-- A value may begin with a digit. -/
theorem begins_of_isDigit {x : UInt8} (hx : IsDigit x) : Begins x := by
  have hne : ∀ {y : UInt8}, ¬ IsDigit y → x ≠ y := by
    rintro y hy rfl
    exact hy hx
  exact ⟨isSpace_of_isDigit hx, hne (by decide), hne (by decide), hne (by decide)⟩

theorem Spells.begins (h : Spells depth t v) : ∃ x t', t = x :: t' ∧ Begins x := by
  have hscalar : Scalar t v → ∃ x t', t = x :: t' ∧ Begins x := by
    intro h
    cases h with
    | null => exact ⟨_, _, rfl, rfl, by decide, by decide, by decide⟩
    | true => exact ⟨_, _, rfl, rfl, by decide, by decide, by decide⟩
    | false => exact ⟨_, _, rfl, rfl, by decide, by decide, by decide⟩
    | text body => exact ⟨_, _, rfl, rfl, by decide, by decide, by decide⟩
    | @number n v wellFormed value =>
        obtain ⟨x, t, htext, hx⟩ := wellFormed.exists_head
        exact ⟨x, t, htext, begins_of_isDigit hx⟩
    | negative wellFormed value => exact ⟨_, _, rfl, rfl, by decide, by decide, by decide⟩
  cases depth with
  | zero => exact hscalar h
  | succ depth =>
      rcases h with h | ⟨r, items, -, rfl, -⟩ | ⟨r, members, fields, -, -, rfl, -⟩
      · exact hscalar h
      · exact ⟨_, _, rfl, rfl, by decide, by decide, by decide⟩
      · exact ⟨_, _, rfl, rfl, by decide, by decide, by decide⟩

/-- What is read as a value is a scalar, or it was read as an array or an object. -/
theorem cases_of_scanValue (h : scanValue depth s = .ok (v, rest)) :
    ∃ b s', Blank b ∧ s = b ++ s'
      ∧ ((∃ t, Scalar t v ∧ s' = t ++ rest)
        ∨ (∃ d r items, depth = d + 1 ∧ s' = 0x5B :: r
            ∧ scanItems (scanValue d) (r.length + 1) true [] r = .ok (items, rest)
            ∧ v = .arr items)
        ∨ ∃ d r members, depth = d + 1 ∧ s' = 0x7B :: r
            ∧ scanFields (fun _ => scanValue d) (r.length + 1) true [] r = .ok (members, rest)
            ∧ v = ofPairs members) := by
  obtain ⟨b, hb, hs, -⟩ := exists_blank s
  refine ⟨b, skipSpace s, hb, hs, ?_⟩
  unfold scanValue at h
  generalize skipSpace s = s' at h
  cases s' with
  | nil => cases h
  | cons x s' =>
      have hword : ∀ {c : Char} {word v'}, Char.ofUInt8 x = c →
          Scalar (UInt8.ofNat c.toNat :: word) v' → scanWord word v' s' = .ok (v, rest) →
          ∃ t, Scalar t v ∧ x :: s' = t ++ rest := by
        intro c word v' hc hscalar hscan
        obtain ⟨rfl, rfl⟩ := scanWord_eq_ok_iff.mp hscan
        rw [eq_of_ofUInt8 hc]
        exact ⟨_, hscalar, rfl⟩
      simp only at h
      split at h
      · next hc => exact Or.inl (hword hc .null h)
      · next hc => exact Or.inl (hword hc .true h)
      · next hc => exact Or.inl (hword hc .false h)
      · next hc =>
          obtain rfl : x = 0x22 := eq_of_ofUInt8 hc
          cases hscan : scanString s' with
          | error fault =>
              rw [hscan] at h
              cases h
          | ok p =>
              obtain ⟨text, s₁⟩ := p
              rw [hscan] at h
              cases h
              obtain ⟨t, body, rfl⟩ := scanString_eq_ok_iff.mp hscan
              refine Or.inl ⟨_, .text body, ?_⟩
              rw [List.cons_append, List.append_assoc, List.singleton_append]
      · next hc =>
          obtain rfl : x = 0x2D := eq_of_ofUInt8 hc
          obtain ⟨n, hn, rfl, hv⟩ := numeral_of_scanUnsigned h
          exact Or.inl ⟨_, .negative hn hv, rfl⟩
      · next hc =>
          obtain rfl : x = 0x5B := eq_of_ofUInt8 hc
          cases depth with
          | zero => cases h
          | succ d =>
              simp only at h
              cases hscan : scanItems (scanValue d) (s'.length + 1) true [] s' with
              | error fault =>
                  rw [hscan] at h
                  cases h
              | ok p =>
                  obtain ⟨items, s₁⟩ := p
                  rw [hscan] at h
                  cases h
                  exact Or.inr (Or.inl ⟨d, s', items, rfl, rfl, hscan, rfl⟩)
      · next hc =>
          obtain rfl : x = 0x7B := eq_of_ofUInt8 hc
          cases depth with
          | zero => cases h
          | succ d =>
              simp only at h
              cases hscan : scanFields (fun _ => scanValue d) (s'.length + 1) true [] s' with
              | error fault =>
                  rw [hscan] at h
                  cases h
              | ok p =>
                  obtain ⟨members, s₁⟩ := p
                  rw [hscan] at h
                  cases h
                  exact Or.inr (Or.inr ⟨d, s', members, rfl, rfl, hscan, rfl⟩)
      · by_cases hx : IsDigit x
        · rw [digit?_of_isDigit hx] at h
          obtain ⟨n, hn, hs', hv⟩ := numeral_of_scanUnsigned h
          exact Or.inl ⟨_, .number hn hv, hs'⟩
        · rw [digit?_of_not hx] at h
          cases h

/-- The reader of values takes what spells a value that is not too deep. -/
theorem takes_scanValue (depth : Nat) : Takes (scanValue depth) (Spells depth) := by
  induction depth with
  | zero =>
      refine ⟨?_, scanValue_of_scalar, Spells.begins⟩
      intro s v rest h
      obtain ⟨b, s', hb, rfl, ⟨t, ht, rfl⟩ | ⟨d, r, items, hd, -⟩ | ⟨d, r, members, hd, -⟩⟩ :=
        cases_of_scanValue h
      · exact ⟨b, t, hb, ht, rfl⟩
      · cases hd
      · cases hd
  | succ depth ih =>
      refine ⟨?_, ?_, Spells.begins⟩
      · intro s v rest h
        obtain ⟨b, s', hb, rfl, ⟨t, ht, rfl⟩ | ⟨d, r, items, hd, rfl, hscan, rfl⟩
          | ⟨d, r, members, hd, rfl, hscan, rfl⟩⟩ := cases_of_scanValue h
        · exact ⟨b, t, hb, Or.inl ht, rfl⟩
        · obtain rfl := Nat.succ.inj hd
          have hseries := (scanItems_toOption true).symm.trans (congrArg Except.toOption hscan)
          obtain ⟨r', hr, rfl⟩ := listed_of_scanSeries ih hseries
          exact ⟨b, _, hb, Or.inr (Or.inl ⟨r', items, hr, rfl, rfl⟩), rfl⟩
        · obtain rfl := Nat.succ.inj hd
          have hmember := takes_member ih (fun hb => scanValue_blank hb)
          have hseries := (scanFields_toOption true).symm.trans (congrArg Except.toOption hscan)
          obtain ⟨r', hr, rfl⟩ := listed_of_scanSeries hmember hseries
          exact ⟨b, _, hb, Or.inr (Or.inr ⟨r', members, _, hr, Fields.gathers_ofList members, rfl,
            rfl⟩), rfl⟩
      · intro t v rest h hstops
        rcases h with h | ⟨r, items, hr, rfl, rfl⟩ | ⟨r, members, fields, hr, hgathers, rfl, rfl⟩
        · exact scanValue_of_scalar h hstops
        · exact scanValue_of_array ih hr
        · exact scanValue_of_object ih hr hgathers

theorem scanEnd_eq_ok_iff : scanEnd s = .ok () ↔ Blank s := by
  obtain ⟨b, hb, hs, -⟩ := exists_blank s
  unfold scanEnd
  constructor
  · intro h
    cases hskip : skipSpace s with
    | nil =>
        rw [hskip, List.append_nil] at hs
        exact hs ▸ hb
    | cons x s' =>
        rw [hskip] at h
        cases h
  · intro h
    have hskip := skipSpace_append h []
    rw [List.append_nil] at hskip
    rw [hskip]
    rfl

/-- **DOCUMENTS ARE READ AS SPELLED**: the reader takes the byte sequences that spell a value,
    with the value they spell, and no others. -/
theorem parse_eq_ok_iff {raw : Bytes} : parse raw = .ok v ↔ Document raw v := by
  constructor
  · intro h
    cases hscan : scanValue maxDepth raw with
    | error fault =>
        simp only [parse, bind, Except.bind, hscan] at h
        cases h
    | ok p =>
        obtain ⟨v', b'⟩ := p
        cases hend : scanEnd b' with
        | error fault =>
            simp only [parse, bind, Except.bind, hscan, hend] at h
            cases h
        | ok u =>
            simp only [parse, bind, Except.bind, hscan, hend] at h
            cases h
            obtain ⟨b, t, hb, ht, rfl⟩ := (takes_scanValue maxDepth).sound hscan
            exact ⟨b, t, b', hb, ht, scanEnd_eq_ok_iff.mp hend, rfl⟩
  · rintro ⟨b, t, b', hb, ht, hb', rfl⟩
    have hstops : Stops b' := by
      have h := hb'.stops stops_nil
      rwa [List.append_nil] at h
    have hscan := (takes_scanValue maxDepth).complete ht hstops
    rw [← scanValue_blank hb] at hscan
    simp only [parse, bind, Except.bind, hscan, scanEnd_eq_ok_iff.mpr hb']

end PhaseHost.Json
