import PhaseHost.Text.Utf8

/-! # UTF-8 is read as it is written

    The reader cuts bytes with a machine; the writer looks at one character at a time.
    Both directions are shown one character at a time.

    * What is written for a character is taken by the machine as that character, whatever
      follows it.
    * Where the machine finds no malformed piece, what it takes next is what is written
      for a character.

    So the decodable byte sequences are the texts that were written, and each is decoded
    to its own text. -/

namespace PhaseHost.Utf8

variable {acc : List Token} {a b : UInt8} {rest bytes : Bytes} {c : Char}

/-! ## The first byte -/

/-- The number of a byte below a bound. -/
theorem lt_iff (a b : UInt8) : a < b ↔ a.toNat < b.toNat :=
  UInt8.lt_iff_toNat_lt

/-- A byte below `0x80` is a character. -/
theorem first_one (h : a.toNat < 0x80) :
    first acc a = (.char (Char.ofNat a.toNat) :: acc, .start) :=
  if_pos ((lt_iff a 0x80).mpr h)

/-- A byte that could only go on with a character cannot begin one. -/
theorem first_broken (h : 0x80 ≤ a.toNat) (h' : a.toNat < 0xC2) :
    first acc a = (.broken 1 :: acc, .start) := by
  have h₁ : ¬ a < 0x80 := fun hlt => absurd ((lt_iff a 0x80).mp hlt) (Nat.not_lt.mpr h)
  have h₂ : a < 0xC2 := (lt_iff a 0xC2).mpr h'
  rw [first, if_neg h₁, if_pos h₂]

/-- The first byte of two. -/
theorem first_two (h : 0xC2 ≤ a.toNat) (h' : a.toNat < 0xE0) :
    first acc a = (acc, .inside (a.toNat % 32) 1 1 0x80 0xBF) := by
  simp only [first, lt_iff, ← UInt8.toNat_inj, UInt8.toNat_ofNat]
  rw [if_neg (by omega), if_neg (by omega), if_pos (by omega)]

/-- The first byte of three; it narrows the range of the second. -/
theorem first_three (h : 0xE0 ≤ a.toNat) (h' : a.toNat < 0xF0) :
    first acc a = (acc, .inside (a.toNat % 16) 1 2
      (if a.toNat = 0xE0 then 0xA0 else 0x80) (if a.toNat = 0xED then 0x9F else 0xBF)) := by
  simp only [first, lt_iff, ← UInt8.toNat_inj, UInt8.toNat_ofNat]
  rw [if_neg (by omega), if_neg (by omega), if_neg (by omega)]
  by_cases hlow : a.toNat = 0xE0
  · rw [if_pos (by omega), if_pos hlow, if_neg (by omega)]
  · rw [if_neg (by omega), if_neg hlow]
    by_cases hhigh : a.toNat = 0xED
    · rw [if_pos (by omega), if_pos hhigh]
    · rw [if_neg (by omega), if_neg hhigh, if_pos (by omega)]

/-- The first byte of four; it narrows the range of the second. -/
theorem first_four (h : 0xF0 ≤ a.toNat) (h' : a.toNat < 0xF5) :
    first acc a = (acc, .inside (a.toNat % 8) 1 3
      (if a.toNat = 0xF0 then 0x90 else 0x80) (if a.toNat = 0xF4 then 0x8F else 0xBF)) := by
  simp only [first, lt_iff, ← UInt8.toNat_inj, UInt8.toNat_ofNat]
  rw [if_neg (by omega), if_neg (by omega), if_neg (by omega), if_neg (by omega),
    if_neg (by omega), if_neg (by omega)]
  by_cases hlow : a.toNat = 0xF0
  · rw [if_pos (by omega), if_pos hlow, if_neg (by omega)]
  · rw [if_neg (by omega), if_neg hlow]
    by_cases hhigh : a.toNat = 0xF4
    · rw [if_neg (by omega), if_pos (by omega), if_pos hhigh]
    · rw [if_pos (by omega), if_neg hhigh]

/-- Beyond `0xF4` no character begins. -/
theorem first_none (h : 0xF5 ≤ a.toNat) : first acc a = (.broken 1 :: acc, .start) := by
  simp only [first, lt_iff, ← UInt8.toNat_inj, UInt8.toNat_ofNat]
  rw [if_neg (by omega), if_neg (by omega), if_neg (by omega), if_neg (by omega),
    if_neg (by omega), if_neg (by omega), if_neg (by omega), if_neg (by omega), if_neg (by omega)]

/-! ## Further bytes -/

/-- The reader stands inside a character, `owed` bytes before its end. -/
theorem scan_inside_of_mem {value taken owed : Nat} {low high : UInt8}
    (h : low.toNat ≤ b.toNat) (h' : b.toNat ≤ high.toNat) :
    scan acc (.inside value taken owed low high) (b :: rest)
      = if owed ≤ 1 then scan (.char (Char.ofNat (value * 64 + b.toNat % 64)) :: acc) .start rest
        else scan acc
          (.inside (value * 64 + b.toNat % 64) (taken + 1) (owed - 1) 0x80 0xBF) rest := by
  have hmem : (decide (low ≤ b) && decide (b ≤ high)) = true := by
    rw [Bool.and_eq_true, decide_eq_true_eq, decide_eq_true_eq, UInt8.le_iff_toNat_le,
      UInt8.le_iff_toNat_le]
    exact ⟨h, h'⟩
  simp only [scan, next, if_pos hmem]
  split
  · rfl
  · rfl

/-- Inside a character a byte of the plain range adds its six bits. -/
theorem scan_inside_plain {value taken owed : Nat} (h : 0x80 ≤ b.toNat) (h' : b.toNat ≤ 0xBF) :
    scan acc (.inside value taken owed 0x80 0xBF) (b :: rest)
      = if owed ≤ 1 then scan (.char (Char.ofNat (value * 64 + b.toNat % 64)) :: acc) .start rest
        else scan acc (.inside (value * 64 + b.toNat % 64) (taken + 1) (owed - 1) 0x80 0xBF) rest :=
  scan_inside_of_mem h h'

/-- A character of two bytes. -/
theorem scan_two {a b : UInt8} (ha : 0xC2 ≤ a.toNat) (ha' : a.toNat < 0xE0)
    (hb : 0x80 ≤ b.toNat) (hb' : b.toNat ≤ 0xBF) :
    scan acc .start (a :: b :: rest)
      = scan (.char (Char.ofNat (a.toNat % 32 * 64 + b.toNat % 64)) :: acc) .start rest := by
  show scan (first acc a).1 (first acc a).2 (b :: rest) = _
  rw [first_two ha ha']
  exact scan_inside_plain hb hb'

/-- A character of three bytes. -/
theorem scan_three {a b c : UInt8} (ha : 0xE0 ≤ a.toNat) (ha' : a.toNat < 0xF0)
    (hb : (if a.toNat = 0xE0 then 0xA0 else 0x80) ≤ b.toNat)
    (hb' : b.toNat ≤ if a.toNat = 0xED then 0x9F else 0xBF)
    (hc : 0x80 ≤ c.toNat) (hc' : c.toNat ≤ 0xBF) :
    scan acc .start (a :: b :: c :: rest)
      = scan (.char (Char.ofNat ((a.toNat % 16 * 64 + b.toNat % 64) * 64 + c.toNat % 64)) :: acc)
          .start rest := by
  show scan (first acc a).1 (first acc a).2 (b :: c :: rest) = _
  rw [first_three ha ha', scan_inside_of_mem]
  · exact scan_inside_plain hc hc'
  · rw [apply_ite UInt8.toNat]
    exact hb
  · rw [apply_ite UInt8.toNat]
    exact hb'

/-- A character of four bytes. -/
theorem scan_four {a b c d : UInt8} (ha : 0xF0 ≤ a.toNat) (ha' : a.toNat < 0xF5)
    (hb : (if a.toNat = 0xF0 then 0x90 else 0x80) ≤ b.toNat)
    (hb' : b.toNat ≤ if a.toNat = 0xF4 then 0x8F else 0xBF)
    (hc : 0x80 ≤ c.toNat) (hc' : c.toNat ≤ 0xBF) (hd : 0x80 ≤ d.toNat) (hd' : d.toNat ≤ 0xBF) :
    scan acc .start (a :: b :: c :: d :: rest)
      = scan (.char (Char.ofNat (((a.toNat % 8 * 64 + b.toNat % 64) * 64 + c.toNat % 64) * 64
          + d.toNat % 64)) :: acc) .start rest := by
  show scan (first acc a).1 (first acc a).2 (b :: c :: d :: rest) = _
  rw [first_four ha ha', scan_inside_of_mem]
  · show scan acc _ (c :: d :: rest) = _
    refine (scan_inside_plain hc hc').trans ?_
    exact scan_inside_plain hd hd'
  · rw [apply_ite UInt8.toNat]
    exact hb
  · rw [apply_ite UInt8.toNat]
    exact hb'

/-! ## One character -/

/-- The number of a character leaves out what is kept for pairs of halves. -/
theorem toNat_valid (c : Char) : c.toNat < 0xD800 ∨ 0xDFFF < c.toNat ∧ c.toNat < 0x110000 :=
  c.valid

theorem toNat_byte {n : Nat} (h : n < 256) : (UInt8.ofNat n).toNat = n :=
  UInt8.toNat_ofNat_of_lt' h

/-- **A WRITTEN CHARACTER IS READ BACK**, and the reader goes on behind it. -/
theorem scan_char (acc : List Token) (c : Char) (rest : Bytes) :
    scan acc .start (String.utf8EncodeChar c ++ rest) = scan (.char c :: acc) .start rest := by
  have hvalid := toNat_valid c
  have hchar : Char.ofNat c.toNat = c := Char.ofNat_toNat c
  have hval : c.val.toNat = c.toNat := rfl
  generalize c.toNat = v at hvalid hchar hval
  simp only [String.utf8EncodeChar, hval]
  by_cases h₁ : v ≤ 127
  · have ha := toNat_byte (show v < 256 by omega)
    rw [if_pos h₁]
    show scan (first acc (UInt8.ofNat v)).1 (first acc (UInt8.ofNat v)).2 rest = _
    rw [first_one (by omega), ha, hchar]
  · rw [if_neg h₁]
    by_cases h₂ : v ≤ 2047
    · have ha := toNat_byte (show v / 64 % 32 + 192 < 256 by omega)
      have hb := toNat_byte (show v % 64 + 128 < 256 by omega)
      rw [if_pos h₂]
      refine (scan_two (by omega) (by omega) (by omega) (by omega)).trans ?_
      rw [ha, hb, show (v / 64 % 32 + 192) % 32 * 64 + (v % 64 + 128) % 64 = v by omega, hchar]
      rfl
    · rw [if_neg h₂]
      by_cases h₃ : v ≤ 65535
      · have ha := toNat_byte (show v / 4096 % 16 + 224 < 256 by omega)
        have hb := toNat_byte (show v / 64 % 64 + 128 < 256 by omega)
        have hc := toNat_byte (show v % 64 + 128 < 256 by omega)
        rw [if_pos h₃]
        refine (scan_three (by omega) (by omega) ?_ ?_ (by omega) (by omega)).trans ?_
        · rw [ha, hb]
          split
          · omega
          · omega
        · rw [ha, hb]
          split
          · omega
          · omega
        · rw [ha, hb, hc, show ((v / 4096 % 16 + 224) % 16 * 64 + (v / 64 % 64 + 128) % 64) * 64
            + (v % 64 + 128) % 64 = v by omega, hchar]
          rfl
      · have ha := toNat_byte (show v / 262144 % 8 + 240 < 256 by omega)
        have hb := toNat_byte (show v / 4096 % 64 + 128 < 256 by omega)
        have hc := toNat_byte (show v / 64 % 64 + 128 < 256 by omega)
        have hd := toNat_byte (show v % 64 + 128 < 256 by omega)
        rw [if_neg h₃]
        refine (scan_four (by omega) (by omega) ?_ ?_ (by omega) (by omega) (by omega)
          (by omega)).trans ?_
        · rw [ha, hb]
          split
          · omega
          · omega
        · rw [ha, hb]
          split
          · omega
          · omega
        · rw [ha, hb, hc, hd, show (((v / 262144 % 8 + 240) % 8 * 64 + (v / 4096 % 64 + 128) % 64)
            * 64 + (v / 64 % 64 + 128) % 64) * 64 + (v % 64 + 128) % 64 = v by omega, hchar]
          rfl

/-! ## No malformed pieces -/

/-- No token is malformed. -/
def Whole (tokens : List Token) : Prop :=
  ∀ t ∈ tokens, ∃ c, t = .char c

/-- A byte only adds tokens to those that were found. -/
theorem next_acc (acc : List Token) (b : UInt8) (state : State) :
    ∃ new, (next acc b state).1 = new ++ acc := by
  have hfirst : ∀ tokens, ∃ new, (first tokens b).1 = new ++ tokens := by
    intro tokens
    simp only [first]
    split
    · exact ⟨[_], rfl⟩
    repeat' split
    all_goals first | exact ⟨[], rfl⟩ | exact ⟨[_], rfl⟩
  cases state with
  | start => exact hfirst acc
  | inside value taken owed low high =>
      simp only [next]
      split
      · split
        · exact ⟨[_], rfl⟩
        · exact ⟨[], rfl⟩
      · obtain ⟨new, hnew⟩ := hfirst (.broken taken :: acc)
        exact ⟨new ++ [.broken taken], by rw [hnew, List.append_assoc, List.singleton_append]⟩

/-- The tokens that are cut already stay. -/
theorem prefix_scan (acc : List Token) (state : State) (bytes : Bytes) :
    acc.reverse <+: scan acc state bytes := by
  induction bytes generalizing acc state with
  | nil =>
      cases state with
      | start => exact List.prefix_refl _
      | inside value taken owed low high =>
          show _ <+: (Token.cut taken :: acc).reverse
          rw [List.reverse_cons]
          exact List.prefix_append _ _
  | cons b rest ih =>
      obtain ⟨new, hnew⟩ := next_acc acc b state
      refine List.IsPrefix.trans ?_ (ih _ _)
      rw [hnew, List.reverse_append]
      exact List.prefix_append _ _

/-- A broken token remains, so what was read so far is not whole, whatever follows. -/
theorem not_whole_of_mem {t : Token} {state : State} (hmem : t ∈ acc) (ht : ∀ c, t ≠ .char c) :
    ¬ Whole (scan acc state bytes) := by
  intro hwhole
  obtain ⟨c, hc⟩ := hwhole t ((prefix_scan acc state bytes).subset (List.mem_reverse.mpr hmem))
  exact ht c hc

/-- A reader that is inside a character and finds nothing malformed finds a byte in range. -/
theorem inside_of_whole {value taken owed : Nat} {low high : UInt8}
    (h : Whole (scan acc (.inside value taken owed low high) bytes)) :
    ∃ b rest, bytes = b :: rest ∧ low.toNat ≤ b.toNat ∧ b.toNat ≤ high.toNat := by
  cases bytes with
  | nil =>
      obtain ⟨c, hc⟩ := h (.cut taken) (List.mem_reverse.mpr List.mem_cons_self)
      cases hc
  | cons b rest =>
      refine ⟨b, rest, rfl, ?_⟩
      by_cases hmem : (decide (low ≤ b) && decide (b ≤ high)) = true
      · rw [Bool.and_eq_true, decide_eq_true_eq, decide_eq_true_eq, UInt8.le_iff_toNat_le,
          UInt8.le_iff_toNat_le] at hmem
        exact hmem
      · simp only [scan, next, if_neg hmem] at h
        obtain ⟨new, hnew⟩ := next_acc (.broken taken :: acc) b .start
        have hbroken : Token.broken taken ∈ (first (.broken taken :: acc) b).1 := by
          have hfirst : (first (.broken taken :: acc) b).1 = new ++ .broken taken :: acc := hnew
          rw [hfirst]
          exact List.mem_append_right _ List.mem_cons_self
        exact absurd h (not_whole_of_mem hbroken (fun c => nofun))

/-- What is left behind such a byte is well formed too. -/
theorem inside_step_of_whole {value taken owed : Nat} {low high : UInt8}
    (h : Whole (scan acc (.inside value taken (owed + 2) low high) bytes)) :
    ∃ b rest, bytes = b :: rest ∧ low.toNat ≤ b.toNat ∧ b.toNat ≤ high.toNat
      ∧ Whole (scan acc (.inside (value * 64 + b.toNat % 64) (taken + 1) (owed + 1) 0x80 0xBF)
          rest) := by
  obtain ⟨b, rest, rfl, hb, hb'⟩ := inside_of_whole h
  rw [scan_inside_of_mem hb hb', if_neg (by omega)] at h
  exact ⟨b, rest, rfl, hb, hb', h⟩

theorem toNat_ofNat {n : Nat} (h : n.isValidChar) : (Char.ofNat n).toNat = n := by
  rw [Char.ofNat, dif_pos h]
  rfl

theorem byte_eq {n : Nat} (h : n = b.toNat) : UInt8.ofNat n = b := by
  rw [h, UInt8.ofNat_toNat]

/-- A lower bound that is raised at one place. -/
theorem raised_le {n k low high m : Nat} (hle : low ≤ high)
    (h : (if n = k then high else low) ≤ m) : low ≤ m ∧ (n = k → high ≤ m) := by
  split at h
  · exact ⟨Nat.le_trans hle h, fun _ => h⟩
  · next hne => exact ⟨h, fun heq => absurd heq hne⟩

/-- An upper bound that is lowered at one place. -/
theorem le_lowered {n k low high m : Nat} (hle : low ≤ high)
    (h : m ≤ if n = k then low else high) : m ≤ high ∧ (n = k → m ≤ low) := by
  split at h
  · exact ⟨Nat.le_trans h hle, fun _ => h⟩
  · next hne => exact ⟨h, fun heq => absurd heq hne⟩

/-- One byte gives back its character. -/
theorem encode_one (h : a.toNat < 0x80) : String.utf8EncodeChar (Char.ofNat a.toNat) = [a] := by
  have hval : (Char.ofNat a.toNat).val.toNat = a.toNat := toNat_ofNat (Or.inl (by omega))
  simp only [String.utf8EncodeChar, hval]
  rw [if_pos (by omega), byte_eq rfl]

/-- Two bytes in their ranges are the form of the character they make. -/
theorem encode_two (ha : 0xC2 ≤ a.toNat) (ha' : a.toNat < 0xE0) (hb : 0x80 ≤ b.toNat)
    (hb' : b.toNat ≤ 0xBF) :
    String.utf8EncodeChar (Char.ofNat (a.toNat % 32 * 64 + b.toNat % 64)) = [a, b] := by
  generalize hn : a.toNat % 32 * 64 + b.toNat % 64 = n
  have hval : (Char.ofNat n).val.toNat = n := toNat_ofNat (Or.inl (by omega))
  simp only [String.utf8EncodeChar, hval]
  rw [if_neg (by omega), if_pos (by omega), byte_eq (b := a) (by omega),
    byte_eq (b := b) (by omega)]

/-- Three bytes in their ranges are the form of the character they make. -/
theorem encode_three {a b c : UInt8} (ha : 0xE0 ≤ a.toNat) (ha' : a.toNat < 0xF0)
    (hb : (if a.toNat = 0xE0 then 0xA0 else 0x80) ≤ b.toNat)
    (hb' : b.toNat ≤ if a.toNat = 0xED then 0x9F else 0xBF)
    (hc : 0x80 ≤ c.toNat) (hc' : c.toNat ≤ 0xBF) :
    String.utf8EncodeChar (Char.ofNat ((a.toNat % 16 * 64 + b.toNat % 64) * 64 + c.toNat % 64))
      = [a, b, c] := by
  generalize hn : (a.toNat % 16 * 64 + b.toNat % 64) * 64 + c.toNat % 64 = n
  have hlow := raised_le (by decide) hb
  have hhigh := le_lowered (by decide) hb'
  have hvalid : n.isValidChar := by
    show n < 55296 ∨ 57343 < n ∧ n < 1114112
    omega
  have hval : (Char.ofNat n).val.toNat = n := toNat_ofNat hvalid
  simp only [String.utf8EncodeChar, hval]
  rw [if_neg (by omega), if_neg (by omega), if_pos (by omega), byte_eq (b := a) (by omega),
    byte_eq (b := b) (by omega), byte_eq (b := c) (by omega)]

/-- Four bytes in their ranges are the form of the character they make. -/
theorem encode_four {a b c d : UInt8} (ha : 0xF0 ≤ a.toNat) (ha' : a.toNat < 0xF5)
    (hb : (if a.toNat = 0xF0 then 0x90 else 0x80) ≤ b.toNat)
    (hb' : b.toNat ≤ if a.toNat = 0xF4 then 0x8F else 0xBF)
    (hc : 0x80 ≤ c.toNat) (hc' : c.toNat ≤ 0xBF) (hd : 0x80 ≤ d.toNat) (hd' : d.toNat ≤ 0xBF) :
    String.utf8EncodeChar (Char.ofNat (((a.toNat % 8 * 64 + b.toNat % 64) * 64 + c.toNat % 64) * 64
      + d.toNat % 64)) = [a, b, c, d] := by
  generalize hn : ((a.toNat % 8 * 64 + b.toNat % 64) * 64 + c.toNat % 64) * 64
    + d.toNat % 64 = n
  have hlow := raised_le (by decide) hb
  have hhigh := le_lowered (by decide) hb'
  have hvalid : n.isValidChar := by
    show n < 55296 ∨ 57343 < n ∧ n < 1114112
    omega
  have hval : (Char.ofNat n).val.toNat = n := toNat_ofNat hvalid
  simp only [String.utf8EncodeChar, hval]
  rw [if_neg (by omega), if_neg (by omega), if_neg (by omega), byte_eq (b := a) (by omega),
    byte_eq (b := b) (by omega), byte_eq (b := c) (by omega), byte_eq (b := d) (by omega)]

/-- **WHAT IS WELL FORMED WAS WRITTEN**: a reader that finds nothing malformed stands before
    what is written for a character. -/
theorem char_of_whole (h : Whole (scan acc .start (a :: rest))) :
    ∃ c rest', a :: rest = String.utf8EncodeChar c ++ rest' := by
  replace h : Whole (scan (first acc a).1 (first acc a).2 rest) := h
  have hnot : ∀ {t : Token}, first acc a = (t :: acc, .start) → ∃ c, t = .char c := by
    intro t hfirst
    rw [hfirst] at h
    exact h t ((prefix_scan _ _ _).subset (List.mem_reverse.mpr List.mem_cons_self))
  rcases Nat.lt_or_ge a.toNat 0x80 with h₁ | h₁
  · exact ⟨_, rest, by rw [encode_one h₁]; rfl⟩
  rcases Nat.lt_or_ge a.toNat 0xC2 with h₂ | h₂
  · obtain ⟨c, hc⟩ := hnot (first_broken h₁ h₂)
    cases hc
  rcases Nat.lt_or_ge a.toNat 0xE0 with h₃ | h₃
  · rw [first_two h₂ h₃] at h
    obtain ⟨b, rest', rfl, hb, hb'⟩ := inside_of_whole h
    exact ⟨_, rest', by rw [encode_two h₂ h₃ hb hb']; rfl⟩
  rcases Nat.lt_or_ge a.toNat 0xF0 with h₄ | h₄
  · rw [first_three h₃ h₄] at h
    obtain ⟨b, rest₁, rfl, hb, hb', h⟩ := inside_step_of_whole h
    obtain ⟨c, rest', rfl, hc, hc'⟩ := inside_of_whole h
    rw [apply_ite UInt8.toNat] at hb hb'
    exact ⟨_, rest', by rw [encode_three h₃ h₄ hb hb' hc hc']; rfl⟩
  rcases Nat.lt_or_ge a.toNat 0xF5 with h₅ | h₅
  · rw [first_four h₄ h₅] at h
    obtain ⟨b, rest₁, rfl, hb, hb', h⟩ := inside_step_of_whole h
    obtain ⟨c, rest₂, rfl, hc, hc', h⟩ := inside_step_of_whole h
    obtain ⟨d, rest', rfl, hd, hd'⟩ := inside_of_whole h
    rw [apply_ite UInt8.toNat] at hb hb'
    exact ⟨_, rest', by rw [encode_four h₄ h₅ hb hb' hc hc' hd hd']; rfl⟩
  · obtain ⟨c, hc⟩ := hnot (first_none h₅)
    cases hc

/-! ## Whole sequences -/

/-- The bytes of characters in a row. -/
def encodeChars (cs : List Char) : Bytes :=
  cs.flatMap String.utf8EncodeChar

@[simp] theorem encodeChars_nil : encodeChars [] = [] := rfl

@[simp] theorem encodeChars_cons (c : Char) (cs : List Char) :
    encodeChars (c :: cs) = String.utf8EncodeChar c ++ encodeChars cs := List.flatMap_cons

theorem encodeChars_append (cs cs' : List Char) :
    encodeChars (cs ++ cs') = encodeChars cs ++ encodeChars cs' := List.flatMap_append

/-- A text is encoded character by character. -/
@[simp] theorem encode_ofList (cs : List Char) : encode (String.ofList cs) = encodeChars cs := by
  rw [encode, String.toList_ofList, encodeChars]

theorem encode_eq (s : String) : encode s = encodeChars s.toList := rfl

/-- The bytes of some characters. -/
def Encoded (bytes : Bytes) : Prop :=
  ∃ cs, bytes = encodeChars cs

/-- Encoded texts may stand behind each other. -/
theorem Encoded.append {bytes' : Bytes} (h : Encoded bytes) (h' : Encoded bytes') :
    Encoded (bytes ++ bytes') := by
  obtain ⟨cs, rfl⟩ := h
  obtain ⟨cs', rfl⟩ := h'
  exact ⟨cs ++ cs', (encodeChars_append cs cs').symm⟩

/-- Bytes below the first that is part of a longer character are characters themselves. -/
theorem encoded_of_small (h : ∀ b ∈ bytes, b.toNat < 0x80) : Encoded bytes := by
  induction bytes with
  | nil => exact ⟨[], rfl⟩
  | cons b bytes ih =>
      obtain ⟨hb, hrest⟩ := List.forall_mem_cons.mp h
      obtain ⟨cs, rfl⟩ := ih hrest
      exact ⟨Char.ofNat b.toNat :: cs, by rw [encodeChars_cons, encode_one hb]; rfl⟩

/-- A character of ASCII may stand in front. -/
theorem Encoded.cons (hb : b.toNat < 0x80) (h : Encoded bytes) : Encoded (b :: bytes) :=
  (encoded_of_small (List.forall_mem_singleton.mpr hb)).append h

/-- Reading over an encoded text finds its characters and is at the start again. -/
theorem scan_encodeChars (acc : List Token) (cs : List Char) (rest : Bytes) :
    scan acc .start (encodeChars cs ++ rest)
      = scan ((cs.map .char).reverse ++ acc) .start rest := by
  induction cs generalizing acc with
  | nil => rfl
  | cons c cs ih =>
      rw [encodeChars_cons, List.append_assoc, scan_char, ih, List.map_cons, List.reverse_cons,
        List.append_assoc, List.singleton_append]

/-- The tokens of an encoded text are its characters. -/
theorem tokens_encode (cs : List Char) : tokens (encodeChars cs) = cs.map .char := by
  have h := scan_encodeChars [] cs []
  rw [List.append_nil, List.append_nil] at h
  exact h.trans (List.reverse_reverse _)

/-- Bytes without malformed pieces are those of a text. -/
theorem encoded_of_whole (h : Whole (scan acc .start bytes)) : ∃ cs, bytes = encodeChars cs := by
  induction hlength : bytes.length using Nat.strongRecOn generalizing acc bytes with
  | ind n ih =>
      cases bytes with
      | nil => exact ⟨[], rfl⟩
      | cons a rest =>
          obtain ⟨c, rest', hsplit⟩ := char_of_whole h
          rw [hsplit, scan_char] at h
          have hshort : rest'.length < n := by
            have hone := c.utf8Size_pos
            rw [← hlength, hsplit, List.length_append, String.length_utf8EncodeChar]
            omega
          obtain ⟨cs, rfl⟩ := ih _ hshort h rfl
          exact ⟨c :: cs, hsplit.trans (encodeChars_cons c cs).symm⟩

theorem mapM_char? (cs : List Char) : (cs.map Token.char).mapM Token.char? = some cs := by
  induction cs with
  | nil => rfl
  | cons c cs ih => simp only [List.map_cons, List.mapM_cons, ih, Token.char?]; rfl

/-- Tokens that are all characters are whole. -/
theorem whole_of_mapM_char? {tokens : List Token} {cs : List Char}
    (h : tokens.mapM Token.char? = some cs) : Whole tokens := by
  induction tokens generalizing cs with
  | nil => exact nofun
  | cons t tokens ih =>
      rw [List.mapM_cons] at h
      obtain ⟨c, hc, h⟩ := Option.bind_eq_some_iff.mp h
      obtain ⟨cs', hcs, -⟩ := Option.bind_eq_some_iff.mp h
      have ht : t = .char c := by
        cases t with
        | char c' => exact congrArg Token.char (Option.some.inj hc)
        | broken n => exact nomatch hc
        | cut n => exact nomatch hc
      exact List.forall_mem_cons.mpr ⟨⟨c, ht⟩, ih hcs⟩

/-- **DECODING IS THE INVERSE OF ENCODING**: bytes have a text exactly if they were written
    for it. -/
theorem decode?_eq_some_iff {s : String} : decode? bytes = some s ↔ bytes = encode s := by
  constructor
  · intro h
    obtain ⟨cs, hcs, rfl⟩ := Option.map_eq_some_iff.mp h
    obtain ⟨cs', rfl⟩ := encoded_of_whole (whole_of_mapM_char? hcs)
    rw [tokens_encode, mapM_char?] at hcs
    obtain rfl := Option.some.inj hcs
    exact (encode_ofList _).symm
  · rintro rfl
    rw [decode?, encode_eq, tokens_encode, mapM_char?, Option.map_some, String.ofList_toList]

/-- The text that bytes were written for is shown as it is. -/
theorem lossy_encode (s : String) : lossy (encode s) = s := by
  have hshown : (s.toList.map Token.char).map Token.shown = s.toList := by
    rw [List.map_map]
    exact List.map_id s.toList
  rw [lossy, encode_eq, tokens_encode, hshown, String.ofList_toList]

/-- Characters are no faults. -/
theorem firstFault_map_char (index : Nat) (cs : List Char) :
    firstFault index (cs.map .char) = none := by
  induction cs generalizing index with
  | nil => rfl
  | cons c cs ih => exact ih (index + c.utf8Size)

/-- There is no fault in an encoded text. -/
theorem fault?_encode (s : String) : fault? (encode s) = none := by
  rw [fault?, encode_eq, tokens_encode]
  exact firstFault_map_char 0 s.toList

/-- No character is written as the beginning of another. -/
theorem encode_char_append {c c' : Char} {r r' : Bytes}
    (h : String.utf8EncodeChar c ++ r = String.utf8EncodeChar c' ++ r') : c = c' ∧ r = r' := by
  have hscan := congrArg (scan [] .start) h
  rw [scan_char, scan_char] at hscan
  obtain ⟨t, ht⟩ := prefix_scan [.char c] .start r
  obtain ⟨t', ht'⟩ := prefix_scan [.char c'] .start r'
  rw [← ht, ← ht'] at hscan
  obtain rfl : c = c' := Token.char.inj (List.cons.inj hscan).1
  exact ⟨rfl, List.append_cancel_left h⟩

end PhaseHost.Utf8
