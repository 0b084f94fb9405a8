import Mathlib.Algebra.Order.Field.Power
import Mathlib.Algebra.Order.Ring.Rat
import Mathlib.Tactic.Linarith
import Mathlib.Tactic.NormNum
import Mathlib.Tactic.Positivity
import Mathlib.Tactic.Ring
import PhaseHost.Decimal.Shortest

/-! # Every positive number has digits

    The search for the fewest digits tries grids of 1, 2, … 17 digits and would come back
    with nothing if none of them had a point in the interval of the number.  It never does:
    a grid of seventeen digits is finer than the interval of any number of binary64.

    The search works on naturals by cross multiplication.  What its comparisons mean is said
    over the rationals, where a binary number has a value. -/

namespace PhaseHost.Decimal

/-- The positive numbers of binary64. -/
structure Binary.Positive (b : Binary) : Prop where
  positive : 0 < b.mantissa
  small : b.mantissa < 2 ^ 53
  narrow : b.narrowBelow = true → b.mantissa = 2 ^ 52
  low : -1074 ≤ b.exponent
  high : b.exponent ≤ 971

/-- The value of a number. -/
def Binary.value (b : Binary) : ℚ :=
  b.mantissa * 2 ^ b.exponent

variable {b : Binary} {e k p : Int} {d : Nat} {g : Grid}

/-! ## Grids -/

/-- A power with a whole exponent, by the two natural ones that it is a quotient of. -/
theorem zpow_toNat {a : ℚ} (ha : a ≠ 0) (x : Int) : a ^ x.toNat = a ^ x * a ^ (-x).toNat := by
  rw [← zpow_natCast, ← zpow_natCast, ← zpow_add₀ ha]
  congr 1
  omega

/-- Steps of a grid against quarter units. -/
theorem Grid.cross (e k : Int) :
    ((Grid.of e k).decimal : ℚ) * 2 ^ (e - 2) = (Grid.of e k).binary * 10 ^ k := by
  have htwo := zpow_toNat (two_ne_zero : (2 : ℚ) ≠ 0) (e - 2)
  have hten := zpow_toNat (by norm_num : (10 : ℚ) ≠ 0) k
  rw [neg_sub] at htwo
  simp only [Grid.of, Nat.pow_eq, Nat.cast_mul, Nat.cast_pow, Nat.cast_ofNat]
  rw [htwo, hten]
  ring

theorem Grid.binary_pos (e k : Int) : 0 < (Grid.of e k).binary :=
  Nat.mul_pos (Nat.pow_pos (by decide)) (Nat.pow_pos (by decide))

theorem Grid.decimal_pos (e k : Int) : 0 < (Grid.of e k).decimal :=
  Nat.mul_pos (Nat.pow_pos (by decide)) (Nat.pow_pos (by decide))

/-- A number in quarter units. -/
theorem Binary.value_eq (b : Binary) : b.value = 4 * b.mantissa * 2 ^ (b.exponent - 2) := by
  rw [value, zpow_sub₀ two_ne_zero]
  norm_num
  ring

/-- What is reached is what the number is not less than. -/
theorem Binary.reaches_iff : b.reaches k = true ↔ 10 ^ k ≤ b.value := by
  have hbinary : (0 : ℚ) < (Grid.of b.exponent k).binary :=
    Nat.cast_pos.mpr (Grid.binary_pos b.exponent k)
  have hunit : (0 : ℚ) < 2 ^ (b.exponent - 2) := by positivity
  have hcross := Grid.cross b.exponent k
  rw [reaches, decide_eq_true_eq, value_eq]
  constructor
  · intro h
    have hle : ((Grid.of b.exponent k).decimal : ℚ)
        ≤ 4 * b.mantissa * (Grid.of b.exponent k).binary := by exact_mod_cast h
    have hscaled := mul_le_mul_of_nonneg_right hle hunit.le
    rw [hcross] at hscaled
    refine le_of_mul_le_mul_left ?_ hbinary
    linarith
  · intro h
    have hscaled := mul_le_mul_of_nonneg_left h hbinary.le
    rw [← hcross] at hscaled
    have hle : ((Grid.of b.exponent k).decimal : ℚ)
        ≤ 4 * b.mantissa * (Grid.of b.exponent k).binary := by
      refine le_of_mul_le_mul_right ?_ hunit
      linarith
    exact_mod_cast hle

/-! ## The decimal order -/

/-- A power of ten is not more than a power of two with at least 10/3 of its exponent; below
    one, where powers get smaller, 93/28 will do. -/
theorem ten_zpow_le_two_zpow {p n : Int} (hup : 10 * p ≤ 3 * n) (hdown : p < 0 → 93 * p ≤ 28 * n) :
    (10 : ℚ) ^ p ≤ 2 ^ n := by
  have hpower : ∀ (a : ℚ) (m : Int) (j : Nat), (a ^ m) ^ j = (a ^ j) ^ m := by
    intro a m j
    rw [← zpow_natCast, ← zpow_natCast, ← zpow_mul, ← zpow_mul, mul_comm]
  -- the two estimates are 2 ^ 93 < 10 ^ 28 below one and 10 ^ 3 < 2 ^ 10 above
  rcases lt_or_ge p 0 with hp | hp
  · have hinv : ((2 : ℚ) ^ (-n)) ^ 28 ≤ ((10 : ℚ) ^ (-p)) ^ 28 := by
      calc ((2 : ℚ) ^ (-n)) ^ 28 = 2 ^ (28 * -n) := by
            rw [← zpow_natCast, ← zpow_mul, mul_comm]
            norm_num
        _ ≤ 2 ^ (93 * -p) := zpow_le_zpow_right₀ one_le_two (by have := hdown hp; omega)
        _ = (2 ^ 93) ^ (-p) := by rw [zpow_mul]; norm_cast
        _ ≤ (10 ^ 28) ^ (-p) := zpow_le_zpow_left₀ (by omega) (by norm_num) (by norm_num)
        _ = (10 ^ (-p)) ^ 28 := (hpower 10 (-p) 28).symm
    have hle := (pow_le_pow_iff_left₀ (by positivity) (by positivity) (by decide)).mp hinv
    rw [zpow_neg, zpow_neg] at hle
    exact (inv_le_inv₀ (by positivity) (by positivity)).mp hle
  · have hcube : ((10 : ℚ) ^ p) ^ 3 ≤ ((2 : ℚ) ^ n) ^ 3 := by
      calc ((10 : ℚ) ^ p) ^ 3 = (10 ^ 3) ^ p := hpower 10 p 3
        _ ≤ (2 ^ 10) ^ p := zpow_le_zpow_left₀ hp (by norm_num) (by norm_num)
        _ = 2 ^ (10 * p) := by rw [zpow_mul]; norm_cast
        _ ≤ 2 ^ (3 * n) := zpow_le_zpow_right₀ one_le_two hup
        _ = (2 ^ n) ^ 3 := by
            rw [← zpow_natCast, ← zpow_mul, mul_comm]
            norm_num
    exact (pow_le_pow_iff_left₀ (by positivity) (by positivity) (by decide)).mp hcube

/-- The leading digit of a number is no more than the number. -/
theorem two_zpow_log2_le (h : b.Positive) :
    (2 : ℚ) ^ ((b.mantissa.log2 : Int) + b.exponent) ≤ b.value := by
  have hlog : (2 : ℚ) ^ b.mantissa.log2 ≤ b.mantissa := by
    exact_mod_cast Nat.log2_self_le (Nat.ne_of_gt h.positive)
  rw [zpow_add₀ two_ne_zero, zpow_natCast, Binary.value]
  exact mul_le_mul_of_nonneg_right hlog (by positivity)

/-- The order that is found is reached if the one that the search starts from is. -/
theorem reaches_orderFrom (h : b.reaches p = true) (n : Nat) :
    b.reaches (b.orderFrom n p) = true := by
  induction n generalizing p with
  | zero => exact h
  | succ n ih =>
      rw [Binary.orderFrom]
      split
      · next hnext => exact ih hnext
      · exact h

/-- The order of a number is not beyond the number: the estimate it starts from is not. -/
theorem reaches_order (h : b.Positive) : b.reaches b.order = true := by
  refine reaches_orderFrom (Binary.reaches_iff.mpr (le_trans ?_ (two_zpow_log2_le h))) 3
  have hbits : b.mantissa.log2 < 53 := (Nat.log2_lt (Nat.ne_of_gt h.positive)).mpr h.small
  have hlow := h.low
  have hhigh := h.high
  rw [Int.fdiv_eq_ediv_of_nonneg _ (by decide)]
  apply ten_zpow_le_two_zpow
  · omega
  · omega

/-! ## The finest grid -/

/-- A number is at least `10 ^ 16` steps of the grid with seventeen digits. -/
theorem steps_le_quarters (h : b.Positive) :
    10000000000000000 * (Grid.of b.exponent (b.order - 16)).decimal
      ≤ 4 * b.mantissa * (Grid.of b.exponent (b.order - 16)).binary := by
  have hreaches := Binary.reaches_iff.mp (reaches_order h)
  have hcross := Grid.cross b.exponent (b.order - 16)
  generalize Grid.of b.exponent (b.order - 16) = g at hcross ⊢
  have hunit : (0 : ℚ) < 2 ^ (b.exponent - 2) := by positivity
  have hten : (10 : ℚ) ^ b.order = 10000000000000000 * 10 ^ (b.order - 16) := by
    rw [zpow_sub₀ (by norm_num)]
    norm_num
    ring
  have hle : (10000000000000000 * g.decimal : ℚ) ≤ 4 * b.mantissa * g.binary := by
    refine le_of_mul_le_mul_right ?_ hunit
    calc (10000000000000000 * g.decimal : ℚ) * 2 ^ (b.exponent - 2)
        = g.binary * (10000000000000000 * 10 ^ (b.order - 16)) := by rw [mul_assoc, hcross]; ring
      _ ≤ g.binary * b.value := mul_le_mul_of_nonneg_left (hten ▸ hreaches) (by positivity)
      _ = 4 * b.mantissa * g.binary * 2 ^ (b.exponent - 2) := by rw [Binary.value_eq]; ring
  exact_mod_cast hle

/-- A point that is found on a grid lies in the interval. -/
theorem holds_of_pointOn? (h : b.pointOn? g = some d) : b.holds g d = true := by
  simp only [Binary.pointOn?] at h
  split at h
  · next hbelow habove =>
      split at h
      · cases h
        exact hbelow
      · split at h
        · cases h
          exact habove
        · split at h
          · cases h
            exact hbelow
          · cases h
            exact habove
  · next hbelow habove =>
      cases h
      exact hbelow
  · next hbelow habove =>
      cases h
      exact habove
  · cases h

/-- Where none is found, neither neighbour of the number lies in it. -/
theorem not_holds_of_none (h : b.pointOn? g = none) :
    b.holds g (4 * b.mantissa * g.binary / g.decimal) = false
      ∧ b.holds g (4 * b.mantissa * g.binary / g.decimal + 1) = false := by
  simp only [Binary.pointOn?] at h
  split at h
  · cases h
  · cases h
  · cases h
  · next hbelow habove => exact ⟨hbelow, habove⟩

/-- Zero is in the interval of no positive number. -/
theorem ne_zero_of_holds (hb : b.Positive) (hg : 0 < g.binary) (h : b.holds g d = true) :
    d ≠ 0 := by
  rintro rfl
  have hlow : 0 < b.low * g.binary := by
    refine Nat.mul_pos ?_ hg
    have hpos := hb.positive
    rw [Binary.low]
    split
    · omega
    · omega
  rw [Binary.holds, Nat.zero_mul] at h
  split at h
  · rw [Bool.and_eq_true, decide_eq_true_eq] at h
    omega
  · rw [Bool.and_eq_true, decide_eq_true_eq] at h
    omega

/-- What is not in the interval is beyond one of its ends, or at it. -/
theorem beyond_of_not_holds (h : b.holds g d = false) :
    d * g.decimal ≤ b.low * g.binary ∨ b.high * g.binary ≤ d * g.decimal := by
  rw [Binary.holds] at h
  split at h
  · rw [Bool.and_eq_false_iff, decide_eq_false_iff_not, decide_eq_false_iff_not] at h
    omega
  · rw [Bool.and_eq_false_iff, decide_eq_false_iff_not, decide_eq_false_iff_not] at h
    omega

/-- The interval of a number is wider than a step of a grid with seventeen digits. -/
theorem step_lt_interval (hb : b.Positive)
    (hfine : 10000000000000000 * g.decimal ≤ 4 * b.mantissa * g.binary) (hg : 0 < g.binary) :
    b.low * g.binary + g.decimal < b.high * g.binary := by
  have hpos := hb.positive
  have hquarters : 4 * b.mantissa * g.binary = 4 * (b.mantissa * g.binary) := Nat.mul_assoc ..
  have hhigh : b.high * g.binary = 4 * (b.mantissa * g.binary) + 2 * g.binary := by
    rw [Binary.high, Nat.add_mul, Nat.mul_assoc]
  rw [hhigh]
  -- the interval has three quarter units at a power of two, and four otherwise
  by_cases hn : b.narrowBelow = true
  · have hlow : b.low * g.binary + g.binary = 4 * (b.mantissa * g.binary) := by
      rw [Binary.low, if_pos hn, ← Nat.succ_mul, ← hquarters]
      congr 1
      omega
    have hmantissa : b.mantissa * g.binary = 2 ^ 52 * g.binary := by rw [hb.narrow hn]
    omega
  · have hlow : b.low * g.binary + 2 * g.binary = 4 * (b.mantissa * g.binary) := by
      rw [Binary.low, if_neg hn, ← Nat.add_mul, ← hquarters]
      congr 1
      omega
    have hmantissa : b.mantissa * g.binary < 2 ^ 53 * g.binary :=
      Nat.mul_lt_mul_of_pos_right hb.small hg
    omega

/-- One of the two neighbours of a number is in its interval, if the grid is fine enough. -/
theorem isSome_pointOn? (hb : b.Positive)
    (hfine : 10000000000000000 * g.decimal ≤ 4 * b.mantissa * g.binary) (hg : 0 < g.binary)
    (hd : 0 < g.decimal) : (b.pointOn? g).isSome = true := by
  cases hpoint : b.pointOn? g with
  | some d => rfl
  | none =>
      obtain ⟨hbelow, habove⟩ := not_holds_of_none hpoint
      have hwide := step_lt_interval hb hfine hg
      -- the number itself is inside, between its neighbours
      have hdown := Nat.div_mul_le_self (4 * b.mantissa * g.binary) g.decimal
      have hup := Nat.lt_div_mul_add hd (a := 4 * b.mantissa * g.binary)
      have hlow : b.low * g.binary ≤ 4 * b.mantissa * g.binary :=
        Nat.mul_le_mul_right _ (Nat.sub_le _ _)
      have hhigh : 4 * b.mantissa * g.binary < b.high * g.binary :=
        Nat.mul_lt_mul_of_pos_right (by rw [Binary.high]; omega) hg
      have hbelow := beyond_of_not_holds hbelow
      have habove := beyond_of_not_holds habove
      rw [Nat.succ_mul] at habove
      omega

/-! ## The search -/

/-- Stripping zeros makes no number zero. -/
theorem digits_strip (n : Nat) {s : Scaled} (h : s.digits ≠ 0) : (s.strip n).digits ≠ 0 := by
  induction n generalizing s with
  | zero => exact h
  | succ n ih =>
      rw [Scaled.strip]
      split
      · refine ih ?_
        show s.digits / 10 ≠ 0
        omega
      · exact h

/-- A search that comes to a grid with a point comes back with digits. -/
theorem digits_shortestFrom (hb : b.Positive) {left : Nat} :
    ∀ {k : Int}, (∃ j : Nat, j < left ∧ (b.pointOn? (Grid.of b.exponent (k - j))).isSome = true) →
      (b.shortestFrom left k).digits ≠ 0 := by
  induction left with
  | zero =>
      rintro k ⟨j, hj, -⟩
      exact absurd hj (Nat.not_lt_zero j)
  | succ left ih =>
      rintro k ⟨j, hj, hsome⟩
      rw [Binary.shortestFrom]
      cases hpoint : b.pointOn? (Grid.of b.exponent k) with
      | some d =>
          have hd := ne_zero_of_holds hb (Grid.binary_pos b.exponent k) (holds_of_pointOn? hpoint)
          exact digits_strip 20 hd
      | none =>
          cases j with
          | zero =>
              rw [Int.natCast_zero, Int.sub_zero, hpoint] at hsome
              cases hsome
          | succ j =>
              refine ih ⟨j, Nat.lt_of_succ_lt_succ hj, ?_⟩
              have hgrid : k - 1 - (j : Int) = k - ((j + 1 : Nat) : Int) := by omega
              rw [hgrid]
              exact hsome

/-- **EVERY POSITIVE NUMBER HAS DIGITS**: seventeen suffice for each number of binary64. -/
theorem digits_shortest (hb : b.Positive) : b.shortest.digits ≠ 0 := by
  rw [Binary.shortest, if_neg (Nat.ne_of_gt hb.positive)]
  refine digits_shortestFrom hb ⟨16, by decide, ?_⟩
  exact isSome_pointOn? hb (steps_le_quarters hb) (Grid.binary_pos _ _) (Grid.decimal_pos _ _)

/-! ## The bits of a number -/

/-- The magnitude of a finite number other than zero. -/
theorem positive_magnitude {bits : UInt64} (hfinite : (Parts.ofBits bits).exponent ≠ 2047)
    (hpos : (Parts.ofBits bits).magnitude.mantissa ≠ 0) :
    (Parts.ofBits bits).magnitude.Positive := by
  have hfraction : (Parts.ofBits bits).fraction < 2 ^ 52 := Nat.mod_lt _ (by decide)
  have hexponent : (Parts.ofBits bits).exponent < 2048 := Nat.mod_lt _ (by decide)
  generalize Parts.ofBits bits = f at hfinite hpos hfraction hexponent ⊢
  rw [Parts.magnitude] at hpos ⊢
  split at hpos
  · next hzero =>
      rw [if_pos hzero]
      exact ⟨Nat.pos_of_ne_zero hpos, by simp only; omega, nofun, Int.le_refl _,
        show (-1074 : Int) ≤ 971 by decide⟩
  · next hzero =>
      rw [if_neg hzero]
      refine ⟨Nat.pos_of_ne_zero hpos, ?_, ?_, ?_, ?_⟩
      · simp only
        omega
      · intro hnarrow
        have hboth := of_decide_eq_true hnarrow
        simp only [hboth.1]
        rfl
      · simp only
        omega
      · simp only
        omega

end PhaseHost.Decimal
