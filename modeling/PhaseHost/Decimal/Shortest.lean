/-! # The fewest decimal digits that read back

    A binary64 number stands for every real number that rounds to it, an
    interval around it.  Its decimal text needs only as many digits as it takes
    for a point of a decimal grid to fall into that interval.

    All arithmetic is exact, over `Nat`:

    * `Binary` is the number `mantissa * 2 ^ exponent`;
    * `Grid` compares quarter units of the binary number with multiples of a
      power of ten, by cross multiplication;
    * `shortest` tries grids of 1, 2, … 17 digits and takes the first with a
      point inside.  If a grid has a point inside, one of the two neighbours of
      the number on that grid is inside, so only those are tried. -/

namespace PhaseHost.Decimal

/-- The positive number `mantissa * 2 ^ exponent`. -/
structure Binary where
  mantissa : Nat
  exponent : Int
  /-- The next smaller number is only half as far away as the next larger one. -/
  narrowBelow : Bool
  deriving DecidableEq, Repr

/-- The number `digits * 10 ^ exponent`. -/
structure Scaled where
  digits : Nat
  exponent : Int
  deriving DecidableEq, Repr

/-- The three fields of a binary64 number. -/
structure Parts where
  negative : Bool
  exponent : Nat
  fraction : Nat
  deriving DecidableEq, Repr

/-- Split the sixty-four bits. -/
def Parts.ofBits (bits : UInt64) : Parts where
  negative := decide (0x8000000000000000 ≤ bits.toNat)
  exponent := bits.toNat / 0x10000000000000 % 2048
  fraction := bits.toNat % 0x10000000000000

/-- The magnitude of a finite number; subnormal numbers have no hidden bit. -/
def Parts.magnitude (f : Parts) : Binary :=
  if f.exponent = 0 then ⟨f.fraction, -1074, false⟩
  else
    ⟨0x10000000000000 + f.fraction, (f.exponent : Int) - 1075,
      decide (f.fraction = 0 ∧ 1 < f.exponent)⟩

/-- The interval of a number in quarter units `2 ^ (exponent - 2)`. -/
def Binary.low (b : Binary) : Nat :=
  4 * b.mantissa - (if b.narrowBelow then 1 else 2)

/-- The upper end of the interval in quarter units. -/
def Binary.high (b : Binary) : Nat :=
  4 * b.mantissa + 2

/-- Multipliers under which `x` quarter units equal `d` steps of `10 ^ k` exactly
    when `x * binary = d * decimal`. -/
structure Grid where
  binary : Nat
  decimal : Nat
  deriving DecidableEq, Repr

/-- The grid of step `10 ^ k` for numbers with exponent `e`. -/
def Grid.of (e k : Int) : Grid where
  binary := Nat.pow 2 (e - 2).toNat * Nat.pow 10 (-k).toNat
  decimal := Nat.pow 2 (2 - e).toNat * Nat.pow 10 k.toNat

/-- Whether the number is at least `10 ^ k`. -/
def Binary.reaches (b : Binary) (k : Int) : Bool :=
  let g := Grid.of b.exponent k
  g.decimal ≤ 4 * b.mantissa * g.binary

/-- Move an estimate of the decimal order up while the next power is reached. -/
def Binary.orderFrom (b : Binary) : Nat → Int → Int
  | 0, p => p
  | n + 1, p => if b.reaches (p + 1) then b.orderFrom n (p + 1) else p

/-- The decimal order: `10 ^ order ≤ b < 10 ^ (order + 1)`.  The binary length
    gives it up to one, so two steps from just below suffice. -/
def Binary.order (b : Binary) : Int :=
  let bits : Int := (b.mantissa.log2 : Int) + b.exponent
  b.orderFrom 3 (Int.fdiv (bits * 30103) 100000 - 2)

/-- Whether the grid point `d` rounds to the number; the ends of the interval
    belong to it when the mantissa is even. -/
def Binary.holds (b : Binary) (g : Grid) (d : Nat) : Bool :=
  if b.mantissa % 2 = 0 then
    b.low * g.binary ≤ d * g.decimal && d * g.decimal ≤ b.high * g.binary
  else
    b.low * g.binary < d * g.decimal && d * g.decimal < b.high * g.binary

/-- The grid point that represents the number, if one does: of two the nearer,
    of two equally near the even one. -/
def Binary.pointOn? (b : Binary) (g : Grid) : Option Nat :=
  let here := 4 * b.mantissa * g.binary
  let below := here / g.decimal
  let above := below + 1
  match b.holds g below, b.holds g above with
  | true, true =>
    let down := here - below * g.decimal
    let up := above * g.decimal - here
    some (if down < up then below else if up < down then above
          else if below % 2 = 0 then below else above)
  | true, false => some below
  | false, true => some above
  | false, false => none

/-- Without zeros at the end of the digits; `n` bounds their number. -/
def Scaled.strip : Nat → Scaled → Scaled
  | 0, d => d
  | n + 1, d =>
    if d.digits % 10 = 0 then Scaled.strip n ⟨d.digits / 10, d.exponent + 1⟩ else d

/-- Try grids with ever more digits, of which `left` remain to be tried; `k` is the exponent of
    the current grid. -/
def Binary.shortestFrom (b : Binary) : Nat → Int → Scaled
  | 0, k => ⟨0, k⟩
  | left + 1, k =>
    match b.pointOn? (Grid.of b.exponent k) with
    | some d => Scaled.strip 20 ⟨d, k⟩
    | none => b.shortestFrom left (k - 1)

/-- The decimal with the fewest digits that reads back as the number, of those the nearest. -/
def Binary.shortest (b : Binary) : Scaled :=
  if b.mantissa = 0 then ⟨0, 0⟩ else b.shortestFrom 17 b.order

end PhaseHost.Decimal
