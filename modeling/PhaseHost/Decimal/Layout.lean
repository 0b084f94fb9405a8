import PhaseHost.Decimal.Shortest

/-! # How a decimal is laid out

    The digits of a number are one thing, where the point goes another.  A
    `Layout` says between which decimal orders a number is written
    positionally, and how it is written beyond them. -/

namespace PhaseHost.Decimal

/-- The decisions of a number format. -/
structure Layout where
  /-- The least and the greatest decimal order written positionally. -/
  plainFrom : Int
  plainTo : Int
  /-- What follows the digits of a whole number written positionally. -/
  wholeEnd : List Char
  /-- What stands before a non-negative exponent. -/
  plus : List Char
  deriving DecidableEq, Repr

/-- The digits of a natural number in base ten. -/
def digitChars (n : Nat) : List Char :=
  Nat.toDigits 10 n

/-- The text of a decimal under a layout. -/
def Layout.write (l : Layout) (d : Scaled) : List Char :=
  let ds := digitChars d.digits
  let order : Int := d.exponent + ds.length - 1
  if l.plainFrom ≤ order ∧ order ≤ l.plainTo then
    if order < 0 then
      '0' :: '.' :: (List.replicate (-order - 1).toNat '0' ++ ds)
    else
      let whole := order.toNat + 1
      if ds.length ≤ whole then
        ds ++ List.replicate (whole - ds.length) '0' ++ l.wholeEnd
      else
        ds.take whole ++ '.' :: ds.drop whole
  else
    let mantissa := match ds with
      | [] => []
      | [c] => [c]
      | c :: rest => c :: '.' :: rest
    let exponent := if order < 0 then '-' :: digitChars order.natAbs
      else l.plus ++ digitChars order.natAbs
    mantissa ++ 'e' :: exponent

end PhaseHost.Decimal
