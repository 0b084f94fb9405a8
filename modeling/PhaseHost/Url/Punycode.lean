/-! # Punycode

    The one ASCII form of a label with other characters: its ASCII characters,
    and then the others in ascending order, each as the distance from the one
    before in base thirty-six with digits of varying weight. -/

namespace PhaseHost.Punycode

/-- A digit of base thirty-six. -/
def digitChar (d : Nat) : Char :=
  if d < 26 then Char.ofNat (97 + d) else Char.ofNat (48 + d - 26)

/-- The threshold of the digit at a position under a bias. -/
def threshold (k bias : Nat) : Nat :=
  if k ≤ bias then 1 else if bias + 26 ≤ k then 26 else k - bias

theorem threshold_pos (k bias : Nat) : 1 ≤ threshold k bias := by
  unfold threshold
  split
  · omega
  · split <;> omega

theorem threshold_le (k bias : Nat) : threshold k bias ≤ 26 := by
  unfold threshold
  split
  · omega
  · split <;> omega

/-- Divide a distance down to the range of one digit: what is left and the weight passed. -/
def scaleDown (delta k : Nat) : Nat × Nat :=
  if 455 < delta then scaleDown (delta / 35) (k + 36) else (delta, k)
termination_by delta
decreasing_by exact Nat.div_lt_self (by omega) (by omega)

/-- The bias after a distance was written. -/
def adapt (delta points : Nat) (isFirst : Bool) : Nat :=
  let halved := if isFirst then delta / 700 else delta / 2
  let (rest, k) := scaleDown (halved + halved / points) 0
  k + 36 * rest / (rest + 38)

/-- The digits of a distance. -/
def encodeDigits (bias k q : Nat) : List Char :=
  let t := threshold k bias
  if q < t then [digitChar q]
  else digitChar (t + (q - t) % (36 - t)) :: encodeDigits bias (k + 36) ((q - t) / (36 - t))
termination_by q
decreasing_by
  have h1 := threshold_pos k bias
  have h2 := threshold_le k bias
  have h3 : (q - threshold k bias) / (36 - threshold k bias) ≤ q - threshold k bias :=
    Nat.div_le_self _ _
  omega

/-- What has been written, and the place reached. -/
structure Progress where
  delta : Nat
  bias : Nat
  handled : Nat
  output : List Char

/-- Pass over the characters of a label for one code point, and write a distance
    for each place where it stands. -/
def writePoint (basic point : Nat) (s : List Char) (p : Progress) : Progress :=
  s.foldl (fun p c =>
    if c.toNat < point then { p with delta := p.delta + 1 }
    else if c.toNat = point then
      { delta := 0
        bias := adapt p.delta (p.handled + 1) (p.handled = basic)
        handled := p.handled + 1
        output := p.output ++ encodeDigits p.bias 36 p.delta }
    else p) p

/-- Write the code points that are not ASCII, in ascending order. -/
def writePoints (basic previous : Nat) (s : List Char) : List Nat → Progress → Progress
  | [], p => p
  | point :: rest, p =>
    let start := { p with delta := p.delta + (point - previous) * (p.handled + 1) }
    let p := writePoint basic point s start
    writePoints basic (point + 1) s rest { p with delta := p.delta + 1 }

/-- The code points of a label that are not ASCII, in ascending order, each once. -/
def pointsOf (s : List Char) : List Nat :=
  ((s.map Char.toNat).filter (128 ≤ ·)).mergeSort.eraseDups

/-- The ASCII form of a label with other characters. -/
def encode (s : List Char) : List Char :=
  let basic := s.filter (fun c => c.toNat < 128)
  let start := if basic.isEmpty then [] else basic ++ ['-']
  (writePoints basic.length 128 s (pointsOf s) ⟨0, 72, basic.length, start⟩).output

end PhaseHost.Punycode
