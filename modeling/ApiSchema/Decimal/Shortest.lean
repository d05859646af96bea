import ApiSchema.Decimal.Numeral

set_option autoImplicit false

namespace ApiSchema.Decimal

/-- The scale on which grid points, magnitudes and midpoints are all whole: twice the units of a
magnitude, times a power of ten for grids finer than one. -/
def gridScale (power : Int) : Nat × Nat :=
  if power < 0 then (Nat.pow 10 power.natAbs, Binary64.unitsPerOne * 2)
  else (1, Nat.pow 10 power.natAbs * (Binary64.unitsPerOne * 2))

/-- The multiple of `10 ^ power` nearest to the magnitude with this code, among those in its
interval. -/
def gridPoint? (code : Nat) (power : Int) : Option Nat :=
  let (scale, width) := gridScale power
  let value := 2 * Binary64.units code * scale
  let least := (Binary64.units (code - 1) + Binary64.units code) * scale
  let greatest := (Binary64.units code + Binary64.units (code + 1)) * scale
  let inside (multiple : Nat) : Bool :=
    let point := multiple * width
    (least < point && point < greatest)
      || (code % 2 = 0 && (least = point || point = greatest))
  let below := value / width
  let lowGap := value - below * width
  let highGap := (below + 1) * width - value
  match inside below, inside (below + 1) with
  | false, false => none
  | true, false => some below
  | false, true => some (below + 1)
  | true, true =>
    if lowGap < highGap then some below
    else if highGap < lowGap then some (below + 1)
    else some (below + below % 2)

/-- The grids from coarse to fine, by their powers of ten. -/
def gridPowers : List Int := (List.range 660).map fun (i : Nat) => 310 - (i : Int)

/-- The shortest digits of a magnitude other than zero, with the power of ten of the last digit. -/
def shortest (code : Nat) : Nat × Int :=
  (gridPowers.findSome? fun power => (gridPoint? code power).map (·, power)).getD (0, 0)

/-- Where numbers are written without an exponent: from `10 ^ least` up to below
`10 ^ (greatest + 1)`. -/
structure Layout where
  least : Int
  greatest : Int

/-- The numeral of the digits of `n`, the last of which counts `10 ^ power`. There is always a digit
on each side of a decimal point that is written. -/
def Layout.numeral (layout : Layout) (negative : Bool) (n : Nat) (power : Int) : Numeral :=
  let digits := Text.ofNat n
  let leading := power + digits.length - 1
  if layout.least ≤ leading ∧ leading ≤ layout.greatest then
    if 0 ≤ power then ⟨negative, digits ++ List.replicate power.natAbs '0', ['0'], none⟩
    else if 0 ≤ leading then
      ⟨negative, digits.take (leading.natAbs + 1), digits.drop (leading.natAbs + 1), none⟩
    else ⟨negative, ['0'], List.replicate (leading.natAbs - 1) '0' ++ digits, none⟩
  else ⟨negative, digits.take 1, digits.drop 1, some leading⟩

/-- The numeral of a finite double; the others have none. -/
def Layout.ofBinary64? (layout : Layout) : Binary64 → Option Numeral
  | .finite negative code =>
    if code.val = 0 then some ⟨negative, ['0'], ['0'], none⟩
    else
      let (n, power) := shortest code.val
      some (layout.numeral negative n power)
  | _ => none

end ApiSchema.Decimal
