import ApiSchema.Text.Basic
import ApiSchema.Decimal.Binary64

set_option autoImplicit false

namespace ApiSchema

/-- A numeral. `whole` and `fraction` hold digits; an empty fraction is not written. -/
structure Numeral where
  negative : Bool
  whole : Text
  fraction : Text
  exponent : Option Int
deriving DecidableEq, Repr

namespace Numeral

def ofInt (n : Int) : Numeral := ⟨n < 0, Text.ofNat n.natAbs, [], none⟩

/-- An exponent with the sign that it always shows. -/
def exponentText (n : Int) : Text :=
  'e' :: (if n < 0 then '-' else '+') :: Text.ofNat n.natAbs

def text (numeral : Numeral) : Text :=
  (if numeral.negative then ['-'] else []) ++ numeral.whole
    ++ (if numeral.fraction = [] then [] else '.' :: numeral.fraction)
    ++ (match numeral.exponent with
      | none => []
      | some n => exponentText n)

/-- Neither a fraction nor an exponent is written. -/
def isWhole (numeral : Numeral) : Bool := numeral.fraction.isEmpty && numeral.exponent.isNone

def digitValue (c : Char) : Nat := c.toNat - '0'.toNat

/-- The number that `start` becomes when the digits are written behind it. -/
def appendDigits (start : Nat) (digits : Text) : Nat :=
  digits.foldl (fun n c => n * 10 + digitValue c) start

def wholeValue (numeral : Numeral) : Nat := appendDigits 0 numeral.whole

/-- A quotient of digits and powers of ten, rounded once. -/
def nearest (numeral : Numeral) : Binary64 :=
  let digits := appendDigits numeral.wholeValue numeral.fraction
  let exponent := numeral.exponent.getD 0 - numeral.fraction.length
  if digits = 0 then .zero numeral.negative
  else if exponent > 400 then .infinite numeral.negative
  else if exponent < -(800 + numeral.whole.length + numeral.fraction.length : Int) then
    .zero numeral.negative
  else if exponent < 0 then .ofRatio numeral.negative digits (Nat.pow 10 exponent.natAbs)
  else .ofRatio numeral.negative (digits * Nat.pow 10 exponent.natAbs) 1

/-- The largest 64-bit word. -/
def wordLimit : Nat := UInt64.size - 1

/-- Appends digits to `start` up to the first that would pass the largest word, and gives the
result with the number of digits left out. -/
def appendFitting (start : Nat) : Text → Nat × Nat
  | [] => (start, 0)
  | c :: rest =>
    let next := start * 10 + digitValue c
    if next ≤ wordLimit then appendFitting next rest else (start, rest.length + 1)

/-- The units of the double nearest to `10 ^ n`. -/
def powerUnits (n : Nat) : Nat :=
  Binary64.units (Binary64.nearestCode (Nat.pow 10 n * Binary64.unitsPerOne) 1)

/-- Multiplies the magnitude with this code by a power of ten, up to `10 ^ 308`; none if the product
is no finite number. -/
def scaleUp? (negative : Bool) (code : Nat) (n : Nat) : Option Binary64 :=
  if code = 0 then some (.zero negative)
  else if n > 308 then none
  else
    match Binary64.ofRatio negative (Binary64.units code * powerUnits n)
        (Binary64.unitsPerOne * Binary64.unitsPerOne) with
    | .infinite _ => none
    | product => some product

/-- The code of the magnitude with this code divided by a power of ten, in steps of at most
`10 ^ 308`. -/
def scaleDown (code : Nat) (n : Nat) : Nat :=
  if n ≤ 308 ∨ code = 0 then
    Binary64.nearestCode (Binary64.units code * Binary64.unitsPerOne) (powerUnits (min n 308))
  else
    scaleDown (Binary64.nearestCode (Binary64.units code * Binary64.unitsPerOne) (powerUnits 308))
      (n - 308)
termination_by n

/-- The significand of at most 64 bits and the power of ten that it is scaled by. -/
def significand (numeral : Numeral) : Nat × Int :=
  let (head, dropped) := appendFitting 0 numeral.whole
  let (all, rest) := appendFitting head numeral.fraction
  (all, (dropped : Int) - (numeral.fraction.length - rest : Nat) + numeral.exponent.getD 0)

/-- The double of a JSON numeral; none if it is too large for one. -/
def scaled? (numeral : Numeral) : Option Binary64 :=
  let (digits, exponent) := numeral.significand
  let code := Binary64.nearestCode (digits * Binary64.unitsPerOne) 1
  if exponent < 0 then some (.ofCode numeral.negative (scaleDown code exponent.natAbs))
  else scaleUp? numeral.negative code exponent.natAbs

end Numeral

end ApiSchema
