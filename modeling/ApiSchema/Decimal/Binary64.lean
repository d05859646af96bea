set_option autoImplicit false

namespace ApiSchema

/-- The number of magnitudes in a binade. -/
def binade : Nat := Nat.pow 2 52

/-- The number of finite magnitudes, in 2047 binades. -/
def magnitudes : Nat := 2047 * binade

/-- A double: a signed finite magnitude, an infinity, or no number. -/
inductive Binary64
  | finite (negative : Bool) (code : Fin magnitudes)
  | infinite (negative : Bool)
  | nan
deriving DecidableEq, Repr

namespace Binary64

/-- How many times `2 ^ -1074` the magnitude with this code is. -/
def units (code : Nat) : Nat :=
  if code < binade then code
  else (binade + code % binade) * Nat.pow 2 (code / binade - 1)

/-- The smallest unit as a denominator: a magnitude is `units code / unitsPerOne`. -/
def unitsPerOne : Nat := Nat.pow 2 1074

/-- The code nearest to `num / den` units. -/
def nearestCode (num den : Nat) : Nat :=
  let whole := num / den
  let shift := Nat.log2 whole - 52
  let stride := Nat.pow 2 shift
  let below := whole / stride + shift * binade
  let step := stride * den
  let excess := 2 * (num - whole / stride * step)
  if excess < step then below
  else if step < excess then below + 1
  else below + below % 2

/-- The double with this sign and code; codes past the last are infinite. -/
def ofCode (negative : Bool) (code : Nat) : Binary64 :=
  if h : code < magnitudes then .finite negative ⟨code, h⟩ else .infinite negative

/-- The double nearest to the quotient `num / den`. -/
def ofRatio (negative : Bool) (num den : Nat) : Binary64 :=
  ofCode negative (nearestCode (num * unitsPerOne) den)

/-- The double nearest to a natural number. -/
def ofNat (negative : Bool) (n : Nat) : Binary64 := ofRatio negative n 1

def zero (negative : Bool) : Binary64 := .finite negative ⟨0, by decide⟩

def isFinite : Binary64 → Bool
  | finite .. => true
  | _ => false

end Binary64

end ApiSchema
